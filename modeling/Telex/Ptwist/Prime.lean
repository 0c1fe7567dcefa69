import Telex.Ptwist.Felem
import Telex.Lib.Lucas

/-! The primes of `tag/ptwist168.cpp`

    The modulus `p` and the orders of the two curves over it, each with a Lucas certificate; the
    factors of `n - 1` that are too large for trial division have certificates of their own. -/

namespace Telex.Ptwist

theorem prime_3934029157 : Nat.Prime 3934029157 :=
  Lucas.prime_of_checks 4 6 [2, 2, 3, 47, 6975229] (by decide)
    ⟨by norm_num, by norm_num, by norm_num, by norm_num, by norm_num⟩

theorem prime_354062624131 : Nat.Prime 354062624131 :=
  Lucas.prime_of_checks 5 2 [2, 3, 3, 5, 3934029157] (by decide)
    ⟨by norm_num, by norm_num, by norm_num, by norm_num, prime_3934029157⟩

theorem prime_34824947 : Nat.Prime 34824947 :=
  Lucas.prime_of_checks 4 5 [2, 13, 229, 5849] (by decide)
    ⟨by norm_num, by norm_num, by norm_num, by norm_num⟩

theorem prime_15324239899 : Nat.Prime 15324239899 :=
  Lucas.prime_of_checks 5 10 [2, 3, 3, 11, 19, 19, 214391] (by decide)
    ⟨by norm_num, by norm_num, by norm_num, by norm_num, by norm_num, by norm_num, by norm_num⟩

theorem prime_61296959597 : Nat.Prime 61296959597 :=
  Lucas.prime_of_checks 5 2 [2, 2, 15324239899] (by decide)
    ⟨by norm_num, by norm_num, prime_15324239899⟩

theorem prime_367781757583 : Nat.Prime 367781757583 :=
  Lucas.prime_of_checks 5 3 [2, 3, 61296959597] (by decide)
    ⟨by norm_num, by norm_num, prime_61296959597⟩

theorem prime_796408944835756999689534883 : Nat.Prime 796408944835756999689534883 :=
  Lucas.prime_of_checks 12 2 [2, 3, 41, 252767, 34824947, 367781757583] (by decide)
    ⟨by norm_num, by norm_num, by norm_num, by norm_num, prime_34824947, prime_367781757583⟩

theorem prime_381242554710766547265379727561867 : Nat.Prime 381242554710766547265379727561867 :=
  Lucas.prime_of_checks 14 5 [2, 7, 31, 1103, 796408944835756999689534883] (by decide)
    ⟨by norm_num, by norm_num, by norm_num, by norm_num, prime_796408944835756999689534883⟩

/-- The number of points of the main curve. -/
def mainOrder : ℕ := 374144419156711147060143343079555958890598677719703

/-- The number of points of the twist. -/
def twistOrder : ℕ := 374144419156711147060143291271180947173238784283497

/-- The modulus is prime. -/
theorem p_prime : p.Prime :=
  Lucas.prime_of_checks 21 19 [2, 1385887, 354062624131, 381242554710766547265379727561867]
    (by decide)
    ⟨by norm_num, by norm_num, prime_354062624131, prime_381242554710766547265379727561867⟩

theorem prime_2073350628317 : Nat.Prime 2073350628317 :=
  Lucas.prime_of_checks 6 2 [2, 2, 11, 23, 37, 83, 179, 3727] (by decide)
    ⟨by norm_num, by norm_num, by norm_num, by norm_num, by norm_num, by norm_num, by norm_num,
      by norm_num⟩

theorem prime_17552986419331723 : Nat.Prime 17552986419331723 :=
  Lucas.prime_of_checks 7 12 [2, 3, 17, 83, 2073350628317] (by decide)
    ⟨by norm_num, by norm_num, by norm_num, by norm_num, prime_2073350628317⟩

theorem prime_880352480875163235343 : Nat.Prime 880352480875163235343 :=
  Lucas.prime_of_checks 9 3 [2, 3, 13, 643, 17552986419331723] (by decide)
    ⟨by norm_num, by norm_num, by norm_num, by norm_num, prime_17552986419331723⟩

theorem prime_7111499287846391 : Nat.Prime 7111499287846391 :=
  Lucas.prime_of_checks 7 7 [2, 5, 6827, 93913, 1109189] (by decide)
    ⟨by norm_num, by norm_num, by norm_num, by norm_num, by norm_num⟩

theorem prime_151062467872433037623 : Nat.Prime 151062467872433037623 :=
  Lucas.prime_of_checks 9 5 [2, 13, 19, 43, 7111499287846391] (by decide)
    ⟨by norm_num, by norm_num, by norm_num, by norm_num, prime_7111499287846391⟩

theorem prime_10463190774716201917919473 : Nat.Prime 10463190774716201917919473 :=
  Lucas.prime_of_checks 11 7 [2, 2, 2, 2, 3, 3, 13, 37, 151062467872433037623] (by decide)
    ⟨by norm_num, by norm_num, by norm_num, by norm_num, by norm_num, by norm_num, by norm_num,
      by norm_num, prime_151062467872433037623⟩

/-- The order of the main curve is prime. -/
theorem mainOrder_prime : mainOrder.Prime :=
  Lucas.prime_of_checks 22 5 [2, 23, 883, 880352480875163235343, 10463190774716201917919473]
    (by decide)
    ⟨by norm_num, by norm_num, by norm_num, prime_880352480875163235343,
      prime_10463190774716201917919473⟩

theorem prime_187246663 : Nat.Prime 187246663 :=
  Lucas.prime_of_checks 4 3 [2, 3, 199, 156823] (by decide)
    ⟨by norm_num, by norm_num, by norm_num, by norm_num⟩

theorem prime_7489866521 : Nat.Prime 7489866521 :=
  Lucas.prime_of_checks 5 3 [2, 2, 2, 5, 187246663] (by decide)
    ⟨by norm_num, by norm_num, by norm_num, by norm_num, prime_187246663⟩

theorem prime_5498903263122803639152573681 : Nat.Prime 5498903263122803639152573681 :=
  Lucas.prime_of_checks 12 19 [2, 2, 2, 2, 3, 5, 7, 11, 17, 128351, 187477, 450101, 1616099]
    (by decide)
    ⟨by norm_num, by norm_num, by norm_num, by norm_num, by norm_num, by norm_num, by norm_num,
      by norm_num, by norm_num, by norm_num, by norm_num, by norm_num, by norm_num⟩

/-- The order of the twist is prime. -/
theorem twistOrder_prime : twistOrder.Prime :=
  Lucas.prime_of_checks 21 5 [2, 2, 2, 3, 17, 19, 421, 2783513, 7489866521,
    5498903263122803639152573681] (by decide)
    ⟨by norm_num, by norm_num, by norm_num, by norm_num, by norm_num, by norm_num, by norm_num,
      by norm_num, prime_7489866521, prime_5498903263122803639152573681⟩

instance : Fact p.Prime := ⟨p_prime⟩

end Telex.Ptwist
