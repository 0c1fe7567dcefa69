import Telex.Lib.Residue
import Telex.Ptwist.Point
import Mathlib.GroupTheory.Perm.Cycle.Type

/-! The curve of `tag/ptwist168.cpp` and its twist

    Both groups have prime order, so every finite point generates its group and none of its first
    fifteen multiples is at infinity. The order of the main curve is that of its base point; the
    twist has a point of order `twistOrder`, and twice as many points would need a point of order
    two, which the main curve would then have as well. -/

namespace Telex.Ptwist
open WeierstrassCurve

/-- `b` of `ptwist_pointmul`. -/
def b : Felem := ⟨0x46d320e01dc7d6#64, 0x486ebc69bad316#64, 0x4e355e95cafedd#64⟩

/-- The constant coefficient of the main curve. -/
def bCoeff : ZMod p := (b.val : ZMod p)

/-- The main curve `y² = x³ - 3x + b`. -/
abbrev E : Affine (ZMod p) := Jac.curve bCoeff

/-- The twist `y² = x³ - 3x - b`. -/
abbrev E' : Affine (ZMod p) := Jac.curve (-bCoeff)

variable {c x y : ZMod p}

theorem equation_iff : (Jac.curve c).Equation x y ↔ y ^ 2 = x ^ 3 - 3 * x + c := by
  rw [Affine.equation_iff]
  simp only [Jac.curve]
  constructor <;> intro h <;> linear_combination h

theorem natCast_ne_zero_p {m : ℕ} (h0 : 0 < m) (hm : m < p) : (m : ZMod p) ≠ 0 := by
  rw [ne_eq, ZMod.natCast_eq_zero_iff]
  exact fun h => absurd (Nat.le_of_dvd h0 h) (not_le.mpr hm)

theorem bCoeff_sq_ne : bCoeff ^ 2 ≠ 4 := by
  rw [bCoeff, ← Nat.cast_pow, show (4 : ZMod p) = ((4 : ℕ) : ZMod p) by norm_cast, ne_eq,
    ZMod.natCast_eq_natCast_iff']
  decide

theorem delta_ne_zero (hc : c ^ 2 ≠ 4) : (Jac.curve c).Δ ≠ 0 := by
  have hΔ : (Jac.curve c).Δ = -((432 : ℕ) : ZMod p) * (c ^ 2 - 4) := by
    simp only [Jac.curve, WeierstrassCurve.Δ, WeierstrassCurve.b₂, WeierstrassCurve.b₄,
      WeierstrassCurve.b₆, WeierstrassCurve.b₈]
    push_cast; ring
  rw [hΔ]
  exact mul_ne_zero (neg_ne_zero.mpr (natCast_ne_zero_p (by decide) (by decide)))
    (sub_ne_zero.mpr hc)

/-- A curve whose discriminant is not zero has no singular point. -/
theorem nonsingular_iff_of_delta (hΔ : (Jac.curve c).Δ ≠ 0) :
    (Jac.curve c).Nonsingular x y ↔ y ^ 2 = x ^ 3 - 3 * x + c := by
  rw [← equation_iff]
  exact (Affine.equation_iff_nonsingular_of_Δ_ne_zero hΔ).symm

/-- Neither curve has a singular point. -/
theorem nonsingular_iff (hc : c ^ 2 ≠ 4) :
    (Jac.curve c).Nonsingular x y ↔ y ^ 2 = x ^ 3 - 3 * x + c :=
  nonsingular_iff_of_delta (delta_ne_zero hc)

theorem main_nonsingular_iff : E.Nonsingular x y ↔ y ^ 2 = x ^ 3 - 3 * x + bCoeff :=
  nonsingular_iff bCoeff_sq_ne

theorem twist_nonsingular_iff : E'.Nonsingular x y ↔ y ^ 2 = x ^ 3 - 3 * x + -bCoeff :=
  nonsingular_iff (by rw [neg_pow]; simpa using bCoeff_sq_ne)

/-- An equation between residues, by computation. -/
theorem cast_equation {m n k : ℕ} (h : n ^ 2 % p = (m ^ 3 + (p - 3) * m + k) % p) :
    (n : ZMod p) ^ 2 = (m : ZMod p) ^ 3 - 3 * m + k := by
  have h' := (ZMod.natCast_eq_natCast_iff' _ _ p).mpr h
  push_cast [show 3 ≤ p by decide] at h'
  rw [h', ZMod.natCast_self]; ring

theorem dvd_card_of_nsmul {G : Type*} [AddCommGroup G] {q : ℕ} (hq : q.Prime) {g : G}
    (hg : g ≠ 0) (h : q • g = 0) : q ∣ Nat.card G := by
  have := Fact.mk hq
  exact addOrderOf_eq_prime h hg ▸ addOrderOf_dvd_natCard g

theorem nsmul_eq_zero_iff_of_card {G : Type*} [AddCommGroup G] {q : ℕ} (hq : q.Prime)
    (hc : Nat.card G = q) {g : G} (hg : g ≠ 0) (k : ℕ) : k • g = 0 ↔ q ∣ k := by
  have hdvd : addOrderOf g ∣ q := hc ▸ addOrderOf_dvd_natCard g
  rcases (Nat.dvd_prime hq).mp hdvd with h1 | h1
  · exact absurd (AddMonoid.addOrderOf_eq_one_iff.mp h1) hg
  · rw [← addOrderOf_dvd_iff_nsmul_eq_zero, h1]

/-- The ordinate of the base point `x = 2` of the main curve. -/
def mainY : ℕ := 342581008510239659405023808572191026457361540109042

/-- The ordinate of the point `x = 0` of the twist. -/
def twistY : ℕ := 153780321692872162569527073222283666804656881279974

/-- The base point of the main curve. -/
def mainG : E.Point :=
  .some (2 : ℕ) (mainY : ZMod p) (main_nonsingular_iff.mpr (cast_equation (by decide)))

/-- A point of the twist. -/
def twistG : E'.Point :=
  .some (0 : ℕ) (twistY : ZMod p) (twist_nonsingular_iff.mpr (by
    have h := cast_equation (m := 0) (n := twistY) (k := p - b.val) (by decide)
    rw [h, bCoeff, Nat.cast_sub (by decide), ZMod.natCast_self, zero_sub]))

theorem rep_affine {x y : ℕ} (h : (Jac.curve c).Nonsingular (x : ZMod p) (y : ZMod p)) :
    Jac.Rep c (Jac.ofN p x y 1) (.some _ _ h) := by
  rw [Jac.Rep.some_iff]
  simp [Jac.ofN]

theorem mainOrder_nsmul_mainG : mainOrder • mainG = 0 :=
  Jac.nsmul_eq_zero_of_mulN two_ne_zero_p (by decide) (rep_affine _) 169 (by decide)
    (by decide +kernel)

theorem twistOrder_nsmul_twistG : twistOrder • twistG = 0 :=
  Jac.nsmul_eq_zero_of_mulN two_ne_zero_p (by decide) (rep_affine _) 168 (by decide)
    (by decide +kernel)

theorem card_point_le : Nat.card (Jac.curve c).Point ≤ 2 * p + 1 :=
  (Jac.card_le (c := c)).2.trans_eq (by rw [ZMod.card])

theorem card_point_pos : 0 < Nat.card (Jac.curve c).Point :=
  have := (Jac.card_le (c := c)).1
  Nat.card_pos

/-- The main curve has prime order. -/
theorem card_main : Nat.card E.Point = mainOrder := by
  obtain ⟨k, hk⟩ := dvd_card_of_nsmul mainOrder_prime (Affine.Point.some_ne_zero _)
    mainOrder_nsmul_mainG
  have hle := card_point_le (c := bCoeff)
  have hpos := card_point_pos (c := bCoeff)
  rw [hk] at hle hpos ⊢
  obtain rfl : k = 1 := by
    rw [p] at hle
    rw [mainOrder] at hle hpos
    omega
  exact mul_one _

theorem nsmul_main_eq_zero_iff {A : E.Point} (hA : A ≠ 0) (k : ℕ) : k • A = 0 ↔ mainOrder ∣ k :=
  nsmul_eq_zero_iff_of_card mainOrder_prime card_main hA k

/-- A point of order two has ordinate zero. -/
theorem y_eq_zero_of_two_nsmul {h : (Jac.curve c).Nonsingular x y}
    (h2 : 2 • (Affine.Point.some x y h : (Jac.curve c).Point) = 0) : y = 0 := by
  by_contra hy
  have hne : y ≠ (Jac.curve c).negY x y := by
    rw [Jac.negY_eq, ne_eq, eq_neg_iff_add_eq_zero, ← two_mul, mul_eq_zero]
    exact not_or.mpr ⟨two_ne_zero_p, hy⟩
  rw [two_nsmul, Affine.Point.add_self_of_Y_ne hne] at h2
  exact Affine.Point.some_ne_zero _ h2

theorem two_nsmul_of_y_eq_zero (h : (Jac.curve c).Nonsingular x 0) :
    2 • (Affine.Point.some x 0 h : (Jac.curve c).Point) = 0 := by
  rw [two_nsmul, Affine.Point.add_self_of_Y_eq (by rw [Jac.negY_eq, neg_zero])]

/-- The twist has no point of order two: its negated abscissa would be one of the main curve. -/
theorem twist_two_nsmul_ne {A : E'.Point} (hA : A ≠ 0) : 2 • A ≠ 0 := by
  intro h2
  rcases A with _ | ⟨x, y, h⟩
  · exact hA rfl
  obtain rfl := y_eq_zero_of_two_nsmul h2
  have hE : E.Nonsingular (-x) 0 := by
    have := twist_nonsingular_iff.mp h
    rw [main_nonsingular_iff]; linear_combination -this
  have h2' := two_nsmul_of_y_eq_zero hE
  rw [nsmul_main_eq_zero_iff (Affine.Point.some_ne_zero hE)] at h2'
  exact absurd h2' (by decide)

/-- The twist has prime order. -/
theorem card_twist : Nat.card E'.Point = twistOrder := by
  obtain ⟨k, hk⟩ := dvd_card_of_nsmul twistOrder_prime (Affine.Point.some_ne_zero _)
    twistOrder_nsmul_twistG
  have hle := card_point_le (c := -bCoeff)
  have hpos := card_point_pos (c := -bCoeff)
  have hk2 : k = 1 ∨ k = 2 := by
    rw [hk, p] at hle
    rw [hk] at hpos
    rw [twistOrder] at hle hpos
    omega
  rcases hk2 with rfl | rfl
  · rw [hk, mul_one]
  · have := (Jac.card_le (c := -bCoeff)).1
    have := Fact.mk Nat.prime_two
    obtain ⟨A, hA⟩ := exists_prime_addOrderOf_dvd_card' (G := E'.Point) 2 (hk ▸ dvd_mul_left ..)
    have hA0 : A ≠ 0 := fun h0 => by rw [h0, addOrderOf_zero] at hA; omega
    exact absurd (hA ▸ addOrderOf_nsmul_eq_zero A) (twist_two_nsmul_ne hA0)

theorem nsmul_twist_eq_zero_iff {A : E'.Point} (hA : A ≠ 0) (k : ℕ) :
    k • A = 0 ↔ twistOrder ∣ k :=
  nsmul_eq_zero_iff_of_card twistOrder_prime card_twist hA k

/-- The first multiples of a finite point are finite, on both curves. -/
theorem main_small_nsmul_ne {A : E.Point} (hA : A ≠ 0) (j : ℕ) (h1 : 1 ≤ j) (h16 : j < 16) :
    j • A ≠ 0 := by
  rw [ne_eq, nsmul_main_eq_zero_iff hA]
  exact fun h => absurd (Nat.le_of_dvd h1 h) (by rw [mainOrder]; omega)

theorem twist_small_nsmul_ne {A : E'.Point} (hA : A ≠ 0) (j : ℕ) (h1 : 1 ≤ j) (h16 : j < 16) :
    j • A ≠ 0 := by
  rw [ne_eq, nsmul_twist_eq_zero_iff hA]
  exact fun h => absurd (Nat.le_of_dvd h1 h) (by rw [twistOrder]; omega)

end Telex.Ptwist
