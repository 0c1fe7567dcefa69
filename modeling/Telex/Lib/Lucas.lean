import Mathlib.NumberTheory.LucasPrimality
import Mathlib.Tactic.NormNum.Prime

/-! Lucas certificates that the kernel can evaluate

    A certificate for `n` is a base `a` and the prime factors of `n - 1` with multiplicity. `checks`
    runs the two power conditions of the Lucas test on natural numbers, eight bits of the exponent
    at a time; it is structurally recursive, so `decide +kernel` evaluates it on large numbers. The
    kernel passes arguments unevaluated, which would raise a growing expression to a power instead
    of a number: `force` is the application that computes its argument first. -/

namespace Lucas

/-- `f n`, with `n` brought to a literal before `f` sees it. -/
def force {α : Type*} (n : ℕ) (f : ℕ → α) : α := Nat.rec (f 0) (fun k _ => f (Nat.succ k)) n

@[simp]
theorem force_eq {α : Type*} (n : ℕ) (f : ℕ → α) : force n f = f n := by cases n <;> rfl

/-- `a ^ e % n` from the base 256 digits of `e`, for exponents below `256 ^ fuel`. -/
def powMod (n a : ℕ) : ℕ → ℕ → ℕ
  | 0, _ => 1 % n
  | fuel + 1, e => force (powMod n a fuel (e / 256)) fun r => r ^ 256 * a ^ (e % 256) % n

/-- The power conditions of the Lucas test for the factors `fs`. -/
def checks (n fuel a : ℕ) (fs : List ℕ) : Bool :=
  fs.prod == n - 1 && n < 256 ^ fuel && 1 < n && powMod n a fuel (n - 1) == 1 &&
    fs.all fun q => powMod n a fuel ((n - 1) / q) != 1

theorem powMod_cast (n a : ℕ) : ∀ fuel e, e < 256 ^ fuel →
    ((powMod n a fuel e : ℕ) : ZMod n) = (a : ZMod n) ^ e
  | 0, e, he => by
      obtain rfl : e = 0 := by simpa using he
      simp [powMod]
  | fuel + 1, e, he => by
      have ih := powMod_cast n a fuel (e / 256) (by rw [pow_succ] at he; omega)
      rw [powMod, force_eq, ZMod.natCast_mod, Nat.cast_mul, Nat.cast_pow, Nat.cast_pow, ih,
        ← pow_mul, ← pow_add]
      congr 1; omega

theorem powMod_lt {n a : ℕ} (hn : 1 < n) : ∀ fuel e, powMod n a fuel e < n
  | 0, _ => Nat.mod_lt _ (by omega)
  | fuel + 1, e => by rw [powMod, force_eq]; exact Nat.mod_lt _ (by omega)

theorem powMod_eq_one_iff {n a fuel e : ℕ} (hn : 1 < n) (he : e < 256 ^ fuel) :
    powMod n a fuel e = 1 ↔ (a : ZMod n) ^ e = 1 := by
  have hone : (1 : ZMod n) = ((1 : ℕ) : ZMod n) := Nat.cast_one.symm
  rw [← powMod_cast n a fuel e he, hone, ZMod.natCast_eq_natCast_iff',
    Nat.mod_eq_of_lt (powMod_lt hn fuel e), Nat.mod_eq_of_lt hn]

/-- A prime that divides the product of a list of primes is one of them. -/
theorem mem_of_dvd_prod {q : ℕ} (hq : q.Prime) : ∀ {fs : List ℕ}, (∀ f ∈ fs, f.Prime) →
    q ∣ fs.prod → q ∈ fs
  | [], _, h => absurd (Nat.dvd_one.mp (by simpa using h)) hq.ne_one
  | f :: fs, hp, h => by
      rw [List.prod_cons, hq.dvd_mul] at h
      rcases h with h | h
      · rw [(Nat.prime_dvd_prime_iff_eq hq (hp f (List.mem_cons_self ..))).mp h]
        exact List.mem_cons_self ..
      · exact List.mem_cons_of_mem _
          (mem_of_dvd_prod hq (fun g hg => hp g (List.mem_cons_of_mem _ hg)) h)

/-- A checked certificate proves primality. -/
theorem prime_of_checks {n : ℕ} (fuel a : ℕ) (fs : List ℕ) (hc : checks n fuel a fs = true)
    (hp : fs.Forall Nat.Prime) : n.Prime := by
  simp only [checks, Bool.and_eq_true, beq_iff_eq, decide_eq_true_eq, List.all_eq_true,
    bne_iff_ne] at hc
  obtain ⟨⟨⟨⟨hprod, hfuel⟩, hn⟩, hone⟩, hne⟩ := hc
  refine lucas_primality n (a : ZMod n) ((powMod_eq_one_iff hn (by omega)).mp hone) ?_
  intro q hq hdvd
  have hmem := mem_of_dvd_prod hq (List.forall_iff_forall_mem.mp hp) (hprod ▸ hdvd)
  have hle : (n - 1) / q ≤ n - 1 := Nat.div_le_self _ _
  exact fun h => hne q hmem ((powMod_eq_one_iff hn (by omega)).mpr h)

end Lucas
