import Telex.Lib.Jacobian
import Telex.Lib.Lucas

/-! Orders of points and curves, computed on residues

    Multiples of a point over `ZMod n` by double-and-add on natural numbers below `n`, in
    continuation-passing form so that the kernel holds literals between two steps. `card_le` bounds
    the number of points of a curve, which with a multiple that vanishes pins down the order of a
    group of nearly prime size. -/

namespace Jac
open Lucas

variable {α : Type*} {n : ℕ}

/-- Doubling formula on residues. -/
def dblN (n x y z : ℕ) (k : ℕ → ℕ → ℕ → α) : α :=
  force (z * z % n) fun d => force (y * y % n) fun g => force (x * g % n) fun b =>
    force (3 * (x + (n - d)) * (x + d) % n) fun a =>
      force ((a * a + 8 * (n - b)) % n) fun x' =>
        force ((a * (4 * b + (n - x')) + 8 * (g * (n - g))) % n) fun y' =>
          force (2 * y * z % n) fun z' => k x' y' z'

/-- Complete addition on residues. -/
def addN (n x₁ y₁ z₁ x₂ y₂ z₂ : ℕ) (k : ℕ → ℕ → ℕ → α) : α :=
  force (z₂ * z₂ % n * x₁ % n) fun u => force (z₂ * z₂ % n * z₂ % n * y₁ % n) fun w =>
    force ((z₁ * z₁ % n * x₂ + (n - u)) % n) fun h =>
      force ((z₁ * z₁ % n * z₁ % n * y₂ + (n - w)) % n) fun r =>
        if h = 0 ∧ r = 0 ∧ z₁ ≠ 0 ∧ z₂ ≠ 0 then dblN n x₁ y₁ z₁ k
        else if z₂ = 0 then k x₁ y₁ z₁
        else if z₁ = 0 then k x₂ y₂ z₂
        else
          force (h * h % n) fun h2 => force (h2 * h % n) fun h3 => force (u * h2 % n) fun v =>
            force ((r * r + (n - h3) + 2 * (n - v)) % n) fun x' =>
              force ((r * (v + (n - x')) + w * (n - h3)) % n) fun y' =>
                force (h * (z₁ * z₂) % n) fun z' => k x' y' z'

/-- The multiple `e` of a point, from the top bit of `e` down. -/
def mulN (n x y z : ℕ) : ℕ → ℕ → (ℕ → ℕ → ℕ → α) → α
  | 0, _, k => k 1 1 0
  | fuel + 1, e, k => mulN n x y z fuel (e / 2) fun x₁ y₁ z₁ => dblN n x₁ y₁ z₁ fun x₂ y₂ z₂ =>
      if e % 2 = 1 then addN n x₂ y₂ z₂ x y z k else k x₂ y₂ z₂

/-- The triple of residues `x`, `y`, `z`. -/
def ofN (n x y z : ℕ) : Triple (ZMod n) := ⟨x, y, z⟩

theorem cast_sub_self {m : ℕ} (h : m < n) : ((n - m : ℕ) : ZMod n) = -m := by
  rw [Nat.cast_sub h.le, ZMod.natCast_self, zero_sub]

theorem cast_eq_zero_iff {m : ℕ} (h : m < n) : (m : ZMod n) = 0 ↔ m = 0 := by
  rw [ZMod.natCast_eq_zero_iff]
  exact ⟨fun hd => Nat.eq_zero_of_dvd_of_lt hd h, fun h0 => h0 ▸ dvd_zero n⟩

/-- A computation on residues passes a triple below `n` that stands for `t` to its continuation. -/
def Passes (n : ℕ) (t : Triple (ZMod n)) (f : (ℕ → ℕ → ℕ → Bool) → Bool) : Prop :=
  ∃ x y z, (x < n ∧ y < n ∧ z < n) ∧ ofN n x y z = t ∧ ∀ k, f k = k x y z

section Prime
variable [hn : Fact n.Prime] {x y z x₁ y₁ z₁ x₂ y₂ z₂ : ℕ}

theorem dblN_passes : Passes n (dbl (ofN n x y z)) (dblN n x y z) := by
  have h0 := hn.out.pos
  refine ⟨_, _, _, ⟨Nat.mod_lt _ h0, Nat.mod_lt _ h0, Nat.mod_lt _ h0⟩, ?_, fun k => by
    simp only [dblN, force_eq]; rfl⟩
  simp only [ofN, dbl, ZMod.natCast_mod, Nat.cast_add, Nat.cast_mul, cast_sub_self (Nat.mod_lt _ h0),
    Nat.cast_ofNat, Triple.mk.injEq]
  refine ⟨by ring, by ring, by ring⟩

/-- The last branch of complete addition, for the residues its cross differences stand for. -/
theorem addXne_passes {u w h r : ℕ} (hu : (u : ZMod n) = (z₂ : ZMod n) ^ 2 * x₁)
    (hw : (w : ZMod n) = (z₂ : ZMod n) ^ 3 * y₁)
    (hh : (h : ZMod n) = dx (ofN n x₁ y₁ z₁) (ofN n x₂ y₂ z₂))
    (hr : (r : ZMod n) = dy (ofN n x₁ y₁ z₁) (ofN n x₂ y₂ z₂)) :
    Passes n (addXne (ofN n x₁ y₁ z₁) (ofN n x₂ y₂ z₂)) fun k =>
      force (h * h % n) fun h2 => force (h2 * h % n) fun h3 => force (u * h2 % n) fun v =>
        force ((r * r + (n - h3) + 2 * (n - v)) % n) fun x' =>
          force ((r * (v + (n - x')) + w * (n - h3)) % n) fun y' =>
            force (h * (z₁ * z₂) % n) fun z' => k x' y' z' := by
  have h0 := hn.out.pos
  refine ⟨_, _, _, ⟨Nat.mod_lt _ h0, Nat.mod_lt _ h0, Nat.mod_lt _ h0⟩, ?_, fun k => by
    simp only [force_eq]; rfl⟩
  simp only [addXne, ← hh, ← hr]
  simp only [ofN, ZMod.natCast_mod, Nat.cast_add, Nat.cast_mul, cast_sub_self (Nat.mod_lt _ h0),
    Nat.cast_ofNat, Triple.mk.injEq, hu, hw]
  refine ⟨by ring, by ring, trivial⟩

theorem addN_passes (h₁ : x₁ < n ∧ y₁ < n ∧ z₁ < n) (h₂ : x₂ < n ∧ y₂ < n ∧ z₂ < n) :
    Passes n (add (ofN n x₁ y₁ z₁) (ofN n x₂ y₂ z₂)) (addN n x₁ y₁ z₁ x₂ y₂ z₂) := by
  have h0 := hn.out.pos
  have hu : ((z₂ * z₂ % n * x₁ % n : ℕ) : ZMod n) = (z₂ : ZMod n) ^ 2 * x₁ := by
    simp only [ZMod.natCast_mod, Nat.cast_mul]; ring
  have hw : ((z₂ * z₂ % n * z₂ % n * y₁ % n : ℕ) : ZMod n) = (z₂ : ZMod n) ^ 3 * y₁ := by
    simp only [ZMod.natCast_mod, Nat.cast_mul]; ring
  have hu0 : z₂ * z₂ % n * x₁ % n < n := Nat.mod_lt _ h0
  have hw0 : z₂ * z₂ % n * z₂ % n * y₁ % n < n := Nat.mod_lt _ h0
  unfold Passes
  simp only [addN, force_eq]
  generalize z₂ * z₂ % n * x₁ % n = u at *
  generalize z₂ * z₂ % n * z₂ % n * y₁ % n = w at *
  have hh : (((z₁ * z₁ % n * x₂ + (n - u)) % n : ℕ) : ZMod n) =
      dx (ofN n x₁ y₁ z₁) (ofN n x₂ y₂ z₂) := by
    simp only [ofN, dx, ZMod.natCast_mod, Nat.cast_add, Nat.cast_mul, cast_sub_self hu0, hu]
    ring
  have hr : (((z₁ * z₁ % n * z₁ % n * y₂ + (n - w)) % n : ℕ) : ZMod n) =
      dy (ofN n x₁ y₁ z₁) (ofN n x₂ y₂ z₂) := by
    simp only [ofN, dy, ZMod.natCast_mod, Nat.cast_add, Nat.cast_mul, cast_sub_self hw0, hw]
    ring
  have hh0 : (z₁ * z₁ % n * x₂ + (n - u)) % n < n := Nat.mod_lt _ h0
  have hr0 : (z₁ * z₁ % n * z₁ % n * y₂ + (n - w)) % n < n := Nat.mod_lt _ h0
  generalize (z₁ * z₁ % n * x₂ + (n - u)) % n = h at *
  generalize (z₁ * z₁ % n * z₁ % n * y₂ + (n - w)) % n = r at *
  -- the tests of the two additions are the same
  have hz₁ : (ofN n x₁ y₁ z₁).Z = 0 ↔ z₁ = 0 := cast_eq_zero_iff h₁.2.2
  have hz₂ : (ofN n x₂ y₂ z₂).Z = 0 ↔ z₂ = 0 := cast_eq_zero_iff h₂.2.2
  simp only [add, ← hh, ← hr, cast_eq_zero_iff hh0, cast_eq_zero_iff hr0, ne_eq, hz₁, hz₂]
  split
  · exact dblN_passes
  · split
    · exact ⟨x₁, y₁, z₁, h₁, rfl, fun _ => rfl⟩
    · split
      · exact ⟨x₂, y₂, z₂, h₂, rfl, fun _ => rfl⟩
      · obtain ⟨x, y, z, hb, he, hk⟩ := addXne_passes hu hw hh hr
        exact ⟨x, y, z, hb, he, fun k => by simpa only [force_eq] using hk k⟩

variable {c : ZMod n} {P : (curve c).Point}

/-- `mulN` computes the multiple `e` of the point. -/
theorem mulN_rep (h2 : (2 : ZMod n) ≠ 0) (hb : x < n ∧ y < n ∧ z < n)
    (hP : Rep c (ofN n x y z) P) : ∀ fuel e, e < 2 ^ fuel →
    ∃ t, Rep c t (e • P) ∧ Passes n t (mulN n x y z fuel e)
  | 0, e, he => by
      obtain rfl : e = 0 := by simpa using he
      have h1 := hn.out.one_lt
      exact ⟨ofN n 1 1 0, by rw [zero_nsmul]; exact Rep.zero (by simp [ofN]),
        1, 1, 0, ⟨h1, h1, by omega⟩, rfl, fun _ => rfl⟩
  | fuel + 1, e, he => by
      obtain ⟨_, hr, x₁, y₁, z₁, h₁, rfl, hk₁⟩ :=
        mulN_rep h2 hb hP fuel (e / 2) (by rw [pow_succ] at he; omega)
      obtain ⟨x₂, y₂, z₂, h₂, ht₂, hk₂⟩ := dblN_passes (n := n) (x := x₁) (y := y₁) (z := z₁)
      have hd := ht₂ ▸ rep_dbl h2 hr
      rw [← two_nsmul, smul_smul] at hd
      simp only [mulN, hk₁, hk₂, Passes]
      split
      · rename_i hodd
        refine ⟨_, ?_, addN_passes h₂ hb⟩
        have ha := rep_add h2 hd hP
        rwa [← succ_nsmul, show 2 * (e / 2) + 1 = e by omega] at ha
      · rename_i heven
        refine ⟨_, ?_, x₂, y₂, z₂, h₂, rfl, fun _ => rfl⟩
        rwa [show 2 * (e / 2) = e by omega] at hd

/-- A multiple whose computed `Z` is zero vanishes. -/
theorem nsmul_eq_zero_of_mulN (h2 : (2 : ZMod n) ≠ 0) (hb : x < n ∧ y < n ∧ z < n)
    (hP : Rep c (ofN n x y z) P) (fuel : ℕ) {e : ℕ} (he : e < 2 ^ fuel)
    (hz : mulN n x y z fuel e (fun _ _ z => z == 0) = true) : e • P = 0 := by
  obtain ⟨_, hr, x', y', z', hb', rfl, hk⟩ := mulN_rep h2 hb hP fuel e he
  rw [hk, beq_iff_eq] at hz
  exact hr.z_eq_zero_iff.mp (by simp [ofN, hz])

end Prime

section Count
variable {K : Type*} [Field K] [Fintype K] {c : K}

/-- A curve has at most two points over each abscissa and one at infinity. -/
theorem card_le : Finite (curve c).Point ∧ Nat.card (curve c).Point ≤ 2 * Fintype.card K + 1 := by
  classical
  let e := Fintype.equivFin K
  -- of two opposite ordinates the one that comes first in an enumeration is marked
  let f : (curve c).Point → Option (K × Bool)
    | .zero => none
    | .some x y _ => some (x, decide (e y ≤ e (-y)))
  have hf : Function.Injective f := by
    rintro (_ | ⟨x₁, y₁, h₁⟩) (_ | ⟨x₂, y₂, h₂⟩) h
    · rfl
    · simp [f] at h
    · simp [f] at h
    · simp only [f, Option.some.injEq, Prod.mk.injEq, decide_eq_decide] at h
      obtain ⟨rfl, hs⟩ := h
      rw [WeierstrassCurve.Affine.Point.some.injEq]
      refine ⟨rfl, ?_⟩
      rcases WeierstrassCurve.Affine.Y_eq_of_X_eq h₁.1 h₂.1 rfl with hy | hy
      · exact hy
      · rw [negY_eq] at hy
        subst hy
        rw [neg_neg] at hs
        rcases le_total (e (-y₂)) (e y₂) with hle | hle
        · exact e.injective (le_antisymm hle (hs.mp hle))
        · exact e.injective (le_antisymm (hs.mpr hle) hle)
  refine ⟨Finite.of_injective f hf, (Nat.card_le_card_of_injective f hf).trans ?_⟩
  rw [Nat.card_eq_fintype_card, Fintype.card_option, Fintype.card_prod, Fintype.card_bool]
  omega

end Count

end Jac
