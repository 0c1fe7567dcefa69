import Mathlib.AlgebraicGeometry.EllipticCurve.Affine.Point
import Mathlib.Tactic.FieldSimp
import Mathlib.Tactic.LinearCombination

/-! Jacobian coordinates on `y² = x³ - 3x + c`

    A triple `(X, Y, Z)` with `Z ≠ 0` stands for the affine point `(X/Z², Y/Z³)`, one with `Z = 0`
    for the point at infinity. The two formulas here are the ones the `a = -3` curves are usually
    programmed with: doubling through `δ = Z²`, `γ = Y²`, `β = Xγ`, `α = 3(X - δ)(X + δ)`, and
    addition through the cross differences `Z₁²X₂ - Z₂²X₁` and `Z₁³Y₂ - Z₂³Y₁`. `Rep` ties a triple
    to a point of the group that Mathlib builds on the curve; `rep_dbl` and `rep_add` say that the
    formulas compute `2P` and `P + Q` there, every exceptional case included. -/

namespace Jac
open WeierstrassCurve

variable {K : Type*} [Field K]

/-- The curve `y² = x³ - 3x + c`. -/
def curve (c : K) : WeierstrassCurve.Affine K := ⟨0, 0, 0, -3, c⟩

/-- The right side of its equation. -/
def cubic (c x : K) : K := x ^ 3 - 3 * x + c

/-- Jacobian coordinates. -/
@[ext]
structure Triple (K : Type*) where
  X : K
  Y : K
  Z : K

/-- Doubling formula. -/
def dbl (t : Triple K) : Triple K :=
  let δ := t.Z ^ 2
  let γ := t.Y ^ 2
  let β := t.X * γ
  let α := 3 * (t.X - δ) * (t.X + δ)
  let x := α ^ 2 - 8 * β
  ⟨x, α * (4 * β - x) - 8 * γ ^ 2, (t.Y + t.Z) ^ 2 - γ - δ⟩

/-- `Z₁²X₂ - Z₂²X₁`, zero when the abscissas agree. -/
def dx (s t : Triple K) : K := s.Z ^ 2 * t.X - t.Z ^ 2 * s.X

/-- `Z₁³Y₂ - Z₂³Y₁`, zero when the ordinates agree. -/
def dy (s t : Triple K) : K := s.Z ^ 3 * t.Y - t.Z ^ 3 * s.Y

/-- Addition formula for two finite points with different abscissas. -/
def addXne (s t : Triple K) : Triple K :=
  let h := dx s t
  let r := dy s t
  let v := t.Z ^ 2 * s.X * h ^ 2
  let x := r ^ 2 - h ^ 3 - 2 * v
  ⟨x, r * (v - x) - t.Z ^ 3 * s.Y * h ^ 3, h * (s.Z * t.Z)⟩

/-- Complete addition: doubling when the points are equal and finite, the other operand when one
    is at infinity. -/
def add [DecidableEq K] (s t : Triple K) : Triple K :=
  if dx s t = 0 ∧ dy s t = 0 ∧ s.Z ≠ 0 ∧ t.Z ≠ 0 then dbl s
  else if t.Z = 0 then s
  else if s.Z = 0 then t
  else addXne s t

/-- The triple `t` stands for the point `P`. -/
def Rep (c : K) (t : Triple K) (P : (curve c).Point) : Prop :=
  (t.Z = 0 ∧ P = 0) ∨
    (t.Z ≠ 0 ∧ ∃ h : (curve c).Nonsingular (t.X / t.Z ^ 2) (t.Y / t.Z ^ 3), P = .some _ _ h)

variable {c : K}

theorem negY_eq (x y : K) : (curve c).negY x y = -y := by simp [Affine.negY, curve]

/-- The affine coordinates of a triple that stands for a finite point. -/
theorem Rep.some_iff {t : Triple K} {x y : K} {h : (curve c).Nonsingular x y} :
    Rep c t (.some x y h) ↔ t.Z ≠ 0 ∧ x = t.X / t.Z ^ 2 ∧ y = t.Y / t.Z ^ 3 := by
  constructor
  · rintro (⟨_, h0⟩ | ⟨hz, h', hP⟩)
    · exact absurd h0 (Affine.Point.some_ne_zero h)
    · rw [Affine.Point.some.injEq] at hP; exact ⟨hz, hP.1, hP.2⟩
  · rintro ⟨hz, rfl, rfl⟩; exact Or.inr ⟨hz, h, rfl⟩

/-- The coordinates satisfy the curve's equation; any triple with `Z = 0` does. -/
def OnCurve (c : K) (t : Triple K) : Prop :=
  t.Z = 0 ∨ t.Y ^ 2 = t.X ^ 3 - 3 * t.X * t.Z ^ 4 + c * t.Z ^ 6

/-- `Z = 0` marks the point at infinity and nothing else. -/
theorem Rep.z_eq_zero_iff {t : Triple K} {P : (curve c).Point} (h : Rep c t P) :
    t.Z = 0 ↔ P = 0 := by
  rcases h with ⟨hz, rfl⟩ | ⟨hz, hn, rfl⟩
  · simp [hz]
  · simp [hz, Affine.Point.some_ne_zero]

theorem Rep.zero {t : Triple K} (hz : t.Z = 0) : Rep c t 0 := Or.inl ⟨hz, rfl⟩

/-- A triple stands for at most one point. -/
theorem Rep.unique {t : Triple K} {P Q : (curve c).Point} (hP : Rep c t P) (hQ : Rep c t Q) :
    P = Q := by
  rcases hP with ⟨hz, rfl⟩ | ⟨hz, hn, rfl⟩ <;> rcases hQ with ⟨hz', rfl⟩ | ⟨hz', hn', rfl⟩
  · rfl
  · exact absurd hz hz'
  · exact absurd hz' hz
  · rfl

/-- On a curve without singular points every triple of the curve stands for a point. -/
theorem OnCurve.exists_rep {t : Triple K} (hΔ : (curve c).Δ ≠ 0) (h : OnCurve c t) :
    ∃ P, Rep c t P := by
  by_cases hz : t.Z = 0
  · exact ⟨0, Rep.zero hz⟩
  have he : t.Y ^ 2 = t.X ^ 3 - 3 * t.X * t.Z ^ 4 + c * t.Z ^ 6 := h.resolve_left hz
  have heq : (curve c).Equation (t.X / t.Z ^ 2) (t.Y / t.Z ^ 3) := by
    rw [Affine.equation_iff]
    simp only [curve]
    field_simp
    linear_combination he
  exact ⟨_, Or.inr ⟨hz, (Affine.equation_iff_nonsingular_of_Δ_ne_zero hΔ).mp heq, rfl⟩⟩

theorem dbl_Z (t : Triple K) : (dbl t).Z = 2 * t.Y * t.Z := by simp only [dbl]; ring

/-- Equal abscissas of finite points, read off the cross difference. -/
theorem dx_eq_zero_iff {s t : Triple K} (hs : s.Z ≠ 0) (ht : t.Z ≠ 0) :
    dx s t = 0 ↔ s.X / s.Z ^ 2 = t.X / t.Z ^ 2 := by
  rw [dx, sub_eq_zero, div_eq_div_iff (pow_ne_zero 2 hs) (pow_ne_zero 2 ht)]
  constructor <;> intro h <;> linear_combination -h

/-- Equal ordinates of finite points, read off the cross difference. -/
theorem dy_eq_zero_iff {s t : Triple K} (hs : s.Z ≠ 0) (ht : t.Z ≠ 0) :
    dy s t = 0 ↔ s.Y / s.Z ^ 3 = t.Y / t.Z ^ 3 := by
  rw [dy, sub_eq_zero, div_eq_div_iff (pow_ne_zero 3 hs) (pow_ne_zero 3 ht)]
  constructor <;> intro h <;> linear_combination -h

variable [DecidableEq K]

/-- The doubling formula computes `P + P`, also at infinity and at points of order two. -/
theorem rep_dbl (h2 : (2 : K) ≠ 0) {t : Triple K} {P : (curve c).Point} (h : Rep c t P) :
    Rep c (dbl t) (P + P) := by
  rcases h with ⟨hz, rfl⟩ | ⟨hz, hn, rfl⟩
  · rw [add_zero]; exact Rep.zero (by rw [dbl_Z, hz, mul_zero])
  by_cases hy : t.Y = 0
  · -- a point of order two: the tangent is vertical and `Z` vanishes
    rw [Affine.Point.add_self_of_Y_eq (by rw [negY_eq, hy]; simp)]
    exact Rep.zero (by rw [dbl_Z, hy]; ring)
  · have hy' : t.Y / t.Z ^ 3 ≠ (curve c).negY (t.X / t.Z ^ 2) (t.Y / t.Z ^ 3) := by
      rw [negY_eq, ne_eq, eq_neg_iff_add_eq_zero, ← two_mul, mul_eq_zero, div_eq_zero_iff]
      rintro (h | h | h)
      · exact h2 h
      · exact hy h
      · exact pow_ne_zero 3 hz h
    have hs : (curve c).slope (t.X / t.Z ^ 2) (t.X / t.Z ^ 2) (t.Y / t.Z ^ 3) (t.Y / t.Z ^ 3) =
        3 * (t.X ^ 2 - t.Z ^ 4) / (2 * t.Y * t.Z) := by
      rw [Affine.slope_of_Y_ne rfl hy', negY_eq, sub_neg_eq_add, ← two_mul]
      simp only [curve]; field_simp; ring
    rw [Affine.Point.add_self_of_Y_ne hy', Rep.some_iff, dbl_Z, hs]
    refine ⟨mul_ne_zero (mul_ne_zero h2 hy) hz, ?_, ?_⟩
    · simp only [Affine.addX, curve, dbl]
      field_simp; ring
    · rw [Affine.addY, negY_eq]
      simp only [Affine.negAddY, Affine.addX, curve, dbl]
      field_simp; ring

/-- Two finite points with one abscissa and different ordinates are opposite. -/
theorem rep_addXne_of_dx_eq_zero {s t : Triple K} {P Q : (curve c).Point} (hP : Rep c s P)
    (hQ : Rep c t Q) (hs : s.Z ≠ 0) (ht : t.Z ≠ 0) (hx : dx s t = 0) (hy : dy s t ≠ 0) :
    Rep c (addXne s t) (P + Q) := by
  rcases hP with ⟨h, _⟩ | ⟨_, hn, rfl⟩
  · exact absurd h hs
  rcases hQ with ⟨h, _⟩ | ⟨_, hn', rfl⟩
  · exact absurd h ht
  have hX := (dx_eq_zero_iff hs ht).mp hx
  have hY : s.Y / s.Z ^ 3 = (curve c).negY (t.X / t.Z ^ 2) (t.Y / t.Z ^ 3) :=
    (Affine.Y_eq_of_X_eq hn.1 hn'.1 hX).resolve_left fun h => hy ((dy_eq_zero_iff hs ht).mpr h)
  rw [Affine.Point.add_of_Y_eq hX hY]
  exact Rep.zero (by simp [addXne, hx])

/-- The chord formula computes `P + Q` for finite points with different abscissas. -/
theorem rep_addXne {s t : Triple K} {P Q : (curve c).Point} (hP : Rep c s P) (hQ : Rep c t Q)
    (hs : s.Z ≠ 0) (ht : t.Z ≠ 0) (hx : dx s t ≠ 0) : Rep c (addXne s t) (P + Q) := by
  rcases hP with ⟨h, _⟩ | ⟨_, hn, rfl⟩
  · exact absurd h hs
  rcases hQ with ⟨h, _⟩ | ⟨_, hn', rfl⟩
  · exact absurd h ht
  have hX : s.X / s.Z ^ 2 ≠ t.X / t.Z ^ 2 := fun h => hx ((dx_eq_zero_iff hs ht).mpr h)
  have hl : (curve c).slope (s.X / s.Z ^ 2) (t.X / t.Z ^ 2) (s.Y / s.Z ^ 3) (t.Y / t.Z ^ 3) =
      dy s t / (dx s t * (s.Z * t.Z)) := by
    have hd : s.X / s.Z ^ 2 - t.X / t.Z ^ 2 = -(dx s t) / (s.Z ^ 2 * t.Z ^ 2) := by
      rw [dx]; field_simp; ring
    have he : s.Y / s.Z ^ 3 - t.Y / t.Z ^ 3 = -(dy s t) / (s.Z ^ 3 * t.Z ^ 3) := by
      rw [dy]; field_simp; ring
    rw [Affine.slope_of_X_ne hX, hd, he]
    field_simp
  rw [Affine.Point.add_of_X_ne hX, Rep.some_iff, hl]
  -- with `h = dx s t` kept as a letter, its definition is only needed to eliminate `t.X`
  have hdx : dx s t = s.Z ^ 2 * t.X - t.Z ^ 2 * s.X := rfl
  have htX : t.X = (dx s t + t.Z ^ 2 * s.X) / s.Z ^ 2 := by rw [hdx]; field_simp; ring
  refine ⟨mul_ne_zero hx (mul_ne_zero hs ht), ?_, ?_⟩
  · simp only [Affine.addX, curve, addXne]
    generalize dx s t = h at *
    rw [htX]; field_simp; ring
  · rw [Affine.addY, negY_eq]
    simp only [Affine.negAddY, Affine.addX, curve, addXne]
    generalize dx s t = h at *
    rw [htX]; field_simp; ring

/-- Complete addition computes `P + Q` for all triples. -/
theorem rep_add (h2 : (2 : K) ≠ 0) {s t : Triple K} {P Q : (curve c).Point} (hP : Rep c s P)
    (hQ : Rep c t Q) : Rep c (add s t) (P + Q) := by
  unfold add
  by_cases heq : dx s t = 0 ∧ dy s t = 0 ∧ s.Z ≠ 0 ∧ t.Z ≠ 0
  · rw [if_pos heq]
    obtain ⟨hx, hy, hs, ht⟩ := heq
    have hPQ : P = Q := by
      rcases hP with ⟨h, _⟩ | ⟨_, hn, rfl⟩
      · exact absurd h hs
      rcases hQ with ⟨h, _⟩ | ⟨_, hn', rfl⟩
      · exact absurd h ht
      rw [Affine.Point.some.injEq]
      exact ⟨(dx_eq_zero_iff hs ht).mp hx, (dy_eq_zero_iff hs ht).mp hy⟩
    subst hPQ; exact rep_dbl h2 hP
  rw [if_neg heq]
  by_cases ht : t.Z = 0
  · rw [if_pos ht, (hQ.z_eq_zero_iff).mp ht, add_zero]; exact hP
  by_cases hs : s.Z = 0
  · rw [if_neg ht, if_pos hs, (hP.z_eq_zero_iff).mp hs, zero_add]; exact hQ
  rw [if_neg ht, if_neg hs]
  by_cases hx : dx s t = 0
  · exact rep_addXne_of_dx_eq_zero hP hQ hs ht hx fun hy => heq ⟨hx, hy, hs, ht⟩
  · exact rep_addXne hP hQ hs ht hx

end Jac
