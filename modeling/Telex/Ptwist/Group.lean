import Telex.Ptwist.Order

/-! The point routines of `tag/ptwist168.cpp` on any curve `y² = x³ - 3x + c`

    None of the routines knows the constant `c`: the same code runs on the main curve and on its
    twist. The two results here are therefore about every non-singular curve of the family and
    about every representative the slices can hold, those of infinity included. -/

namespace Telex.Ptwist
open WeierstrassCurve

variable {c X Y : ZMod p} {P Q : Point}

/-- The affine point `(X, Y)` of a curve without singular points. -/
def affinePoint (hΔ : (Jac.curve c).Δ ≠ 0) (he : Y ^ 2 = Jac.cubic c X) : (Jac.curve c).Point :=
  .some X Y ((nonsingular_iff_of_delta hΔ).mpr he)

/-- The base point of the main curve, in slices. -/
def basePoint : Point :=
  ⟨⟨2#64, 0#64, 0#64⟩, ⟨0x88b9be1566d2f2#64, 0xf93c1f5e6d320f#64, 0xea6747b75af8c7#64⟩,
    ⟨1#64, 0#64, 0#64⟩⟩

theorem basePoint_holds : Holds basePoint ⟨(2 : ℕ), (mainY : ℕ), 1⟩ :=
  ⟨⟨by decide, by decide, by decide, rfl⟩, ⟨by decide, by decide, by decide, rfl⟩,
    ⟨by decide, by decide, by decide, Nat.cast_one⟩⟩

theorem basePoint_equation :
    ((mainY : ℕ) : ZMod p) ^ 2 = ((2 : ℕ) : ZMod p) ^ 3 - 3 * (2 : ℕ) + bCoeff :=
  cast_equation (by decide)

/-- The modulus itself, as slices: zero in the field without a zero slice. -/
def modulus : Felem := ⟨0xfffffffffffeff#64, 0xffffffffffffff#64, 0xffffffffffffff#64⟩

/-- On every non-singular curve `point_double` and `point_add` with separate outputs compute the
    sum of the points their operands stand for, in reduced coordinates. -/
theorem double_add_represent {s t : Jac.Triple (ZMod p)} (hΔ : (Jac.curve c).Δ ≠ 0)
    (hP : Holds P s) (hQ : Holds Q t) (hs : Jac.OnCurve c s) (ht : Jac.OnCurve c t) :
    ∃ A B : (Jac.curve c).Point, Jac.Rep c s A ∧ Jac.Rep c t B ∧
      IsPoint c (pointDouble P) (A + A) ∧ IsPoint c (pointAdd false P Q) (A + B) := by
  obtain ⟨A, hA⟩ := hs.exists_rep hΔ
  obtain ⟨B, hB⟩ := ht.exists_rep hΔ
  have hPA : IsPoint c P A := ⟨s, hP, hA⟩
  have hQB : IsPoint c Q B := ⟨t, hQ, hB⟩
  refine ⟨A, B, hA, hB, ?_, hPA.add hQB (by simp)⟩
  rw [← two_nsmul]
  exact hPA.double

/-- The base point and a point at infinity whose `z` is the modulus. -/
theorem double_add_represent_base :
    ∃ A B : E.Point, Jac.Rep bCoeff ⟨(2 : ℕ), (mainY : ℕ), 1⟩ A ∧ Jac.Rep bCoeff ⟨3, 1, 0⟩ B ∧
      IsPoint bCoeff (pointDouble basePoint) (A + A) ∧
      IsPoint bCoeff (pointAdd false basePoint
        ⟨⟨3#64, 0#64, 0#64⟩, ⟨1#64, 0#64, 0#64⟩, modulus⟩) (A + B) := by
  have h3 : Is56 ⟨3#64, 0#64, 0#64⟩ (3 : ZMod p) := ⟨by decide, by decide, by decide, rfl⟩
  have h1 : Is56 ⟨1#64, 0#64, 0#64⟩ (1 : ZMod p) :=
    ⟨by decide, by decide, by decide, Nat.cast_one⟩
  have hm : Is56 modulus (0 : ZMod p) :=
    ⟨by decide, by decide, by decide, (ZMod.natCast_eq_zero_iff _ _).mpr ⟨1, by decide⟩⟩
  refine double_add_represent (delta_ne_zero bCoeff_sq_ne) basePoint_holds ⟨h3, h1, hm⟩
    (Or.inr ?_) (Or.inl rfl)
  rw [basePoint_equation]
  ring

/-- On every non-singular curve `point_mul` computes the multiple of an affine point whose first
    fifteen multiples are finite, for every scalar of 21 bytes. -/
theorem pointMul_represents (hΔ : (Jac.curve c).Δ ≠ 0) (he : Y ^ 2 = X ^ 3 - 3 * X + c)
    (hP : Holds P ⟨X, Y, 1⟩) (hfin : ∀ j, 1 ≤ j → j ≤ 15 → j • affinePoint hΔ he ≠ 0)
    (s : Fin 21 → Byte) :
    IsPoint c (pointMul P s) (leNat s • affinePoint hΔ he) ∧
      (((pointMul P s).z.val : ZMod p) = 0 ↔ leNat s • affinePoint hΔ he = 0) := by
  have hA : IsPoint c P (affinePoint hΔ he) := isPoint_affine hP _
  have hmul := hA.mul (fun j h1 h16 => hfin j h1 (Nat.lt_succ_iff.mp h16)) s
  exact ⟨hmul, hmul.z_eq_zero_iff⟩

/-- The largest scalar, which is larger than the order of the base point. -/
theorem pointMul_represents_largest :
    IsPoint bCoeff (pointMul basePoint (encode 21 (2 ^ 168 - 1)))
      (leNat (encode 21 (2 ^ 168 - 1)) •
        affinePoint (delta_ne_zero bCoeff_sq_ne) basePoint_equation) :=
  (pointMul_represents (delta_ne_zero bCoeff_sq_ne) basePoint_equation basePoint_holds
    (fun j h1 h15 => main_small_nsmul_ne (Affine.Point.some_ne_zero _) j h1
      (Nat.lt_succ_iff.mpr h15)) _).1

end Telex.Ptwist
