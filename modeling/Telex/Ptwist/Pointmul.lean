import Telex.Ptwist.Order
import Mathlib.NumberTheory.LegendreSymbol.Basic

/-! `ptwist_pointmul` of `tag/ptwist168.cpp`

    The function takes an abscissa `x`, decides by a square root test whether it is one of the main
    curve, multiplies the point over `x` (or over `-x` on the twist) and writes the abscissa of the
    product. When the product is at infinity `affine_x` returns without writing its result, so what
    was in memory before is part of the model. -/

namespace Telex.Ptwist
open WeierstrassCurve

/-- Memory the code reads without having written it. -/
structure Junk where
  /-- the byte after the array `x` -/
  past : Byte
  /-- `Qx` before `affine_x` -/
  qx : Felem

/-- The affine abscissa of `P`, written to `out` unless `P` is at infinity. -/
def affineX (out : Felem) (P : Point) : Felem :=
  if felemIsZero P.z then out
  else
    let z2 := felemInv P.z
    let z1 := sqr z2
    let xin := mul P.x z1
    felemContract xin

/-- `{ 3, 0, 0 }` -/
def three : Felem := ⟨3#64, 0#64, 0#64⟩

/-- `{ 1, 0, 0 }` -/
def one : Felem := ⟨1#64, 0#64, 0#64⟩

/-- `z = x^3 - 3*x + b` -/
def curveZ (x : Felem) : Felem :=
  let z := sqr x
  let z := felemDiff64 z three
  let z := mul z x
  felemSum64 z b

/-- Multiply the point over `x` by `seckey` and return the abscissa of the result. -/
def ptwistPointmul (junk : Junk) (x seckey : Fin 21 → Byte) : Fin 21 → Byte :=
  let x := bin21ToFelem junk.past x
  let z := curveZ x
  let r := felemSqrt z
  let r2 := felemReduce (felemDiff12864 (felemSquare r) z)
  let ontwist := !felemIsZero r2
  let x := if ontwist then felemNeg x else x
  let Q := pointMul ⟨x, r, one⟩ seckey
  let Qx := affineX junk.qx Q
  let Qx := if ontwist then felemNeg Qx else Qx
  felemToBin21 Qx

/-- `P[1]`, the candidate for a square root of `z`. -/
def rootOf (x : Felem) : Felem := felemSqrt (curveZ x)

/-- `ontwist`, as `ptwist_pointmul` sets it for the field element `x`. -/
def onTwist (x : Felem) : Bool :=
  !felemIsZero (felemReduce (felemDiff12864 (felemSquare (rootOf x)) (curveZ x)))

/-- The function in terms of its test. -/
theorem ptwistPointmul_eq (junk : Junk) (x seckey : Fin 21 → Byte) :
    ptwistPointmul junk x seckey =
      let x := bin21ToFelem junk.past x
      let Q := pointMul ⟨if onTwist x then felemNeg x else x, rootOf x, one⟩ seckey
      let Qx := affineX junk.qx Q
      felemToBin21 (if onTwist x then felemNeg Qx else Qx) := rfl

variable {a : Felem} {P : Point} {c x : ZMod p} {A : (Jac.curve c).Point}

/-- The point `A` is finite and its abscissa is `x`. -/
def HasX (A : (Jac.curve c).Point) (x : ZMod p) : Prop := ∃ y h, A = .some x y h

theorem HasX.ne_zero (h : HasX A x) : A ≠ 0 := by
  obtain ⟨y, h, rfl⟩ := h
  exact Affine.Point.some_ne_zero h

theorem hasX_of_ne_zero (h : A ≠ 0) : ∃ x, HasX A x := by
  rcases A with _ | ⟨x, y, hn⟩
  · exact absurd rfl h
  · exact ⟨x, y, hn, rfl⟩

theorem HasX.unique {y : ZMod p} (hx : HasX A x) (hy : HasX A y) : x = y := by
  obtain ⟨_, _, rfl⟩ := hx
  obtain ⟨_, _, h⟩ := hy
  rw [Affine.Point.some.injEq] at h
  exact h.1

theorem HasX.neg (h : HasX A x) : HasX (-A) x := by
  obtain ⟨y, h, rfl⟩ := h
  rw [Affine.Point.neg_some h]
  exact ⟨_, _, rfl⟩

/-- The two points over one abscissa are opposite. -/
theorem HasX.eq_or_neg {B : (Jac.curve c).Point} (hA : HasX A x) (hB : HasX B x) :
    A = B ∨ A = -B := by
  obtain ⟨y, h, rfl⟩ := hA
  obtain ⟨y', h', rfl⟩ := hB
  rcases Affine.Y_eq_of_X_eq h.1 h'.1 rfl with rfl | rfl
  · exact Or.inl rfl
  · exact Or.inr (Affine.Point.neg_some h').symm

/-- Multiples of points over one abscissa share abscissas. -/
theorem HasX.nsmul {B : (Jac.curve c).Point} {u : ZMod p} {k : ℕ} (hA : HasX A x) (hB : HasX B x)
    (hu : HasX (k • A) u) : HasX (k • B) u := by
  rcases hB.eq_or_neg hA with rfl | rfl
  · exact hu
  · rw [neg_nsmul]; exact hu.neg

theorem HasX.nsmul_eq_zero {B : (Jac.curve c).Point} {k : ℕ} (hA : HasX A x) (hB : HasX B x)
    (h0 : k • A = 0) : k • B = 0 := by
  by_contra hne
  obtain ⟨u, hu⟩ := hasX_of_ne_zero hne
  exact (hB.nsmul hA hu).ne_zero h0

theorem three_is : Is64 57 three (3 : ZMod p) :=
  ⟨by decide, by decide, by decide, by simp [Felem.val, three]⟩

theorem b_is : Is64 57 b bCoeff := ⟨by decide, by decide, by decide, rfl⟩

theorem one_is : Is56 one (1 : ZMod p) :=
  ⟨by decide, by decide, by decide, by simp [Felem.val, one]⟩

theorem Is56.curveZ (h : Is56 a x) : Is64 58 (Ptwist.curveZ a) (x ^ 3 - 3 * x + bCoeff) := by
  have hz : Is64 59 (felemDiff64 (Ptwist.sqr a) three) (x ^ 2 - 3) :=
    h.is58.sqr.is58.diff three_is
  have hm : Is56 (Ptwist.mul (felemDiff64 (Ptwist.sqr a) three) a) ((x ^ 2 - 3) * x) :=
    (hz.mul h.is64).mono.reduce
  exact (hm.is64.sum b_is).of_eq (by ring)

theorem pow_sub_two {z : ZMod p} (hz : z ≠ 0) : z ^ (p - 2) = z⁻¹ := by
  refine eq_inv_of_mul_eq_one_left ?_
  rw [← pow_succ, show p - 2 + 1 = p - 1 by decide]
  exact ZMod.pow_card_sub_one_eq_one hz

/-- `affine_x` on a finite point. -/
theorem IsPoint.affineX {out : Felem} (h : IsPoint c P A) (hA : HasX A x) :
    IsMin (Ptwist.affineX out P) x := by
  obtain ⟨t, ht, hr⟩ := h
  obtain ⟨y, hn, rfl⟩ := hA
  obtain ⟨hz, rfl, rfl⟩ := Jac.Rep.some_iff.mp hr
  rw [Ptwist.affineX, if_neg (ht.z.isZero_iff.not.mpr hz)]
  have hinv := ht.z.is58.inv
  rw [pow_sub_two hz] at hinv
  exact ((ht.x.is58.mulr hinv.is58.sqr.is58).of_eq (by field_simp)).contract

/-- `affine_x` at infinity leaves its output as it was. -/
theorem IsPoint.affineX_zero {out : Felem} (h : IsPoint c P 0) : Ptwist.affineX out P = out := by
  obtain ⟨t, ht, hr⟩ := h
  rw [Ptwist.affineX, if_pos (ht.z.isZero_iff.mpr (hr.z_eq_zero_iff.mpr rfl))]

/-- The candidate root squares to `z` if `z` is a square, else to `-z`. -/
theorem sqrt_sq_of_isSquare {z : ZMod p} (h : IsSquare z) : (z ^ ((p + 1) / 4)) ^ 2 = z := by
  rw [← pow_mul, show (p + 1) / 4 * 2 = p / 2 + 1 by decide, pow_succ]
  by_cases hz : z = 0
  · rw [hz, mul_zero]
  · rw [(ZMod.euler_criterion p hz).mp h, one_mul]

theorem sqrt_sq_of_not_isSquare {z : ZMod p} (h : ¬IsSquare z) :
    (z ^ ((p + 1) / 4)) ^ 2 = -z := by
  have hz : z ≠ 0 := fun h0 => h (h0 ▸ IsSquare.zero)
  have hpow := (ZMod.pow_div_two_eq_neg_one_or_one p hz).resolve_left fun h1 =>
    h ((ZMod.euler_criterion p hz).mpr h1)
  rw [← pow_mul, show (p + 1) / 4 * 2 = p / 2 + 1 by decide, pow_succ, hpow, neg_one_mul]

/-- `x³ - 3x + b` -/
def rhs (X : ZMod p) : ZMod p := Jac.cubic bCoeff X

theorem rhs_eq (X : ZMod p) : rhs X = X ^ 3 - 3 * X + bCoeff := rfl

/-- An abscissa of the main curve passes the square root test. -/
theorem isSquare_of_hasX {A : E.Point} {X : ZMod p} (h : HasX A X) : IsSquare (rhs X) := by
  obtain ⟨y, hn, -⟩ := h
  exact ⟨y, by rw [← pow_two, main_nonsingular_iff.mp hn, rhs_eq]⟩

/-- An abscissa of the twist fails it. -/
theorem not_isSquare_of_hasX {A : E'.Point} {X : ZMod p}
    (h : HasX A (-X)) : ¬IsSquare (rhs X) := by
  rintro ⟨r, hr⟩
  have hA := h.ne_zero
  obtain ⟨y, hn, rfl⟩ := h
  have hy : y ^ 2 = -r ^ 2 := by
    rw [twist_nonsingular_iff.mp hn, pow_two r, ← hr, rhs_eq]; ring
  by_cases hr0 : r = 0
  · obtain rfl : y = 0 := by simpa [hr0] using hy
    exact twist_two_nsmul_ne hA (two_nsmul_of_y_eq_zero hn)
  · exact ZMod.mod_four_ne_three_of_sq_eq_neg_sq' hr0 hy (by decide)

theorem hasX_mainG : HasX mainG 2 := ⟨_, _, rfl⟩

theorem hasX_twistG : HasX twistG (-0) := by
  rw [neg_zero]; exact ⟨_, _, rfl⟩

section Run
variable (junk : Junk) (x s : Fin 21 → Byte)

/-- The point the multiplication starts from. -/
def startY (x : Fin 21 → Byte) : ZMod p := rhs (leNat x) ^ ((p + 1) / 4)

theorem start_holds : Holds ⟨bin21ToFelem junk.past x, rootOf (bin21ToFelem junk.past x), one⟩
    ⟨leNat x, startY x, 1⟩ :=
  ⟨bin21ToFelem_is _ _, (bin21ToFelem_is _ _).curveZ.sqrt, one_is⟩

/-- The starting point on the twist. -/
theorem twist_start_holds : Holds ⟨felemNeg (bin21ToFelem junk.past x),
    rootOf (bin21ToFelem junk.past x), one⟩ ⟨-(leNat x : ZMod p), startY x, 1⟩ :=
  have hs := start_holds junk x
  ⟨hs.x.neg, hs.y, hs.z⟩

/-- The test finds the abscissas of the main curve. -/
theorem onTwist_eq_false_iff :
    onTwist (bin21ToFelem junk.past x) = false ↔ IsSquare (rhs (leNat x)) := by
  have hz := (bin21ToFelem_is junk.past x).curveZ
  have hr := (hz.sqrt.is64.square.diff64 hz.mono).mono.reduce
  rw [onTwist, Bool.not_eq_false']
  refine hr.isZero_iff.trans ?_
  rw [sub_eq_zero]
  change startY x ^ 2 = rhs (leNat x) ↔ _
  by_cases h : IsSquare (rhs (leNat x))
  · exact iff_of_true (sqrt_sq_of_isSquare h) h
  · refine iff_of_false (fun he => ?_) h
    rw [startY, sqrt_sq_of_not_isSquare h, neg_eq_iff_add_eq_zero, ← two_mul, mul_eq_zero] at he
    exact h (he.resolve_left two_ne_zero_p ▸ IsSquare.zero)

theorem onTwist_eq_true_iff :
    onTwist (bin21ToFelem junk.past x) = true ↔ ¬IsSquare (rhs (leNat x)) := by
  rw [← onTwist_eq_false_iff junk, Bool.not_eq_false]

variable {junk x s}

theorem main_nonsingular (h : IsSquare (rhs (leNat x))) :
    E.Nonsingular (leNat x : ZMod p) (startY x) := by
  rw [main_nonsingular_iff, startY, sqrt_sq_of_isSquare h, rhs_eq]

theorem twist_nonsingular (h : ¬IsSquare (rhs (leNat x))) :
    E'.Nonsingular (-(leNat x : ZMod p)) (startY x) := by
  rw [twist_nonsingular_iff, startY, sqrt_sq_of_not_isSquare h, rhs_eq]; ring

variable (junk s) in
/-- On the main curve the result is the abscissa of the multiple. -/
theorem ptwistPointmul_main_eq (h : IsSquare (rhs (leNat x))) :
    ∃ Q, IsPoint bCoeff Q (leNat s • .some _ _ (main_nonsingular h)) ∧
      ptwistPointmul junk x s = felemToBin21 (affineX junk.qx Q) := by
  have hP := isPoint_affine (start_holds junk x) (main_nonsingular h)
  refine ⟨_, hP.mul (main_small_nsmul_ne (Affine.Point.some_ne_zero _)) s, ?_⟩
  rw [ptwistPointmul_eq]
  simp only [(onTwist_eq_false_iff junk x).mpr h, Bool.false_eq_true, if_false]

variable (junk s) in
/-- On the twist both abscissas are negated. -/
theorem ptwistPointmul_twist_eq (h : ¬IsSquare (rhs (leNat x))) :
    ∃ Q, IsPoint (-bCoeff) Q (leNat s • .some _ _ (twist_nonsingular h)) ∧
      ptwistPointmul junk x s = felemToBin21 (felemNeg (affineX junk.qx Q)) := by
  have hP := isPoint_affine (twist_start_holds junk x) (twist_nonsingular h)
  refine ⟨_, hP.mul (twist_small_nsmul_ne (Affine.Point.some_ne_zero _)) s, ?_⟩
  rw [ptwistPointmul_eq]
  simp only [(onTwist_eq_true_iff junk x).mpr h, if_true]

theorem IsMin.val_eq {a : Felem} {x : ZMod p} (h : IsMin a x) : a.val = x.val := by
  rw [← h.eq, ZMod.val_cast_of_lt h.lt]

/-- On the main curve the abscissa of the multiple is written in full. -/
theorem ptwistPointmul_main {A : E.Point} {u : ZMod p} (h : IsSquare (rhs (leNat x)))
    (hA : HasX A (leNat x)) (hu : HasX (leNat s • A) u) :
    ptwistPointmul junk x s = encode 21 u.val := by
  obtain ⟨Q, hQ, he⟩ := ptwistPointmul_main_eq junk s h
  have hm : IsMin (affineX junk.qx Q) u := hQ.affineX (hA.nsmul ⟨_, _, rfl⟩ hu)
  rw [he, felemToBin21_eq hm.h0 hm.h1, hm.val_eq]

/-- On the twist it is written as `felem_neg` leaves it. -/
theorem ptwistPointmul_twist {A : E'.Point} {v : ZMod p} (h : ¬IsSquare (rhs (leNat x)))
    (hA : HasX A (-(leNat x : ZMod p))) (hv : HasX (leNat s • A) v) :
    ptwistPointmul junk x s = encode 21 (negVal v.val) := by
  obtain ⟨Q, hQ, he⟩ := ptwistPointmul_twist_eq junk s h
  have hm : IsMin (affineX junk.qx Q) v := hQ.affineX (hA.nsmul ⟨_, _, rfl⟩ hv)
  obtain ⟨h0, h1, -, hval⟩ := felemNeg_val hm.h0 hm.h1 hm.h2.le
  rw [he, felemToBin21_eq h0 h1, hval, hm.val_eq]

/-- At infinity the memory of `Qx` is written. -/
theorem ptwistPointmul_main_zero {A : E.Point} (h : IsSquare (rhs (leNat x)))
    (hA : HasX A (leNat x)) (h0 : leNat s • A = 0) :
    ptwistPointmul junk x s = felemToBin21 junk.qx := by
  obtain ⟨Q, hQ, he⟩ := ptwistPointmul_main_eq junk s h
  rw [hA.nsmul_eq_zero ⟨_, _, rfl⟩ h0] at hQ
  rw [he, hQ.affineX_zero]

theorem ptwistPointmul_twist_zero {A : E'.Point} (h : ¬IsSquare (rhs (leNat x)))
    (hA : HasX A (-(leNat x : ZMod p))) (h0 : leNat s • A = 0) :
    ptwistPointmul junk x s = felemToBin21 (felemNeg junk.qx) := by
  obtain ⟨Q, hQ, he⟩ := ptwistPointmul_twist_eq junk s h
  rw [hA.nsmul_eq_zero ⟨_, _, rfl⟩ h0] at hQ
  rw [he, hQ.affineX_zero]

end Run

/-- `felem_inv` and `felem_sqrt` reach their exponents on slices below `2^58`, so the test of
    `ptwist_pointmul` is exact and off the main curve the candidate is a root of the opposite. -/
theorem inv_sqrt_onTwist :
    (∀ (a : Felem) (v : ZMod p), Is64 58 a v →
      Is56 (felemInv a) (v ^ (p - 2)) ∧ (v ≠ 0 → ((felemInv a).val : ZMod p) * a.val = 1) ∧
        Is56 (felemSqrt a) (v ^ ((p + 1) / 4))) ∧
      ∀ (junk : Junk) (x : Fin 21 → Byte),
        (onTwist (bin21ToFelem junk.past x) = false ↔ IsSquare (rhs (leNat x))) ∧
          (onTwist (bin21ToFelem junk.past x) = true →
            ((rootOf (bin21ToFelem junk.past x)).val : ZMod p) ^ 2 = -rhs (leNat x)) := by
  constructor
  · intro a v h
    refine ⟨h.inv, fun hv => ?_, h.sqrt⟩
    rw [h.inv.eq, h.eq, pow_sub_two hv, inv_mul_cancel₀ hv]
  · intro junk x
    refine ⟨onTwist_eq_false_iff junk x, fun htw => ?_⟩
    rw [(start_holds junk x).y.eq]
    exact sqrt_sq_of_not_isSquare ((onTwist_eq_true_iff junk x).mp htw)

/-- The inverse of three, and the test at the largest encoding. -/
theorem inv_sqrt_onTwist_three :
    ((felemInv three).val : ZMod p) * three.val = 1 ∧
      (onTwist (bin21ToFelem 0#8 (encode 21 (2 ^ 168 - 1))) = false ↔
        IsSquare (rhs (leNat (encode 21 (2 ^ 168 - 1))))) :=
  ⟨(inv_sqrt_onTwist.1 three 3 (three_is.mono (by decide))).2.1
    (natCast_ne_zero_p (m := 3) (by decide) (by decide)), (inv_sqrt_onTwist.2 ⟨0#8, three⟩ _).1⟩

/-! ### What the function is for -/

/-- `u` is the abscissa the multiplication of `X` by `s` should return: on the main curve if `X` is
    one of its abscissas, else on the twist with both abscissas negated. -/
def XMult (X : ZMod p) (s : ℕ) (u : ZMod p) : Prop :=
  (IsSquare (rhs X) ∧ ∃ A : E.Point, HasX A X ∧ HasX (s • A) u) ∨
    (¬IsSquare (rhs X) ∧ ∃ A : E'.Point, HasX A (-X) ∧ HasX (s • A) (-u))

/-- The inputs `felem_neg` spoils: the multiple lies on the twist, over one of the abscissas
    `-257, …, -513`. -/
def Spoiled (X : ZMod p) (s : ℕ) : Prop :=
  ¬IsSquare (rhs X) ∧ ∃ A : E'.Point, HasX A (-X) ∧
    ∃ w : ℕ, 257 ≤ w ∧ w ≤ 513 ∧ HasX (s • A) (-(w : ZMod p))

theorem negVal_neg (u : ZMod p) :
    negVal (-u).val = if 257 ≤ u.val ∧ u.val ≤ 513 then p + u.val else u.val := by
  have hlt := u.val_lt
  have hp : p = 2 ^ 168 - 2 ^ 8 - 1 := rfl
  by_cases hu : u = 0
  · simp [hu, negVal]
  have hneg := ZMod.neg_val u
  rw [if_neg hu] at hneg
  have hpos : 0 < u.val := Nat.pos_of_ne_zero (by simpa using hu)
  rw [negVal, hneg, if_neg (by omega)]
  split_ifs <;> omega

/-- The encodings of `u` and of what `felem_neg` leaves agree unless it left `p + u`. -/
theorem encode_negVal_iff (u : ZMod p) :
    encode 21 (negVal (-u).val) = encode 21 u.val ↔ ¬(257 ≤ u.val ∧ u.val ≤ 513) := by
  have hlt := u.val_lt
  have hp : p = 2 ^ 168 - 2 ^ 8 - 1 := rfl
  rw [negVal_neg, encode_inj, show (256 : ℕ) ^ 21 = 2 ^ 168 by decide]
  split_ifs with h
  · rw [show p + u.val = u.val - 257 + 2 ^ 168 by omega, Nat.add_mod_right,
      Nat.mod_eq_of_lt (by omega), Nat.mod_eq_of_lt (by omega)]
    omega
  · simp [h]

theorem XMult.spoiled_iff {X u : ZMod p} {s : ℕ} (h : XMult X s u) :
    Spoiled X s ↔ ¬IsSquare (rhs X) ∧ 257 ≤ u.val ∧ u.val ≤ 513 := by
  rcases h with ⟨hsq, -⟩ | ⟨hns, A, hA, hu⟩
  · simp [Spoiled, hsq]
  constructor
  · rintro ⟨-, B, hB, w, h1, h2, hw⟩
    have huw := neg_injective ((hB.nsmul hA hw).unique hu)
    rw [← huw, ZMod.val_cast_of_lt (by rw [p]; omega)]
    exact ⟨hns, h1, h2⟩
  · rintro ⟨-, h1, h2⟩
    exact ⟨hns, A, hA, u.val, h1, h2, by simpa using hu⟩

/-- The result is the encoding of the canonical abscissa exactly off the spoiled inputs. -/
theorem ptwistPointmul_eq_iff (junk : Junk) (x s : Fin 21 → Byte) {u : ZMod p}
    (h : XMult (leNat x) (leNat s) u) :
    ptwistPointmul junk x s = encode 21 u.val ↔ ¬Spoiled (leNat x) (leNat s) := by
  rw [h.spoiled_iff]
  rcases h with ⟨hsq, A, hA, hu⟩ | ⟨hns, A, hA, hu⟩
  · exact iff_of_true (ptwistPointmul_main hsq hA hu) fun hn => hn.1 hsq
  · rw [ptwistPointmul_twist hns hA hu, encode_negVal_iff]
    tauto

/-- For every input, `ptwist_pointmul` writes the canonical abscissa of the multiple exactly when
    the input is not spoiled. -/
theorem ptwistPointmul_correct_iff (junk : Junk) (x s : Fin 21 → Byte) :
    (∀ u, XMult (leNat x) (leNat s) u → ptwistPointmul junk x s = encode 21 u.val) ↔
      ¬Spoiled (leNat x) (leNat s) := by
  constructor
  · intro h hsp
    obtain ⟨hns, A, hA, w, -, -, hw⟩ := id hsp
    have hu : XMult (leNat x) (leNat s) (w : ZMod p) := Or.inr ⟨hns, A, hA, hw⟩
    exact (ptwistPointmul_eq_iff junk x s hu).mp (h _ hu) hsp
  · exact fun h u hu => (ptwistPointmul_eq_iff junk x s hu).mpr h

/-- A residue is no square if its power `p / 2` is not one. -/
theorem not_isSquare_of_powMod {n : ℕ} (h0 : (n : ZMod p) ≠ 0)
    (h : Lucas.powMod p n 21 (p / 2) ≠ 1) : ¬IsSquare (n : ZMod p) := by
  rw [ZMod.euler_criterion p h0]
  exact fun h1 => h ((Lucas.powMod_eq_one_iff (by decide) (by decide)).mpr h1)

/-- The abscissa 257 is one of the twist. -/
theorem rhs_257_not_isSquare : ¬IsSquare (rhs 257) := by
  have hr : rhs 257 = ((257 ^ 3 - 3 * 257 + b.val : ℕ) : ZMod p) := by
    rw [rhs_eq, bCoeff]; push_cast; norm_num
  rw [hr]
  exact not_isSquare_of_powMod (natCast_ne_zero_p (by decide) (by decide)) (by decide)

/-- Multiplying the abscissa 257 by one should return 257 and returns 0. -/
theorem ptwistPointmul_257 :
    XMult (leNat (encode 21 257)) (leNat (encode 21 1)) 257 ∧
      ∀ junk, ptwistPointmul junk (encode 21 257) (encode 21 1) = encode 21 0 ∧
        encode 21 0 ≠ encode 21 (257 : ZMod p).val := by
  have hx : leNat (encode 21 257) = 257 := leNat_encode 21 257
  have hs : leNat (encode 21 1) = 1 := leNat_encode 21 1
  have hX : ((leNat (encode 21 257) : ℕ) : ZMod p) = 257 := by rw [hx]; norm_num
  have hns : ¬IsSquare (rhs (leNat (encode 21 257))) := by rw [hX]; exact rhs_257_not_isSquare
  have hA : HasX (Affine.Point.some _ _ (twist_nonsingular hns) : E'.Point)
      (-(leNat (encode 21 257) : ZMod p)) := ⟨_, _, rfl⟩
  have hu : HasX (leNat (encode 21 1) • (Affine.Point.some _ _ (twist_nonsingular hns) : E'.Point))
      (-257 : ZMod p) := by
    rw [hs, one_nsmul, ← hX]; exact hA
  have hv : (257 : ZMod p).val = 257 := ZMod.val_natCast_of_lt (n := p) (a := 257) (by decide)
  refine ⟨Or.inr ⟨hns, _, hA, hu⟩, fun junk => ⟨?_, ?_⟩⟩
  · rw [ptwistPointmul_twist hns hA hu, negVal_neg, hv, encode_inj]
    decide
  · rw [hv, ne_eq, encode_inj]
    decide

end Telex.Ptwist
