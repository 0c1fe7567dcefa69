import Telex.Ptwist.Group
import Telex.Ptwist.NoWrap

/-! Doubling and addition of `tag/ptwist168.cpp` on arrays

    Here the coordinates are arrays that are read and written one after another, and the output of an
    addition may be the arrays of its first operand, as in every window of `point_mul`. Inputs are read
    again after outputs were written: by the doubling for `y + z`, and by the six copies at the end of
    the addition, for a point at infinity. The functions of `Point.lean` say what is left in the output
    arrays with separate outputs and in place. -/

namespace Telex.Ptwist.Arrays
open Checked (Reduced)

/-- What is in each array. -/
abbrev Mem (Loc : Type) := Loc → Felem

/-- The three arrays of a `point`. -/
structure Cells (Loc : Type) where
  x : Loc
  y : Loc
  z : Loc
  x_ne_y : x ≠ y
  x_ne_z : x ≠ z
  y_ne_z : y ≠ z

variable {Loc : Type}

def Cells.load (A : Cells Loc) (m : Mem Loc) : Point := ⟨m A.x, m A.y, m A.z⟩

/-- The array `l` is none of a point's. -/
def Cells.Avoids (A : Cells Loc) (l : Loc) : Prop := l ≠ A.x ∧ l ≠ A.y ∧ l ≠ A.z

/-- Two points have no array in common. -/
def Cells.Apart (A B : Cells Loc) : Prop := B.Avoids A.x ∧ B.Avoids A.y ∧ B.Avoids A.z

variable {O A B : Cells Loc} {inplace z1 z2 : Bool}

/-- In place the output is the first operand, else it has arrays of its own. -/
def Placed {α : Type} (apart : α → α → Prop) (inplace : Bool) (o a : α) : Prop :=
  if inplace then o = a else apart o a

theorem Placed.coords (h : Placed Cells.Apart inplace O A) :
    Placed Ne inplace O.x A.x ∧ Placed Ne inplace O.y A.y ∧ Placed Ne inplace O.z A.z := by
  cases inplace with
  | true =>
    obtain rfl : O = A := h
    exact ⟨rfl, rfl, rfl⟩
  | false => exact ⟨h.1.1, h.2.1.2.1, h.2.2.2.2⟩

/-- A coordinate of the first operand is not another one of the output. -/
theorem Placed.others (h : Placed Cells.Apart inplace O A) :
    A.y ≠ O.x ∧ A.z ≠ O.x ∧ A.z ≠ O.y := by
  cases inplace with
  | true =>
    obtain rfl : O = A := h
    exact ⟨O.x_ne_y.symm, O.x_ne_z.symm, O.y_ne_z.symm⟩
  | false => exact ⟨h.1.2.1.symm, h.1.2.2.symm, h.2.1.2.2.symm⟩

variable [DecidableEq Loc]

/-! ### The routines -/

def write (l : Loc) (a : Felem) (m : Mem Loc) : Mem Loc := Function.update m l a

/-- `copy_conditional(out, in, 3, icopy)` -/
def copyConditional (out inp : Loc) (icopy : Bool) (m : Mem Loc) : Mem Loc :=
  write out (Ptwist.copyConditional (m out) (m inp) icopy) m

/-- `point_double` -/
def pointDouble (O A : Cells Loc) (m : Mem Loc) : Mem Loc :=
  let delta := sqr (m A.z)
  let gamma := sqr (m A.y)
  let beta := mul (m A.x) gamma
  -- alpha = 3*(x-delta)*(x+delta)
  let ftmp := felemDiff64 (m A.x) delta
  let ftmp2 := felemScalar64 (felemSum64 (m A.x) delta) 3#64
  let alpha := mul ftmp ftmp2
  -- x' = alpha^2 - 8*beta
  let ftmp := felemScalar64 beta 8#64
  let m := write O.x (felemReduce (felemDiff12864 (felemSquare alpha) ftmp)) m
  -- z' = (y + z)^2 - gamma - delta
  let delta := felemSum64 delta gamma
  let ftmp := felemSum64 (m A.y) (m A.z)
  let m := write O.z (felemReduce (felemDiff12864 (felemSquare ftmp) delta)) m
  -- y' = alpha*(4*beta - x') - 8*gamma^2
  let beta := felemDiff64 (felemScalar64 beta 4#64) (m O.x)
  let tmp2 := felemScalar128 (felemSquare gamma) 8#128
  write O.y (felemReduce (felemDiff128 (felemMul alpha beta) tmp2)) m

/-- The copies at the end of `point_add`: if point 1 is at infinity, copy point 2 to output, and vice
    versa. -/
def copies (O A B : Cells Loc) (z1IsZero z2IsZero : Bool) (m : Mem Loc) : Mem Loc :=
  let m := copyConditional O.x B.x z1IsZero m
  let m := copyConditional O.x A.x z2IsZero m
  let m := copyConditional O.y B.y z1IsZero m
  let m := copyConditional O.y A.y z2IsZero m
  let m := copyConditional O.z B.z z1IsZero m
  copyConditional O.z A.z z2IsZero m

/-- `point_add` -/
def pointAdd (O A B : Cells Loc) (m : Mem Loc) : Mem Loc :=
  let ftmp := sqr (m A.z)
  let ftmp2 := sqr (m B.z)
  let ftmp3 := mul ftmp (m A.z)
  let ftmp4 := mul ftmp2 (m B.z)
  -- ftmp3 = z1^3*y2 - z2^3*y1
  let tmp := felemMul ftmp3 (m B.y)
  let ftmp4 := mul ftmp4 (m A.y)
  let ftmp3 := felemReduce (felemDiff12864 tmp ftmp4)
  -- ftmp = z1^2*x2 - z2^2*x1
  let tmp := felemMul ftmp (m B.x)
  let tmp2 := felemMul ftmp2 (m A.x)
  let ftmp2 := felemReduce tmp2
  let ftmp := felemReduce (felemDiff128 tmp tmp2)
  let xEqual := felemIsZero ftmp
  let yEqual := felemIsZero ftmp3
  let z1IsZero := felemIsZero (m A.z)
  let z2IsZero := felemIsZero (m B.z)
  if xEqual && yEqual && !z1IsZero && !z2IsZero then pointDouble O A m
  else
    let ftmp5 := mul (m A.z) (m B.z)
    let m := write O.z (mul ftmp ftmp5) m
    let ftmp5 := ftmp
    let ftmp := sqr ftmp
    let ftmp5 := mul ftmp ftmp5
    let ftmp2 := mul ftmp2 ftmp
    -- tmp = z2^3*y1*(z1^2*x2 - z2^2*x1)^3
    let tmp := felemMul ftmp4 ftmp5
    let tmp2 := felemDiff12864 (felemSquare ftmp3) ftmp5
    let ftmp5 := felemScalar64 ftmp2 2#64
    let m := write O.x (felemReduce (felemDiff12864 tmp2 ftmp5)) m
    let ftmp2 := felemDiff64 ftmp2 (m O.x)
    let m := write O.y (felemReduce (felemDiff128 (felemMul ftmp3 ftmp2) tmp)) m
    copies O A B z1IsZero z2IsZero m

variable {l l' : Loc} {a : Felem} {m : Mem Loc}

@[simp] theorem write_self : write l a m l = a := Function.update_self ..

@[simp] theorem write_of_ne (h : l' ≠ l) : write l a m l' = m l' := Function.update_of_ne h ..

/-! ### What is left in the output -/

/-- Doubling may be in place: `y` and `z` are read before they are written. -/
theorem load_pointDouble (h : Placed Cells.Apart inplace O A) :
    O.load (pointDouble O A m) = Ptwist.pointDouble (A.load m) := by
  obtain ⟨hyx, hzx, _⟩ := h.others
  unfold pointDouble
  extract_lets delta gamma beta ftmp ftmp2 alpha ftmp' m₁ delta' ftmp'' m₂ beta' tmp2
  have hsum : ftmp'' = felemSum64 (m A.y) (m A.z) :=
    congrArg₂ felemSum64 (write_of_ne hyx) (write_of_ne hzx)
  have hx : m₂ O.x = felemReduce (felemDiff12864 (felemSquare alpha) ftmp') :=
    (write_of_ne O.x_ne_z).trans write_self
  have hz : m₂ O.z = felemReduce (felemDiff12864 (felemSquare (felemSum64 (m A.y) (m A.z))) delta') :=
    hsum ▸ write_self
  have hbeta : beta' = felemDiff64 (felemScalar64 beta 4#64)
      (felemReduce (felemDiff12864 (felemSquare alpha) ftmp')) := by
    simp only [beta', hx]
  rw [Cells.load, write_of_ne O.x_ne_y, write_self, write_of_ne O.y_ne_z.symm, hx, hz, hbeta]
  rfl

/-- What the two copies of a coordinate leave in the output array, which had `c`. -/
def select (inplace : Bool) (c a b : Felem) (z1IsZero z2IsZero : Bool) : Felem :=
  Ptwist.copyConditional (Ptwist.copyConditional c b z1IsZero)
    (if inplace then Ptwist.copyConditional c b z1IsZero else a) z2IsZero

/-- The two copies of a coordinate. -/
def copyBoth (out in1 in2 : Loc) (z1IsZero z2IsZero : Bool) (m : Mem Loc) : Mem Loc :=
  copyConditional out in1 z2IsZero (copyConditional out in2 z1IsZero m)

variable {out in1 in2 : Loc}

theorem copyBoth_of_ne (h : l ≠ out) : copyBoth out in1 in2 z1 z2 m l = m l := by
  rw [copyBoth, copyConditional, write_of_ne h, copyConditional, write_of_ne h]

/-- In place the second copy reads what the first one wrote. -/
theorem copyBoth_out (h : Placed Ne inplace out in1) :
    copyBoth out in1 in2 z1 z2 m out = select inplace (m out) (m in1) (m in2) z1 z2 := by
  rw [copyBoth, copyConditional, write_self, copyConditional, write_self]
  cases inplace with
  | true =>
    obtain rfl : out = in1 := h
    rw [write_self]
    rfl
  | false =>
    rw [write_of_ne (Ne.symm h)]
    rfl

theorem load_copies (h : Placed Cells.Apart inplace O A) (hB : O.Apart B) :
    O.load (copies O A B z1 z2 m) = ⟨select inplace (m O.x) (m A.x) (m B.x) z1 z2,
      select inplace (m O.y) (m A.y) (m B.y) z1 z2, select inplace (m O.z) (m A.z) (m B.z) z1 z2⟩ := by
  have hcopies : copies O A B z1 z2 m = copyBoth O.z A.z B.z z1 z2
    (copyBoth O.y A.y B.y z1 z2 (copyBoth O.x A.x B.x z1 z2 m)) := rfl
  obtain ⟨hyx, hzx, hzy⟩ := h.others
  obtain ⟨hx, hy, hz⟩ := h.coords
  obtain ⟨⟨_, hxy, hxz⟩, ⟨_, _, hyz⟩, _⟩ := hB
  rw [Cells.load, hcopies]
  -- each coordinate is written by its own copies, and the others leave what they read
  rw [copyBoth_of_ne O.x_ne_z, copyBoth_of_ne O.x_ne_y, copyBoth_out hx]
  rw [copyBoth_of_ne O.y_ne_z, copyBoth_out hy, copyBoth_of_ne O.x_ne_y.symm, copyBoth_of_ne hyx,
    copyBoth_of_ne hxy.symm]
  rw [copyBoth_out hz, copyBoth_of_ne O.y_ne_z.symm, copyBoth_of_ne O.x_ne_z.symm,
    copyBoth_of_ne hzy, copyBoth_of_ne hzx, copyBoth_of_ne hyz.symm, copyBoth_of_ne hxz.symm]

/-- Three writes to the output, in the order of `point_add`. -/
def store (O : Cells Loc) (P : Point) (m : Mem Loc) : Mem Loc :=
  write O.y P.y (write O.x P.x (write O.z P.z m))

theorem load_store (P : Point) : O.load (store O P m) = P := by
  rw [Cells.load, store, write_of_ne O.x_ne_y, write_self, write_self, write_of_ne O.y_ne_z.symm,
    write_of_ne O.x_ne_z.symm, write_self]

theorem load_store_apart {P : Point} (h : O.Apart B) : B.load (store O P m) = B.load m := by
  obtain ⟨⟨hxx, hxy, hxz⟩, ⟨hyx, hyy, hyz⟩, ⟨hzx, hzy, hzz⟩⟩ := h
  rw [Cells.load, store, write_of_ne hyx.symm, write_of_ne hxx.symm, write_of_ne hzx.symm,
    write_of_ne hyy.symm, write_of_ne hxy.symm, write_of_ne hzy.symm, write_of_ne hyz.symm,
    write_of_ne hxz.symm, write_of_ne hzz.symm]
  rfl

/-- The copies behind the three writes. -/
theorem load_copies_store {P : Point} (h : Placed Cells.Apart inplace O A) (hB : O.Apart B) :
    O.load (copies O A B z1 z2 (store O P m)) =
      ⟨select inplace P.x (m A.x) (m B.x) z1 z2, select inplace P.y (m A.y) (m B.y) z1 z2,
        select inplace P.z (m A.z) (m B.z) z1 z2⟩ := by
  obtain ⟨hOx, hOy, hOz⟩ := Point.mk.inj (load_store P : O.load (store O P m) = P)
  obtain ⟨hBx, hBy, hBz⟩ := Point.mk.inj (load_store_apart hB : B.load (store O P m) = B.load m)
  rw [load_copies h hB, hOx, hOy, hOz, hBx, hBy, hBz]
  cases inplace with
  | true => rfl
  | false =>
    obtain ⟨hAx, hAy, hAz⟩ := Point.mk.inj (load_store_apart h : A.load (store O P m) = A.load m)
    rw [hAx, hAy, hAz]

/-- `pointAdd` of `Point.lean` is what the call on arrays leaves. -/
theorem load_pointAdd (h : Placed Cells.Apart inplace O A) (hB : O.Apart B) :
    O.load (pointAdd O A B m) = Ptwist.pointAdd inplace (A.load m) (B.load m) := by
  unfold pointAdd Ptwist.pointAdd
  extract_lets ftmp ftmp2 ftmp3 ftmp4 tmp ftmp4' ftmp3' tmp' tmp2 ftmp2' ftmp' xEqual yEqual z1IsZero
    z2IsZero ftmp5 m₁ dx dx2 dx3 v tmp'' tmp2' v2 m₂ w m₃
  by_cases hg : (xEqual && yEqual && !z1IsZero && !z2IsZero) = true
  · exact (congrArg O.load (if_pos hg)).trans ((load_pointDouble h).trans (if_pos hg).symm)
  · refine (congrArg O.load (if_neg hg)).trans (Eq.trans ?_ (if_neg hg).symm)
    -- `x3` is read where it was just written
    have hx : m₂ O.x = felemReduce (felemDiff12864 tmp2' v2) := write_self
    have hm : m₃ = store O ⟨felemReduce (felemDiff12864 tmp2' v2),
        felemReduce (felemDiff128 (felemMul ftmp3'
          (felemDiff64 v (felemReduce (felemDiff12864 tmp2' v2)))) tmp''), mul ftmp' ftmp5⟩ m := by
      simp only [m₃, w, hx]
      rfl
    rw [hm]
    exact load_copies_store h hB

/-! ### In place and with separate outputs -/

theorem select_eq (c a b : Felem) : select inplace c a b z1 z2 =
    if z2 && !inplace then a else if z1 then b else c := by
  simp only [select, copyConditional_eq]
  cases inplace <;> cases z1 <;> cases z2 <;> rfl

variable {P Q : Point} {s t : Jac.Triple (ZMod p)}

/-- Of a second operand that is not at infinity nothing depends on where the output is. -/
theorem pointAdd_finite (h : felemIsZero Q.z = false) :
    Ptwist.pointAdd true P Q = Ptwist.pointAdd false P Q := by
  have hsel : ∀ c a b, select true c a b (felemIsZero P.z) (felemIsZero Q.z) =
      select false c a b (felemIsZero P.z) (felemIsZero Q.z) := by
    intro c a b
    rw [select_eq, select_eq, h]
    rfl
  unfold Ptwist.pointAdd
  extract_lets
  refine if_congr Iff.rfl rfl ?_
  exact congr (congrArg₂ Point.mk (hsel ..) (hsel ..)) (hsel ..)

/-- With a second operand at infinity the points are not doubled. -/
theorem not_equal (xEqual yEqual z1IsZero : Bool) (h : felemIsZero Q.z = true) :
    ¬ (xEqual && yEqual && !z1IsZero && !felemIsZero Q.z) = true := by
  rw [h]
  simp

/-- With separate outputs it leaves the first operand. -/
theorem pointAdd_separate (h : felemIsZero Q.z = true) : Ptwist.pointAdd false P Q = P := by
  have hsel : ∀ c a b, select false c a b (felemIsZero P.z) (felemIsZero Q.z) = a := by
    intro c a b
    rw [select_eq, h]
    rfl
  unfold Ptwist.pointAdd
  extract_lets
  refine (if_neg (not_equal _ _ _ h)).trans ?_
  exact congr (congrArg₂ Point.mk (hsel ..) (hsel ..)) (hsel ..)

/-- In place the first operand is lost: of two points at infinity the second is left. -/
theorem pointAdd_inplace (h : felemIsZero Q.z = true) (hz : felemIsZero P.z = true) :
    Ptwist.pointAdd true P Q = Q := by
  have hsel : ∀ c a b, select true c a b (felemIsZero P.z) (felemIsZero Q.z) = b := by
    intro c a b
    rw [select_eq, h, hz]
    rfl
  unfold Ptwist.pointAdd
  extract_lets
  refine (if_neg (not_equal _ _ _ h)).trans ?_
  exact congr (congrArg₂ Point.mk (hsel ..) (hsel ..)) (hsel ..)

/-- A finite point becomes one at infinity. -/
theorem pointAdd_inplace_z (hP : Holds P s) (hQ : Holds Q t) (h : felemIsZero Q.z = true)
    (hz : felemIsZero P.z = false) : Is56 (Ptwist.pointAdd true P Q).z 0 := by
  have hsel : ∀ c a b, select true c a b (felemIsZero P.z) (felemIsZero Q.z) = c := by
    intro c a b
    rw [select_eq, h, hz]
    rfl
  have htZ : t.Z = 0 := hQ.z.isZero_iff.mp h
  unfold Ptwist.pointAdd
  extract_lets ftmp ftmp2 ftmp3 ftmp4 tmp ftmp4' ftmp3' tmp' tmp2 ftmp2' ftmp' xEqual yEqual z1IsZero
    z2IsZero ftmp5
  rw [if_neg (not_equal _ _ _ h)]
  have h1 : Is56 ftmp (s.Z ^ 2) := hP.z.is58.sqr
  have h2 : Is56 ftmp2 (t.Z ^ 2) := hQ.z.is58.sqr
  have hdx : Is56 ftmp' (Jac.dx s t) :=
    ((h1.is64.mul hQ.x.is64).mono.diff (h2.is64.mul hP.x.is64).mono (k := 120)).mono.reduce
  have h5 : Is56 ftmp5 (s.Z * t.Z) := hP.z.is58.mulr hQ.z.is58
  have hz3 : Is56 (mul ftmp' ftmp5) 0 :=
    (hdx.is58.mulr h5.is58).of_eq (by rw [htZ, mul_zero, mul_zero])
  rw [← hsel (mul ftmp' ftmp5) P.z Q.z] at hz3
  exact hz3

/-- Value by value: an addition in place is one with separate outputs exactly when the second operand
    is not at infinity or is the first. -/
theorem pointAdd_inplace_iff (hP : Holds P s) (hQ : Holds Q t) :
    Ptwist.pointAdd true P Q = Ptwist.pointAdd false P Q ↔ (Q.z.val : ZMod p) ≠ 0 ∨ P = Q := by
  rw [hQ.z.eq, ne_eq, ← hQ.z.isZero_iff]
  cases h : felemIsZero Q.z with
  | false => exact iff_of_true (pointAdd_finite h) (.inl Bool.false_ne_true)
  | true =>
    rw [pointAdd_separate h]
    cases hz : felemIsZero P.z with
    | true =>
      rw [pointAdd_inplace h hz]
      exact ⟨fun h => .inr h.symm, fun h => (h.resolve_left (not_not.mpr rfl)).symm⟩
    | false =>
      have hlost := (pointAdd_inplace_z hP hQ h hz).isZero_iff.mpr rfl
      apply iff_of_false
      · intro heq
        rw [heq, hz] at hlost
        cases hlost
      · rintro (hne | rfl)
        · exact hne rfl
        · rw [h] at hz
          cases hz

/-- The two calls on arrays and the two functions on values. -/
theorem load_eq_iff (hAB : A.Apart B) (hOA : O.Apart A) (hOB : O.Apart B) :
    A.load (pointAdd A A B m) = O.load (pointAdd O A B m) ↔
      Ptwist.pointAdd true (A.load m) (B.load m) = Ptwist.pointAdd false (A.load m) (B.load m) := by
  have hin : A.load (pointAdd A A B m) = Ptwist.pointAdd true (A.load m) (B.load m) :=
    load_pointAdd (rfl : Placed Cells.Apart true A A) hAB
  have hout : O.load (pointAdd O A B m) = Ptwist.pointAdd false (A.load m) (B.load m) :=
    load_pointAdd (hOA : Placed Cells.Apart false O A) hOB
  rw [hin, hout]

/-- An addition in place leaves what one with separate outputs does exactly when the second operand is
    not at infinity or is the first. -/
theorem pointAdd_arrays_iff (hAB : A.Apart B) (hOA : O.Apart A) (hOB : O.Apart B)
    (hP : Reduced (A.load m)) (hQ : Reduced (B.load m)) :
    A.load (pointAdd A A B m) = O.load (pointAdd O A B m) ↔
      ((m B.z).val : ZMod p) ≠ 0 ∨ A.load m = B.load m := by
  obtain ⟨s, hP⟩ := hP
  obtain ⟨t, hQ⟩ := hQ
  rw [load_eq_iff hAB hOA hOB]
  exact pointAdd_inplace_iff hP hQ

/-- The arrays `3 i`, `3 i + 1` and `3 i + 2`. -/
def cells (i : ℕ) : Cells ℕ := ⟨3 * i, 3 * i + 1, 3 * i + 2, by omega, by omega, by omega⟩

theorem cells_apart {i j : ℕ} (h : i ≠ j) : (cells i).Apart (cells j) := by
  simp only [Cells.Apart, Cells.Avoids, cells]
  omega

/-- The arrays of a point, and behind them those of another. -/
def arrays (P Q : Point) : Mem ℕ
  | 0 => P.x
  | 1 => P.y
  | 2 => P.z
  | 3 => Q.x
  | 4 => Q.y
  | _ => Q.z

theorem pointAdd_arrays_basePoint : (((arrays Point.zero basePoint) (cells 1).z).val : ZMod p) ≠ 0 ∧
    (cells 0).load (pointAdd (cells 0) (cells 0) (cells 1) (arrays Point.zero basePoint)) =
      (cells 2).load (pointAdd (cells 2) (cells 0) (cells 1) (arrays Point.zero basePoint)) := by
  have hz : (((arrays Point.zero basePoint) (cells 1).z).val : ZMod p) ≠ 0 := by
    rw [show (((arrays Point.zero basePoint) (cells 1).z).val : ZMod p) = 1 from basePoint_holds.z.eq]
    exact one_ne_zero
  refine ⟨hz, (pointAdd_arrays_iff (cells_apart (by decide)) (cells_apart (by decide))
    (cells_apart (by decide)) ?_ ?_).mpr (.inl hz)⟩
  · exact Reduced.zero
  · exact ⟨_, basePoint_holds⟩

/-- The base point and the point at infinity: in place the base point is lost. -/
theorem infinity_lost :
    ¬ (cells 0).load (pointAdd (cells 0) (cells 0) (cells 1) (arrays basePoint Point.zero)) =
      (cells 2).load (pointAdd (cells 2) (cells 0) (cells 1) (arrays basePoint Point.zero)) := by
  rw [load_eq_iff (cells_apart (by decide)) (cells_apart (by decide)) (cells_apart (by decide))]
  obtain ⟨t, hzero⟩ := Reduced.zero
  intro h
  rcases (pointAdd_inplace_iff basePoint_holds hzero).mp h with hz | heq
  · exact hz (by decide)
  · exact absurd heq (by decide)

end Telex.Ptwist.Arrays
