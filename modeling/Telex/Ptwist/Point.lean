import Telex.Lib.Jacobian
import Telex.Ptwist.Bytes
import Telex.Ptwist.Minimal
import Telex.Ptwist.Power
import Telex.Ptwist.Prime

/-! Points of `tag/ptwist168.cpp`

    Doubling, addition, the table of the first sixteen multiples and the windowed multiplication.
    The addition is called both with separate outputs and in place; in place, the last three
    conditional copies read the coordinates that were just written, and `inplace` says which. -/

namespace Telex.Ptwist

/-- `coord point[3]`, Jacobian coordinates. -/
structure Point where
  x : Felem
  y : Felem
  z : Felem
  deriving DecidableEq

/-- `memset(P, 0, sizeof(point))` -/
def Point.zero : Point := ⟨⟨0, 0, 0⟩, ⟨0, 0, 0⟩, ⟨0, 0, 0⟩⟩

/-- Copy `in` to `out` if `icopy`, else leave `out`. -/
def copyConditional (out inp : Felem) (icopy : Bool) : Felem :=
  let copy : Fslice := -(if icopy then 1#64 else 0#64)
  ⟨out.l0 ^^^ (copy &&& (inp.l0 ^^^ out.l0)), out.l1 ^^^ (copy &&& (inp.l1 ^^^ out.l1)),
    out.l2 ^^^ (copy &&& (inp.l2 ^^^ out.l2))⟩

/-- Double a point. -/
def pointDouble (P : Point) : Point :=
  let delta := sqr P.z
  let gamma := sqr P.y
  let beta := mul P.x gamma
  -- alpha = 3*(x-delta)*(x+delta)
  let ftmp := felemDiff64 P.x delta
  let ftmp2 := felemScalar64 (felemSum64 P.x delta) 3#64
  let alpha := mul ftmp ftmp2
  -- x' = alpha^2 - 8*beta
  let ftmp := felemScalar64 beta 8#64
  let xOut := felemReduce (felemDiff12864 (felemSquare alpha) ftmp)
  -- z' = (y + z)^2 - gamma - delta
  let delta := felemSum64 delta gamma
  let ftmp := felemSum64 P.y P.z
  let zOut := felemReduce (felemDiff12864 (felemSquare ftmp) delta)
  -- y' = alpha*(4*beta - x') - 8*gamma^2
  let beta := felemDiff64 (felemScalar64 beta 4#64) xOut
  let tmp2 := felemScalar128 (felemSquare gamma) 8#128
  ⟨xOut, felemReduce (felemDiff128 (felemMul alpha beta) tmp2), zOut⟩

/-- Add two points; `inplace` when the output is the first operand. -/
def pointAdd (inplace : Bool) (P Q : Point) : Point :=
  let ftmp := sqr P.z
  let ftmp2 := sqr Q.z
  let ftmp3 := mul ftmp P.z
  let ftmp4 := mul ftmp2 Q.z
  -- ftmp3 = z1^3*y2 - z2^3*y1
  let tmp := felemMul ftmp3 Q.y
  let ftmp4 := mul ftmp4 P.y
  let ftmp3 := felemReduce (felemDiff12864 tmp ftmp4)
  -- ftmp = z1^2*x2 - z2^2*x1
  let tmp := felemMul ftmp Q.x
  let tmp2 := felemMul ftmp2 P.x
  let ftmp2 := felemReduce tmp2
  let ftmp := felemReduce (felemDiff128 tmp tmp2)
  let xEqual := felemIsZero ftmp
  let yEqual := felemIsZero ftmp3
  let z1IsZero := felemIsZero P.z
  let z2IsZero := felemIsZero Q.z
  if xEqual && yEqual && !z1IsZero && !z2IsZero then pointDouble P
  else
    let ftmp5 := mul P.z Q.z
    let z3 := mul ftmp ftmp5
    let ftmp5 := ftmp
    let ftmp := sqr ftmp
    let ftmp5 := mul ftmp ftmp5
    let ftmp2 := mul ftmp2 ftmp
    -- tmp = z2^3*y1*(z1^2*x2 - z2^2*x1)^3
    let tmp := felemMul ftmp4 ftmp5
    let tmp2 := felemDiff12864 (felemSquare ftmp3) ftmp5
    let ftmp5 := felemScalar64 ftmp2 2#64
    let x3 := felemReduce (felemDiff12864 tmp2 ftmp5)
    let ftmp2 := felemDiff64 ftmp2 x3
    let y3 := felemReduce (felemDiff128 (felemMul ftmp3 ftmp2) tmp)
    -- if one of the inputs is the point at infinity, copy the other
    let x3 := copyConditional x3 Q.x z1IsZero
    let x3 := copyConditional x3 (if inplace then x3 else P.x) z2IsZero
    let y3 := copyConditional y3 Q.y z1IsZero
    let y3 := copyConditional y3 (if inplace then y3 else P.y) z2IsZero
    let z3 := copyConditional z3 Q.z z1IsZero
    let z3 := copyConditional z3 (if inplace then z3 else P.z) z2IsZero
    ⟨x3, y3, z3⟩

/-- One round of the table loop: entries `i` and `i + 1`. -/
def tableStep (inp : Point) (table : ℕ → Point) (i : ℕ) : ℕ → Point :=
  let ti := pointDouble (table (i / 2))
  Function.update (Function.update table i ti) (i + 1) (pointAdd false ti inp)

/-- `table` after `n` rounds of the loop; the entries not written yet are never read. -/
def pointTable (inp : Point) : ℕ → ℕ → Point
  | 0 => Function.update (fun _ => Point.zero) 1 inp
  | n + 1 => tableStep inp (pointTable inp n) (2 * n + 2)

/-- Four doublings and the addition of a table entry. -/
def nibbleStep (table : ℕ → Point) (tmp : Point) (o : ℕ) : Point :=
  let tmp := pointDouble (pointDouble (pointDouble (pointDouble tmp)))
  if o ≠ 0 then pointAdd true tmp (table o) else tmp

/-- One round of the multiplication: the high, then the low half of a byte of the scalar. -/
def windowStep (table : ℕ → Point) (tmp : Point) (s : Byte) : Point :=
  nibbleStep table (nibbleStep table tmp (s >>> 4).toNat) (s &&& 0x0f#8).toNat

/-- Multiply the given point by `s`, from the last byte to the first. -/
def pointMul (inp : Point) (s : Fin 21 → Byte) : Point :=
  (List.ofFn s).reverse.foldl (windowStep (pointTable inp 7)) Point.zero

/-! ### The formulas the routines compute -/

/-- The coordinates of `P` are reduced and stand for those of `t`. -/
structure Holds (P : Point) (t : Jac.Triple (ZMod p)) : Prop where
  x : Is56 P.x t.X
  y : Is56 P.y t.Y
  z : Is56 P.z t.Z

variable {a b : Felem} {x y : ZMod p} {P Q : Point} {s t : Jac.Triple (ZMod p)}

theorem Is56.is58 (h : Is56 a x) : Is64 58 a x := h.is64.mono

theorem copyConditional_eq (out inp : Felem) (icopy : Bool) :
    copyConditional out inp icopy = if icopy then inp else out := by
  have ones : ∀ u v : Fslice, u ^^^ (-1#64 &&& (v ^^^ u)) = v := fun u v => by
    rw [BitVec.neg_one_eq_allOnes, BitVec.allOnes_and, BitVec.xor_comm v u, ← BitVec.xor_assoc,
      BitVec.xor_self, BitVec.zero_xor]
  cases icopy
  · simp [copyConditional]
  · simp only [copyConditional, if_true, ones]

/-- `point_double` computes the doubling formula. -/
theorem Holds.double (h : Holds P t) : Holds (pointDouble P) (Jac.dbl t) := by
  unfold pointDouble
  extract_lets delta gamma beta ftmp ftmp2 alpha ftmp' xOut delta' ftmp'' zOut beta' tmp2
  have hdelta : Is56 delta (t.Z ^ 2) := h.z.is58.sqr
  have hgamma : Is56 gamma (t.Y ^ 2) := h.y.is58.sqr
  have hbeta : Is56 beta (t.X * t.Y ^ 2) := h.x.is58.mulr hgamma.is58
  have hftmp : Is64 59 ftmp (t.X - t.Z ^ 2) := h.x.is58.diff hdelta.is64
  have hftmp2 : Is64 60 ftmp2 ((t.X + t.Z ^ 2) * (3 : ℕ)) :=
    (h.x.is64.sum hdelta.is64).scalar 3 2
  have halpha : Is56 alpha (3 * (t.X - t.Z ^ 2) * (t.X + t.Z ^ 2)) :=
    (hftmp.mul hftmp2).mono.reduce.of_eq (by push_cast; ring)
  have hx : Is56 xOut (Jac.dbl t).X :=
    (halpha.is64.square.diff64 (hbeta.is64.scalar 8 3).mono).mono.reduce.of_eq
      (by simp only [Jac.dbl]; push_cast; ring)
  have hz : Is56 zOut (Jac.dbl t).Z :=
    ((h.y.is64.sum h.z.is64).square.diff64 (hdelta.is64.sum hgamma.is64).mono).mono.reduce.of_eq
      (by simp only [Jac.dbl]; ring)
  have hbeta' : Is64 60 beta' (4 * (t.X * t.Y ^ 2) - (Jac.dbl t).X) :=
    ((hbeta.is64.scalar 4 2).diff hx.is64).mono.of_eq (by push_cast; ring)
  have htmp2 : Is128 119 tmp2 (8 * (t.Y ^ 2) ^ 2) :=
    (hgamma.is64.square.scalar 8 3).of_eq (by push_cast; ring)
  refine ⟨hx, ?_, hz⟩
  exact ((halpha.is64.mul hbeta').mono.diff htmp2 (k := 120)).mono.reduce.of_eq
    (by simp only [Jac.dbl])

/-- The two conditional copies of a coordinate `c` at the end of `point_add`. -/
theorem Is56.copies {c : Felem} {w : ZMod p} {z1 z2 inplace : Bool} (hc : Is56 c w)
    (ha : Is56 a x) (hb : Is56 b y) (hin : inplace = true → z2 = false) :
    Is56 (copyConditional (copyConditional c b z1)
      (if inplace then copyConditional c b z1 else a) z2) (if z2 then x else if z1 then y else w) := by
  simp only [copyConditional_eq]
  cases z2 <;> cases inplace <;> cases z1 <;> first | assumption | simp at hin

/-- `point_add` computes complete addition with separate outputs, and in place unless the second
    operand is at infinity. -/
theorem Holds.add {inplace : Bool} (hP : Holds P s) (hQ : Holds Q t)
    (hin : inplace = true → t.Z ≠ 0) : Holds (pointAdd inplace P Q) (Jac.add s t) := by
  unfold pointAdd
  extract_lets ftmp ftmp2 ftmp3 ftmp4 tmp ftmp4' ftmp3' tmp' tmp2 ftmp2' ftmp' xEqual yEqual z1IsZero
    z2IsZero ftmp5 z3 ftmp5' ftmp'' ftmp5'' ftmp2'' tmp'' tmp2' ftmp5''' x3 ftmp2''' y3 x3' x3'' y3'
    y3'' z3' z3''
  have h1 : Is56 ftmp (s.Z ^ 2) := hP.z.is58.sqr
  have h2 : Is56 ftmp2 (t.Z ^ 2) := hQ.z.is58.sqr
  have h3 : Is56 ftmp3 (s.Z ^ 3) := (h1.is58.mulr hP.z.is58).of_eq (by ring)
  have h4 : Is56 ftmp4 (t.Z ^ 3) := (h2.is58.mulr hQ.z.is58).of_eq (by ring)
  have h4' : Is56 ftmp4' (t.Z ^ 3 * s.Y) := h4.is58.mulr hP.y.is58
  have hdy : Is56 ftmp3' (Jac.dy s t) :=
    ((h3.is64.mul hQ.y.is64).diff64 h4'.is64.mono).mono.reduce
  have htmp2 : Is128 116 tmp2 (t.Z ^ 2 * s.X) := h2.is64.mul hP.x.is64
  have h2' : Is56 ftmp2' (t.Z ^ 2 * s.X) := htmp2.mono.reduce
  have hdx : Is56 ftmp' (Jac.dx s t) :=
    ((h1.is64.mul hQ.x.is64).mono.diff htmp2.mono (k := 120)).mono.reduce
  have hxe : xEqual = true ↔ Jac.dx s t = 0 := hdx.isZero_iff
  have hye : yEqual = true ↔ Jac.dy s t = 0 := hdy.isZero_iff
  have hz1 : z1IsZero = true ↔ s.Z = 0 := hP.z.isZero_iff
  have hz2 : z2IsZero = true ↔ t.Z = 0 := hQ.z.isZero_iff
  have hguard : (xEqual && yEqual && !z1IsZero && !z2IsZero) = true ↔
      Jac.dx s t = 0 ∧ Jac.dy s t = 0 ∧ s.Z ≠ 0 ∧ t.Z ≠ 0 := by
    simp only [Bool.and_eq_true, Bool.not_eq_true', ← Bool.not_eq_true, hxe, hye, hz1, hz2,
      and_assoc, ne_eq]
  unfold Jac.add
  by_cases hg : Jac.dx s t = 0 ∧ Jac.dy s t = 0 ∧ s.Z ≠ 0 ∧ t.Z ≠ 0
  · rw [if_pos hg, if_pos (hguard.mpr hg)]
    exact hP.double
  rw [if_neg hg, if_neg (hguard.not.mpr hg)]
  -- the formula for different abscissas
  have h5 : Is56 ftmp5 (s.Z * t.Z) := hP.z.is58.mulr hQ.z.is58
  have hz3 : Is56 z3 (Jac.addXne s t).Z := hdx.is58.mulr h5.is58
  have hh2 : Is56 ftmp'' (Jac.dx s t ^ 2) := hdx.is58.sqr
  have hh3 : Is56 ftmp5'' (Jac.dx s t ^ 3) := (hh2.is58.mulr hdx.is58).of_eq (by ring)
  have hv : Is56 ftmp2'' (t.Z ^ 2 * s.X * Jac.dx s t ^ 2) := h2'.is58.mulr hh2.is58
  have htmp : Is128 116 tmp'' (t.Z ^ 3 * s.Y * Jac.dx s t ^ 3) := h4'.is64.mul hh3.is64
  have hx3 : Is56 x3 (Jac.addXne s t).X :=
    ((hdy.is64.square.diff64 hh3.is64.mono).diff64 (hv.is64.scalar 2 1).mono).mono.reduce.of_eq
      (by simp only [Jac.addXne]; push_cast; ring)
  have hy3 : Is56 y3 (Jac.addXne s t).Y :=
    ((hdy.is64.mul (hv.is58.diff hx3.is64)).mono.diff htmp.mono (k := 120)).mono.reduce
  -- the copies select the same operand as complete addition does
  have hin' : inplace = true → z2IsZero = false := fun hi =>
    Bool.eq_false_iff.mpr (hz2.not.mpr (hin hi))
  have hsel : (if t.Z = 0 then s else if s.Z = 0 then t else Jac.addXne s t) =
      if z2IsZero then s else if z1IsZero then t else Jac.addXne s t := by simp only [hz1, hz2]
  have hproj : ∀ f : Jac.Triple (ZMod p) → ZMod p,
      (if z2IsZero then f s else if z1IsZero then f t else f (Jac.addXne s t)) =
        f (if z2IsZero then s else if z1IsZero then t else Jac.addXne s t) := fun f => by
    split_ifs <;> rfl
  rw [hsel]
  exact ⟨(hx3.copies hP.x hQ.x hin').of_eq (hproj (·.X)),
    (hy3.copies hP.y hQ.y hin').of_eq (hproj (·.Y)),
    (hz3.copies hP.z hQ.z hin').of_eq (hproj (·.Z))⟩

/-! ### The points they stand for -/

open WeierstrassCurve in
/-- `P` is a representation of the point `A` of the curve `y² = x³ - 3x + c`. -/
def IsPoint (c : ZMod p) (P : Point) (A : (Jac.curve c).Point) : Prop :=
  ∃ t, Holds P t ∧ Jac.Rep c t A

theorem two_ne_zero_p : (2 : ZMod p) ≠ 0 := by
  intro h
  have h2 : ((2 : ℕ) : ZMod p) = 0 := by exact_mod_cast h
  rw [ZMod.natCast_eq_zero_iff] at h2
  exact absurd (Nat.le_of_dvd (by decide) h2) (by decide)

variable {c : ZMod p} {A B : (Jac.curve c).Point}

theorem IsPoint.double (h : IsPoint c P A) : IsPoint c (pointDouble P) (2 • A) := by
  obtain ⟨t, ht, hr⟩ := h
  exact ⟨_, ht.double, two_nsmul A ▸ Jac.rep_dbl two_ne_zero_p hr⟩

theorem IsPoint.add {inplace : Bool} (hP : IsPoint c P A) (hQ : IsPoint c Q B)
    (hin : inplace = true → B ≠ 0) : IsPoint c (pointAdd inplace P Q) (A + B) := by
  obtain ⟨s, hs, hA⟩ := hP
  obtain ⟨t, ht, hB⟩ := hQ
  exact ⟨_, hs.add ht fun hi => hB.z_eq_zero_iff.not.mpr (hin hi), Jac.rep_add two_ne_zero_p hA hB⟩

theorem IsPoint.zero : IsPoint c Point.zero 0 := by
  have h0 : Is56 ⟨0, 0, 0⟩ (0 : ZMod p) := ⟨by decide, by decide, by decide, by simp [Felem.val]⟩
  exact ⟨⟨0, 0, 0⟩, ⟨h0, h0, h0⟩, Jac.Rep.zero rfl⟩

open WeierstrassCurve in
theorem isPoint_affine {u v : ZMod p} (h : Holds P ⟨u, v, 1⟩)
    (hn : (Jac.curve c).Nonsingular u v) : IsPoint c P (.some u v hn) :=
  ⟨_, h, Jac.Rep.some_iff.mpr (by simp)⟩

/-- The slices of `z` stand for zero at infinity and nowhere else. -/
theorem IsPoint.z_eq_zero_iff (h : IsPoint c P A) : (P.z.val : ZMod p) = 0 ↔ A = 0 := by
  obtain ⟨t, ht, hr⟩ := h
  rw [ht.z.eq, hr.z_eq_zero_iff]

/-- After `n` rounds the first `2n + 2` entries are the multiples of the input. -/
theorem IsPoint.table (h : IsPoint c P A) : ∀ n j, 1 ≤ j → j < 2 * n + 2 →
    IsPoint c (pointTable P n j) (j • A)
  | 0, j, h1, h2 => by
      obtain rfl : j = 1 := by omega
      simpa [pointTable] using h
  | n + 1, j, h1, h2 => by
      have hhalf := (IsPoint.table h n ((2 * n + 2) / 2) (by omega) (by omega)).double
      rw [smul_smul, show 2 * ((2 * n + 2) / 2) = 2 * n + 2 by omega] at hhalf
      rw [pointTable, tableStep]
      rcases (show j < 2 * n + 2 ∨ j = 2 * n + 2 ∨ j = 2 * n + 2 + 1 by omega) with hj | rfl | rfl
      · rw [Function.update_of_ne (by omega), Function.update_of_ne (by omega)]
        exact IsPoint.table h n j h1 hj
      · rw [Function.update_of_ne (by omega), Function.update_self]
        exact hhalf
      · rw [Function.update_self, succ_nsmul]
        exact hhalf.add h (by simp)

section Window

variable (hA : ∀ j, 1 ≤ j → j < 16 → j • A ≠ 0) {T : ℕ → Point}
  (hT : ∀ j, 1 ≤ j → j < 16 → IsPoint c (T j) (j • A))
include hA hT

/-- No entry of the table may be at infinity: the in-place addition would lose the sum. -/
theorem IsPoint.nibble {o : ℕ} (ho : o < 16) (h : IsPoint c P B) :
    IsPoint c (nibbleStep T P o) (16 • B + o • A) := by
  have h16 := h.double.double.double.double
  simp only [smul_smul] at h16
  rw [nibbleStep]
  split
  · exact h16.add (hT o (by omega) ho) fun _ => hA o (by omega) ho
  · rename_i h0
    rw [not_not.mp h0, zero_nsmul, add_zero]
    exact h16

theorem IsPoint.window (s : Byte) (h : IsPoint c P B) :
    IsPoint c (windowStep T P s) (256 • B + s.toNat • A) := by
  have hhi : (s >>> 4).toNat = s.toNat / 16 := by simp [Nat.shiftRight_eq_div_pow]
  have hlo : (s &&& 0x0f#8).toNat = s.toNat % 16 := by
    rw [BitVec.toNat_and]; exact Nat.and_two_pow_sub_one_eq_mod s.toNat 4
  have hs := s.isLt
  rw [windowStep, hhi, hlo]
  have h2 := IsPoint.nibble hA hT (o := s.toNat % 16) (by omega)
    (IsPoint.nibble hA hT (o := s.toNat / 16) (by omega) h)
  rw [nsmul_add, smul_smul, smul_smul, add_assoc, ← add_nsmul] at h2
  rwa [show 16 * (s.toNat / 16) + s.toNat % 16 = s.toNat by omega] at h2

theorem IsPoint.windows : ∀ ss : List Byte,
    IsPoint c (ss.reverse.foldl (windowStep T) Point.zero)
      (Nat.ofDigits 256 (ss.map BitVec.toNat) • A)
  | [] => by simpa using IsPoint.zero
  | s :: ss => by
      have ih := IsPoint.window hA hT s (IsPoint.windows ss)
      rw [List.reverse_cons, List.foldl_append, List.map_cons, Nat.ofDigits_cons, add_nsmul,
        mul_nsmul', add_comm]
      exact_mod_cast ih

end Window

/-- `point_mul` computes `[s]A` when the first fifteen multiples of `A` are finite. -/
theorem IsPoint.mul (h : IsPoint c P A) (hA : ∀ j, 1 ≤ j → j < 16 → j • A ≠ 0)
    (s : Fin 21 → Byte) : IsPoint c (pointMul P s) (leNat s • A) :=
  IsPoint.windows hA (fun j h1 h2 => IsPoint.table h 7 j h1 (by omega)) _

end Telex.Ptwist
