import Telex.Ptwist.Checked

/-! No arithmetic of `ptwist_pointmul` wraps

    The rest of `tag/ptwist168.cpp` over the checked slices. The invariant is that every coordinate
    stored in a point is in the range of `felem_reduce`; each point routine returns under it and
    keeps it, whatever the points are, so it holds along the table, the windows and the whole
    multiplication. What is left is the negation of the result, which at infinity reads slices
    that nobody wrote. -/

namespace Telex.Ptwist.Checked
open Word (bind_ok Returns)

/-! ### Powers -/

def sqr (a : Felem) : Option Felem := do
  felemReduce (← felemSquare a)

def mul (a b : Felem) : Option Felem := do
  felemReduce (← felemMul a b)

def sqrN : ℕ → Felem → Option Felem
  | 0, a => some a
  | n + 1, a => do sqrN n (← sqr a)

/-- Invert a field element. -/
def felemInv (inp : Felem) : Option Felem := do
  let ftmp ← sqr inp                        -- 2
  let ftmp ← mul inp ftmp                   -- 2 ^ 2 - 1
  let ftmp2 ← sqr ftmp                      -- 2 ^ 3 - 2
  let ftmp2 ← sqr ftmp2                     -- 2 ^ 4 - 2^2
  let ftmp2 ← mul ftmp2 ftmp                -- 2 ^ 4 - 1
  let ftmp2 ← sqr ftmp2                     -- 2 ^ 5 - 2
  let ftmp2 ← sqr ftmp2                     -- 2 ^ 6 - 2^2
  let ftmp ← mul ftmp2 ftmp                 -- 2 ^ 6 - 1
  let ftmp2 ← sqr ftmp                      -- 2 ^ 7 - 2
  let ftmp2 ← sqrN 5 ftmp2                  -- 2 ^ 12 - 2^6
  let ftmp3 ← mul ftmp ftmp2                -- 2 ^ 12 - 1
  let ftmp2 ← sqr ftmp3                     -- 2 ^ 13 - 2
  let ftmp2 ← sqrN 11 ftmp2                 -- 2 ^ 24 - 2^12
  let ftmp3 ← mul ftmp2 ftmp3               -- 2 ^ 24 - 1
  let ftmp2 ← sqr ftmp3                     -- 2 ^ 25 - 2
  let ftmp2 ← sqrN 23 ftmp2                 -- 2 ^ 48 - 2^24
  let ftmp4 ← mul ftmp2 ftmp3               -- 2 ^ 48 - 1
  let ftmp2 ← sqr ftmp4                     -- 2 ^ 49 - 2
  let ftmp2 ← sqrN 23 ftmp2                 -- 2 ^ 72 - 2^24
  let ftmp4 ← mul ftmp2 ftmp3               -- 2 ^ 72 - 1
  let ftmp2 ← sqr ftmp4                     -- 2 ^ 73 - 2
  let ftmp2 ← sqrN 5 ftmp2                  -- 2 ^ 78 - 2^6
  let ftmp2 ← mul ftmp ftmp2                -- 2 ^ 78 - 1
  let ftmp2 ← sqr ftmp2                     -- 2 ^ 79 - 2
  let ftmp4 ← mul inp ftmp2                 -- 2 ^ 79 - 1
  let ftmp2 ← sqr ftmp4                     -- 2 ^ 80 - 2
  let ftmp2 ← sqrN 78 ftmp2                 -- 2 ^ 158 - 2^79
  let ftmp2 ← mul ftmp4 ftmp2               -- 2 ^ 158 - 1
  let ftmp2 ← sqr ftmp2                     -- 2 ^ 159 - 2
  let ftmp2 ← mul inp ftmp2                 -- 2 ^ 159 - 1
  let ftmp2 ← sqrN 7 ftmp2                  -- 2 ^ 166 - 2^7
  let ftmp2 ← mul ftmp ftmp2                -- 2 ^ 166 - 2^6 - 1
  let ftmp2 ← sqr ftmp2                     -- 2 ^ 167 - 2^7 - 2
  let ftmp2 ← sqr ftmp2                     -- 2 ^ 168 - 2^8 - 4
  mul inp ftmp2                             -- 2 ^ 168 - 2^8 - 3

/-- Take the square root of a field element. -/
def felemSqrt (inp : Felem) : Option Felem := do
  let ftmp ← sqr inp                        -- 2
  let ftmp ← mul inp ftmp                   -- 2 ^ 2 - 1
  let ftmp2 ← sqr ftmp                      -- 2 ^ 3 - 2
  let ftmp2 ← sqr ftmp2                     -- 2 ^ 4 - 2^2
  let ftmp2 ← mul ftmp2 ftmp                -- 2 ^ 4 - 1
  let ftmp2 ← sqr ftmp2                     -- 2 ^ 5 - 2
  let ftmp ← mul ftmp2 inp                  -- 2 ^ 5 - 1
  let ftmp2 ← sqr ftmp                      -- 2 ^ 6 - 2
  let ftmp2 ← sqrN 4 ftmp2                  -- 2 ^ 10 - 2^5
  let ftmp ← mul ftmp ftmp2                 -- 2 ^ 10 - 1
  let ftmp2 ← sqr ftmp                      -- 2 ^ 11 - 2
  let ftmp2 ← sqrN 9 ftmp2                  -- 2 ^ 20 - 2^10
  let ftmp ← mul ftmp2 ftmp                 -- 2 ^ 20 - 1
  let ftmp2 ← sqr ftmp                      -- 2 ^ 21 - 2
  let ftmp2 ← sqrN 19 ftmp2                 -- 2 ^ 40 - 2^20
  let ftmp ← mul ftmp2 ftmp                 -- 2 ^ 40 - 1
  let ftmp2 ← sqr ftmp                      -- 2 ^ 41 - 2
  let ftmp2 ← sqrN 39 ftmp2                 -- 2 ^ 80 - 2^40
  let ftmp ← mul ftmp2 ftmp                 -- 2 ^ 80 - 1
  let ftmp2 ← sqr ftmp                      -- 2 ^ 81 - 2
  let ftmp2 ← sqrN 79 ftmp2                 -- 2 ^ 160 - 2^80
  let ftmp2 ← mul ftmp ftmp2                -- 2 ^ 160 - 1
  let ftmp2 ← sqrN 5 ftmp2                  -- 2 ^ 165 - 2^5
  sqr ftmp2                                 -- 2 ^ 166 - 2^6

variable {a b : Felem} {x y : ZMod p} {i j n : ℕ} {β : Type}

/-- The slices of `a` fit a multiplication. -/
def Fits (a : Felem) : Prop := ∃ x, Is64 58 a x

theorem sqr_ok (h : Is64 58 a x) : sqr a = some (Ptwist.sqr a) :=
  bind_ok (felemSquare_ok h) (felemReduce_ok h.square.mono)

theorem mul_ok (ha : Is64 i a x) (hb : Is64 j b y) (hij : i + j ≤ 124 := by decide) :
    mul a b = some (Ptwist.mul a b) :=
  bind_ok (felemMul_ok ha hb (by omega))
    (felemReduce_ok ((ha.mul hb (by omega)).mono (by omega)))

theorem Fits.sqrN : ∀ {n a}, Fits a → Fits (Ptwist.sqrN n a)
  | 0, _, h => h
  | n + 1, a, ⟨_, h⟩ => Fits.sqrN (n := n) (a := Ptwist.sqr a) ⟨_, h.sqr.is58⟩

theorem sqrN_ok : ∀ {n a}, Fits a → sqrN n a = some (Ptwist.sqrN n a)
  | 0, _, _ => rfl
  | _ + 1, _, ⟨_, h⟩ => bind_ok (sqr_ok h) (sqrN_ok ⟨_, h.sqr.is58⟩)

section Chain
variable {f : Felem → Option β} {r : β}

theorem sqr_bind (h : Fits a) (hf : Fits (Ptwist.sqr a) → f (Ptwist.sqr a) = some r) :
    (sqr a >>= f) = some r := by
  obtain ⟨x, h⟩ := h
  exact bind_ok (sqr_ok h) (hf ⟨_, h.sqr.is58⟩)

theorem mul_bind (ha : Fits a) (hb : Fits b)
    (hf : Fits (Ptwist.mul a b) → f (Ptwist.mul a b) = some r) : (mul a b >>= f) = some r := by
  obtain ⟨x, ha⟩ := ha
  obtain ⟨y, hb⟩ := hb
  exact bind_ok (mul_ok ha hb) (hf ⟨_, (ha.mulr hb).is58⟩)

theorem sqrN_bind (h : Fits a) (hf : Fits (Ptwist.sqrN n a) → f (Ptwist.sqrN n a) = some r) :
    (sqrN n a >>= f) = some r :=
  bind_ok (sqrN_ok h) (hf h.sqrN)

end Chain

theorem felemInv_ok (h : Fits a) : felemInv a = some (Ptwist.felemInv a) := by
  unfold felemInv
  refine sqr_bind h fun h1 => mul_bind h h1 fun h2 => sqr_bind h2 fun h3 => sqr_bind h3 fun h4 => ?_
  refine mul_bind h4 h2 fun h5 => sqr_bind h5 fun h6 => sqr_bind h6 fun h7 => ?_
  refine mul_bind h7 h2 fun h8 => sqr_bind h8 fun h9 => sqrN_bind h9 fun h10 => ?_
  refine mul_bind h8 h10 fun h11 => sqr_bind h11 fun h12 => sqrN_bind h12 fun h13 => ?_
  refine mul_bind h13 h11 fun h14 => sqr_bind h14 fun h15 => sqrN_bind h15 fun h16 => ?_
  refine mul_bind h16 h14 fun h17 => sqr_bind h17 fun h18 => sqrN_bind h18 fun h19 => ?_
  refine mul_bind h19 h14 fun h20 => sqr_bind h20 fun h21 => sqrN_bind h21 fun h22 => ?_
  refine mul_bind h8 h22 fun h23 => sqr_bind h23 fun h24 => mul_bind h h24 fun h25 => ?_
  refine sqr_bind h25 fun h26 => sqrN_bind h26 fun h27 => mul_bind h25 h27 fun h28 => ?_
  refine sqr_bind h28 fun h29 => mul_bind h h29 fun h30 => sqrN_bind h30 fun h31 => ?_
  refine mul_bind h8 h31 fun h32 => sqr_bind h32 fun h33 => sqr_bind h33 fun h34 => ?_
  obtain ⟨x, h⟩ := h
  obtain ⟨y, h34⟩ := h34
  exact mul_ok h h34

theorem felemSqrt_ok (h : Fits a) : felemSqrt a = some (Ptwist.felemSqrt a) := by
  unfold felemSqrt
  refine sqr_bind h fun h1 => mul_bind h h1 fun h2 => sqr_bind h2 fun h3 => sqr_bind h3 fun h4 => ?_
  refine mul_bind h4 h2 fun h5 => sqr_bind h5 fun h6 => mul_bind h6 h fun h7 => ?_
  refine sqr_bind h7 fun h8 => sqrN_bind h8 fun h9 => mul_bind h7 h9 fun h10 => ?_
  refine sqr_bind h10 fun h11 => sqrN_bind h11 fun h12 => mul_bind h12 h10 fun h13 => ?_
  refine sqr_bind h13 fun h14 => sqrN_bind h14 fun h15 => mul_bind h15 h13 fun h16 => ?_
  refine sqr_bind h16 fun h17 => sqrN_bind h17 fun h18 => mul_bind h18 h16 fun h19 => ?_
  refine sqr_bind h19 fun h20 => sqrN_bind h20 fun h21 => mul_bind h19 h21 fun h22 => ?_
  refine sqrN_bind h22 fun h23 => ?_
  obtain ⟨x, h23⟩ := h23
  exact sqr_ok h23

/-! ### Points -/

/-- A coordinate is written to a point only in the range of `felem_reduce`. -/
def store (a : Felem) : Option Felem :=
  if a.l0.toNat < 2 ^ 56 ∧ a.l1.toNat < 2 ^ 56 ∧ a.l2.toNat ≤ 2 ^ 56 then some a else none

/-- `felem_reduce` into a coordinate of a point. -/
def reduceCoord (inp : Felem128) : Option Felem := do
  store (← felemReduce inp)

def pointDouble (P : Point) : Option Point := do
  let delta ← sqr P.z
  let gamma ← sqr P.y
  let beta ← mul P.x gamma
  let ftmp ← felemDiff64 P.x delta
  let ftmp2 ← felemSum64 P.x delta
  let ftmp2 ← felemScalar64 ftmp2 3#64
  let alpha ← mul ftmp ftmp2
  let tmp ← felemSquare alpha
  let ftmp ← felemScalar64 beta 8#64
  let tmp ← felemDiff12864 tmp ftmp
  let xOut ← reduceCoord tmp
  let delta ← felemSum64 delta gamma
  let ftmp ← felemSum64 P.y P.z
  let tmp ← felemSquare ftmp
  let tmp ← felemDiff12864 tmp delta
  let zOut ← reduceCoord tmp
  let beta ← felemScalar64 beta 4#64
  let beta ← felemDiff64 beta xOut
  let tmp ← felemMul alpha beta
  let tmp2 ← felemSquare gamma
  let tmp2 ← felemScalar128 tmp2 8#128
  let tmp ← felemDiff128 tmp tmp2
  let yOut ← reduceCoord tmp
  return ⟨xOut, yOut, zOut⟩

def pointAdd (inplace : Bool) (P Q : Point) : Option Point := do
  let ftmp ← sqr P.z
  let ftmp2 ← sqr Q.z
  let ftmp3 ← mul ftmp P.z
  let ftmp4 ← mul ftmp2 Q.z
  let tmp ← felemMul ftmp3 Q.y
  let ftmp4 ← mul ftmp4 P.y
  let tmp ← felemDiff12864 tmp ftmp4
  let ftmp3 ← felemReduce tmp
  let tmp ← felemMul ftmp Q.x
  let tmp2 ← felemMul ftmp2 P.x
  let ftmp2 ← felemReduce tmp2
  let tmp ← felemDiff128 tmp tmp2
  let ftmp ← felemReduce tmp
  let xEqual := felemIsZero ftmp
  let yEqual := felemIsZero ftmp3
  let z1IsZero := felemIsZero P.z
  let z2IsZero := felemIsZero Q.z
  if xEqual && yEqual && !z1IsZero && !z2IsZero then pointDouble P
  else do
    let ftmp5 ← mul P.z Q.z
    let tmp ← felemMul ftmp ftmp5
    let z3 ← reduceCoord tmp
    let ftmp5 := ftmp
    let ftmp ← sqr ftmp
    let ftmp5 ← mul ftmp ftmp5
    let ftmp2 ← mul ftmp2 ftmp
    let tmp ← felemMul ftmp4 ftmp5
    let tmp2 ← felemSquare ftmp3
    let tmp2 ← felemDiff12864 tmp2 ftmp5
    let ftmp5 ← felemScalar64 ftmp2 2#64
    let tmp2 ← felemDiff12864 tmp2 ftmp5
    let x3 ← reduceCoord tmp2
    let ftmp2 ← felemDiff64 ftmp2 x3
    let tmp2 ← felemMul ftmp3 ftmp2
    let tmp2 ← felemDiff128 tmp2 tmp
    let y3 ← reduceCoord tmp2
    let x3 ← store (copyConditional x3 Q.x z1IsZero)
    let x3 ← store (copyConditional x3 (if inplace then x3 else P.x) z2IsZero)
    let y3 ← store (copyConditional y3 Q.y z1IsZero)
    let y3 ← store (copyConditional y3 (if inplace then y3 else P.y) z2IsZero)
    let z3 ← store (copyConditional z3 Q.z z1IsZero)
    let z3 ← store (copyConditional z3 (if inplace then z3 else P.z) z2IsZero)
    return ⟨x3, y3, z3⟩

variable {P Q : Point} {s t : Jac.Triple (ZMod p)} {u : Felem128}

/-- The coordinates of `P` are in the range of `felem_reduce`. -/
def Reduced (P : Point) : Prop := ∃ t, Holds P t

theorem store_ok (h : Is56 a x) : store a = some a := if_pos ⟨h.h0, h.h1, h.h2⟩

theorem reduceCoord_ok (h : Is128 126 u x) : reduceCoord u = some (Ptwist.felemReduce u) :=
  bind_ok (felemReduce_ok h) (store_ok h.reduce)

theorem pointDouble_ok (h : Holds P t) : pointDouble P = some (Ptwist.pointDouble P) := by
  have hdelta := h.z.is58.sqr
  have hgamma := h.y.is58.sqr
  have hbeta := h.x.is58.mulr hgamma.is58
  have hdiff := h.x.is58.diff hdelta.is64
  have hsum := h.x.is64.sum hdelta.is64
  have hthree := hsum.scalar 3 2
  have halpha := (hdiff.mul hthree).mono.reduce
  have halpha2 := halpha.is64.square
  have hbeta8 := (hbeta.is64.scalar 8 3).mono (j := 63)
  have hx := (halpha2.diff64 hbeta8).mono (j := 126)
  have hdg := hdelta.is64.sum hgamma.is64
  have hyz := h.y.is64.sum h.z.is64
  have hyz2 := hyz.square
  have hz := (hyz2.diff64 hdg.mono).mono (j := 126)
  have hbeta4 := hbeta.is64.scalar 4 2
  have hfour := hbeta4.diff hx.reduce.is64
  have hprod := (halpha.is64.mul hfour).mono (j := 120)
  have hgamma2 := hgamma.is64.square
  have height := hgamma2.scalar 8 3
  have hy := (hprod.diff height).mono (j := 126)
  unfold pointDouble
  refine bind_ok (sqr_ok h.z.is58) (bind_ok (sqr_ok h.y.is58) ?_)
  refine bind_ok (mul_ok h.x.is58 hgamma.is58) ?_
  refine bind_ok (felemDiff64_ok h.x.is58 hdelta.is64) ?_
  refine bind_ok (felemSum64_ok h.x.is64 hdelta.is64) ?_
  refine bind_ok (felemScalar64_ok hsum 3 2) ?_
  refine bind_ok (mul_ok hdiff hthree) ?_
  refine bind_ok (felemSquare_ok halpha.is64) ?_
  refine bind_ok (felemScalar64_ok hbeta.is64 8 3) ?_
  refine bind_ok (felemDiff12864_ok halpha2 hbeta8) ?_
  refine bind_ok (reduceCoord_ok hx) ?_
  refine bind_ok (felemSum64_ok hdelta.is64 hgamma.is64) ?_
  refine bind_ok (felemSum64_ok h.y.is64 h.z.is64) ?_
  refine bind_ok (felemSquare_ok hyz) ?_
  refine bind_ok (felemDiff12864_ok hyz2 hdg.mono) ?_
  refine bind_ok (reduceCoord_ok hz) ?_
  refine bind_ok (felemScalar64_ok hbeta.is64 4 2) ?_
  refine bind_ok (felemDiff64_ok hbeta4 hx.reduce.is64) ?_
  refine bind_ok (felemMul_ok halpha.is64 hfour) ?_
  refine bind_ok (felemSquare_ok hgamma.is64) ?_
  refine bind_ok (felemScalar128_ok hgamma2 8 3) ?_
  refine bind_ok (felemDiff128_ok hprod height) ?_
  exact bind_ok (reduceCoord_ok hy) rfl

/-- A conditional copy stays in the range of `felem_reduce`. -/
theorem copyConditional_is56 (ha : Is56 a x) (hb : Is56 b y) (icopy : Bool) :
    ∃ v, Is56 (copyConditional a b icopy) v := by
  rw [copyConditional_eq]
  cases icopy
  · exact ⟨x, ha⟩
  · exact ⟨y, hb⟩

/-- The two copies of a coordinate at the end of `point_add`, each of them stored. -/
theorem copies_returns {c : Felem} {w : ZMod p} {z1 z2 inplace : Bool} {f : Felem → Option β}
    {R : β → Prop} (hc : Is56 c w) (ha : Is56 a x) (hb : Is56 b y)
    (hf : ∀ v, Is56 (copyConditional (copyConditional c b z1)
      (if inplace then copyConditional c b z1 else a) z2) v →
        Returns (f (copyConditional (copyConditional c b z1)
          (if inplace then copyConditional c b z1 else a) z2)) R) :
    Returns (do
      let c ← store (copyConditional c b z1)
      let c ← store (copyConditional c (if inplace then c else a) z2)
      f c) R := by
  obtain ⟨v, hv⟩ := copyConditional_is56 hc hb z1
  refine Returns.bind (store_ok hv) ?_
  cases inplace
  · obtain ⟨v', hv'⟩ := copyConditional_is56 hv ha z2
    exact Returns.bind (store_ok hv') (hf v' hv')
  · obtain ⟨v', hv'⟩ := copyConditional_is56 hv hv z2
    exact Returns.bind (store_ok hv') (hf v' hv')

/-- `point_add` returns and leaves reduced coordinates, whatever its operands stand for. -/
theorem pointAdd_returns (inplace : Bool) (hP : Holds P s) (hQ : Holds Q t) :
    Returns (pointAdd inplace P Q) fun R => R = Ptwist.pointAdd inplace P Q ∧ Reduced R := by
  have h1 := hP.z.is58.sqr
  have h2 := hQ.z.is58.sqr
  have h3 := h1.is58.mulr hP.z.is58
  have h4 := h2.is58.mulr hQ.z.is58
  have h3y := h3.is64.mul hQ.y.is64
  have h4y := h4.is58.mulr hP.y.is58
  have hy := (h3y.diff64 h4y.is64.mono).mono (j := 126)
  have h1x := (h1.is64.mul hQ.x.is64).mono (j := 120)
  have h2x := h2.is64.mul hP.x.is64
  have hx := (h1x.diff h2x.mono).mono (j := 126)
  unfold pointAdd
  refine Returns.bind (sqr_ok hP.z.is58) (Returns.bind (sqr_ok hQ.z.is58) ?_)
  refine Returns.bind (mul_ok h1.is58 hP.z.is58) ?_
  refine Returns.bind (mul_ok h2.is58 hQ.z.is58) ?_
  refine Returns.bind (felemMul_ok h3.is64 hQ.y.is64) ?_
  refine Returns.bind (mul_ok h4.is58 hP.y.is58) ?_
  refine Returns.bind (felemDiff12864_ok h3y h4y.is64.mono) ?_
  refine Returns.bind (felemReduce_ok hy) ?_
  refine Returns.bind (felemMul_ok h1.is64 hQ.x.is64) ?_
  refine Returns.bind (felemMul_ok h2.is64 hP.x.is64) ?_
  refine Returns.bind (felemReduce_ok h2x.mono) ?_
  refine Returns.bind (felemDiff128_ok h1x h2x.mono) ?_
  refine Returns.bind (felemReduce_ok hx) ?_
  extract_lets xEqual yEqual z1IsZero z2IsZero
  by_cases hg : (xEqual && yEqual && !z1IsZero && !z2IsZero) = true
  · rw [if_pos hg]
    exact ⟨_, pointDouble_ok hP, (if_pos hg).symm, ⟨_, hP.double⟩⟩
  rw [if_neg hg]
  -- the formula for different abscissas
  have hdx := hx.reduce
  have hdy := hy.reduce
  have h5 := hP.z.is58.mulr hQ.z.is58
  have hz3 := (hdx.is64.mul h5.is64).mono (j := 126)
  have hdx2 := hdx.is58.sqr
  have hdx3 := hdx2.is58.mulr hdx.is58
  have hv := (h2x.mono (j := 126)).reduce.is58.mulr hdx2.is58
  have hw := h4y.is64.mul hdx3.is64
  have hr := hdy.is64.square
  have hr' := hr.diff64 hdx3.is64.mono
  have h2v := (hv.is64.scalar 2 1).mono (j := 63)
  have hx3 := (hr'.diff64 h2v).mono (j := 126)
  have hvx := hv.is58.diff hx3.reduce.is64
  have hrv := (hdy.is64.mul hvx).mono (j := 120)
  have hy3 := (hrv.diff hw.mono).mono (j := 126)
  refine Returns.bind (mul_ok hP.z.is58 hQ.z.is58) ?_
  refine Returns.bind (felemMul_ok hdx.is64 h5.is64) ?_
  refine Returns.bind (reduceCoord_ok hz3) ?_
  refine Returns.bind (sqr_ok hdx.is58) ?_
  refine Returns.bind (mul_ok hdx2.is58 hdx.is58) ?_
  refine Returns.bind (mul_ok h2x.mono.reduce.is58 hdx2.is58) ?_
  refine Returns.bind (felemMul_ok h4y.is64 hdx3.is64) ?_
  refine Returns.bind (felemSquare_ok hdy.is64) ?_
  refine Returns.bind (felemDiff12864_ok hr hdx3.is64.mono) ?_
  refine Returns.bind (felemScalar64_ok hv.is64 2 1) ?_
  refine Returns.bind (felemDiff12864_ok hr' h2v) ?_
  refine Returns.bind (reduceCoord_ok hx3) ?_
  refine Returns.bind (felemDiff64_ok hv.is58 hx3.reduce.is64) ?_
  refine Returns.bind (felemMul_ok hdy.is64 hvx) ?_
  refine Returns.bind (felemDiff128_ok hrv hw.mono) ?_
  refine Returns.bind (reduceCoord_ok hy3) ?_
  refine copies_returns hx3.reduce hP.x hQ.x fun vx hvx => ?_
  refine copies_returns hy3.reduce hP.y hQ.y fun vy hvy => ?_
  refine copies_returns hz3.reduce hP.z hQ.z fun vz hvz => ?_
  exact ⟨_, rfl, (if_neg hg).symm, ⟨⟨vx, vy, vz⟩, hvx, hvy, hvz⟩⟩

/-! ### Multiplication -/

def tableStep (inp : Point) (table : ℕ → Point) (i : ℕ) : Option (ℕ → Point) := do
  let ti ← pointDouble (table (i / 2))
  let ti1 ← pointAdd false ti inp
  return Function.update (Function.update table i ti) (i + 1) ti1

def pointTable (inp : Point) : ℕ → Option (ℕ → Point)
  | 0 => some (Function.update (fun _ => Point.zero) 1 inp)
  | n + 1 => do tableStep inp (← pointTable inp n) (2 * n + 2)

def nibbleStep (table : ℕ → Point) (tmp : Point) (o : ℕ) : Option Point := do
  let tmp ← pointDouble tmp
  let tmp ← pointDouble tmp
  let tmp ← pointDouble tmp
  let tmp ← pointDouble tmp
  if o ≠ 0 then pointAdd true tmp (table o) else return tmp

def windowStep (table : ℕ → Point) (tmp : Point) (s : Byte) : Option Point := do
  nibbleStep table (← nibbleStep table tmp (s >>> 4).toNat) (s &&& 0x0f#8).toNat

def pointMul (inp : Point) (s : Fin 21 → Byte) : Option Point := do
  let table ← pointTable inp 7
  (List.ofFn s).reverse.foldlM (windowStep table) Point.zero

theorem Reduced.zero : Reduced Point.zero := by
  obtain ⟨t, h, -⟩ := IsPoint.zero (c := 0)
  exact ⟨t, h⟩

theorem Reduced.double (h : Reduced P) :
    pointDouble P = some (Ptwist.pointDouble P) ∧ Reduced (Ptwist.pointDouble P) := by
  obtain ⟨t, h⟩ := h
  exact ⟨pointDouble_ok h, ⟨_, h.double⟩⟩

theorem Reduced.add (inplace : Bool) (hP : Reduced P) (hQ : Reduced Q) :
    pointAdd inplace P Q = some (Ptwist.pointAdd inplace P Q) ∧
      Reduced (Ptwist.pointAdd inplace P Q) := by
  obtain ⟨s, hP⟩ := hP
  obtain ⟨t, hQ⟩ := hQ
  obtain ⟨R, hR, rfl, hred⟩ := pointAdd_returns inplace hP hQ
  exact ⟨hR, hred⟩

/-- The table is filled without wrapping and its entries are reduced, those not written yet
    included. -/
theorem pointTable_ok (h : Reduced P) : ∀ n, pointTable P n = some (Ptwist.pointTable P n) ∧
    ∀ j, Reduced (Ptwist.pointTable P n j)
  | 0 => by
      refine ⟨rfl, fun j => ?_⟩
      rw [Ptwist.pointTable, Function.update_apply]
      split
      · exact h
      · exact Reduced.zero
  | n + 1 => by
      obtain ⟨htab, hred⟩ := pointTable_ok h n
      obtain ⟨hdbl, hdbl'⟩ := (hred ((2 * n + 2) / 2)).double
      obtain ⟨hadd, hadd'⟩ := Reduced.add false hdbl' h
      refine ⟨bind_ok htab (bind_ok hdbl (bind_ok hadd rfl)), fun j => ?_⟩
      rw [Ptwist.pointTable, Ptwist.tableStep, Function.update_apply, Function.update_apply]
      split
      · exact hadd'
      split
      · exact hdbl'
      · exact hred j

section Window
variable {T : ℕ → Point} (hT : ∀ j, Reduced (T j))
include hT

theorem nibbleStep_ok (h : Reduced P) (o : ℕ) :
    nibbleStep T P o = some (Ptwist.nibbleStep T P o) ∧ Reduced (Ptwist.nibbleStep T P o) := by
  obtain ⟨h1, r1⟩ := h.double
  obtain ⟨h2, r2⟩ := r1.double
  obtain ⟨h3, r3⟩ := r2.double
  obtain ⟨h4, r4⟩ := r3.double
  rw [nibbleStep, Ptwist.nibbleStep]
  by_cases ho : o ≠ 0
  · obtain ⟨hadd, hadd'⟩ := r4.add true (hT o)
    simp only [if_pos ho]
    exact ⟨bind_ok h1 (bind_ok h2 (bind_ok h3 (bind_ok h4 hadd))), hadd'⟩
  · simp only [if_neg ho]
    exact ⟨bind_ok h1 (bind_ok h2 (bind_ok h3 (bind_ok h4 rfl))), r4⟩

theorem windowStep_ok (h : Reduced P) (s : Byte) :
    windowStep T P s = some (Ptwist.windowStep T P s) ∧ Reduced (Ptwist.windowStep T P s) := by
  obtain ⟨hhi, hhi'⟩ := nibbleStep_ok hT h (s >>> 4).toNat
  obtain ⟨hlo, hlo'⟩ := nibbleStep_ok hT hhi' (s &&& 0x0f#8).toNat
  exact ⟨bind_ok hhi hlo, hlo'⟩

/-- The invariant over any number of windows. -/
theorem windows_ok : ∀ (ss : List Byte) {P : Point}, Reduced P →
    ss.foldlM (windowStep T) P = some (ss.foldl (Ptwist.windowStep T) P) ∧
      Reduced (ss.foldl (Ptwist.windowStep T) P)
  | [], _, h => ⟨rfl, h⟩
  | s :: ss, _, h => by
      obtain ⟨hstep, hred⟩ := windowStep_ok hT h s
      obtain ⟨hrest, hred'⟩ := windows_ok ss hred
      rw [List.foldlM_cons, List.foldl_cons]
      exact ⟨bind_ok hstep hrest, hred'⟩

end Window

theorem pointMul_ok (h : Reduced P) (s : Fin 21 → Byte) :
    pointMul P s = some (Ptwist.pointMul P s) ∧ Reduced (Ptwist.pointMul P s) := by
  obtain ⟨htab, hred⟩ := pointTable_ok h 7
  obtain ⟨hrun, hred'⟩ := windows_ok hred (List.ofFn s).reverse Reduced.zero
  exact ⟨bind_ok htab hrun, hred'⟩

/-! ### The whole function -/

def affineX (out : Felem) (P : Point) : Option Felem :=
  if felemIsZero P.z then some out
  else do
    let z2 ← felemInv P.z
    let z1 ← sqr z2
    let xin ← mul P.x z1
    felemContract xin

def curveZ (x : Felem) : Option Felem := do
  let z ← sqr x
  let z ← felemDiff64 z three
  let z ← mul z x
  felemSum64 z Ptwist.b

/-- `if (ontwist) felem_neg(x, x);` -/
def negIf (ontwist : Bool) (x : Felem) : Option Felem := if ontwist then felemNeg x else some x

def ptwistPointmul (junk : Junk) (x seckey : Fin 21 → Byte) : Option (Fin 21 → Byte) := do
  let x ← store (bin21ToFelem junk.past x)
  let z ← curveZ x
  let r ← felemSqrt z
  let r ← store r
  let tmp ← felemSquare r
  let tmp ← felemDiff12864 tmp z
  let r2 ← felemReduce tmp
  let ontwist := !felemIsZero r2
  let x ← negIf ontwist x
  let x ← store x
  let one ← store one
  let Q ← pointMul ⟨x, r, one⟩ seckey
  let Qx ← affineX junk.qx Q
  let Qx ← negIf ontwist Qx
  return felemToBin21 Qx

theorem affineX_ok (out : Felem) (h : Reduced P) :
    affineX out P = some (Ptwist.affineX out P) := by
  obtain ⟨t, h⟩ := h
  have hinv := h.z.is58.inv
  have hxin := h.x.is58.mulr hinv.is58.sqr.is58
  have h2 := hxin.h2
  rw [affineX, Ptwist.affineX]
  split
  · rfl
  refine bind_ok (felemInv_ok ⟨_, h.z.is58⟩) (bind_ok (sqr_ok hinv.is58) ?_)
  refine bind_ok (mul_ok h.x.is58 hinv.is58.sqr.is58) ?_
  exact felemContract_ok hxin.h0 hxin.h1 (by omega)

theorem curveZ_ok (h : Is56 a x) : curveZ a = some (Ptwist.curveZ a) := by
  have hsqr := h.is58.sqr
  have hdiff := hsqr.is58.diff three_is
  have hmul := ((hdiff.mul h.is64).mono (j := 126)).reduce
  refine bind_ok (sqr_ok h.is58) (bind_ok (felemDiff64_ok hsqr.is58 three_is) ?_)
  exact bind_ok (mul_ok hdiff h.is64) (felemSum64_ok hmul.is64 b_is)

theorem negIf_ok (ontwist : Bool) (h : Negatable a) :
    negIf ontwist a = some (if ontwist then Ptwist.felemNeg a else a) := by
  cases ontwist
  · rfl
  · exact felemNeg_ok h

section Run
variable (junk : Junk) (x s : Fin 21 → Byte)

/-- The point `ptwist_pointmul` multiplies. -/
def start (junk : Junk) (x : Fin 21 → Byte) : Point :=
  let x := bin21ToFelem junk.past x
  ⟨if onTwist x then Ptwist.felemNeg x else x, rootOf x, one⟩

theorem start_reduced : Reduced (start junk x) := by
  rw [start]
  split
  · exact ⟨_, twist_start_holds junk x⟩
  · exact ⟨_, start_holds junk x⟩

/-- Everything up to the last negation runs without wrapping. -/
theorem ptwistPointmul_run : ptwistPointmul junk x s = do
    let Qx ← negIf (onTwist (bin21ToFelem junk.past x))
      (Ptwist.affineX junk.qx (Ptwist.pointMul (start junk x) s))
    return felemToBin21 Qx := by
  have hx := bin21ToFelem_is junk.past x
  have hz := hx.curveZ
  have hr := hz.sqrt
  have hr2 := hr.is64.square
  have hd := (hr2.diff64 hz.mono).mono (j := 126)
  obtain ⟨hmul, hred⟩ := pointMul_ok (start_reduced junk x) s
  unfold ptwistPointmul
  refine bind_ok (store_ok hx) (bind_ok (curveZ_ok hx) ?_)
  refine bind_ok (felemSqrt_ok ⟨_, hz⟩) (bind_ok (store_ok hr) ?_)
  refine bind_ok (felemSquare_ok hr.is64) ?_
  refine bind_ok (felemDiff12864_ok hr2 hz.mono) ?_
  refine bind_ok (felemReduce_ok hd) ?_
  refine bind_ok (negIf_ok _ (Is56.negatable hx)) ?_
  obtain ⟨t, ht⟩ := start_reduced junk x
  refine bind_ok (store_ok ht.x) (bind_ok (store_ok one_is) ?_)
  exact bind_ok hmul (bind_ok (affineX_ok _ hred) rfl)

variable {x}

/-- On the main curve nothing is negated. -/
theorem run_main (h : IsSquare (rhs (leNat x))) :
    ptwistPointmul junk x s = some (Ptwist.ptwistPointmul junk x s) := by
  have hon := (onTwist_eq_false_iff junk x).mpr h
  rw [ptwistPointmul_run, ptwistPointmul_eq]
  simp only [start, hon, negIf, Bool.false_eq_true, if_false]
  exact Option.bind_some ..

/-- On the twist the run ends with the negation of what `affine_x` left. -/
theorem run_twist (h : ¬IsSquare (rhs (leNat x))) :
    ptwistPointmul junk x s =
        (felemNeg (Ptwist.affineX junk.qx (Ptwist.pointMul (start junk x) s))).map felemToBin21 ∧
      Ptwist.ptwistPointmul junk x s = felemToBin21
        (Ptwist.felemNeg (Ptwist.affineX junk.qx (Ptwist.pointMul (start junk x) s))) ∧
      IsPoint (-bCoeff) (Ptwist.pointMul (start junk x) s)
        (leNat s • .some _ _ (twist_nonsingular h)) := by
  have hon := (onTwist_eq_true_iff junk x).mpr h
  have hstart : start junk x = ⟨Ptwist.felemNeg (bin21ToFelem junk.past x),
      rootOf (bin21ToFelem junk.past x), one⟩ := by
    simp only [start, hon, if_true]
  have hP : IsPoint (-bCoeff) (start junk x) (.some _ _ (twist_nonsingular h)) := by
    rw [hstart]
    exact isPoint_affine (twist_start_holds junk x) (twist_nonsingular h)
  refine ⟨?_, ?_, hP.mul (twist_small_nsmul_ne (WeierstrassCurve.Affine.Point.some_ne_zero _)) s⟩
  · rw [ptwistPointmul_run, hon, negIf, if_pos rfl]
    exact bind_pure_comp _ _
  · rw [ptwistPointmul_eq, hstart]
    simp only [hon, if_true]

/-- The last negation is of the slices `Qx` held before, when the product is at infinity. -/
theorem negatable_affineX_iff (h : ¬IsSquare (rhs (leNat x))) :
    Negatable (Ptwist.affineX junk.qx (Ptwist.pointMul (start junk x) s)) ↔
      ¬twistOrder ∣ leNat s ∨ Negatable junk.qx := by
  obtain ⟨-, -, hQ⟩ := run_twist junk s h
  have horder := nsmul_twist_eq_zero_iff (WeierstrassCurve.Affine.Point.some_ne_zero
    (twist_nonsingular h)) (leNat s)
  by_cases hs : twistOrder ∣ leNat s
  · rw [horder.mpr hs] at hQ
    rw [hQ.affineX_zero]
    simp [hs]
  · obtain ⟨v, hv⟩ := hasX_of_ne_zero (horder.not.mpr hs)
    exact iff_of_true (Is56.negatable (hQ.affineX hv).is56) (Or.inl hs)

end Run

/-- `ptwist_pointmul` runs without a wrap exactly when the point is on the main curve, the multiple
    on the twist is finite, or the memory of `Qx` happens to hold slices that can be negated. -/
theorem no_wrap_iff (junk : Junk) (x s : Fin 21 → Byte) :
    ptwistPointmul junk x s = some (Ptwist.ptwistPointmul junk x s) ↔
      IsSquare (rhs (leNat x)) ∨ ¬twistOrder ∣ leNat s ∨ Negatable junk.qx := by
  by_cases h : IsSquare (rhs (leNat x))
  · exact iff_of_true (run_main junk s h) (Or.inl h)
  obtain ⟨hrun, heq, -⟩ := run_twist junk s h
  rw [hrun, heq, or_iff_right h, ← negatable_affineX_iff junk s h]
  constructor
  · intro hsome
    obtain ⟨c, hc, -⟩ := Option.map_eq_some_iff.mp hsome
    exact Negatable.of_some hc
  · intro hneg
    rw [felemNeg_ok hneg]
    rfl

/-- Multiplying the point over zero by zero with ones in the memory of `Qx`. -/
theorem zero_scalar_wraps :
    ptwistPointmul ⟨0#8, ⟨-1#64, -1#64, -1#64⟩⟩ (encode 21 0) (encode 21 0) = none := by
  have hzero : leNat (encode 21 0) = 0 := leNat_encode 21 0
  have hns : ¬IsSquare (rhs (leNat (encode 21 0))) := by
    rw [hzero, Nat.cast_zero]
    exact not_isSquare_of_hasX hasX_twistG
  have hdvd : twistOrder ∣ leNat (encode 21 0) := hzero ▸ dvd_zero _
  have hneg : ¬Negatable ⟨-1#64, -1#64, -1#64⟩ := fun h => absurd h.h0 (by decide)
  obtain ⟨hrun, -, -⟩ := run_twist ⟨0#8, ⟨-1#64, -1#64, -1#64⟩⟩ (encode 21 0) hns
  rw [hrun, Option.map_eq_none_iff, Option.eq_none_iff_forall_ne_some]
  intro c hc
  have h := (negatable_affineX_iff _ _ hns).mp (Negatable.of_some hc)
  exact h.elim (fun hn => hn hdvd) hneg

end Telex.Ptwist.Checked
