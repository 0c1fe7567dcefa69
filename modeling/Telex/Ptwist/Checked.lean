import Telex.Lib.Word
import Telex.Ptwist.Pointmul

/-! `tag/ptwist168.cpp` with every wrap detected

    The routines of the source once more, with word operations that fail instead of wrapping. The
    reduction also fails on a coefficient of `2^126` or more, and a coordinate is stored in a point
    only if its slices are in the range of `felem_reduce`. A routine that returns has therefore
    kept every bound its source comments promise; each `_ok` lemma says that it returns what the
    wrapping routine does. The masks of `copy_conditional` wrap on purpose and stay as they are. -/

namespace Telex.Ptwist.Checked
open Word (bind_ok)

/-! ### Slices -/

/-- Three slices computed one by one. -/
def slices (l0 l1 l2 : Option Fslice) : Option Felem := do
  return ⟨← l0, ← l1, ← l2⟩

/-- Five coefficients computed one by one. -/
def slices128 (l0 l1 l2 l3 l4 : Option Uint128) : Option Felem128 := do
  return ⟨← l0, ← l1, ← l2, ← l3, ← l4⟩

/-- `out += c; out -= in;` -/
def addSub {w : ℕ} (out c inp : BitVec w) : Option (BitVec w) := do
  Word.sub (← Word.add out c) inp

/-- `((uint128_t) x) * y` -/
def mulWide (x y : Fslice) : Option Uint128 := Word.mul (x.setWidth 128) (y.setWidth 128)

/-- `x + y` of two products. -/
def addWide (x y : Option Uint128) : Option Uint128 := do
  Word.add (← x) (← y)

/-- `x * 2` of a product. -/
def dblWide (x : Option Uint128) : Option Uint128 := do
  Word.mul (← x) 2

/-- `out += M257(x);` -/
def addM257 {w : ℕ} (out x : BitVec w) : Option (BitVec w) := do
  Word.add out (← Word.add (← Word.shl x 8) x)

def felemSum64 (out inp : Felem) : Option Felem :=
  slices (Word.add out.l0 inp.l0) (Word.add out.l1 inp.l1) (Word.add out.l2 inp.l2)

def felemDiff64 (out inp : Felem) : Option Felem :=
  let a : Fslice := (3#64 <<< 56) - 3
  let b : Fslice := (3#64 <<< 56) - 771
  slices (addSub out.l0 b inp.l0) (addSub out.l1 a inp.l1) (addSub out.l2 a inp.l2)

def felemDiff128 (out inp : Felem128) : Option Felem128 :=
  let a : Uint128 := (3#128 <<< 118) - 192
  let b : Uint128 := (3#128 <<< 118) - 49536
  let c : Uint128 := 3#128 <<< 118
  let d : Uint128 := (3#128 <<< 118) - 12681408
  slices128 (addSub out.l0 d inp.l0) (addSub out.l1 c inp.l1) (addSub out.l2 b inp.l2)
    (addSub out.l3 a inp.l3) (addSub out.l4 a inp.l4)

def felemDiff12864 (out : Felem128) (inp : Felem) : Option Felem128 :=
  let a : Uint128 := (3#128 <<< 62) - 192
  let b : Uint128 := (3#128 <<< 62) - 49344
  slices128 (addSub out.l0 b (inp.l0.setWidth 128)) (addSub out.l1 a (inp.l1.setWidth 128))
    (addSub out.l2 a (inp.l2.setWidth 128)) (some out.l3) (some out.l4)

def felemScalar64 (out : Felem) (scalar : Fslice) : Option Felem :=
  slices (Word.mul out.l0 scalar) (Word.mul out.l1 scalar) (Word.mul out.l2 scalar)

def felemScalar128 (out : Felem128) (scalar : Uint128) : Option Felem128 :=
  slices128 (Word.mul out.l0 scalar) (Word.mul out.l1 scalar) (Word.mul out.l2 scalar)
    (Word.mul out.l3 scalar) (Word.mul out.l4 scalar)

def felemSquare (inp : Felem) : Option Felem128 :=
  slices128 (mulWide inp.l0 inp.l0) (dblWide (mulWide inp.l0 inp.l1))
    (addWide (dblWide (mulWide inp.l0 inp.l2)) (mulWide inp.l1 inp.l1))
    (dblWide (mulWide inp.l1 inp.l2)) (mulWide inp.l2 inp.l2)

def felemMul (in1 in2 : Felem) : Option Felem128 :=
  slices128 (mulWide in1.l0 in2.l0) (addWide (mulWide in1.l0 in2.l1) (mulWide in1.l1 in2.l0))
    (addWide (addWide (mulWide in1.l0 in2.l2) (mulWide in1.l1 in2.l1)) (mulWide in1.l2 in2.l0))
    (addWide (mulWide in1.l1 in2.l2) (mulWide in1.l2 in2.l1)) (mulWide in1.l2 in2.l2)

/-- Also requires the coefficients to be below `2^126`. -/
def felemReduce (inp : Felem128) : Option Felem :=
  let two56m1 : Uint128 := (1#128 <<< 56) - 1
  if inp.l0.toNat < 2 ^ 126 ∧ inp.l1.toNat < 2 ^ 126 ∧ inp.l2.toNat < 2 ^ 126 ∧
      inp.l3.toNat < 2 ^ 126 ∧ inp.l4.toNat < 2 ^ 126 then do
    let o2 ← addM257 inp.l2 (inp.l4 >>> 56)
    let o1 ← addM257 inp.l1 (inp.l4 &&& two56m1)
    let o1 ← addM257 o1 (inp.l3 >>> 56)
    let o0 ← addM257 inp.l0 (inp.l3 &&& two56m1)
    let o0 ← addM257 o0 (o2 >>> 56)
    let o2 := o2 &&& two56m1
    let o1 ← Word.add o1 (o0 >>> 56)
    let o0 := o0 &&& two56m1
    let o2 ← Word.add o2 (o1 >>> 56)
    let o1 := o1 &&& two56m1
    let o0 ← addM257 o0 (o2 >>> 56)
    let o2 := o2 &&& two56m1
    let o1 ← Word.add o1 (o0 >>> 56)
    let l2 ← Word.add o2 (o1 >>> 56)
    slices (Word.narrow 64 (o0 &&& two56m1)) (Word.narrow 64 (o1 &&& two56m1)) (Word.narrow 64 l2)
  else none

def felemContract (inp : Felem) : Option Felem := do
  let two56m1 : Fslice := (1#64 <<< 56) - 1
  let two56m257 : Fslice := (1#64 <<< 56) - 257
  let o0 ← addM257 inp.l0 (inp.l2 >>> 56)
  let o2 := inp.l2 &&& two56m1
  let o1 ← Word.add inp.l1 (o0 >>> 56)
  let o0 := o0 &&& two56m1
  let o2 ← Word.add o2 (o1 >>> 56)
  let o1 := o1 &&& two56m1
  let a : Fslice := if o2 = two56m1 ∧ o1 = two56m1 ∧ two56m257 ≤ o0 then 1#64 else 0#64
  let s0 ← Word.mul two56m257 a
  let s ← Word.mul two56m1 a
  slices (Word.sub o0 s0) (Word.sub o1 s) (Word.sub o2 s)

def felemNeg (inp : Felem) : Option Felem := do
  let a : Fslice := (3#64 <<< 56) - 3
  let b : Fslice := (3#64 <<< 56) - 771
  let two56m1 : Fslice := (1#64 <<< 56) - 1
  let t0 ← Word.sub b inp.l0
  let t1 ← Word.sub a inp.l1
  let t2 ← Word.sub a inp.l2
  let t1 ← Word.add t1 (t0 >>> 56)
  let t0 := t0 &&& two56m1
  let t2 ← Word.add t2 (t1 >>> 56)
  let t1 := t1 &&& two56m1
  felemContract ⟨t0, t1, t2⟩

variable {a b : Felem} {u v : Felem128} {x y : ZMod p} {i j k : ℕ} {β : Type}

theorem slices_ok {m0 m1 m2 : Option Fslice} {l0 l1 l2 : Fslice} (h0 : m0 = some l0)
    (h1 : m1 = some l1) (h2 : m2 = some l2) : slices m0 m1 m2 = some ⟨l0, l1, l2⟩ := by
  rw [h0, h1, h2]; rfl

theorem slices128_ok {m0 m1 m2 m3 m4 : Option Uint128} {l0 l1 l2 l3 l4 : Uint128}
    (h0 : m0 = some l0) (h1 : m1 = some l1) (h2 : m2 = some l2) (h3 : m3 = some l3)
    (h4 : m4 = some l4) : slices128 m0 m1 m2 m3 m4 = some ⟨l0, l1, l2, l3, l4⟩ := by
  rw [h0, h1, h2, h3, h4]; rfl

theorem addSub_ok {w : ℕ} {o c l : BitVec w} (h : o.toNat + c.toNat < 2 ^ w)
    (hl : l.toNat ≤ c.toNat) : addSub o c l = some (o + c - l) :=
  Word.add_bind h fun e => Word.sub_ok (by omega)

theorem mulWide_ok (l m : Fslice) : mulWide l m = some (Ptwist.mulWide l m) := by
  have hlm : l.toNat * m.toNat < 2 ^ 64 * 2 ^ 64 := Nat.mul_lt_mul'' l.isLt m.isLt
  exact Word.mul_ok (by rw [toNat_widen, toNat_widen]; omega)

theorem addWide_ok {m n : Option Uint128} {l r : Uint128} (hm : m = some l) (hn : n = some r)
    (h : l.toNat + r.toNat < 2 ^ 128) : addWide m n = some (l + r) := by
  rw [hm, hn]; exact Word.add_ok h

theorem dblWide_ok {m : Option Uint128} {l : Uint128} (hm : m = some l)
    (h : l.toNat * 2 < 2 ^ 128) : dblWide m = some (l * 2) := by
  rw [hm]; exact Word.mul_ok h

theorem addM257_ok {w : ℕ} {o l : BitVec w} (h : o.toNat + 257 * l.toNat < 2 ^ w) :
    addM257 o l = some (o + m257 l) := by
  have h8 : (l <<< 8).toNat = l.toNat * 2 ^ 8 := by
    rw [BitVec.toNat_shiftLeft, Nat.shiftLeft_eq, Nat.mod_eq_of_lt (by omega)]
  refine bind_ok (Word.shl_ok (by omega)) (Word.add_bind (by omega) fun e => Word.add_ok ?_)
  omega

theorem addM257_bind {w : ℕ} {o l : BitVec w} {f : BitVec w → Option β} {r : β}
    (h : o.toNat + 257 * l.toNat < 2 ^ w)
    (hf : (o + m257 l).toNat = o.toNat + 257 * l.toNat → f (o + m257 l) = some r) :
    (addM257 o l >>= f) = some r := by
  have e : (m257 l).toNat = 257 * l.toNat := toNat_m257 (by omega)
  refine bind_ok (addM257_ok h) (hf ?_)
  rw [BitVec.toNat_add_of_lt (by omega), e]

theorem felemSum64_ok (ha : Is64 k a x) (hb : Is64 k b y) (hk : k ≤ 63 := by decide) :
    felemSum64 a b = some (Ptwist.felemSum64 a b) := by
  have hp : 2 ^ (k + 1) ≤ 2 ^ 64 := Nat.pow_le_pow_right (by decide) (by omega)
  have hs : 2 ^ (k + 1) = 2 * 2 ^ k := by rw [pow_succ]; ring
  have add : ∀ {l m : Fslice}, l.toNat < 2 ^ k → m.toNat < 2 ^ k → Word.add l m = some (l + m) :=
    fun hl hm => Word.add_ok (by omega)
  exact slices_ok (add ha.h0 hb.h0) (add ha.h1 hb.h1) (add ha.h2 hb.h2)

theorem felemDiff64_ok (ha : Is64 k a x) (hb : Is64 57 b y) (hk : k ≤ 63 := by decide) :
    felemDiff64 a b = some (Ptwist.felemDiff64 a b) := by
  have hp : 2 ^ k ≤ 2 ^ 63 := Nat.pow_le_pow_right (by decide) hk
  have ca : (3#64 <<< 56 - 3).toNat = 3 * 2 ^ 56 - 3 := by decide
  have cb : (3#64 <<< 56 - 771).toNat = 3 * 2 ^ 56 - 771 := by decide
  obtain ⟨a0, a1, a2, -⟩ := ha
  obtain ⟨b0, b1, b2, -⟩ := hb
  exact slices_ok (addSub_ok (by omega) (by omega)) (addSub_ok (by omega) (by omega))
    (addSub_ok (by omega) (by omega))

theorem felemDiff128_ok (hu : Is128 k u x) (hv : Is128 119 v y) (hk : k ≤ 126 := by decide) :
    felemDiff128 u v = some (Ptwist.felemDiff128 u v) := by
  have hp : 2 ^ k ≤ 2 ^ 126 := Nat.pow_le_pow_right (by decide) hk
  have ca : (3#128 <<< 118 - 192).toNat = 3 * 2 ^ 118 - 192 := by decide
  have cb : (3#128 <<< 118 - 49536).toNat = 3 * 2 ^ 118 - 49536 := by decide
  have cc : (3#128 <<< 118).toNat = 3 * 2 ^ 118 := by decide
  have cd : (3#128 <<< 118 - 12681408).toNat = 3 * 2 ^ 118 - 12681408 := by decide
  obtain ⟨a0, a1, a2, a3, a4, -⟩ := hu
  obtain ⟨b0, b1, b2, b3, b4, -⟩ := hv
  exact slices128_ok (addSub_ok (by omega) (by omega)) (addSub_ok (by omega) (by omega))
    (addSub_ok (by omega) (by omega)) (addSub_ok (by omega) (by omega))
    (addSub_ok (by omega) (by omega))

theorem felemDiff12864_ok (hu : Is128 k u x) (hb : Is64 63 b y) (hk : k ≤ 127 := by decide) :
    felemDiff12864 u b = some (Ptwist.felemDiff12864 u b) := by
  have hp : 2 ^ k ≤ 2 ^ 127 := Nat.pow_le_pow_right (by decide) hk
  have ca : (3#128 <<< 62 - 192).toNat = 3 * 2 ^ 62 - 192 := by decide
  have cb : (3#128 <<< 62 - 49344).toNat = 3 * 2 ^ 62 - 49344 := by decide
  obtain ⟨a0, a1, a2, -, -, -⟩ := hu
  obtain ⟨b0, b1, b2, -⟩ := hb
  refine slices128_ok (addSub_ok (by omega) ?_) (addSub_ok (by omega) ?_)
    (addSub_ok (by omega) ?_) rfl rfl <;> rw [toNat_widen] <;> omega

/-- One product of a bounded word and a small scalar. -/
theorem word_scalar_ok {w : ℕ} {l : BitVec w} {s : ℕ} (hl : l.toNat < 2 ^ k) (hs : s ≤ 2 ^ j)
    (hk : k + j < w) : Word.mul l (BitVec.ofNat w s) = some (l * BitVec.ofNat w s) := by
  have hp : 2 ^ (k + j) ≤ 2 ^ w := Nat.pow_le_pow_right (by decide) hk.le
  refine Word.mul_ok ?_
  rw [toNat_scalar hs (by omega)]
  exact (mul_scalar_lt hl hs).trans_le hp

theorem felemScalar64_ok (ha : Is64 k a x) (s j : ℕ) (hs : s ≤ 2 ^ j := by decide)
    (hk : k + j < 64 := by decide) :
    felemScalar64 a (BitVec.ofNat 64 s) = some (Ptwist.felemScalar64 a (BitVec.ofNat 64 s)) :=
  slices_ok (word_scalar_ok ha.h0 hs hk) (word_scalar_ok ha.h1 hs hk) (word_scalar_ok ha.h2 hs hk)

theorem felemScalar128_ok (hu : Is128 k u x) (s j : ℕ) (hs : s ≤ 2 ^ j := by decide)
    (hk : k + j < 128 := by decide) :
    felemScalar128 u (BitVec.ofNat 128 s) =
      some (Ptwist.felemScalar128 u (BitVec.ofNat 128 s)) :=
  slices128_ok (word_scalar_ok hu.h0 hs hk) (word_scalar_ok hu.h1 hs hk)
    (word_scalar_ok hu.h2 hs hk) (word_scalar_ok hu.h3 hs hk) (word_scalar_ok hu.h4 hs hk)

theorem mulWide_lt {l m : Fslice} (hl : l.toNat < 2 ^ i) (hm : m.toNat < 2 ^ j)
    (hij : i + j ≤ 126) : (Ptwist.mulWide l m).toNat < 2 ^ 126 := by
  have hp : 2 ^ (i + j) ≤ 2 ^ 126 := Nat.pow_le_pow_right (by decide) hij
  rw [toNat_mulWide]
  exact (Nat.mul_lt_mul'' hl hm).trans_le (by rwa [← pow_add])

theorem felemMul_ok (ha : Is64 i a x) (hb : Is64 j b y) (hij : i + j ≤ 126 := by decide) :
    felemMul a b = some (Ptwist.felemMul a b) := by
  have c01 := mulWide_lt ha.h0 hb.h1 hij
  have c10 := mulWide_lt ha.h1 hb.h0 hij
  have c02 := mulWide_lt ha.h0 hb.h2 hij
  have c11 := mulWide_lt ha.h1 hb.h1 hij
  have c20 := mulWide_lt ha.h2 hb.h0 hij
  have c12 := mulWide_lt ha.h1 hb.h2 hij
  have c21 := mulWide_lt ha.h2 hb.h1 hij
  have hsum := BitVec.toNat_add_of_lt (x := Ptwist.mulWide a.l0 b.l2)
    (y := Ptwist.mulWide a.l1 b.l1) (by omega)
  exact slices128_ok (mulWide_ok _ _) (addWide_ok (mulWide_ok _ _) (mulWide_ok _ _) (by omega))
    (addWide_ok (addWide_ok (mulWide_ok _ _) (mulWide_ok _ _) (by omega)) (mulWide_ok _ _)
      (by omega))
    (addWide_ok (mulWide_ok _ _) (mulWide_ok _ _) (by omega)) (mulWide_ok _ _)

theorem felemSquare_ok (ha : Is64 i a x) (hi : i ≤ 63 := by decide) :
    felemSquare a = some (Ptwist.felemSquare a) := by
  have hii : i + i ≤ 126 := by omega
  have c01 := mulWide_lt ha.h0 ha.h1 hii
  have c02 := mulWide_lt ha.h0 ha.h2 hii
  have c11 := mulWide_lt ha.h1 ha.h1 hii
  have c12 := mulWide_lt ha.h1 ha.h2 hii
  have hdbl : (Ptwist.mulWide a.l0 a.l2 * 2).toNat < 2 ^ 127 := by
    rw [BitVec.toNat_mul]; exact (Nat.mod_le _ _).trans_lt (by change _ * 2 < _; omega)
  exact slices128_ok (mulWide_ok _ _) (dblWide_ok (mulWide_ok _ _) (by omega))
    (addWide_ok (dblWide_ok (mulWide_ok _ _) (by omega)) (mulWide_ok _ _) (by omega))
    (dblWide_ok (mulWide_ok _ _) (by omega)) (mulWide_ok _ _)

theorem felemReduce_ok (hu : Is128 126 u x) : felemReduce u = some (Ptwist.felemReduce u) := by
  obtain ⟨h0, h1, h2, h3, h4, -⟩ := hu
  rw [felemReduce, if_pos ⟨h0, h1, h2, h3, h4⟩]
  refine addM257_bind (by rw [toNat_hi]; omega) fun d2 => ?_
  refine addM257_bind (by rw [toNat_lo]; omega) fun d1 => ?_
  rw [toNat_hi] at d2
  rw [toNat_lo] at d1
  refine addM257_bind (by rw [toNat_hi]; omega) fun d1a => ?_
  refine addM257_bind (by rw [toNat_lo]; omega) fun d0 => ?_
  rw [toNat_hi] at d1a
  rw [toNat_lo] at d0
  refine addM257_bind (by rw [toNat_hi]; omega) fun d0a => ?_
  rw [toNat_hi] at d0a
  refine Word.add_bind (by rw [toNat_hi]; omega) fun d1b => ?_
  refine Word.add_bind (by rw [toNat_lo, toNat_hi]; omega) fun d2b => ?_
  rw [toNat_hi] at d1b
  rw [toNat_lo, toNat_hi] at d2b
  refine addM257_bind (by rw [toNat_lo, toNat_hi]; omega) fun d0c => ?_
  rw [toNat_lo, toNat_hi] at d0c
  refine Word.add_bind (by rw [toNat_lo, toNat_hi]; omega) fun d1d => ?_
  rw [toNat_lo, toNat_hi] at d1d
  refine Word.add_bind (by rw [toNat_lo, toNat_hi]; omega) fun d2d => ?_
  rw [toNat_lo, toNat_hi] at d2d
  refine slices_ok (Word.narrow_ok ?_) (Word.narrow_ok ?_) (Word.narrow_ok ?_)
  · rw [toNat_lo]; omega
  · rw [toNat_lo]; omega
  · omega

/-- The last step of `felem_contract`: whatever is subtracted was found to be there. -/
theorem contract_last_ok (o0 o1 o2 m m' : Fslice) {f : Fslice}
    (hf : f = if o2 = m ∧ o1 = m ∧ m' ≤ o0 then 1#64 else 0#64) :
    (do let s0 ← Word.mul m' f
        let s ← Word.mul m f
        slices (Word.sub o0 s0) (Word.sub o1 s) (Word.sub o2 s)) =
      some ⟨o0 - m' * f, o1 - m * f, o2 - m * f⟩ := by
  split_ifs at hf with hc
  · obtain ⟨rfl, rfl, h0⟩ := hc
    have one : ∀ l : Fslice, Word.mul l f = some (l * f) := fun l => by
      rw [hf]; exact Word.mul_ok (by simpa using l.isLt)
    rw [one, one, Option.bind_eq_bind, Option.bind_some, Option.bind_some, hf]
    simp only [BitVec.mul_one]
    exact slices_ok (Word.sub_ok (BitVec.le_def.mp h0)) (Word.sub_ok le_rfl) (Word.sub_ok le_rfl)
  · have zero : ∀ l : Fslice, Word.mul l f = some (l * f) := fun l => by
      rw [hf]; exact Word.mul_ok (by simp)
    rw [zero, zero, Option.bind_eq_bind, Option.bind_some, Option.bind_some, hf]
    simp only [BitVec.mul_zero]
    exact slices_ok (Word.sub_ok (Nat.zero_le _)) (Word.sub_ok (Nat.zero_le _))
      (Word.sub_ok (Nat.zero_le _))

theorem felemContract_ok (h0 : a.l0.toNat < 2 ^ 56) (h1 : a.l1.toNat < 2 ^ 56)
    (h2 : a.l2.toNat < 2 ^ 58) : felemContract a = some (Ptwist.felemContract a) := by
  refine addM257_bind (by rw [toNat_hi64]; omega) fun d0 => ?_
  rw [toNat_hi64] at d0
  refine Word.add_bind (by rw [toNat_hi64]; omega) fun d1 => ?_
  rw [toNat_hi64] at d1
  refine Word.add_bind (by rw [toNat_lo64, toNat_hi64]; omega) fun d2 => ?_
  exact contract_last_ok _ _ _ _ _ rfl

/-- The slices `felem_neg` can subtract from its constants. -/
structure Negatable (a : Felem) : Prop where
  h0 : a.l0.toNat ≤ 3 * 2 ^ 56 - 771
  h1 : a.l1.toNat ≤ 3 * 2 ^ 56 - 3
  h2 : a.l2.toNat ≤ 3 * 2 ^ 56 - 3

theorem Is56.negatable (h : Is56 a x) : Negatable a :=
  have h0 := h.h0
  have h1 := h.h1
  have h2 := h.h2
  ⟨by omega, by omega, by omega⟩

theorem negConst : ((3#64 <<< 56) - 3 : Fslice).toNat = 3 * 2 ^ 56 - 3 ∧
    ((3#64 <<< 56) - 771 : Fslice).toNat = 3 * 2 ^ 56 - 771 := by decide

theorem felemNeg_ok (h : Negatable a) : felemNeg a = some (Ptwist.felemNeg a) := by
  obtain ⟨h0, h1, h2⟩ := h
  obtain ⟨ca, cb⟩ := negConst
  refine Word.sub_bind (by omega) fun d0 => ?_
  refine Word.sub_bind (by omega) fun d1 => ?_
  refine Word.sub_bind (by omega) fun d2 => ?_
  refine Word.add_bind (by rw [toNat_hi64]; omega) fun d1' => ?_
  rw [toNat_hi64] at d1'
  refine Word.add_bind (by rw [toNat_hi64]; omega) fun d2' => ?_
  rw [toNat_hi64] at d2'
  refine felemContract_ok ?_ ?_ ?_
  · rw [toNat_lo64]; omega
  · rw [toNat_lo64]; omega
  · change BitVec.toNat (_ + _) < _
    omega

/-- On any other slices one of the first three subtractions goes below zero. -/
theorem Negatable.of_some {c : Felem} (h : felemNeg a = some c) : Negatable a := by
  obtain ⟨ca, cb⟩ := negConst
  simp only [felemNeg, Option.bind_eq_bind, Option.bind_eq_some_iff] at h
  obtain ⟨t0, h0, t1, h1, t2, h2, -⟩ := h
  have h0 := Word.le_of_sub_eq_some h0
  have h1 := Word.le_of_sub_eq_some h1
  have h2 := Word.le_of_sub_eq_some h2
  exact ⟨by omega, by omega, by omega⟩

end Telex.Ptwist.Checked
