import Mathlib.Data.ZMod.Basic
import Mathlib.Tactic.Ring

/-! Field elements of `tag/ptwist168.cpp`

    A field element modulo `p = 2^168 - 2^8 - 1` is three 64-bit slices of weight `2^56`; a product
    is five 128-bit slices. Every routine of the source that works on slices is here with the
    source's own word operations, so a carry that does not fit is lost exactly as it is there. The
    second half says what the routines compute: `Is64 k a x` reads "the slices of `a` are below
    `2^k` and `a` stands for `x`", and each routine has one lemma that moves these bounds. -/

namespace Telex.Ptwist

abbrev Byte := BitVec 8

/-- `fslice`. -/
abbrev Fslice := BitVec 64

/-- `uint128_t`. -/
abbrev Uint128 := BitVec 128

/-- `fslice[3]`, also `coord`. -/
structure Felem where
  l0 : Fslice
  l1 : Fslice
  l2 : Fslice
  deriving DecidableEq

/-- `uint128_t[5]`, the unreduced result of a multiplication. -/
structure Felem128 where
  l0 : Uint128
  l1 : Uint128
  l2 : Uint128
  l3 : Uint128
  l4 : Uint128
  deriving DecidableEq

/-- `out += in` -/
def felemSum64 (out inp : Felem) : Felem := ⟨out.l0 + inp.l0, out.l1 + inp.l1, out.l2 + inp.l2⟩

/-- `out -= in`; the constants add `3p` first. -/
def felemDiff64 (out inp : Felem) : Felem :=
  let a : Fslice := (3#64 <<< 56) - 3
  let b : Fslice := (3#64 <<< 56) - 771
  ⟨out.l0 + b - inp.l0, out.l1 + a - inp.l1, out.l2 + a - inp.l2⟩

/-- `out128 -= in128`; the constants add `(3*2^174 + 3*2^118 + 49344)p` first. -/
def felemDiff128 (out inp : Felem128) : Felem128 :=
  let a : Uint128 := (3#128 <<< 118) - 192
  let b : Uint128 := (3#128 <<< 118) - 49536
  let c : Uint128 := 3#128 <<< 118
  let d : Uint128 := (3#128 <<< 118) - 12681408
  ⟨out.l0 + d - inp.l0, out.l1 + c - inp.l1, out.l2 + b - inp.l2, out.l3 + a - inp.l3,
    out.l4 + a - inp.l4⟩

/-- `out128 -= in64`; the constants add `192p` first. -/
def felemDiff12864 (out : Felem128) (inp : Felem) : Felem128 :=
  let a : Uint128 := (3#128 <<< 62) - 192
  let b : Uint128 := (3#128 <<< 62) - 49344
  ⟨out.l0 + b - inp.l0.setWidth 128, out.l1 + a - inp.l1.setWidth 128,
    out.l2 + a - inp.l2.setWidth 128, out.l3, out.l4⟩

/-- `out64 *= scalar` -/
def felemScalar64 (out : Felem) (scalar : Fslice) : Felem :=
  ⟨out.l0 * scalar, out.l1 * scalar, out.l2 * scalar⟩

/-- `out128 *= scalar` -/
def felemScalar128 (out : Felem128) (scalar : Uint128) : Felem128 :=
  ⟨out.l0 * scalar, out.l1 * scalar, out.l2 * scalar, out.l3 * scalar, out.l4 * scalar⟩

/-- `((uint128_t) x) * y` -/
def mulWide (x y : Fslice) : Uint128 := x.setWidth 128 * y.setWidth 128

def felemSquare (inp : Felem) : Felem128 :=
  ⟨mulWide inp.l0 inp.l0, mulWide inp.l0 inp.l1 * 2,
    mulWide inp.l0 inp.l2 * 2 + mulWide inp.l1 inp.l1, mulWide inp.l1 inp.l2 * 2,
    mulWide inp.l2 inp.l2⟩

def felemMul (in1 in2 : Felem) : Felem128 :=
  ⟨mulWide in1.l0 in2.l0, mulWide in1.l0 in2.l1 + mulWide in1.l1 in2.l0,
    mulWide in1.l0 in2.l2 + mulWide in1.l1 in2.l1 + mulWide in1.l2 in2.l0,
    mulWide in1.l1 in2.l2 + mulWide in1.l2 in2.l1, mulWide in1.l2 in2.l2⟩

/-- `M257(x)`, at the width of its argument. -/
def m257 {w : ℕ} (x : BitVec w) : BitVec w := (x <<< 8) + x

/-- Reduce 128-bit coefficients below `2^126` to 64-bit coefficients. -/
def felemReduce (inp : Felem128) : Felem :=
  let two56m1 : Uint128 := (1#128 <<< 56) - 1
  -- eliminate in[3], in[4]
  let o2 := inp.l2 + m257 (inp.l4 >>> 56)
  let o1 := inp.l1 + m257 (inp.l4 &&& two56m1)
  let o1 := o1 + m257 (inp.l3 >>> 56)
  let o0 := inp.l0 + m257 (inp.l3 &&& two56m1)
  -- eliminate the top part of output[2]
  let o0 := o0 + m257 (o2 >>> 56)
  let o2 := o2 &&& two56m1
  -- carry 0 -> 1 -> 2
  let o1 := o1 + (o0 >>> 56)
  let o0 := o0 &&& two56m1
  let o2 := o2 + (o1 >>> 56)
  let o1 := o1 &&& two56m1
  -- eliminate the top part of output[2]
  let o0 := o0 + m257 (o2 >>> 56)
  let o2 := o2 &&& two56m1
  -- carry 0 -> 1 -> 2
  let o1 := o1 + (o0 >>> 56)
  ⟨(o0 &&& two56m1).setWidth 64, (o1 &&& two56m1).setWidth 64, (o2 + (o1 >>> 56)).setWidth 64⟩

/-- Reduce to the unique minimal representation. -/
def felemContract (inp : Felem) : Felem :=
  let two56m1 : Fslice := (1#64 <<< 56) - 1
  let two56m257 : Fslice := (1#64 <<< 56) - 257
  let o0 := inp.l0 + m257 (inp.l2 >>> 56)
  let o2 := inp.l2 &&& two56m1
  let o1 := inp.l1 + (o0 >>> 56)
  let o0 := o0 &&& two56m1
  let o2 := o2 + (o1 >>> 56)
  let o1 := o1 &&& two56m1
  -- now out < 2^168, but it could still be at least p
  let a : Fslice := if o2 = two56m1 ∧ o1 = two56m1 ∧ two56m257 ≤ o0 then 1#64 else 0#64
  ⟨o0 - two56m257 * a, o1 - two56m1 * a, o2 - two56m1 * a⟩

/-- Negate a field element: `3p - in`, carried and contracted. -/
def felemNeg (inp : Felem) : Felem :=
  let a : Fslice := (3#64 <<< 56) - 3
  let b : Fslice := (3#64 <<< 56) - 771
  let two56m1 : Fslice := (1#64 <<< 56) - 1
  let t0 := b - inp.l0
  let t1 := a - inp.l1
  let t2 := a - inp.l2
  let t1 := t1 + (t0 >>> 56)
  let t0 := t0 &&& two56m1
  let t2 := t2 + (t1 >>> 56)
  let t1 := t1 &&& two56m1
  felemContract ⟨t0, t1, t2⟩

/-- Zero check: `0`, `2^168 - 2^8 - 1` or `2^169 - 2^9 - 2`. -/
def felemIsZero (inp : Felem) : Bool :=
  let two56m1 : Fslice := (1#64 <<< 56) - 1
  let two56m257 : Fslice := (1#64 <<< 56) - 257
  let two57m1 : Fslice := (1#64 <<< 57) - 1
  let two56m514 : Fslice := (1#64 <<< 56) - 514
  let zero := inp.l0 == 0 && inp.l1 == 0 && inp.l2 == 0
  let two168m8m1 := inp.l2 == two56m1 && inp.l1 == two56m1 && inp.l0 == two56m257
  let two169m9m2 := inp.l2 == two57m1 && inp.l1 == two56m1 && inp.l0 == two56m514
  zero || two168m8m1 || two169m9m2

/-! ### Values and bounds -/

/-- The field's modulus. -/
def p : ℕ := 2 ^ 168 - 2 ^ 8 - 1

/-- The integer a field element's slices add up to. -/
def Felem.val (a : Felem) : ℕ := a.l0.toNat + 2 ^ 56 * a.l1.toNat + 2 ^ 112 * a.l2.toNat

/-- The integer an unreduced product's slices add up to. -/
def Felem128.val (a : Felem128) : ℕ :=
  a.l0.toNat + 2 ^ 56 * a.l1.toNat + 2 ^ 112 * a.l2.toNat + 2 ^ 168 * a.l3.toNat +
    2 ^ 224 * a.l4.toNat

/-- The slices of `a` are below `2^k` and `a` stands for `x`. -/
structure Is64 (k : ℕ) (a : Felem) (x : ZMod p) : Prop where
  h0 : a.l0.toNat < 2 ^ k
  h1 : a.l1.toNat < 2 ^ k
  h2 : a.l2.toNat < 2 ^ k
  eq : (a.val : ZMod p) = x

/-- The slices of `a` are below `2^k` and `a` stands for `x`. -/
structure Is128 (k : ℕ) (a : Felem128) (x : ZMod p) : Prop where
  h0 : a.l0.toNat < 2 ^ k
  h1 : a.l1.toNat < 2 ^ k
  h2 : a.l2.toNat < 2 ^ k
  h3 : a.l3.toNat < 2 ^ k
  h4 : a.l4.toNat < 2 ^ k
  eq : (a.val : ZMod p) = x

/-- The range `felem_reduce` ensures: all slices below `2^56`, the top one possibly equal to it. -/
structure Is56 (a : Felem) (x : ZMod p) : Prop where
  h0 : a.l0.toNat < 2 ^ 56
  h1 : a.l1.toNat < 2 ^ 56
  h2 : a.l2.toNat ≤ 2 ^ 56
  eq : (a.val : ZMod p) = x

end Telex.Ptwist
