import Telex.Ptwist.Int128
import Telex.Ptwist.Power

/-! `tag/ptwist168.cpp` built without a native 128-bit type

    The routines that name `uint128_t`, with `int128.h`'s class in its place. Their right operands
    are constants, temporaries or another array, never the object written to, so the lost carry of
    `x += x` cannot show; every routine leaves the slices it leaves with the native type. The
    routines on `fslice` alone are the same code in both builds. -/

namespace Telex.Ptwist.Portable
open Int128

instance : Add U128 := ⟨Int128.add⟩

instance : Sub U128 := ⟨Int128.sub⟩

instance : Mul U128 := ⟨Int128.mul⟩

instance : HAnd U128 U128 U128 := ⟨logic128 (· &&& ·)⟩

instance : HShiftLeft U128 ℕ U128 := ⟨shl⟩

instance : HShiftRight U128 ℕ U128 := ⟨shr⟩

/-- `uint128_t[5]` -/
structure Coeffs where
  l0 : U128
  l1 : U128
  l2 : U128
  l3 : U128
  l4 : U128

/-- The coefficients as native words. -/
def Coeffs.value (u : Coeffs) : Felem128 :=
  ⟨u.l0.value, u.l1.value, u.l2.value, u.l3.value, u.l4.value⟩

def felemDiff128 (out inp : Coeffs) : Coeffs :=
  let a := (ofInt 3 <<< 118) - ofInt 192
  let b := (ofInt 3 <<< 118) - ofInt 49536
  let c := ofInt 3 <<< 118
  let d := (ofInt 3 <<< 118) - ofInt 12681408
  ⟨out.l0 + d - inp.l0, out.l1 + c - inp.l1, out.l2 + b - inp.l2, out.l3 + a - inp.l3,
    out.l4 + a - inp.l4⟩

def felemDiff12864 (out : Coeffs) (inp : Felem) : Coeffs :=
  let a := (ofInt 3 <<< 62) - ofInt 192
  let b := (ofInt 3 <<< 62) - ofInt 49344
  ⟨out.l0 + b - ofUint64 inp.l0, out.l1 + a - ofUint64 inp.l1, out.l2 + a - ofUint64 inp.l2,
    out.l3, out.l4⟩

def felemScalar128 (out : Coeffs) (scalar : U128) : Coeffs :=
  ⟨out.l0 * scalar, out.l1 * scalar, out.l2 * scalar, out.l3 * scalar, out.l4 * scalar⟩

/-- `((uint128_t) x) * y` -/
def mulWide (x y : Fslice) : U128 := ofUint64 x * ofUint64 y

def felemSquare (inp : Felem) : Coeffs :=
  ⟨mulWide inp.l0 inp.l0, mulWide inp.l0 inp.l1 * ofInt 2,
    mulWide inp.l0 inp.l2 * ofInt 2 + mulWide inp.l1 inp.l1, mulWide inp.l1 inp.l2 * ofInt 2,
    mulWide inp.l2 inp.l2⟩

def felemMul (in1 in2 : Felem) : Coeffs :=
  ⟨mulWide in1.l0 in2.l0, mulWide in1.l0 in2.l1 + mulWide in1.l1 in2.l0,
    mulWide in1.l0 in2.l2 + mulWide in1.l1 in2.l1 + mulWide in1.l2 in2.l0,
    mulWide in1.l1 in2.l2 + mulWide in1.l2 in2.l1, mulWide in1.l2 in2.l2⟩

/-- `M257(x)` -/
def m257 (x : U128) : U128 := (x <<< 8) + x

def felemReduce (inp : Coeffs) : Felem :=
  let two56m1 := (ofInt 1 <<< 56) - ofInt 1
  -- eliminate in[3], in[4]
  let o2 := inp.l2 + m257 (inp.l4 >>> 56)
  let o1 := inp.l1 + m257 (inp.l4 &&& two56m1)
  let o1 := o1 + m257 (inp.l3 >>> 56)
  let o0 := inp.l0 + m257 (inp.l3 &&& two56m1)
  -- eliminate the top part of output[2]
  let o0 := o0 + m257 (o2 >>> 56)
  let o2 := o2 &&& two56m1
  -- carry 0 -> 1 -> 2
  let o1 := o1 + (o0 >>> 56)
  let o0 := o0 &&& two56m1
  let o2 := o2 + (o1 >>> 56)
  let o1 := o1 &&& two56m1
  -- eliminate the top part of output[2]
  let o0 := o0 + m257 (o2 >>> 56)
  let o2 := o2 &&& two56m1
  -- carry 0 -> 1 -> 2
  let o1 := o1 + (o0 >>> 56)
  ⟨low64 (o0 &&& two56m1), low64 (o1 &&& two56m1), low64 (o2 + (o1 >>> 56))⟩

/-- `felem_square(tmp, in); felem_reduce(out, tmp);` -/
def sqr (a : Felem) : Felem := felemReduce (felemSquare a)

/-- `felem_mul(tmp, in1, in2); felem_reduce(out, tmp);` -/
def mul (a b : Felem) : Felem := felemReduce (felemMul a b)

/-- `for (i = 0; i < n; ++i) { felem_square(tmp, a); felem_reduce(a, tmp); }` -/
def sqrN : ℕ → Felem → Felem
  | 0, a => a
  | n + 1, a => sqrN n (sqr a)

/-- Invert a field element. -/
def felemInv (inp : Felem) : Felem :=
  let ftmp := sqr inp                       -- 2
  let ftmp := mul inp ftmp                  -- 2 ^ 2 - 1
  let ftmp2 := sqr ftmp                     -- 2 ^ 3 - 2
  let ftmp2 := sqr ftmp2                    -- 2 ^ 4 - 2^2
  let ftmp2 := mul ftmp2 ftmp               -- 2 ^ 4 - 1
  let ftmp2 := sqr ftmp2                    -- 2 ^ 5 - 2
  let ftmp2 := sqr ftmp2                    -- 2 ^ 6 - 2^2
  let ftmp := mul ftmp2 ftmp                -- 2 ^ 6 - 1
  let ftmp2 := sqr ftmp                     -- 2 ^ 7 - 2
  let ftmp2 := sqrN 5 ftmp2                 -- 2 ^ 12 - 2^6
  let ftmp3 := mul ftmp ftmp2               -- 2 ^ 12 - 1
  let ftmp2 := sqr ftmp3                    -- 2 ^ 13 - 2
  let ftmp2 := sqrN 11 ftmp2                -- 2 ^ 24 - 2^12
  let ftmp3 := mul ftmp2 ftmp3              -- 2 ^ 24 - 1
  let ftmp2 := sqr ftmp3                    -- 2 ^ 25 - 2
  let ftmp2 := sqrN 23 ftmp2                -- 2 ^ 48 - 2^24
  let ftmp4 := mul ftmp2 ftmp3              -- 2 ^ 48 - 1
  let ftmp2 := sqr ftmp4                    -- 2 ^ 49 - 2
  let ftmp2 := sqrN 23 ftmp2                -- 2 ^ 72 - 2^24
  let ftmp4 := mul ftmp2 ftmp3              -- 2 ^ 72 - 1
  let ftmp2 := sqr ftmp4                    -- 2 ^ 73 - 2
  let ftmp2 := sqrN 5 ftmp2                 -- 2 ^ 78 - 2^6
  let ftmp2 := mul ftmp ftmp2               -- 2 ^ 78 - 1
  let ftmp2 := sqr ftmp2                    -- 2 ^ 79 - 2
  let ftmp4 := mul inp ftmp2                -- 2 ^ 79 - 1
  let ftmp2 := sqr ftmp4                    -- 2 ^ 80 - 2
  let ftmp2 := sqrN 78 ftmp2                -- 2 ^ 158 - 2^79
  let ftmp2 := mul ftmp4 ftmp2              -- 2 ^ 158 - 1
  let ftmp2 := sqr ftmp2                    -- 2 ^ 159 - 2
  let ftmp2 := mul inp ftmp2                -- 2 ^ 159 - 1
  let ftmp2 := sqrN 7 ftmp2                 -- 2 ^ 166 - 2^7
  let ftmp2 := mul ftmp ftmp2               -- 2 ^ 166 - 2^6 - 1
  let ftmp2 := sqr ftmp2                    -- 2 ^ 167 - 2^7 - 2
  let ftmp2 := sqr ftmp2                    -- 2 ^ 168 - 2^8 - 4
  mul inp ftmp2                             -- 2 ^ 168 - 2^8 - 3

/-- Take the square root of a field element. -/
def felemSqrt (inp : Felem) : Felem :=
  let ftmp := sqr inp                       -- 2
  let ftmp := mul inp ftmp                  -- 2 ^ 2 - 1
  let ftmp2 := sqr ftmp                     -- 2 ^ 3 - 2
  let ftmp2 := sqr ftmp2                    -- 2 ^ 4 - 2^2
  let ftmp2 := mul ftmp2 ftmp               -- 2 ^ 4 - 1
  let ftmp2 := sqr ftmp2                    -- 2 ^ 5 - 2
  let ftmp := mul ftmp2 inp                 -- 2 ^ 5 - 1
  let ftmp2 := sqr ftmp                     -- 2 ^ 6 - 2
  let ftmp2 := sqrN 4 ftmp2                 -- 2 ^ 10 - 2^5
  let ftmp := mul ftmp ftmp2                -- 2 ^ 10 - 1
  let ftmp2 := sqr ftmp                     -- 2 ^ 11 - 2
  let ftmp2 := sqrN 9 ftmp2                 -- 2 ^ 20 - 2^10
  let ftmp := mul ftmp2 ftmp                -- 2 ^ 20 - 1
  let ftmp2 := sqr ftmp                     -- 2 ^ 21 - 2
  let ftmp2 := sqrN 19 ftmp2                -- 2 ^ 40 - 2^20
  let ftmp := mul ftmp2 ftmp                -- 2 ^ 40 - 1
  let ftmp2 := sqr ftmp                     -- 2 ^ 41 - 2
  let ftmp2 := sqrN 39 ftmp2                -- 2 ^ 80 - 2^40
  let ftmp := mul ftmp2 ftmp                -- 2 ^ 80 - 1
  let ftmp2 := sqr ftmp                     -- 2 ^ 81 - 2
  let ftmp2 := sqrN 79 ftmp2                -- 2 ^ 160 - 2^80
  let ftmp2 := mul ftmp ftmp2               -- 2 ^ 160 - 1
  let ftmp2 := sqrN 5 ftmp2                 -- 2 ^ 165 - 2^5
  sqr ftmp2                                 -- 2 ^ 166 - 2^6

/-! ### The class computes the native words -/

@[simp] theorem add_value (x y : U128) : (x + y).value = x.value + y.value := value_add x y

@[simp] theorem sub_value (x y : U128) : (x - y).value = x.value - y.value := value_sub x y

@[simp] theorem mul_value (x y : U128) : (x * y).value = x.value * y.value := value_mul x y

@[simp] theorem and_value (x y : U128) : (x &&& y).value = x.value &&& y.value := value_and x y

@[simp] theorem shl_value (x : U128) (n : ℕ) : (x <<< n).value = x.value <<< n := value_shl x n

@[simp] theorem shr_value (x : U128) (n : ℕ) : (x >>> n).value = x.value >>> n := value_shr x n

theorem low64_value (x : U128) : low64 x = x.value.setWidth 64 := by
  apply BitVec.eq_of_toNat_eq
  have hl := x.lo.isLt
  rw [BitVec.toNat_setWidth, value_toNat, low64]
  omega

@[simp] theorem m257_value (x : U128) : (m257 x).value = Ptwist.m257 x.value := by
  rw [m257, add_value, shl_value, Ptwist.m257]

@[simp] theorem mulWide_value (x y : Fslice) : (mulWide x y).value = Ptwist.mulWide x y := by
  rw [mulWide, mul_value, value_ofUint64, value_ofUint64, Ptwist.mulWide]

theorem felemDiff128_value (u v : Coeffs) :
    (felemDiff128 u v).value = Ptwist.felemDiff128 u.value v.value := by
  have c3 : (ofInt 3).value = 3#128 := value_ofInt (n := 3) (by decide)
  have c192 : (ofInt 192).value = 192#128 := value_ofInt (n := 192) (by decide)
  have c49536 : (ofInt 49536).value = 49536#128 := value_ofInt (n := 49536) (by decide)
  have cd : (ofInt 12681408).value = 12681408#128 := value_ofInt (n := 12681408) (by decide)
  simp only [felemDiff128, Ptwist.felemDiff128, Coeffs.value, add_value, sub_value, shl_value, c3,
    c192, c49536, cd, BitVec.ofNat_eq_ofNat]

theorem felemDiff12864_value (u : Coeffs) (b : Felem) :
    (felemDiff12864 u b).value = Ptwist.felemDiff12864 u.value b := by
  obtain ⟨u0, u1, u2, u3, u4⟩ := u
  obtain ⟨b0, b1, b2⟩ := b
  have c3 : (ofInt 3).value = 3#128 := value_ofInt (n := 3) (by decide)
  have c192 : (ofInt 192).value = 192#128 := value_ofInt (n := 192) (by decide)
  have c49344 : (ofInt 49344).value = 49344#128 := value_ofInt (n := 49344) (by decide)
  simp only [felemDiff12864, Ptwist.felemDiff12864, Coeffs.value, add_value, sub_value, shl_value,
    value_ofUint64, c3, c192, c49344, BitVec.ofNat_eq_ofNat]

theorem felemScalar128_value (u : Coeffs) (s : U128) :
    (felemScalar128 u s).value = Ptwist.felemScalar128 u.value s.value := by
  simp only [felemScalar128, Ptwist.felemScalar128, Coeffs.value, mul_value]

theorem felemSquare_value (a : Felem) : (felemSquare a).value = Ptwist.felemSquare a := by
  have c2 : (ofInt 2).value = 2#128 := value_ofInt (n := 2) (by decide)
  simp only [felemSquare, Ptwist.felemSquare, Coeffs.value, add_value, mul_value, mulWide_value, c2,
    BitVec.ofNat_eq_ofNat]

theorem felemMul_value (a b : Felem) : (felemMul a b).value = Ptwist.felemMul a b := by
  simp only [felemMul, Ptwist.felemMul, Coeffs.value, add_value, mulWide_value]

theorem felemReduce_value (u : Coeffs) : felemReduce u = Ptwist.felemReduce u.value := by
  have c1 : (ofInt 1).value = 1#128 := value_ofInt (n := 1) (by decide)
  have cm : ((ofInt 1 <<< 56) - ofInt 1 : U128).value = (1#128 <<< 56) - 1 := by
    rw [sub_value, shl_value, c1, BitVec.ofNat_eq_ofNat]
  simp only [felemReduce, Ptwist.felemReduce, Coeffs.value, low64_value, and_value, add_value,
    shr_value, m257_value, cm]

theorem sqr_eq (a : Felem) : sqr a = Ptwist.sqr a := by
  rw [sqr, felemReduce_value, felemSquare_value, Ptwist.sqr]

theorem mul_eq (a b : Felem) : mul a b = Ptwist.mul a b := by
  rw [mul, felemReduce_value, felemMul_value, Ptwist.mul]

theorem sqrN_eq : ∀ (n : ℕ) (a : Felem), sqrN n a = Ptwist.sqrN n a
  | 0, _ => rfl
  | n + 1, a => by rw [sqrN, Ptwist.sqrN, sqr_eq, sqrN_eq n]

theorem felemInv_eq (a : Felem) : felemInv a = Ptwist.felemInv a := by
  simp only [felemInv, Ptwist.felemInv, sqr_eq, mul_eq, sqrN_eq]

theorem felemSqrt_eq (a : Felem) : felemSqrt a = Ptwist.felemSqrt a := by
  simp only [felemSqrt, Ptwist.felemSqrt, sqr_eq, mul_eq, sqrN_eq]

/-- Every routine that names `uint128_t` leaves the same slices in both builds. -/
structure SameSlices : Prop where
  diff128 : ∀ u v, (felemDiff128 u v).value = Ptwist.felemDiff128 u.value v.value
  diff12864 : ∀ u b, (felemDiff12864 u b).value = Ptwist.felemDiff12864 u.value b
  scalar128 : ∀ u s, (felemScalar128 u s).value = Ptwist.felemScalar128 u.value s.value
  square : ∀ a, (felemSquare a).value = Ptwist.felemSquare a
  mul : ∀ a b, (felemMul a b).value = Ptwist.felemMul a b
  reduce : ∀ u, felemReduce u = Ptwist.felemReduce u.value
  inv : ∀ a, felemInv a = Ptwist.felemInv a
  sqrt : ∀ a, felemSqrt a = Ptwist.felemSqrt a

theorem sameSlices : SameSlices :=
  ⟨felemDiff128_value, felemDiff12864_value, felemScalar128_value, felemSquare_value,
    felemMul_value, felemReduce_value, felemInv_eq, felemSqrt_eq⟩

/-- The class is arithmetic modulo `2^128`, call by call, exactly where it does not double a high
    half in place; the tag code never does, and is the same in both builds. -/
theorem class_native_iff {ι : Type} [DecidableEq ι] (m : ι → U128) (c : Call ι) :
    SameSlices ∧ (Agrees m c ↔ ¬c.DoublesHigh m) :=
  ⟨sameSlices, agrees_iff m c⟩

/-- `x += x` for `x = 2^63` leaves `0`; the native type leaves `2^64`. -/
theorem double_loses_carry :
    let m : Unit → U128 := fun _ => ⟨1#64 <<< 63, 0⟩
    ¬Agrees m (.assign .add () ()) ∧ (addAssign m () () ()).value = 0 ∧
      (m ()).value + (m ()).value = 1#128 <<< 64 := by
  intro m
  refine ⟨?_, by decide, by decide⟩
  rw [agrees_double_iff]
  decide

end Telex.Ptwist.Portable
