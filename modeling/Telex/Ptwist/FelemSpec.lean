import Mathlib.Tactic.LinearCombination
import Telex.Ptwist.Felem

/-! What the slice routines compute

    One lemma a routine. Bounds are powers of two, as in the source's own comments; the value is an
    element of `ZMod p`. Subtractions add a multiple of `p` that dominates every slice, so nothing
    wraps as long as the operands keep to the bounds stated here. -/

namespace Telex.Ptwist

/-! ### Words -/

theorem toNat_hi (x : Uint128) : (x >>> 56).toNat = x.toNat / 2 ^ 56 := by
  rw [BitVec.toNat_ushiftRight, Nat.shiftRight_eq_div_pow]

theorem toNat_lo (x : Uint128) : (x &&& ((1#128 <<< 56) - 1)).toNat = x.toNat % 2 ^ 56 := by
  rw [BitVec.toNat_and]; exact Nat.and_two_pow_sub_one_eq_mod _ 56

theorem toNat_hi64 (x : Fslice) : (x >>> 56).toNat = x.toNat / 2 ^ 56 := by
  rw [BitVec.toNat_ushiftRight, Nat.shiftRight_eq_div_pow]

theorem toNat_lo64 (x : Fslice) : (x &&& ((1#64 <<< 56) - 1)).toNat = x.toNat % 2 ^ 56 := by
  rw [BitVec.toNat_and]; exact Nat.and_two_pow_sub_one_eq_mod _ 56

theorem toNat_m257 {w : ℕ} {x : BitVec w} (h : 257 * x.toNat < 2 ^ w) :
    (m257 x).toNat = 257 * x.toNat := by
  have h8 : (x <<< 8).toNat = 256 * x.toNat := by
    rw [BitVec.toNat_shiftLeft, Nat.shiftLeft_eq, Nat.mod_eq_of_lt (by omega)]; ring
  rw [m257, BitVec.toNat_add_of_lt (by omega), h8]; ring

/-- Adding a constant that dominates the subtrahend: nothing wraps. -/
theorem toNat_add_sub {w : ℕ} {o c i : BitVec w} (h : o.toNat + c.toNat < 2 ^ w)
    (hi : i.toNat ≤ c.toNat) : (o + c - i).toNat + i.toNat = o.toNat + c.toNat := by
  have ho := BitVec.toNat_add_of_lt h
  rw [BitVec.toNat_sub_of_le (by rw [BitVec.le_def, ho]; omega), ho]; omega

theorem toNat_mulWide (x y : Fslice) : (mulWide x y).toNat = x.toNat * y.toNat := by
  have hx := x.isLt
  have hy := y.isLt
  have hxy : x.toNat * y.toNat < 2 ^ 64 * 2 ^ 64 := Nat.mul_lt_mul'' hx hy
  rw [mulWide, BitVec.toNat_mul, BitVec.toNat_setWidth, BitVec.toNat_setWidth,
    Nat.mod_eq_of_lt (by omega : x.toNat < 2 ^ 128), Nat.mod_eq_of_lt (by omega : y.toNat < 2 ^ 128),
    Nat.mod_eq_of_lt (by omega)]

/-! ### Congruences modulo p -/

theorem two_pow_168 : (2 : ZMod p) ^ 168 = 2 ^ 8 + 1 := by
  have h : ((p + 2 ^ 8 + 1 : ℕ) : ZMod p) = ((2 ^ 168 : ℕ) : ZMod p) := by
    congr 1
  simp only [Nat.cast_add, Nat.cast_pow, Nat.cast_ofNat, Nat.cast_one, ZMod.natCast_self] at h
  rw [← h]; ring

theorem Felem.val_cast (a : Felem) :
    (a.val : ZMod p) = a.l0.toNat + 2 ^ 56 * a.l1.toNat + 2 ^ 112 * a.l2.toNat := by
  simp only [Felem.val, Nat.cast_add, Nat.cast_mul, Nat.cast_pow, Nat.cast_ofNat]

theorem Felem128.val_cast (a : Felem128) :
    (a.val : ZMod p) = a.l0.toNat + 2 ^ 56 * a.l1.toNat + 2 ^ 112 * a.l2.toNat +
      2 ^ 168 * a.l3.toNat + 2 ^ 224 * a.l4.toNat := by
  simp only [Felem128.val, Nat.cast_add, Nat.cast_mul, Nat.cast_pow, Nat.cast_ofNat]

/-- Numbers that differ by a multiple of `p` stand for one element. -/
theorem cast_eq_of_add_mul {a b k : ℕ} (h : a + p * k = b) : (a : ZMod p) = (b : ZMod p) := by
  rw [← h]; simp

/-! ### Changing bounds -/

variable {a b : Felem} {u v : Felem128} {x y : ZMod p} {i j k : ℕ}

theorem Is64.mono (h : Is64 i a x) (hij : i ≤ j := by decide) : Is64 j a x :=
  have hp := Nat.pow_le_pow_right (n := 2) (by decide) hij
  ⟨h.h0.trans_le hp, h.h1.trans_le hp, h.h2.trans_le hp, h.eq⟩

theorem Is128.mono (h : Is128 i u x) (hij : i ≤ j := by decide) : Is128 j u x :=
  have hp := Nat.pow_le_pow_right (n := 2) (by decide) hij
  ⟨h.h0.trans_le hp, h.h1.trans_le hp, h.h2.trans_le hp, h.h3.trans_le hp, h.h4.trans_le hp, h.eq⟩

theorem Is64.of_eq (h : Is64 i a x) (e : x = y) : Is64 i a y := e ▸ h

theorem Is128.of_eq (h : Is128 i u x) (e : x = y) : Is128 i u y := e ▸ h

theorem Is56.of_eq (h : Is56 a x) (e : x = y) : Is56 a y := e ▸ h

theorem Is56.is64 (h : Is56 a x) : Is64 57 a x :=
  have h2 := h.h2
  ⟨h.h0.trans (by decide), h.h1.trans (by decide), by omega, h.eq⟩

/-! ### Sums, differences, scalars -/

theorem Is64.sum (ha : Is64 k a x) (hb : Is64 k b y) (hk : k ≤ 63 := by decide) :
    Is64 (k + 1) (felemSum64 a b) (x + y) := by
  obtain ⟨a0, a1, a2, ae⟩ := ha
  obtain ⟨b0, b1, b2, be⟩ := hb
  have hp : 2 ^ (k + 1) ≤ 2 ^ 64 := Nat.pow_le_pow_right (by decide) (by omega)
  have hs : 2 ^ (k + 1) = 2 * 2 ^ k := by rw [pow_succ]; ring
  have e0 : (felemSum64 a b).l0.toNat = a.l0.toNat + b.l0.toNat :=
    BitVec.toNat_add_of_lt (by omega)
  have e1 : (felemSum64 a b).l1.toNat = a.l1.toNat + b.l1.toNat :=
    BitVec.toNat_add_of_lt (by omega)
  have e2 : (felemSum64 a b).l2.toNat = a.l2.toNat + b.l2.toNat :=
    BitVec.toNat_add_of_lt (by omega)
  refine ⟨by omega, by omega, by omega, ?_⟩
  rw [← ae, ← be, Felem.val_cast, Felem.val_cast, Felem.val_cast, e0, e1, e2]
  simp only [Nat.cast_add]; ring

/-- `a*2^112 + a*2^56 + b = 3p`, written with the constants of `felem_diff64`. -/
theorem diff64_const :
    ((3 * 2 ^ 56 - 771 : ℕ) : ZMod p) + 2 ^ 56 * ((3 * 2 ^ 56 - 3 : ℕ) : ZMod p) +
      2 ^ 112 * ((3 * 2 ^ 56 - 3 : ℕ) : ZMod p) = 0 := by
  have h : ((3 * 2 ^ 56 - 771 + 2 ^ 56 * (3 * 2 ^ 56 - 3) + 2 ^ 112 * (3 * 2 ^ 56 - 3) : ℕ) :
      ZMod p) = 0 := (ZMod.natCast_eq_zero_iff _ _).mpr ⟨3, by decide⟩
  rw [← h]; simp only [Nat.cast_add, Nat.cast_mul, Nat.cast_pow, Nat.cast_ofNat]

theorem Is64.diff (ha : Is64 k a x) (hb : Is64 57 b y) (h58 : 58 ≤ k := by decide)
    (hk : k ≤ 63 := by decide) :
    Is64 (k + 1) (felemDiff64 a b) (x - y) := by
  obtain ⟨a0, a1, a2, ae⟩ := ha
  obtain ⟨b0, b1, b2, be⟩ := hb
  have hp : 2 ^ (k + 1) ≤ 2 ^ 64 := Nat.pow_le_pow_right (by decide) (by omega)
  have hq : 2 ^ 58 ≤ 2 ^ k := Nat.pow_le_pow_right (by decide) h58
  have hs : 2 ^ (k + 1) = 2 * 2 ^ k := by rw [pow_succ]; ring
  have ca : (3#64 <<< 56 - 3).toNat = 3 * 2 ^ 56 - 3 := by decide
  have cb : (3#64 <<< 56 - 771).toNat = 3 * 2 ^ 56 - 771 := by decide
  have e0 : (felemDiff64 a b).l0.toNat + b.l0.toNat = a.l0.toNat + (3 * 2 ^ 56 - 771) := by
    rw [← cb]; exact toNat_add_sub (by omega) (by omega)
  have e1 : (felemDiff64 a b).l1.toNat + b.l1.toNat = a.l1.toNat + (3 * 2 ^ 56 - 3) := by
    rw [← ca]; exact toNat_add_sub (by omega) (by omega)
  have e2 : (felemDiff64 a b).l2.toNat + b.l2.toNat = a.l2.toNat + (3 * 2 ^ 56 - 3) := by
    rw [← ca]; exact toNat_add_sub (by omega) (by omega)
  refine ⟨by omega, by omega, by omega, ?_⟩
  rw [← ae, ← be, Felem.val_cast, Felem.val_cast, Felem.val_cast]
  have f0 := congrArg (Nat.cast (R := ZMod p)) e0
  have f1 := congrArg (Nat.cast (R := ZMod p)) e1
  have f2 := congrArg (Nat.cast (R := ZMod p)) e2
  rw [Nat.cast_add, Nat.cast_add] at f0 f1 f2
  linear_combination f0 + 2 ^ 56 * f1 + 2 ^ 112 * f2 + diff64_const

theorem mul_scalar_lt {l s : ℕ} (hl : l < 2 ^ k) (hs : s ≤ 2 ^ j) : l * s < 2 ^ (k + j) := by
  rw [pow_add]
  exact Nat.mul_lt_mul_of_lt_of_le hl hs (Nat.two_pow_pos j)

theorem toNat_scalar {w s : ℕ} (hs : s ≤ 2 ^ j) (hj : j < w) : (BitVec.ofNat w s).toNat = s := by
  have hw : 2 ^ j < 2 ^ w := Nat.pow_lt_pow_right (by decide) hj
  rw [BitVec.toNat_ofNat, Nat.mod_eq_of_lt (by omega)]

/-- A word times a small scalar, when the bits of both fit. -/
theorem toNat_mul_scalar {w s : ℕ} {l : BitVec w} (hl : l.toNat < 2 ^ k) (hs : s ≤ 2 ^ j)
    (hk : k + j < w) : (l * BitVec.ofNat w s).toNat = l.toNat * s := by
  have hw : 2 ^ (k + j) ≤ 2 ^ w := Nat.pow_le_pow_right (by decide) hk.le
  rw [BitVec.toNat_mul, toNat_scalar hs (by omega),
    Nat.mod_eq_of_lt ((mul_scalar_lt hl hs).trans_le hw)]

theorem Is64.scalar (ha : Is64 k a x) (s j : ℕ) (hs : s ≤ 2 ^ j := by decide)
    (hk : k + j < 64 := by decide) :
    Is64 (k + j) (felemScalar64 a (BitVec.ofNat 64 s)) (x * s) := by
  obtain ⟨a0, a1, a2, ae⟩ := ha
  have e0 : (felemScalar64 a (BitVec.ofNat 64 s)).l0.toNat = a.l0.toNat * s :=
    toNat_mul_scalar a0 hs hk
  have e1 : (felemScalar64 a (BitVec.ofNat 64 s)).l1.toNat = a.l1.toNat * s :=
    toNat_mul_scalar a1 hs hk
  have e2 : (felemScalar64 a (BitVec.ofNat 64 s)).l2.toNat = a.l2.toNat * s :=
    toNat_mul_scalar a2 hs hk
  refine ⟨e0 ▸ mul_scalar_lt a0 hs, e1 ▸ mul_scalar_lt a1 hs, e2 ▸ mul_scalar_lt a2 hs, ?_⟩
  rw [← ae, Felem.val_cast, Felem.val_cast, e0, e1, e2]
  simp only [Nat.cast_mul]; ring

theorem Is128.scalar (hu : Is128 k u x) (s j : ℕ) (hs : s ≤ 2 ^ j := by decide)
    (hk : k + j < 128 := by decide) :
    Is128 (k + j) (felemScalar128 u (BitVec.ofNat 128 s)) (x * s) := by
  obtain ⟨a0, a1, a2, a3, a4, ae⟩ := hu
  have e0 : (felemScalar128 u (BitVec.ofNat 128 s)).l0.toNat = u.l0.toNat * s :=
    toNat_mul_scalar a0 hs hk
  have e1 : (felemScalar128 u (BitVec.ofNat 128 s)).l1.toNat = u.l1.toNat * s :=
    toNat_mul_scalar a1 hs hk
  have e2 : (felemScalar128 u (BitVec.ofNat 128 s)).l2.toNat = u.l2.toNat * s :=
    toNat_mul_scalar a2 hs hk
  have e3 : (felemScalar128 u (BitVec.ofNat 128 s)).l3.toNat = u.l3.toNat * s :=
    toNat_mul_scalar a3 hs hk
  have e4 : (felemScalar128 u (BitVec.ofNat 128 s)).l4.toNat = u.l4.toNat * s :=
    toNat_mul_scalar a4 hs hk
  refine ⟨e0 ▸ mul_scalar_lt a0 hs, e1 ▸ mul_scalar_lt a1 hs, e2 ▸ mul_scalar_lt a2 hs,
    e3 ▸ mul_scalar_lt a3 hs, e4 ▸ mul_scalar_lt a4 hs, ?_⟩
  rw [← ae, Felem128.val_cast, Felem128.val_cast, e0, e1, e2, e3, e4]
  simp only [Nat.cast_mul]; ring

/-- The constants of `felem_diff128` add a multiple of `p`. -/
theorem diff128_const :
    ((3 * 2 ^ 118 - 12681408 : ℕ) : ZMod p) + 2 ^ 56 * ((3 * 2 ^ 118 : ℕ) : ZMod p) +
      2 ^ 112 * ((3 * 2 ^ 118 - 49536 : ℕ) : ZMod p) +
      2 ^ 168 * ((3 * 2 ^ 118 - 192 : ℕ) : ZMod p) +
      2 ^ 224 * ((3 * 2 ^ 118 - 192 : ℕ) : ZMod p) = 0 := by
  have h : ((3 * 2 ^ 118 - 12681408 + 2 ^ 56 * (3 * 2 ^ 118) + 2 ^ 112 * (3 * 2 ^ 118 - 49536) +
      2 ^ 168 * (3 * 2 ^ 118 - 192) + 2 ^ 224 * (3 * 2 ^ 118 - 192) : ℕ) : ZMod p) = 0 :=
    (ZMod.natCast_eq_zero_iff _ _).mpr ⟨3 * 2 ^ 174 + 3 * 2 ^ 118 + 49344, by decide⟩
  rw [← h]; simp only [Nat.cast_add, Nat.cast_mul, Nat.cast_pow, Nat.cast_ofNat]

theorem Is128.diff (hu : Is128 k u x) (hv : Is128 119 v y) (h120 : 120 ≤ k := by decide)
    (hk : k ≤ 127 := by decide) :
    Is128 (k + 1) (felemDiff128 u v) (x - y) := by
  obtain ⟨a0, a1, a2, a3, a4, ae⟩ := hu
  obtain ⟨b0, b1, b2, b3, b4, be⟩ := hv
  have hp : 2 ^ (k + 1) ≤ 2 ^ 128 := Nat.pow_le_pow_right (by decide) (by omega)
  have hq : 2 ^ 120 ≤ 2 ^ k := Nat.pow_le_pow_right (by decide) h120
  have hs : 2 ^ (k + 1) = 2 * 2 ^ k := by rw [pow_succ]; ring
  have ca : (3#128 <<< 118 - 192).toNat = 3 * 2 ^ 118 - 192 := by decide
  have cb : (3#128 <<< 118 - 49536).toNat = 3 * 2 ^ 118 - 49536 := by decide
  have cc : (3#128 <<< 118).toNat = 3 * 2 ^ 118 := by decide
  have cd : (3#128 <<< 118 - 12681408).toNat = 3 * 2 ^ 118 - 12681408 := by decide
  have e0 : (felemDiff128 u v).l0.toNat + v.l0.toNat = u.l0.toNat + (3 * 2 ^ 118 - 12681408) := by
    rw [← cd]; exact toNat_add_sub (by omega) (by omega)
  have e1 : (felemDiff128 u v).l1.toNat + v.l1.toNat = u.l1.toNat + 3 * 2 ^ 118 := by
    rw [← cc]; exact toNat_add_sub (by omega) (by omega)
  have e2 : (felemDiff128 u v).l2.toNat + v.l2.toNat = u.l2.toNat + (3 * 2 ^ 118 - 49536) := by
    rw [← cb]; exact toNat_add_sub (by omega) (by omega)
  have e3 : (felemDiff128 u v).l3.toNat + v.l3.toNat = u.l3.toNat + (3 * 2 ^ 118 - 192) := by
    rw [← ca]; exact toNat_add_sub (by omega) (by omega)
  have e4 : (felemDiff128 u v).l4.toNat + v.l4.toNat = u.l4.toNat + (3 * 2 ^ 118 - 192) := by
    rw [← ca]; exact toNat_add_sub (by omega) (by omega)
  refine ⟨by omega, by omega, by omega, by omega, by omega, ?_⟩
  rw [← ae, ← be, Felem128.val_cast, Felem128.val_cast, Felem128.val_cast]
  have f0 := congrArg (Nat.cast (R := ZMod p)) e0
  have f1 := congrArg (Nat.cast (R := ZMod p)) e1
  have f2 := congrArg (Nat.cast (R := ZMod p)) e2
  have f3 := congrArg (Nat.cast (R := ZMod p)) e3
  have f4 := congrArg (Nat.cast (R := ZMod p)) e4
  rw [Nat.cast_add, Nat.cast_add] at f0 f1 f2 f3 f4
  linear_combination f0 + 2 ^ 56 * f1 + 2 ^ 112 * f2 + 2 ^ 168 * f3 + 2 ^ 224 * f4 + diff128_const

/-- `a*2^112 + a*2^56 + b = 192p`, written with the constants of `felem_diff_128_64`. -/
theorem diff12864_const :
    ((3 * 2 ^ 62 - 49344 : ℕ) : ZMod p) + 2 ^ 56 * ((3 * 2 ^ 62 - 192 : ℕ) : ZMod p) +
      2 ^ 112 * ((3 * 2 ^ 62 - 192 : ℕ) : ZMod p) = 0 := by
  have h : ((3 * 2 ^ 62 - 49344 + 2 ^ 56 * (3 * 2 ^ 62 - 192) + 2 ^ 112 * (3 * 2 ^ 62 - 192) : ℕ) :
      ZMod p) = 0 := (ZMod.natCast_eq_zero_iff _ _).mpr ⟨192, by decide⟩
  rw [← h]; simp only [Nat.cast_add, Nat.cast_mul, Nat.cast_pow, Nat.cast_ofNat]

theorem toNat_widen (l : Fslice) : (l.setWidth 128).toNat = l.toNat := by
  have := l.isLt
  rw [BitVec.toNat_setWidth, Nat.mod_eq_of_lt (by omega)]

theorem toNat_add_sub_widen {o c : Uint128} {i : Fslice} (h : o.toNat + c.toNat < 2 ^ 128)
    (hi : i.toNat ≤ c.toNat) : (o + c - i.setWidth 128).toNat + i.toNat = o.toNat + c.toNat := by
  have e := toNat_add_sub (i := i.setWidth 128) h (by rwa [toNat_widen])
  rwa [toNat_widen] at e

theorem felemDiff12864_high (u : Felem128) (b : Felem) :
    (felemDiff12864 u b).l3 = u.l3 ∧ (felemDiff12864 u b).l4 = u.l4 := by
  cases u; exact ⟨rfl, rfl⟩

theorem Is128.diff64 (hu : Is128 k u x) (hb : Is64 63 b y) (h64 : 64 ≤ k := by decide)
    (hk : k ≤ 127 := by decide) :
    Is128 (k + 1) (felemDiff12864 u b) (x - y) := by
  obtain ⟨a0, a1, a2, a3, a4, ae⟩ := hu
  obtain ⟨b0, b1, b2, be⟩ := hb
  have hp : 2 ^ (k + 1) ≤ 2 ^ 128 := Nat.pow_le_pow_right (by decide) (by omega)
  have hq : 2 ^ 64 ≤ 2 ^ k := Nat.pow_le_pow_right (by decide) h64
  have hs : 2 ^ (k + 1) = 2 * 2 ^ k := by rw [pow_succ]; ring
  have ca : (3#128 <<< 62 - 192).toNat = 3 * 2 ^ 62 - 192 := by decide
  have cb : (3#128 <<< 62 - 49344).toNat = 3 * 2 ^ 62 - 49344 := by decide
  have e0 : (felemDiff12864 u b).l0.toNat + b.l0.toNat = u.l0.toNat + (3 * 2 ^ 62 - 49344) := by
    rw [← cb]; exact toNat_add_sub_widen (by omega) (by omega)
  have e1 : (felemDiff12864 u b).l1.toNat + b.l1.toNat = u.l1.toNat + (3 * 2 ^ 62 - 192) := by
    rw [← ca]; exact toNat_add_sub_widen (by omega) (by omega)
  have e2 : (felemDiff12864 u b).l2.toNat + b.l2.toNat = u.l2.toNat + (3 * 2 ^ 62 - 192) := by
    rw [← ca]; exact toNat_add_sub_widen (by omega) (by omega)
  obtain ⟨e3, e4⟩ := felemDiff12864_high u b
  refine ⟨by omega, by omega, by omega, by rw [e3]; omega, by rw [e4]; omega, ?_⟩
  rw [← ae, ← be, Felem128.val_cast, Felem128.val_cast, Felem.val_cast, e3, e4]
  have f0 := congrArg (Nat.cast (R := ZMod p)) e0
  have f1 := congrArg (Nat.cast (R := ZMod p)) e1
  have f2 := congrArg (Nat.cast (R := ZMod p)) e2
  rw [Nat.cast_add, Nat.cast_add] at f0 f1 f2
  linear_combination f0 + 2 ^ 56 * f1 + 2 ^ 112 * f2 + diff12864_const

/-! ### Products -/

theorem Is64.mul (ha : Is64 i a x) (hb : Is64 j b y) (hij : i + j ≤ 126 := by decide) :
    Is128 (i + j + 2) (felemMul a b) (x * y) := by
  obtain ⟨a0, a1, a2, ae⟩ := ha
  obtain ⟨b0, b1, b2, be⟩ := hb
  have hp : 2 ^ (i + j + 2) ≤ 2 ^ 128 := Nat.pow_le_pow_right (by decide) (by omega)
  have hs : 2 ^ (i + j + 2) = 4 * (2 ^ i * 2 ^ j) := by rw [pow_add, pow_add]; ring
  have bound : ∀ l m : Fslice, l.toNat < 2 ^ i → m.toNat < 2 ^ j →
      l.toNat * m.toNat < 2 ^ i * 2 ^ j := fun _ _ hl hm => Nat.mul_lt_mul'' hl hm
  have c00 := bound _ _ a0 b0
  have c01 := bound _ _ a0 b1
  have c10 := bound _ _ a1 b0
  have c02 := bound _ _ a0 b2
  have c11 := bound _ _ a1 b1
  have c20 := bound _ _ a2 b0
  have c12 := bound _ _ a1 b2
  have c21 := bound _ _ a2 b1
  have c22 := bound _ _ a2 b2
  have e1 : (felemMul a b).l1.toNat = a.l0.toNat * b.l1.toNat + a.l1.toNat * b.l0.toNat := by
    rw [felemMul, BitVec.toNat_add_of_lt] <;> simp only [toNat_mulWide]; omega
  have e2 : (felemMul a b).l2.toNat =
      a.l0.toNat * b.l2.toNat + a.l1.toNat * b.l1.toNat + a.l2.toNat * b.l0.toNat := by
    have h := BitVec.toNat_add_of_lt (x := mulWide a.l0 b.l2) (y := mulWide a.l1 b.l1)
      (by simp only [toNat_mulWide]; omega)
    rw [felemMul, BitVec.toNat_add_of_lt] <;> simp only [h, toNat_mulWide]; omega
  have e3 : (felemMul a b).l3.toNat = a.l1.toNat * b.l2.toNat + a.l2.toNat * b.l1.toNat := by
    rw [felemMul, BitVec.toNat_add_of_lt] <;> simp only [toNat_mulWide]; omega
  have e0 : (felemMul a b).l0.toNat = a.l0.toNat * b.l0.toNat := toNat_mulWide _ _
  have e4 : (felemMul a b).l4.toNat = a.l2.toNat * b.l2.toNat := toNat_mulWide _ _
  refine ⟨by omega, by omega, by omega, by omega, by omega, ?_⟩
  rw [← ae, ← be, Felem128.val_cast, Felem.val_cast, Felem.val_cast, e0, e1, e2, e3, e4]
  simp only [Nat.cast_add, Nat.cast_mul]; ring

theorem Is64.square (ha : Is64 i a x) (hi : i ≤ 63 := by decide) :
    Is128 (i + i + 2) (felemSquare a) (x ^ 2) := by
  have heq : felemSquare a = felemMul a a := by
    have comm : ∀ l m : Fslice, mulWide l m = mulWide m l := fun l m => by
      simp only [mulWide, BitVec.mul_comm]
    have two : ∀ l : Uint128, l * 2 = l + l := fun l => by
      apply BitVec.eq_of_toNat_eq
      rw [BitVec.toNat_mul, BitVec.toNat_add]; congr 1; exact Nat.mul_two _
    simp only [felemSquare, felemMul, two, comm a.l1 a.l0, comm a.l2 a.l0, comm a.l2 a.l1]
    congr 1
    rw [BitVec.add_assoc, BitVec.add_assoc, BitVec.add_comm (mulWide a.l0 a.l2) (mulWide a.l1 a.l1)]
  rw [heq, pow_two]; exact ha.mul ha (by omega)

/-! ### Reduction -/

theorem toNat_add_m257_hi {o y : Uint128} (h : o.toNat + 257 * (y.toNat / 2 ^ 56) < 2 ^ 128) :
    (o + m257 (y >>> 56)).toNat = o.toNat + 257 * (y.toNat / 2 ^ 56) := by
  have e : (m257 (y >>> 56)).toNat = 257 * (y.toNat / 2 ^ 56) := by
    rw [← toNat_hi]; exact toNat_m257 (by rw [toNat_hi]; omega)
  rw [BitVec.toNat_add_of_lt (by omega), e]

theorem toNat_add_m257_lo {o y : Uint128} (h : o.toNat + 257 * (y.toNat % 2 ^ 56) < 2 ^ 128) :
    (o + m257 (y &&& (1#128 <<< 56 - 1))).toNat = o.toNat + 257 * (y.toNat % 2 ^ 56) := by
  have e : (m257 (y &&& (1#128 <<< 56 - 1))).toNat = 257 * (y.toNat % 2 ^ 56) := by
    rw [← toNat_lo]; exact toNat_m257 (by rw [toNat_lo]; omega)
  rw [BitVec.toNat_add_of_lt (by omega), e]

theorem toNat_add_hi {o y : Uint128} (h : o.toNat + y.toNat / 2 ^ 56 < 2 ^ 128) :
    (o + (y >>> 56)).toNat = o.toNat + y.toNat / 2 ^ 56 := by
  rw [BitVec.toNat_add_of_lt (by rwa [toNat_hi]), toNat_hi]

theorem toNat_narrow {o : Uint128} (h : o.toNat < 2 ^ 64) : (o.setWidth 64).toNat = o.toNat := by
  rw [BitVec.toNat_setWidth, Nat.mod_eq_of_lt h]

/-- A word and its two parts, in the field. -/
theorem cast_div_mod (n : ℕ) :
    (2 : ZMod p) ^ 56 * (n / 2 ^ 56 : ℕ) + (n % 2 ^ 56 : ℕ) = n := by
  have h := congrArg (Nat.cast (R := ZMod p)) (Nat.div_add_mod n (2 ^ 56))
  rwa [Nat.cast_add, Nat.cast_mul, Nat.cast_pow, Nat.cast_ofNat] at h

theorem Is128.reduce (hu : Is128 126 u x) : Is56 (felemReduce u) x := by
  obtain ⟨h0, h1, h2, h3, h4, he⟩ := hu
  unfold felemReduce
  extract_lets m o2 o1 o1a o0 o0a o2a o1b o0b o2b o1c o0c o2c o1d
  have d2 : o2.toNat = u.l2.toNat + 257 * (u.l4.toNat / 2 ^ 56) := toNat_add_m257_hi (by omega)
  have d1 : o1.toNat = u.l1.toNat + 257 * (u.l4.toNat % 2 ^ 56) := toNat_add_m257_lo (by omega)
  have d1a : o1a.toNat = o1.toNat + 257 * (u.l3.toNat / 2 ^ 56) := toNat_add_m257_hi (by omega)
  have d0 : o0.toNat = u.l0.toNat + 257 * (u.l3.toNat % 2 ^ 56) := toNat_add_m257_lo (by omega)
  have d0a : o0a.toNat = o0.toNat + 257 * (o2.toNat / 2 ^ 56) := toNat_add_m257_hi (by omega)
  have d2a : o2a.toNat = o2.toNat % 2 ^ 56 := toNat_lo _
  have d1b : o1b.toNat = o1a.toNat + o0a.toNat / 2 ^ 56 := toNat_add_hi (by omega)
  have d0b : o0b.toNat = o0a.toNat % 2 ^ 56 := toNat_lo _
  have d2b : o2b.toNat = o2a.toNat + o1b.toNat / 2 ^ 56 := toNat_add_hi (by omega)
  have b2b : o2b.toNat < 2 ^ 72 := by omega
  have d1c : o1c.toNat = o1b.toNat % 2 ^ 56 := toNat_lo _
  have d0c : o0c.toNat = o0b.toNat + 257 * (o2b.toNat / 2 ^ 56) := toNat_add_m257_hi (by omega)
  have d2c : o2c.toNat = o2b.toNat % 2 ^ 56 := toNat_lo _
  have d1d : o1d.toNat = o1c.toNat + o0c.toNat / 2 ^ 56 := toNat_add_hi (by omega)
  -- after the second elimination the carry out of each slice is at most one
  have b0b : o0b.toNat < 2 ^ 56 := d0b ▸ Nat.mod_lt _ (by decide)
  have b1c : o1c.toNat < 2 ^ 56 := d1c ▸ Nat.mod_lt _ (by decide)
  have b2c : o2c.toNat < 2 ^ 56 := d2c ▸ Nat.mod_lt _ (by decide)
  have b0c : o0c.toNat < 2 ^ 57 := d0c ▸ by
    have := Nat.div_lt_of_lt_mul (m := o2b.toNat) (n := 2 ^ 56) (k := 2 ^ 16) b2b
    clear d2 d1 d1a d0 d0a d2a d1b d0b d2b d1c d0c d2c d1d; omega
  have b1d : o1d.toNat ≤ 2 ^ 56 := d1d ▸ by
    clear d2 d1 d1a d0 d0a d2a d1b d0b d2b d1c d0c d2c d1d; omega
  have e0 : ((o0c &&& m).setWidth 64).toNat = o0c.toNat % 2 ^ 56 := by
    rw [toNat_narrow] <;> rw [toNat_lo]; omega
  have e1 : ((o1d &&& m).setWidth 64).toNat = o1d.toNat % 2 ^ 56 := by
    rw [toNat_narrow] <;> rw [toNat_lo]; omega
  have e2 : ((o2c + (o1d >>> 56)).setWidth 64).toNat = o2c.toNat + o1d.toNat / 2 ^ 56 := by
    rw [toNat_narrow] <;> rw [toNat_add_hi (by omega)]; omega
  clear_value o2 o1 o1a o0 o0a o2a o1b o0b o2b o1c o0c o2c o1d
  refine ⟨?_, ?_, ?_, ?_⟩
  · rw [e0]; exact Nat.mod_lt _ (by decide)
  · rw [e1]; exact Nat.mod_lt _ (by decide)
  · rw [e2]; clear d2 d1 d1a d0 d0a d2a d1b d0b d2b d1c d0c d2c d1d e0 e1 e2; omega
  · -- every elimination trades `2^168` for `2^8 + 1`
    rw [← he, Felem.val_cast, Felem128.val_cast, e0, e1, e2]
    have f2 := congrArg (Nat.cast (R := ZMod p)) d2
    have f1 := congrArg (Nat.cast (R := ZMod p)) d1
    have f1a := congrArg (Nat.cast (R := ZMod p)) d1a
    have f0 := congrArg (Nat.cast (R := ZMod p)) d0
    have f0a := congrArg (Nat.cast (R := ZMod p)) d0a
    have f2a := congrArg (Nat.cast (R := ZMod p)) d2a
    have f1b := congrArg (Nat.cast (R := ZMod p)) d1b
    have f0b := congrArg (Nat.cast (R := ZMod p)) d0b
    have f2b := congrArg (Nat.cast (R := ZMod p)) d2b
    have f1c := congrArg (Nat.cast (R := ZMod p)) d1c
    have f0c := congrArg (Nat.cast (R := ZMod p)) d0c
    have f2c := congrArg (Nat.cast (R := ZMod p)) d2c
    have f1d := congrArg (Nat.cast (R := ZMod p)) d1d
    simp only [Nat.cast_add, Nat.cast_mul, Nat.cast_ofNat] at f2 f1 f1a f0 f0a f1b f2b f0c f1d ⊢
    linear_combination cast_div_mod o0c.toNat + 2 ^ 56 * cast_div_mod o1d.toNat + 2 ^ 56 * f1d +
      f0c + 2 ^ 112 * f2c + 2 ^ 112 * cast_div_mod o2b.toNat + 2 ^ 56 * f1c +
      2 ^ 56 * cast_div_mod o1b.toNat + 2 ^ 112 * f2b + f0b + cast_div_mod o0a.toNat +
      2 ^ 56 * f1b + 2 ^ 112 * f2a + 2 ^ 112 * cast_div_mod o2.toNat + f0a + f0 + 2 ^ 56 * f1a +
      2 ^ 56 * f1 + 2 ^ 112 * f2 + 257 * cast_div_mod u.l3.toNat +
      2 ^ 56 * 257 * cast_div_mod u.l4.toNat - two_pow_168 * ((o2b.toNat / 2 ^ 56 : ℕ) +
      (o2.toNat / 2 ^ 56 : ℕ) + u.l3.toNat + 2 ^ 56 * u.l4.toNat)

end Telex.Ptwist
