import Telex.Ptwist.Bytes
import Telex.Ptwist.Checked

/-! The documented ranges of `tag/ptwist168.cpp`

    What the range comments above `felem_diff64`, `felem_diff128`, `felem_diff_128_64`,
    `felem_reduce`, `felem_contract` and `felem_neg` promise, for every operand they admit. The
    subtractions and the reduction keep their promise. `felem_neg` hands `felem_contract` a top
    slice of up to three times `2^56`, which the comment there excludes; what it returns is minimal
    except for 257 values just below `p`. -/

namespace Telex.Ptwist

variable {a b : Felem} {u v : Felem128} {x : ZMod p} {k : ℕ}

/-! ### Operands within a bound -/

/-- `in[i] < 2^k` for the three slices. -/
structure Felem.Below (k : ℕ) (a : Felem) : Prop where
  h0 : a.l0.toNat < 2 ^ k
  h1 : a.l1.toNat < 2 ^ k
  h2 : a.l2.toNat < 2 ^ k

/-- `in[i] < 2^k` for the five coefficients. -/
structure Felem128.Below (k : ℕ) (u : Felem128) : Prop where
  h0 : u.l0.toNat < 2 ^ k
  h1 : u.l1.toNat < 2 ^ k
  h2 : u.l2.toNat < 2 ^ k
  h3 : u.l3.toNat < 2 ^ k
  h4 : u.l4.toNat < 2 ^ k

theorem Felem.Below.is64 (h : a.Below k) : Is64 k a a.val := ⟨h.h0, h.h1, h.h2, rfl⟩

theorem Felem128.Below.is128 (h : u.Below k) : Is128 k u u.val :=
  ⟨h.h0, h.h1, h.h2, h.h3, h.h4, rfl⟩

/-! ### The constants of the subtractions -/

/-- `b, a, a` of `felem_diff64`. -/
def diff64Const : Felem := ⟨(3#64 <<< 56) - 771, (3#64 <<< 56) - 3, (3#64 <<< 56) - 3⟩

/-- `d, c, b, a, a` of `felem_diff128`. -/
def diff128Const : Felem128 :=
  ⟨(3#128 <<< 118) - 12681408, 3#128 <<< 118, (3#128 <<< 118) - 49536, (3#128 <<< 118) - 192,
    (3#128 <<< 118) - 192⟩

/-- `b, a, a` of `felem_diff_128_64`; the two top coefficients are left alone. -/
def diff12864Const : Felem128 :=
  ⟨(3#128 <<< 62) - 49344, (3#128 <<< 62) - 192, (3#128 <<< 62) - 192, 0, 0⟩

/-- Each slice of `c` is at least the slice of `a` it is added for. -/
def Felem.Dominates (c a : Felem) : Prop :=
  a.l0.toNat ≤ c.l0.toNat ∧ a.l1.toNat ≤ c.l1.toNat ∧ a.l2.toNat ≤ c.l2.toNat

def Felem128.Dominates (c u : Felem128) : Prop :=
  u.l0.toNat ≤ c.l0.toNat ∧ u.l1.toNat ≤ c.l1.toNat ∧ u.l2.toNat ≤ c.l2.toNat ∧
    u.l3.toNat ≤ c.l3.toNat ∧ u.l4.toNat ≤ c.l4.toNat

/-- `fslice[3]` read as the low coefficients of `uint128_t[5]`. -/
def Felem.widen (a : Felem) : Felem128 :=
  ⟨a.l0.setWidth 128, a.l1.setWidth 128, a.l2.setWidth 128, 0, 0⟩

theorem diff64Const_val : diff64Const.val = 3 * p := by decide

theorem diff128Const_val : diff128Const.val = (3 * 2 ^ 174 + 3 * 2 ^ 118 + 49344) * p := by decide

theorem diff12864Const_val : diff12864Const.val = 192 * p := by decide

theorem diff64Const_dominates (h : a.Below 57) : diff64Const.Dominates a := by
  obtain ⟨h0, h1, h2⟩ := h
  have c0 : diff64Const.l0.toNat = 3 * 2 ^ 56 - 771 := by decide
  have c1 : diff64Const.l1.toNat = 3 * 2 ^ 56 - 3 := by decide
  have c2 : diff64Const.l2.toNat = 3 * 2 ^ 56 - 3 := by decide
  exact ⟨by omega, by omega, by omega⟩

theorem diff128Const_dominates (h : u.Below 119) : diff128Const.Dominates u := by
  obtain ⟨h0, h1, h2, h3, h4⟩ := h
  have c0 : diff128Const.l0.toNat = 3 * 2 ^ 118 - 12681408 := by decide
  have c1 : diff128Const.l1.toNat = 3 * 2 ^ 118 := by decide
  have c2 : diff128Const.l2.toNat = 3 * 2 ^ 118 - 49536 := by decide
  have c3 : diff128Const.l3.toNat = 3 * 2 ^ 118 - 192 := by decide
  have c4 : diff128Const.l4.toNat = 3 * 2 ^ 118 - 192 := by decide
  exact ⟨by omega, by omega, by omega, by omega, by omega⟩

theorem diff12864Const_dominates (h : a.Below 63) : diff12864Const.Dominates a.widen := by
  obtain ⟨h0, h1, h2⟩ := h
  have c0 : diff12864Const.l0.toNat = 3 * 2 ^ 62 - 49344 := by decide
  have c1 : diff12864Const.l1.toNat = 3 * 2 ^ 62 - 192 := by decide
  have c2 : diff12864Const.l2.toNat = 3 * 2 ^ 62 - 192 := by decide
  simp only [Felem128.Dominates, Felem.widen, toNat_widen]
  exact ⟨by omega, by omega, by omega, le_rfl, le_rfl⟩

/-! ### Subtraction -/

/-- Slice by slice, a dominated subtraction adds the constant and takes the operand away. -/
theorem felemDiff64_exact (ha : a.Below 63) (hb : b.Below 57) :
    (felemDiff64 a b).val + b.val = a.val + diff64Const.val := by
  obtain ⟨d0, d1, d2⟩ := diff64Const_dominates hb
  obtain ⟨a0, a1, a2⟩ := ha
  have hc : diff64Const.Below 58 := ⟨by decide, by decide, by decide⟩
  obtain ⟨c0, c1, c2⟩ := hc
  have e0 := toNat_add_sub (o := a.l0) (by omega) d0
  have e1 := toNat_add_sub (o := a.l1) (by omega) d1
  have e2 := toNat_add_sub (o := a.l2) (by omega) d2
  have e : felemDiff64 a b = ⟨a.l0 + diff64Const.l0 - b.l0, a.l1 + diff64Const.l1 - b.l1,
      a.l2 + diff64Const.l2 - b.l2⟩ := rfl
  rw [e]
  simp only [Felem.val]
  omega

theorem felemDiff128_exact (hu : u.Below 126) (hv : v.Below 119) :
    (felemDiff128 u v).val + v.val = u.val + diff128Const.val := by
  obtain ⟨d0, d1, d2, d3, d4⟩ := diff128Const_dominates hv
  obtain ⟨a0, a1, a2, a3, a4⟩ := hu
  have hc : diff128Const.Below 120 := ⟨by decide, by decide, by decide, by decide, by decide⟩
  obtain ⟨c0, c1, c2, c3, c4⟩ := hc
  have e0 := toNat_add_sub (o := u.l0) (by omega) d0
  have e1 := toNat_add_sub (o := u.l1) (by omega) d1
  have e2 := toNat_add_sub (o := u.l2) (by omega) d2
  have e3 := toNat_add_sub (o := u.l3) (by omega) d3
  have e4 := toNat_add_sub (o := u.l4) (by omega) d4
  have e : felemDiff128 u v = ⟨u.l0 + diff128Const.l0 - v.l0, u.l1 + diff128Const.l1 - v.l1,
      u.l2 + diff128Const.l2 - v.l2, u.l3 + diff128Const.l3 - v.l3,
      u.l4 + diff128Const.l4 - v.l4⟩ := rfl
  rw [e]
  simp only [Felem128.val]
  omega

theorem felemDiff12864_exact (hu : u.Below 127) (hb : b.Below 63) :
    (felemDiff12864 u b).val + b.val = u.val + diff12864Const.val := by
  obtain ⟨d0, d1, d2, -, -⟩ := diff12864Const_dominates hb
  obtain ⟨a0, a1, a2, a3, a4⟩ := hu
  have hc : diff12864Const.Below 64 := ⟨by decide, by decide, by decide, by decide, by decide⟩
  obtain ⟨c0, c1, c2, -, -⟩ := hc
  have e0 := toNat_add_sub (o := u.l0) (by omega) d0
  have e1 := toNat_add_sub (o := u.l1) (by omega) d1
  have e2 := toNat_add_sub (o := u.l2) (by omega) d2
  have e : felemDiff12864 u b = ⟨u.l0 + diff12864Const.l0 - b.widen.l0,
      u.l1 + diff12864Const.l1 - b.widen.l1, u.l2 + diff12864Const.l2 - b.widen.l2,
      u.l3, u.l4⟩ := rfl
  have w0 : b.widen.l0.toNat = b.l0.toNat := toNat_widen _
  have w1 : b.widen.l1.toNat = b.l1.toNat := toNat_widen _
  have w2 : b.widen.l2.toNat = b.l2.toNat := toNat_widen _
  have z3 : diff12864Const.l3.toNat = 0 := rfl
  have z4 : diff12864Const.l4.toNat = 0 := rfl
  rw [e]
  simp only [Felem128.val, Felem.val]
  omega

/-- Taking `i` away from `o` after adding a multiple of `p` is a subtraction modulo `p`. -/
theorem cast_sub_of_exact {r i o c m : ℕ} (h : r + i = o + c) (hc : c = m * p) :
    (r : ZMod p) = o - i := by
  have e := congrArg (Nat.cast (R := ZMod p)) h
  rw [hc, Nat.cast_add, Nat.cast_add, Nat.cast_mul, ZMod.natCast_self, mul_zero, add_zero] at e
  rw [← e, add_sub_cancel_right]

/-- The three subtractions within their documented bounds: the constants are multiples of `p` that
    dominate every admissible operand, no word wraps, and the value is the difference. -/
theorem diffs_exact :
    (diff64Const.val = 3 * p ∧ diff128Const.val = (3 * 2 ^ 174 + 3 * 2 ^ 118 + 49344) * p ∧
      diff12864Const.val = 192 * p) ∧
    (∀ out inp : Felem, inp.Below 57 → out.Below 63 → diff64Const.Dominates inp ∧
      Checked.felemDiff64 out inp = some (felemDiff64 out inp) ∧
      (felemDiff64 out inp).val + inp.val = out.val + diff64Const.val ∧
      ((felemDiff64 out inp).val : ZMod p) = out.val - inp.val) ∧
    (∀ out inp : Felem128, inp.Below 119 → out.Below 126 → diff128Const.Dominates inp ∧
      Checked.felemDiff128 out inp = some (felemDiff128 out inp) ∧
      (felemDiff128 out inp).val + inp.val = out.val + diff128Const.val ∧
      ((felemDiff128 out inp).val : ZMod p) = out.val - inp.val) ∧
    (∀ (out : Felem128) (inp : Felem), inp.Below 63 → out.Below 127 →
      diff12864Const.Dominates inp.widen ∧
      Checked.felemDiff12864 out inp = some (felemDiff12864 out inp) ∧
      (felemDiff12864 out inp).val + inp.val = out.val + diff12864Const.val ∧
      ((felemDiff12864 out inp).val : ZMod p) = out.val - inp.val) := by
  refine ⟨⟨diff64Const_val, diff128Const_val, diff12864Const_val⟩, ?_, ?_, ?_⟩
  · intro out inp hi ho
    have hx := felemDiff64_exact ho hi
    exact ⟨diff64Const_dominates hi, Checked.felemDiff64_ok ho.is64 hi.is64, hx,
      cast_sub_of_exact hx diff64Const_val⟩
  · intro out inp hi ho
    have hx := felemDiff128_exact ho hi
    exact ⟨diff128Const_dominates hi, Checked.felemDiff128_ok ho.is128 hi.is128, hx,
      cast_sub_of_exact hx diff128Const_val⟩
  · intro out inp hi ho
    have hx := felemDiff12864_exact ho hi
    exact ⟨diff12864Const_dominates hi, Checked.felemDiff12864_ok ho.is128 hi.is64, hx,
      cast_sub_of_exact hx diff12864Const_val⟩

/-- The largest operands the three comments admit. -/
theorem diffs_exact_largest :
    let o64 : Fslice := (1#64 <<< 63) - 1
    let i64 : Fslice := (1#64 <<< 57) - 1
    let o126 : Uint128 := (1#128 <<< 126) - 1
    let i119 : Uint128 := (1#128 <<< 119) - 1
    let o127 : Uint128 := (1#128 <<< 127) - 1
    Checked.felemDiff64 ⟨o64, o64, o64⟩ ⟨i64, i64, i64⟩ =
      some (felemDiff64 ⟨o64, o64, o64⟩ ⟨i64, i64, i64⟩) ∧
    Checked.felemDiff128 ⟨o126, o126, o126, o126, o126⟩ ⟨i119, i119, i119, i119, i119⟩ =
      some (felemDiff128 ⟨o126, o126, o126, o126, o126⟩ ⟨i119, i119, i119, i119, i119⟩) ∧
    Checked.felemDiff12864 ⟨o127, o127, o127, o127, o127⟩ ⟨o64, o64, o64⟩ =
      some (felemDiff12864 ⟨o127, o127, o127, o127, o127⟩ ⟨o64, o64, o64⟩) :=
  ⟨(diffs_exact.2.1 _ _ ⟨by decide, by decide, by decide⟩ ⟨by decide, by decide, by decide⟩).2.1,
    (diffs_exact.2.2.1 _ _ ⟨by decide, by decide, by decide, by decide, by decide⟩
      ⟨by decide, by decide, by decide, by decide, by decide⟩).2.1,
    (diffs_exact.2.2.2 _ _ ⟨by decide, by decide, by decide⟩
      ⟨by decide, by decide, by decide, by decide, by decide⟩).2.1⟩

/-! ### Reduction -/

/-- Two minimal representations of one element are the same slices. -/
theorem IsMin.unique (ha : IsMin a x) (hb : IsMin b x) : a = b := by
  have hv : a.val = b.val := by
    have e : (a.val : ZMod p) = b.val := ha.eq.trans hb.eq.symm
    rw [ZMod.natCast_eq_natCast_iff] at e
    exact Nat.ModEq.eq_of_lt_of_lt e ha.lt hb.lt
  obtain ⟨a0, a1, a2, -, -⟩ := ha
  obtain ⟨b0, b1, b2, -, -⟩ := hb
  rw [Felem.val, Felem.val] at hv
  have e0 : a.l0 = b.l0 := BitVec.eq_of_toNat_eq (by omega)
  have e1 : a.l1 = b.l1 := BitVec.eq_of_toNat_eq (by omega)
  have e2 : a.l2 = b.l2 := BitVec.eq_of_toNat_eq (by omega)
  cases a
  cases b
  rw [Felem.mk.injEq]
  exact ⟨e0, e1, e2⟩

/-- Being the minimal representation of `x` singles out one value of the slices. -/
theorem IsMin.iff_eq (ha : IsMin a x) (b : Felem) : IsMin b x ↔ b = a := by
  constructor
  · intro hb
    exact hb.unique ha
  · rintro rfl
    exact ha

/-- `felem_reduce` on coefficients below `2^126`: no word wraps, the slices are in the range its
    comment states, the value is kept; and on that range `felem_is_zero` is exact and
    `felem_contract` returns the one representative below `p`. -/
theorem reduce_exact (u : Felem128) (hu : u.Below 126) :
    Checked.felemReduce u = some (felemReduce u) ∧ Is56 (felemReduce u) u.val ∧
      ∀ a x, Is56 a x → (felemIsZero a = true ↔ x = 0) ∧ ∀ b, IsMin b x ↔ b = felemContract a := by
  refine ⟨Checked.felemReduce_ok hu.is128, hu.is128.reduce, ?_⟩
  intro a x ha
  exact ⟨ha.isZero_iff, ha.contract.iff_eq⟩

/-- All coefficients at `2^126 - 1`. -/
theorem reduce_exact_largest :
    let c : Uint128 := (1#128 <<< 126) - 1
    Checked.felemReduce ⟨c, c, c, c, c⟩ = some (felemReduce ⟨c, c, c, c, c⟩) :=
  (reduce_exact _ ⟨by decide, by decide, by decide, by decide, by decide⟩).1

/-! ### Negation -/

/-- `felem_neg` returns the one minimal representation of `-in`, and its 21 bytes are its value. -/
def NegMinimal (a : Felem) : Prop :=
  (∀ b, IsMin b (-(a.val : ZMod p)) ↔ b = felemNeg a) ∧
    leNat (felemToBin21 (felemNeg a)) = (felemNeg a).val

/-- A minimal representation survives its 21 bytes. -/
theorem IsMin.bytes (h : IsMin a x) : leNat (felemToBin21 a) = a.val := by
  have hlt := h.lt
  rw [felemToBin21_eq h.h0 h.h1, leNat_encode, Nat.mod_eq_of_lt]
  rw [p] at hlt
  omega

theorem negVal_lt_iff {n : ℕ} (hn : n < 2 * p) :
    negVal n < p ↔ ¬(p - 513 ≤ n ∧ n ≤ p - 257) := by
  rw [p] at *
  rw [negVal, p]
  split_ifs <;> omega

/-- `felem_neg` is minimal exactly away from the 257 values that fold onto `2^168` and more. -/
theorem neg_minimal_iff (a : Felem) (h0 : a.l0.toNat < 2 ^ 56) (h1 : a.l1.toNat < 2 ^ 56)
    (h2 : a.l2.toNat ≤ 2 ^ 56) : NegMinimal a ↔ ¬(p - 513 ≤ a.val ∧ a.val ≤ p - 257) := by
  have hin : Is56 a a.val := ⟨h0, h1, h2, rfl⟩
  obtain ⟨c0, c1, c2, cv⟩ := felemNeg_val h0 h1 h2
  have hv : a.val < 2 * p := by rw [Felem.val, p]; omega
  rw [← negVal_lt_iff hv, ← cv]
  constructor
  · rintro ⟨hmin, -⟩
    exact ((hmin (felemNeg a)).mpr rfl).lt
  · intro hlt
    have hmin : IsMin (felemNeg a) (-(a.val : ZMod p)) :=
      ⟨c0, c1, by rw [Felem.val, p] at hlt; omega, hlt, hin.neg.eq⟩
    exact ⟨hmin.iff_eq, hmin.bytes⟩

theorem neg_minimal_iff_one : NegMinimal ⟨1, 0, 0⟩ :=
  (neg_minimal_iff ⟨1, 0, 0⟩ (by decide) (by decide) (by decide)).mpr (by decide)

/-- `2^168 - 514`, that is `p - 257`, is within the range of `felem_reduce`; its negation keeps
    `out[2] = 2^56` and its 21 bytes are zero. -/
theorem neg_not_minimal :
    let a : Felem := ⟨(1#64 <<< 56) - 514, (1#64 <<< 56) - 1, (1#64 <<< 56) - 1⟩
    Is56 a a.val ∧ ¬NegMinimal a ∧ felemNeg a = ⟨0, 0, 1#64 <<< 56⟩ ∧
      leNat (felemToBin21 (felemNeg a)) = 0 := by
  intro a
  have hneg : felemNeg a = ⟨0, 0, 1#64 <<< 56⟩ := by decide
  have hbytes : leNat (felemToBin21 (felemNeg a)) = 0 := by rw [hneg]; decide
  refine ⟨⟨by decide, by decide, by decide, rfl⟩, ?_, hneg, hbytes⟩
  rintro ⟨-, hloss⟩
  rw [hbytes, hneg] at hloss
  exact absurd hloss (by decide)

end Telex.Ptwist
