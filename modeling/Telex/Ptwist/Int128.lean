import Mathlib.Logic.Function.Basic
import Mathlib.Tactic.Ring

/-! The class `uint128` of `tag/int128.h`

    Where the compiler has no 128-bit type the tag code computes with this class: two 64-bit halves
    and operators written by hand. Operators that write work on objects, and the right operand may
    be the object written to; a write to a half is then seen by the next read of the other name.
    Beside the class stands the arithmetic modulo `2^128` it replaces, on the same objects. The two
    agree on every operator, every operand and every amount of a shift, with one exception: `x += x`
    looks for the carry in the half it has just overwritten and so never finds one. -/

namespace Telex.Int128

abbrev Uint64 := BitVec 64

/-- `class uint128` -/
structure U128 where
  lo : Uint64
  hi : Uint64
  deriving DecidableEq

/-- `uint128(uint64 bottom)` -/
def ofUint64 (bottom : Uint64) : U128 := ⟨bottom, 0⟩

/-- `uint128(int bottom)` -/
def ofInt (bottom : ℤ) : U128 :=
  let x : U128 := ⟨BitVec.ofInt 64 bottom, 0⟩
  if bottom < 0 then { x with hi := x.hi - 1 } else x

/-- `Uint128Low64` -/
def low64 (v : U128) : Uint64 := v.lo

/-! ### Operators that write nothing -/

def equal (x b : U128) : Bool := x.lo == b.lo && x.hi == b.hi

/-- `CMP128(op)` -/
def cmp128 (op : Uint64 → Uint64 → Bool) (x b : U128) : Bool :=
  if x.hi = b.hi then op x.lo b.lo else op x.hi b.hi

/-- `operator~` -/
def complement (x : U128) : U128 := ⟨~~~x.lo, ~~~x.hi⟩

/-- `LOGIC128(op)` -/
def logic128 (op : Uint64 → Uint64 → Uint64) (x b : U128) : U128 := ⟨op x.lo b.lo, op x.hi b.hi⟩

/-- `operator<<` after its assertion. -/
def shl (x : U128) (amount : ℕ) : U128 :=
  if amount < 64 then
    if amount = 0 then x
    else ⟨x.lo <<< amount, (x.hi <<< amount) ||| (x.lo >>> (64 - amount))⟩
  else if amount < 128 then ⟨0, x.lo <<< (amount - 64)⟩
  else ⟨0, 0⟩

/-- `operator>>` after its assertion. -/
def shr (x : U128) (amount : ℕ) : U128 :=
  if amount < 64 then
    if amount = 0 then x
    else ⟨(x.lo >>> amount) ||| (x.hi <<< (64 - amount)), x.hi >>> amount⟩
  else if amount < 128 then ⟨x.hi >>> (amount - 64), 0⟩
  else ⟨0, 0⟩

/-! ### Products in 32-bit chunks -/

/-- `_a & 0xFFFFFFFF` and `_a >> 32`, stored in `uint32`. -/
def chunks (a : Uint64) : BitVec 32 × BitVec 32 :=
  ((a &&& 0xFFFFFFFF#64).setWidth 32, (a >>> 32).setWidth 32)

/-- A 64-bit result and its carry, the two output references. -/
structure Carried where
  carry : Uint64
  result : Uint64

/-- `addAndCarry`; both operands are taken apart before `result` is written. -/
def addAndCarry (a b : Uint64) : Carried :=
  let a := chunks a
  let b := chunks b
  let tmp : Uint64 := a.1.setWidth 64 + b.1.setWidth 64
  let result := tmp &&& 0xFFFFFFFF#64
  let c : BitVec 32 := (tmp >>> 32).setWidth 32
  let tmp : Uint64 := c.setWidth 64 + a.2.setWidth 64 + b.2.setWidth 64
  ⟨tmp >>> 32, result + (tmp <<< 32)⟩

/-- `multiplyAndCarry` -/
def multiplyAndCarry (a b : Uint64) : Carried :=
  let a := chunks a
  let b := chunks b
  let prod00 : Uint64 := a.1.setWidth 64 * b.1.setWidth 64
  let prod01 : Uint64 := a.1.setWidth 64 * b.2.setWidth 64
  let prod10 : Uint64 := a.2.setWidth 64 * b.1.setWidth 64
  let prod11 : Uint64 := a.2.setWidth 64 * b.2.setWidth 64
  -- the high halves of the mixed products never fit the result
  let carry := prod11 + (prod01 >>> 32) + (prod10 >>> 32)
  let first := addAndCarry prod00 (prod01 <<< 32)
  let carry := carry + first.carry
  let second := addAndCarry first.result (prod10 <<< 32)
  ⟨carry + second.carry, second.result⟩

/-! ### Compound assignments on objects -/

variable {ι : Type} [DecidableEq ι]

def setLo (m : ι → U128) (this : ι) (v : Uint64) : ι → U128 :=
  Function.update m this { m this with lo := v }

def setHi (m : ι → U128) (this : ι) (v : Uint64) : ι → U128 :=
  Function.update m this { m this with hi := v }

/-- `operator+=` -/
def addAssign (m : ι → U128) (this b : ι) : ι → U128 :=
  let m := setHi m this ((m this).hi + (m b).hi)
  let m := setLo m this ((m this).lo + (m b).lo)
  if (m this).lo < (m b).lo then setHi m this ((m this).hi + 1) else m

/-- `operator-=` -/
def subAssign (m : ι → U128) (this b : ι) : ι → U128 :=
  let m := setHi m this ((m this).hi - (m b).hi)
  let m := if (m b).lo > (m this).lo then setHi m this ((m this).hi - 1) else m
  setLo m this ((m this).lo - (m b).lo)

/-- `operator*=` -/
def mulAssign (m : ι → U128) (this b : ι) : ι → U128 :=
  let oldLo := (m this).lo
  let oldBLo := (m b).lo
  let r := multiplyAndCarry oldLo oldBLo
  let m := setLo m this r.result
  setHi m this (r.carry + oldLo * (m b).hi + (m this).hi * oldBLo)

/-- `ULOGIC128(uop)` -/
def logicAssign (op : Uint64 → Uint64 → Uint64) (m : ι → U128) (this b : ι) : ι → U128 :=
  let m := setHi m this (op (m this).hi (m b).hi)
  setLo m this (op (m this).lo (m b).lo)

/-- The objects and a temporary beside them. -/
def withTemp (m : ι → U128) (t : U128) : Option ι → U128 := fun o => o.elim t m

/-- `return uint128(*this) op= b;` -/
def onCopy (op : (Option Unit → U128) → Option Unit → Option Unit → Option Unit → U128)
    (x b : U128) : U128 :=
  op (withTemp (fun _ => b) x) none (some ()) none

/-- `operator+` -/
def add : U128 → U128 → U128 := onCopy addAssign

/-- `operator-` -/
def sub : U128 → U128 → U128 := onCopy subAssign

/-- `operator*` -/
def mul : U128 → U128 → U128 := onCopy mulAssign

/-- `*this += 1` -/
def increment (m : ι → U128) (this : ι) : ι → U128 := fun i =>
  addAssign (withTemp m (ofInt 1)) (some this) none (some i)

/-- `*this -= 1` -/
def decrement (m : ι → U128) (this : ι) : ι → U128 := fun i =>
  subAssign (withTemp m (ofInt 1)) (some this) none (some i)

/-! ### Calls of the class -/

inductive BinOp
  | add | sub | mul | or | and | xor
  deriving DecidableEq

inductive CmpOp
  | eq | ne | lt | gt | ge | le

inductive ShiftOp
  | left | right

inductive StepOp
  | preIncrement | preDecrement | postIncrement | postDecrement

/-- One operator applied to objects. -/
inductive Call (ι : Type)
  | binary (op : BinOp) (a b : ι)
  | compare (op : CmpOp) (a b : ι)
  | complement (a : ι)
  | shift (op : ShiftOp) (a : ι) (amount : ℤ)
  | assign (op : BinOp) (a b : ι)
  | step (op : StepOp) (a : ι)

/-- What a call returns. -/
inductive Returned (W : Type)
  | word (w : W)
  | truth (b : Bool)

def BinOp.apply : BinOp → U128 → U128 → U128
  | .add => Int128.add
  | .sub => Int128.sub
  | .mul => Int128.mul
  | .or => logic128 (· ||| ·)
  | .and => logic128 (· &&& ·)
  | .xor => logic128 (· ^^^ ·)

def BinOp.assign : BinOp → (ι → U128) → ι → ι → ι → U128
  | .add => addAssign
  | .sub => subAssign
  | .mul => mulAssign
  | .or => logicAssign (· ||| ·)
  | .and => logicAssign (· &&& ·)
  | .xor => logicAssign (· ^^^ ·)

def CmpOp.apply : CmpOp → U128 → U128 → Bool
  | .eq => equal
  | .ne => fun x b => !equal x b
  | .lt => cmp128 fun l r => decide (l < r)
  | .gt => cmp128 fun l r => decide (l > r)
  | .ge => cmp128 fun l r => decide (l ≥ r)
  | .le => cmp128 fun l r => decide (l ≤ r)

/-- `none` is the failed `DCHECK_GE(amount, 0)`. -/
def ShiftOp.apply (op : ShiftOp) (x : U128) (amount : ℤ) : Option U128 :=
  if amount < 0 then none
  else match op with
    | .left => some (shl x amount.toNat)
    | .right => some (shr x amount.toNat)

def StepOp.assign : StepOp → (ι → U128) → ι → ι → U128
  | .preIncrement | .postIncrement => increment
  | .preDecrement | .postDecrement => decrement

/-- The postfix forms return a copy made before the step. -/
def StepOp.postfixed : StepOp → Bool
  | .preIncrement | .preDecrement => false
  | .postIncrement | .postDecrement => true

/-- A call of the class: the objects after it and what it returns. -/
def run (m : ι → U128) : Call ι → Option ((ι → U128) × Returned U128)
  | .binary op a b => some (m, .word (op.apply (m a) (m b)))
  | .compare op a b => some (m, .truth (op.apply (m a) (m b)))
  | .complement a => some (m, .word (complement (m a)))
  | .shift op a amount => do return (m, .word (← op.apply (m a) amount))
  | .assign op a b =>
    let m' := op.assign m a b
    some (m', .word (m' a))
  | .step op a =>
    let m' := op.assign m a
    some (m', .word (if op.postfixed then m a else m' a))

/-! ### Arithmetic modulo 2^128 -/

def BinOp.native : BinOp → BitVec 128 → BitVec 128 → BitVec 128
  | .add => (· + ·)
  | .sub => (· - ·)
  | .mul => (· * ·)
  | .or => (· ||| ·)
  | .and => (· &&& ·)
  | .xor => (· ^^^ ·)

def CmpOp.native : CmpOp → BitVec 128 → BitVec 128 → Bool
  | .eq => fun x y => x == y
  | .ne => fun x y => x != y
  | .lt => fun x y => decide (x < y)
  | .gt => fun x y => decide (x > y)
  | .ge => fun x y => decide (x ≥ y)
  | .le => fun x y => decide (x ≤ y)

/-- Shifts lose what leaves the word; an amount below zero is no shift. -/
def ShiftOp.native (op : ShiftOp) (x : BitVec 128) (amount : ℤ) : Option (BitVec 128) :=
  if amount < 0 then none
  else match op with
    | .left => some (x <<< amount.toNat)
    | .right => some (x >>> amount.toNat)

def StepOp.native : StepOp → BitVec 128 → BitVec 128
  | .preIncrement | .postIncrement => (· + 1)
  | .preDecrement | .postDecrement => (· - 1)

/-- The same call with the operators of an unsigned 128-bit type. -/
def native (m : ι → BitVec 128) : Call ι → Option ((ι → BitVec 128) × Returned (BitVec 128))
  | .binary op a b => some (m, .word (op.native (m a) (m b)))
  | .compare op a b => some (m, .truth (op.native (m a) (m b)))
  | .complement a => some (m, .word (~~~m a))
  | .shift op a amount => do return (m, .word (← op.native (m a) amount))
  | .assign op a b =>
    let r := op.native (m a) (m b)
    some (Function.update m a r, .word r)
  | .step op a =>
    let r := op.native (m a)
    some (Function.update m a r, .word (if op.postfixed then m a else r))

/-- The number an object stands for. -/
def U128.value (x : U128) : BitVec 128 := x.hi ++ x.lo

def Returned.value : Returned U128 → Returned (BitVec 128)
  | .word w => .word w.value
  | .truth b => .truth b

/-- The class does what the native type does: the same objects after the call, the same result. -/
def Agrees (m : ι → U128) (c : Call ι) : Prop :=
  (run m c).map (fun r => (fun i => (r.1 i).value, r.2.value)) = native (fun i => (m i).value) c

/-! ### The halves as numbers -/

variable {x y : U128} {m : ι → U128} {a b : ι}

theorem value_toNat (x : U128) : x.value.toNat = 2 ^ 64 * x.hi.toNat + x.lo.toNat := by
  have hl := x.lo.isLt
  rw [U128.value, BitVec.toNat_append, ← Nat.shiftLeft_add_eq_or_of_lt hl, Nat.shiftLeft_eq,
    Nat.mul_comm]

theorem value_inj : x.value = y.value ↔ x = y := by
  constructor
  · intro h
    have hn : x.value.toNat = y.value.toNat := by rw [h]
    rw [value_toNat, value_toNat] at hn
    have hx := x.lo.isLt
    have hy := y.lo.isLt
    have el : x.lo = y.lo := BitVec.eq_of_toNat_eq (by omega)
    have eh : x.hi = y.hi := BitVec.eq_of_toNat_eq (by omega)
    cases x
    cases y
    rw [U128.mk.injEq]
    exact ⟨el, eh⟩
  · rintro rfl
    rfl

/-- Halves that add up to `n` modulo `2^128` stand for it. -/
theorem value_eq_of_toNat {w : BitVec 128} {n : ℕ} (hw : w.toNat = n % 2 ^ 128)
    (hx : (2 ^ 64 * x.hi.toNat + x.lo.toNat) % 2 ^ 128 = n % 2 ^ 128) : x.value = w := by
  apply BitVec.eq_of_toNat_eq
  have hh := x.hi.isLt
  have hl := x.lo.isLt
  rw [hw, ← hx, value_toNat, Nat.mod_eq_of_lt]
  omega

theorem value_getLsbD (x : U128) (i : ℕ) :
    x.value.getLsbD i = if i < 64 then x.lo.getLsbD i else x.hi.getLsbD (i - 64) := by
  rw [U128.value, BitVec.getLsbD_append]

theorem value_or (x y : U128) : (logic128 (· ||| ·) x y).value = x.value ||| y.value := by
  apply BitVec.eq_of_getLsbD_eq
  intro i _
  simp only [BitVec.getLsbD_or, value_getLsbD, logic128]
  split <;> rfl

theorem value_and (x y : U128) : (logic128 (· &&& ·) x y).value = x.value &&& y.value := by
  apply BitVec.eq_of_getLsbD_eq
  intro i _
  simp only [BitVec.getLsbD_and, value_getLsbD, logic128]
  split <;> rfl

theorem value_xor (x y : U128) : (logic128 (· ^^^ ·) x y).value = x.value ^^^ y.value := by
  apply BitVec.eq_of_getLsbD_eq
  intro i _
  simp only [BitVec.getLsbD_xor, value_getLsbD, logic128]
  split <;> rfl

theorem value_complement (x : U128) : (complement x).value = ~~~x.value := by
  apply BitVec.eq_of_getLsbD_eq
  intro i hi
  simp only [BitVec.getLsbD_not, value_getLsbD, complement]
  grind

theorem value_shl (x : U128) (n : ℕ) : (shl x n).value = x.value <<< n := by
  apply BitVec.eq_of_getLsbD_eq
  intro i hi
  rw [BitVec.getLsbD_shiftLeft, value_getLsbD, value_getLsbD, shl]
  by_cases h64 : n < 64
  · rw [if_pos h64]
    by_cases h0 : n = 0
    · subst h0
      simp [hi]
    · rw [if_neg h0]
      simp only [BitVec.getLsbD_or, BitVec.getLsbD_shiftLeft, BitVec.getLsbD_ushiftRight]
      grind
  · rw [if_neg h64]
    by_cases h128 : n < 128
    · obtain ⟨k, rfl⟩ : ∃ k, n = 64 + k := ⟨n - 64, by omega⟩
      rw [if_pos h128, Nat.add_sub_cancel_left, ← Nat.sub_sub]
      simp only [BitVec.getLsbD_shiftLeft]
      grind
    · rw [if_neg h128]
      grind

theorem value_shr (x : U128) (n : ℕ) : (shr x n).value = x.value >>> n := by
  apply BitVec.eq_of_getLsbD_eq
  intro i hi
  rw [BitVec.getLsbD_ushiftRight, value_getLsbD, value_getLsbD, shr]
  by_cases h64 : n < 64
  · rw [if_pos h64]
    by_cases h0 : n = 0
    · subst h0
      simp
    · rw [if_neg h0]
      simp only [BitVec.getLsbD_or, BitVec.getLsbD_shiftLeft, BitVec.getLsbD_ushiftRight]
      grind
  · rw [if_neg h64]
    by_cases h128 : n < 128
    · obtain ⟨k, rfl⟩ : ∃ k, n = 64 + k := ⟨n - 64, by omega⟩
      rw [if_pos h128, Nat.add_sub_cancel_left, Nat.add_assoc, Nat.add_sub_cancel_left]
      simp only [BitVec.getLsbD_ushiftRight]
      grind
    · rw [if_neg h128]
      grind

/-! ### Comparisons -/

theorem equal_value (x y : U128) : equal x y = (x.value == y.value) := by
  rw [Bool.eq_iff_iff, beq_iff_eq, value_inj, equal, Bool.and_eq_true, beq_iff_eq, beq_iff_eq]
  cases x
  cases y
  rw [U128.mk.injEq]

/-- `CMP128` for a comparison that compares numbers. -/
theorem cmp128_value {op : Uint64 → Uint64 → Bool} {R : ℕ → ℕ → Prop} {Q : Prop} [Decidable Q]
    (hop : ∀ l r, op l r = true ↔ R l.toNat r.toNat)
    (hQ : (if x.hi.toNat = y.hi.toNat then R x.lo.toNat y.lo.toNat
      else R x.hi.toNat y.hi.toNat) ↔ Q) :
    cmp128 op x y = decide Q := by
  rw [Bool.eq_iff_iff, decide_eq_true_iff, ← hQ, cmp128]
  by_cases h : x.hi = y.hi
  · rw [if_pos h, if_pos (by rw [h]), hop]
  · rw [if_neg h, if_neg (fun e => h (BitVec.eq_of_toNat_eq e)), hop]

theorem cmpOp_value (op : CmpOp) (x y : U128) : op.apply x y = op.native x.value y.value := by
  have hx := x.lo.isLt
  have hy := y.lo.isLt
  cases op
  case eq => exact equal_value x y
  case ne => exact congrArg (! ·) (equal_value x y)
  case lt =>
    change cmp128 (fun l r => decide (l < r)) x y = decide (x.value < y.value)
    refine cmp128_value (R := (· < ·)) (fun l r => decide_eq_true_iff.trans BitVec.lt_def) ?_
    rw [BitVec.lt_def, value_toNat, value_toNat]
    split <;> omega
  case gt =>
    change cmp128 (fun l r => decide (l > r)) x y = decide (x.value > y.value)
    refine cmp128_value (R := (· > ·)) (fun l r => decide_eq_true_iff.trans BitVec.lt_def) ?_
    simp only [gt_iff_lt, BitVec.lt_def, value_toNat]
    split <;> omega
  case ge =>
    change cmp128 (fun l r => decide (l ≥ r)) x y = decide (x.value ≥ y.value)
    refine cmp128_value (R := (· ≥ ·)) (fun l r => decide_eq_true_iff.trans BitVec.le_def) ?_
    simp only [ge_iff_le, BitVec.le_def, value_toNat]
    split <;> omega
  case le =>
    change cmp128 (fun l r => decide (l ≤ r)) x y = decide (x.value ≤ y.value)
    refine cmp128_value (R := (· ≤ ·)) (fun l r => decide_eq_true_iff.trans BitVec.le_def) ?_
    rw [BitVec.le_def, value_toNat, value_toNat]
    split <;> omega

/-! ### Products -/

theorem toNat_chunk (c : BitVec 32) : (c.setWidth 64).toNat = c.toNat := by
  have := c.isLt
  rw [BitVec.toNat_setWidth, Nat.mod_eq_of_lt (by omega)]

theorem toNat_low32 (l : Uint64) : (l &&& 0xFFFFFFFF#64).toNat = l.toNat % 2 ^ 32 := by
  rw [BitVec.toNat_and]
  exact Nat.and_two_pow_sub_one_eq_mod _ 32

theorem toNat_high32 (l : Uint64) : (l >>> 32).toNat = l.toNat / 2 ^ 32 := by
  rw [BitVec.toNat_ushiftRight, Nat.shiftRight_eq_div_pow]

theorem toNat_shl32 (l : Uint64) : (l <<< 32).toNat = 2 ^ 32 * (l.toNat % 2 ^ 32) := by
  rw [BitVec.toNat_shiftLeft, Nat.shiftLeft_eq]
  omega

theorem chunks_toNat (l : Uint64) :
    (chunks l).1.toNat = l.toNat % 2 ^ 32 ∧ (chunks l).2.toNat = l.toNat / 2 ^ 32 := by
  have hl := l.isLt
  constructor
  · rw [chunks, BitVec.toNat_setWidth, toNat_low32, Nat.mod_mod]
  · rw [chunks, BitVec.toNat_setWidth, toNat_high32, Nat.mod_eq_of_lt]
    omega

theorem addAndCarry_spec (l r : Uint64) :
    2 ^ 64 * (addAndCarry l r).carry.toNat + (addAndCarry l r).result.toNat =
      l.toNat + r.toNat := by
  unfold addAndCarry
  extract_lets l' r' tmp result c tmp'
  obtain ⟨l0, l1⟩ := chunks_toNat l
  obtain ⟨r0, r1⟩ := chunks_toNat r
  have hl := l.isLt
  have hr := r.isLt
  have dt : tmp.toNat = l.toNat % 2 ^ 32 + r.toNat % 2 ^ 32 := by
    rw [← l0, ← r0, ← toNat_chunk, ← toNat_chunk]
    refine BitVec.toNat_add_of_lt ?_
    rw [toNat_chunk, toNat_chunk]
    omega
  have dr : result.toNat = tmp.toNat % 2 ^ 32 := toNat_low32 _
  have dc : c.toNat = tmp.toNat / 2 ^ 32 := by
    rw [← toNat_high32]
    refine (BitVec.toNat_setWidth ..).trans (Nat.mod_eq_of_lt ?_)
    rw [toNat_high32]
    omega
  have dt' : tmp'.toNat = c.toNat + l.toNat / 2 ^ 32 + r.toNat / 2 ^ 32 := by
    rw [← l1, ← r1, ← toNat_chunk, ← toNat_chunk, ← toNat_chunk]
    have e : (c.setWidth 64 + l'.2.setWidth 64 : Uint64).toNat =
        (c.setWidth 64).toNat + (l'.2.setWidth 64).toNat := by
      refine BitVec.toNat_add_of_lt ?_
      rw [toNat_chunk, toNat_chunk]
      omega
    rw [← e]
    refine BitVec.toNat_add_of_lt ?_
    rw [e, toNat_chunk, toNat_chunk, toNat_chunk]
    omega
  have ds : (result + (tmp' <<< 32)).toNat = result.toNat + 2 ^ 32 * (tmp'.toNat % 2 ^ 32) := by
    rw [← toNat_shl32]
    refine BitVec.toNat_add_of_lt ?_
    rw [toNat_shl32]
    omega
  rw [toNat_high32, ds]
  omega

theorem toNat_mul_chunks (l r : BitVec 32) :
    (l.setWidth 64 * r.setWidth 64 : Uint64).toNat = l.toNat * r.toNat := by
  have hlr : l.toNat * r.toNat < 2 ^ 32 * 2 ^ 32 := Nat.mul_lt_mul'' l.isLt r.isLt
  rw [BitVec.toNat_mul, toNat_chunk, toNat_chunk, Nat.mod_eq_of_lt (by omega)]

/-- The partial products are those of schoolbook multiplication and no carry is lost. -/
theorem multiplyAndCarry_spec (l r : Uint64) :
    2 ^ 64 * (multiplyAndCarry l r).carry.toNat + (multiplyAndCarry l r).result.toNat =
      l.toNat * r.toNat := by
  unfold multiplyAndCarry
  extract_lets l' r' p00 p01 p10 p11 carry first carry' second
  obtain ⟨l0, l1⟩ : l'.1.toNat = l.toNat % 2 ^ 32 ∧ l'.2.toNat = l.toNat / 2 ^ 32 :=
    chunks_toNat l
  obtain ⟨r0, r1⟩ : r'.1.toNat = r.toNat % 2 ^ 32 ∧ r'.2.toNat = r.toNat / 2 ^ 32 :=
    chunks_toNat r
  have hprod : l.toNat * r.toNat =
      p00.toNat + 2 ^ 32 * (p01.toNat + p10.toNat) + 2 ^ 64 * p11.toNat := by
    have el : l.toNat = l'.1.toNat + 2 ^ 32 * l'.2.toNat := by omega
    have er : r.toNat = r'.1.toNat + 2 ^ 32 * r'.2.toNat := by omega
    have e00 : p00.toNat = l'.1.toNat * r'.1.toNat := toNat_mul_chunks _ _
    have e01 : p01.toNat = l'.1.toNat * r'.2.toNat := toNat_mul_chunks _ _
    have e10 : p10.toNat = l'.2.toNat * r'.1.toNat := toNat_mul_chunks _ _
    have e11 : p11.toNat = l'.2.toNat * r'.2.toNat := toNat_mul_chunks _ _
    rw [el, er, e00, e01, e10, e11]
    ring
  have hlt : l.toNat * r.toNat < 2 ^ 64 * 2 ^ 64 := Nat.mul_lt_mul'' l.isLt r.isLt
  have hfirst : 2 ^ 64 * first.carry.toNat + first.result.toNat =
      p00.toNat + (p01 <<< 32).toNat := addAndCarry_spec _ _
  have hsecond : 2 ^ 64 * second.carry.toNat + second.result.toNat =
      first.result.toNat + (p10 <<< 32).toNat := addAndCarry_spec _ _
  rw [toNat_shl32] at hfirst hsecond
  -- everything above the low word, which fits a word because the product fits two
  have hsum : p11.toNat + p01.toNat / 2 ^ 32 + p10.toNat / 2 ^ 32 + first.carry.toNat +
      second.carry.toNat < 2 ^ 64 := by omega
  have hcarry : (carry' + second.carry).toNat = p11.toNat + p01.toNat / 2 ^ 32 +
      p10.toNat / 2 ^ 32 + first.carry.toNat + second.carry.toNat := by
    have c1 : (p11 + (p01 >>> 32)).toNat = p11.toNat + p01.toNat / 2 ^ 32 := by
      rw [← toNat_high32]
      refine BitVec.toNat_add_of_lt ?_
      rw [toNat_high32]
      omega
    have c2 : carry.toNat = p11.toNat + p01.toNat / 2 ^ 32 + p10.toNat / 2 ^ 32 := by
      rw [← c1, ← toNat_high32]
      refine BitVec.toNat_add_of_lt ?_
      rw [toNat_high32, c1]
      omega
    have c3 : carry'.toNat = carry.toNat + first.carry.toNat :=
      BitVec.toNat_add_of_lt (by omega)
    rw [BitVec.toNat_add_of_lt (by omega), c3, c2]
  change 2 ^ 64 * (carry' + second.carry).toNat + second.result.toNat = l.toNat * r.toNat
  rw [hcarry, hprod]
  clear hcarry hprod hlt
  omega

/-! ### Sums, differences and products of objects -/

@[simp] theorem setHi_lo (m : ι → U128) (a : ι) (v : Uint64) (i : ι) :
    (setHi m a v i).lo = (m i).lo := by
  by_cases h : i = a
  · subst h
    rw [setHi, Function.update_self]
  · rw [setHi, Function.update_of_ne h]

@[simp] theorem setLo_hi (m : ι → U128) (a : ι) (v : Uint64) (i : ι) :
    (setLo m a v i).hi = (m i).hi := by
  by_cases h : i = a
  · subst h
    rw [setLo, Function.update_self]
  · rw [setLo, Function.update_of_ne h]

@[simp] theorem setHi_self_hi (m : ι → U128) (a : ι) (v : Uint64) : (setHi m a v a).hi = v := by
  rw [setHi, Function.update_self]

@[simp] theorem setLo_setHi (m : ι → U128) (a : ι) (v w : Uint64) :
    setLo (setHi m a v) a w = Function.update m a ⟨w, v⟩ := by
  simp only [setLo, setHi, Function.update_self, Function.update_idem]

@[simp] theorem setHi_setLo (m : ι → U128) (a : ι) (v w : Uint64) :
    setHi (setLo m a w) a v = Function.update m a ⟨w, v⟩ := by
  rw [setHi, setLo, Function.update_self, Function.update_idem]

/-- The halves of a subtraction; no read comes after the write of the half it reads. -/
theorem subAssign_eq (m : ι → U128) (a b : ι) : subAssign m a b = Function.update m a
    ⟨(m a).lo - (m b).lo, if (m b).lo > (m a).lo then (m a).hi - (m b).hi - 1
      else (m a).hi - (m b).hi⟩ := by
  have e : ∀ v : Uint64, setHi (setHi m a v) a (v - 1) = setHi m a (v - 1) := by
    intro v
    rw [setHi, setHi, Function.update_self, Function.update_idem, setHi]
  simp only [subAssign, setHi_lo, setHi_self_hi]
  split
  · rw [e, setHi_lo, setHi_lo, setLo_setHi]
  · rw [setHi_lo, setHi_lo, setLo_setHi]

/-- The halves of a product; the low halves are backed up and the high ones not yet written. -/
theorem mulAssign_eq (m : ι → U128) (a b : ι) : mulAssign m a b = Function.update m a
    ⟨(multiplyAndCarry (m a).lo (m b).lo).result, (multiplyAndCarry (m a).lo (m b).lo).carry +
      (m a).lo * (m b).hi + (m a).hi * (m b).lo⟩ := by
  simp only [mulAssign, setLo_hi, setHi_setLo]

theorem logicAssign_eq (op : Uint64 → Uint64 → Uint64) (m : ι → U128) (a b : ι) :
    logicAssign op m a b = Function.update m a (logic128 op (m a) (m b)) := by
  simp only [logicAssign, setHi_lo, setLo_setHi, logic128]

/-- The halves of a sum of two objects. -/
theorem addAssign_of_ne (h : a ≠ b) : addAssign m a b = Function.update m a
    ⟨(m a).lo + (m b).lo, if (m a).lo + (m b).lo < (m b).lo then (m a).hi + (m b).hi + 1
      else (m a).hi + (m b).hi⟩ := by
  simp only [addAssign, setHi_lo, setLo_setHi, Function.update_self, Function.update_of_ne h.symm]
  split
  · rw [setHi, Function.update_self, Function.update_idem]
  · rfl

/-- The halves of `x += x`: the carry is looked for after the operand has been overwritten. -/
theorem addAssign_self :
    addAssign m a a = Function.update m a ⟨(m a).lo + (m a).lo, (m a).hi + (m a).hi⟩ := by
  simp only [addAssign, setHi_lo, setLo_setHi, Function.update_self, BitVec.lt_irrefl, if_false]

/-- A sum of halves carries exactly when the low sum comes out below an operand. -/
theorem value_sum (x y : U128) :
    (⟨x.lo + y.lo, if x.lo + y.lo < y.lo then x.hi + y.hi + 1 else x.hi + y.hi⟩ : U128).value =
      x.value + y.value := by
  have hx := x.lo.isLt
  have hy := y.lo.isLt
  have e := value_toNat x
  have f := value_toNat y
  have one : (1 : Uint64).toNat = 1 := rfl
  refine value_eq_of_toNat (BitVec.toNat_add ..) ?_
  rw [e, f]
  split <;> rename_i hlt <;> rw [BitVec.lt_def, BitVec.toNat_add] at hlt <;>
    simp only [BitVec.toNat_add, one] <;> omega

theorem value_difference (x y : U128) :
    (⟨x.lo - y.lo, if y.lo > x.lo then x.hi - y.hi - 1 else x.hi - y.hi⟩ : U128).value =
      x.value - y.value := by
  have hx := x.lo.isLt
  have hy := y.lo.isLt
  have hx' := x.hi.isLt
  have hy' := y.hi.isLt
  have e := value_toNat x
  have f := value_toNat y
  have one : (1 : Uint64).toNat = 1 := rfl
  refine value_eq_of_toNat (BitVec.toNat_sub ..) ?_
  rw [e, f]
  split <;> rename_i hlt <;> rw [gt_iff_lt, BitVec.lt_def] at hlt <;>
    simp only [BitVec.toNat_sub, one] <;> omega

theorem value_product (x y : U128) :
    (⟨(multiplyAndCarry x.lo y.lo).result, (multiplyAndCarry x.lo y.lo).carry +
      x.lo * y.hi + x.hi * y.lo⟩ : U128).value = x.value * y.value := by
  have hm := multiplyAndCarry_spec x.lo y.lo
  refine value_eq_of_toNat (BitVec.toNat_mul ..) ?_
  have e : x.value.toNat * y.value.toNat = 2 ^ 64 * ((multiplyAndCarry x.lo y.lo).carry.toNat +
      x.lo.toNat * y.hi.toNat + x.hi.toNat * y.lo.toNat) +
      (multiplyAndCarry x.lo y.lo).result.toNat + 2 ^ 128 * (x.hi.toNat * y.hi.toNat) := by
    rw [value_toNat, value_toNat]
    have e2 : (2 ^ 64 * x.hi.toNat + x.lo.toNat) * (2 ^ 64 * y.hi.toNat + y.lo.toNat) =
        2 ^ 64 * (x.lo.toNat * y.hi.toNat + x.hi.toNat * y.lo.toNat) + x.lo.toNat * y.lo.toNat +
          2 ^ 128 * (x.hi.toNat * y.hi.toNat) := by ring
    rw [e2, ← hm]
    ring
  rw [e, Nat.add_mul_mod_self_left]
  simp only [BitVec.toNat_add, BitVec.toNat_mul, Nat.add_mod_mod, Nat.mod_add_mod]
  generalize (multiplyAndCarry x.lo y.lo).carry.toNat + x.lo.toNat * y.hi.toNat +
    x.hi.toNat * y.lo.toNat = s
  have hr := (multiplyAndCarry x.lo y.lo).result.isLt
  omega

theorem value_add (x y : U128) : (add x y).value = x.value + y.value := by
  rw [add, onCopy, addAssign_of_ne (by decide), Function.update_self]
  exact value_sum x y

theorem value_sub (x y : U128) : (sub x y).value = x.value - y.value := by
  rw [sub, onCopy, subAssign_eq, Function.update_self]
  exact value_difference x y

theorem value_mul (x y : U128) : (mul x y).value = x.value * y.value := by
  rw [mul, onCopy, mulAssign_eq, Function.update_self]
  exact value_product x y

theorem value_ofUint64 (l : Uint64) : (ofUint64 l).value = l.setWidth 128 := by
  apply BitVec.eq_of_toNat_eq
  have hl := l.isLt
  have e0 : (0 : Uint64).toNat = 0 := rfl
  rw [value_toNat, BitVec.toNat_setWidth, Nat.mod_eq_of_lt (by omega)]
  simp only [ofUint64, e0]
  omega

/-- A literal of the source. -/
theorem value_ofInt {n : ℕ} (h : n < 2 ^ 63) : (ofInt n).value = BitVec.ofNat 128 n := by
  have hn : ¬((n : ℤ) < 0) := by omega
  have e0 : (0 : Uint64).toNat = 0 := rfl
  apply BitVec.eq_of_toNat_eq
  rw [value_toNat]
  simp only [ofInt, if_neg hn, BitVec.ofInt_natCast, BitVec.toNat_ofNat, e0]
  omega

theorem binOp_value (op : BinOp) (x y : U128) :
    (op.apply x y).value = op.native x.value y.value := by
  cases op
  case add => exact value_add x y
  case sub => exact value_sub x y
  case mul => exact value_mul x y
  case or => exact value_or x y
  case and => exact value_and x y
  case xor => exact value_xor x y

theorem shiftOp_value (op : ShiftOp) (x : U128) (n : ℤ) :
    (op.apply x n).map U128.value = op.native x.value n := by
  by_cases h : n < 0
  · simp only [ShiftOp.apply, ShiftOp.native, if_pos h, Option.map_none]
  · cases op
    case left => simp only [ShiftOp.apply, ShiftOp.native, if_neg h, Option.map_some, value_shl]
    case right => simp only [ShiftOp.apply, ShiftOp.native, if_neg h, Option.map_some, value_shr]

theorem value_update (m : ι → U128) (a : ι) (r : U128) :
    (fun i => (Function.update m a r i).value) =
      Function.update (fun i => (m i).value) a r.value := by
  funext i
  by_cases h : i = a
  · subst h
    rw [Function.update_self, Function.update_self]
  · rw [Function.update_of_ne h, Function.update_of_ne h]

/-- Every compound assignment, the same object on both sides included, except `x += x`. -/
theorem assign_value (op : BinOp) (m : ι → U128) (a b : ι) (h : op = .add → a ≠ b) :
    (fun i => (op.assign m a b i).value) =
      Function.update (fun i => (m i).value) a (op.native (m a).value (m b).value) := by
  cases op
  case add =>
    simp only [BinOp.assign, addAssign_of_ne (h rfl), value_update]
    exact congrArg _ (value_sum _ _)
  case sub =>
    simp only [BinOp.assign, subAssign_eq, value_update]
    exact congrArg _ (value_difference _ _)
  case mul =>
    simp only [BinOp.assign, mulAssign_eq, value_update]
    exact congrArg _ (value_product _ _)
  case or =>
    simp only [BinOp.assign, logicAssign_eq, value_update]
    exact congrArg _ (value_or _ _)
  case and =>
    simp only [BinOp.assign, logicAssign_eq, value_update]
    exact congrArg _ (value_and _ _)
  case xor =>
    simp only [BinOp.assign, logicAssign_eq, value_update]
    exact congrArg _ (value_xor _ _)

/-- `x += x` doubles exactly when the low half does not carry. -/
theorem double_value_iff (x : U128) :
    (⟨x.lo + x.lo, x.hi + x.hi⟩ : U128).value = x.value + x.value ↔ x.lo.toNat < 2 ^ 63 := by
  have hx := x.lo.isLt
  have hx' := x.hi.isLt
  simp only [← BitVec.toNat_inj, BitVec.toNat_add, value_toNat]
  omega

/-- `*this += 1` and `*this -= 1`: the temporary `uint128(1)` is never `*this`. -/
theorem step_value (op : StepOp) (m : ι → U128) (a : ι) :
    (fun i => (op.assign m a i).value) =
      Function.update (fun i => (m i).value) a (op.native (m a).value) := by
  have hone : (ofInt 1).value = 1 := value_ofInt (n := 1) (by decide)
  have hup : ∀ r : U128, (fun i => (Function.update (withTemp m (ofInt 1)) (some a) r
      (some i)).value) = Function.update (fun i => (m i).value) a r.value := by
    intro r
    rw [← value_update]
    funext i
    by_cases h : i = a
    · subst h
      rw [Function.update_self, Function.update_self]
    · rw [Function.update_of_ne h, Function.update_of_ne (by simpa using h)]
      rfl
  have hinc : (fun i => (increment m a i).value) =
      Function.update (fun i => (m i).value) a ((m a).value + 1) := by
    simp only [increment, addAssign_of_ne (Option.some_ne_none a), hup]
    rw [← hone]
    exact congrArg _ (value_sum _ _)
  have hdec : (fun i => (decrement m a i).value) =
      Function.update (fun i => (m i).value) a ((m a).value - 1) := by
    simp only [decrement, subAssign_eq, hup]
    rw [← hone]
    exact congrArg _ (value_difference _ _)
  cases op
  case preIncrement => exact hinc
  case preDecrement => exact hdec
  case postIncrement => exact hinc
  case postDecrement => exact hdec

/-- `x += x` on one object whose low half has its top bit set. -/
def Call.DoublesHigh (m : ι → U128) : Call ι → Prop
  | .assign .add a b => a = b ∧ 2 ^ 63 ≤ (m a).lo.toNat
  | _ => False

theorem agrees_assign (op : BinOp) (m : ι → U128) (a b : ι) (h : op = .add → a ≠ b) :
    Agrees m (.assign op a b) := by
  have hs := assign_value op m a b h
  have ha := congrFun hs a
  rw [Function.update_self] at ha
  simp only [Agrees, run, native, Option.map_some, Returned.value, hs, ha]

theorem agrees_double_iff (m : ι → U128) (a : ι) :
    Agrees m (.assign .add a a) ↔ (m a).lo.toNat < 2 ^ 63 := by
  rw [← double_value_iff]
  simp only [Agrees, run, native, Option.map_some, Returned.value, BinOp.assign, BinOp.native,
    addAssign_self, value_update, Function.update_self]
  constructor
  · intro h
    have hr := congrArg Prod.snd (Option.some.inj h)
    exact Returned.word.inj hr
  · intro h
    rw [h]

/-- The class and the native type agree on a call exactly when it does not double a high half. -/
theorem agrees_iff (m : ι → U128) (c : Call ι) : Agrees m c ↔ ¬c.DoublesHigh m := by
  cases c with
  | binary op a b =>
    refine iff_of_true ?_ not_false
    simp only [Agrees, run, native, Option.map_some, Returned.value, binOp_value]
  | compare op a b =>
    refine iff_of_true ?_ not_false
    simp only [Agrees, run, native, Option.map_some, Returned.value, cmpOp_value]
  | complement a =>
    refine iff_of_true ?_ not_false
    simp only [Agrees, run, native, Option.map_some, Returned.value, value_complement]
  | shift op a n =>
    refine iff_of_true ?_ not_false
    simp only [Agrees, run, native, ← shiftOp_value]
    cases op.apply (m a) n <;> rfl
  | assign op a b =>
    by_cases h : op = .add → a ≠ b
    · refine iff_of_true (agrees_assign op m a b h) ?_
      cases op
      case add => exact fun hd => h rfl hd.1
      all_goals exact not_false
    · obtain ⟨rfl, hab⟩ := Classical.not_imp.mp h
      obtain rfl := not_not.mp hab
      rw [agrees_double_iff, Call.DoublesHigh, not_and, not_le]
      exact ⟨fun hl _ => hl, fun hl => hl rfl⟩
  | step op a =>
    refine iff_of_true ?_ not_false
    have hs := step_value op m a
    have ha := congrFun hs a
    rw [Function.update_self] at ha
    simp only [Agrees, run, native, Option.map_some, hs]
    cases op.postfixed
    · simp only [Bool.false_eq_true, if_false, Returned.value, ha]
    · simp only [if_true, Returned.value]

end Telex.Int128
