import Mathlib.Tactic.Ring

/-! Machine words whose operations fail instead of wrapping

    Each operation returns `none` when the exact result does not fit the word. A program written
    with them returns `some` exactly when none of its operations wraps. The `_bind` rules run one
    operation: they hand the rest of the program the word and its exact value. -/

namespace Word

variable {w v : ℕ} {x y : BitVec w} {α β : Type}

def add (x y : BitVec w) : Option (BitVec w) :=
  if x.toNat + y.toNat < 2 ^ w then some (x + y) else none

def sub (x y : BitVec w) : Option (BitVec w) :=
  if y.toNat ≤ x.toNat then some (x - y) else none

def mul (x y : BitVec w) : Option (BitVec w) :=
  if x.toNat * y.toNat < 2 ^ w then some (x * y) else none

def shl (x : BitVec w) (n : ℕ) : Option (BitVec w) :=
  if x.toNat * 2 ^ n < 2 ^ w then some (x <<< n) else none

/-- Conversion to a narrower word. -/
def narrow (v : ℕ) (x : BitVec w) : Option (BitVec v) :=
  if x.toNat < 2 ^ v then some (x.setWidth v) else none

theorem add_ok (h : x.toNat + y.toNat < 2 ^ w) : add x y = some (x + y) := if_pos h

theorem sub_ok (h : y.toNat ≤ x.toNat) : sub x y = some (x - y) := if_pos h

theorem le_of_sub_eq_some {r : BitVec w} (h : sub x y = some r) : y.toNat ≤ x.toNat := by
  by_contra hn
  rw [sub, if_neg hn] at h
  cases h

theorem mul_ok (h : x.toNat * y.toNat < 2 ^ w) : mul x y = some (x * y) := if_pos h

theorem shl_ok {n : ℕ} (h : x.toNat * 2 ^ n < 2 ^ w) : shl x n = some (x <<< n) := if_pos h

theorem narrow_ok (h : x.toNat < 2 ^ v) : narrow v x = some (x.setWidth v) := if_pos h

theorem bind_ok {m : Option α} {f : α → Option β} {a : α} {r : Option β} (hm : m = some a)
    (hf : f a = r) : (m >>= f) = r := by
  rw [hm]; exact hf

/-- The computation `m` does not wrap and `Q` holds of its result. -/
def Returns (m : Option α) (Q : α → Prop) : Prop := ∃ a, m = some a ∧ Q a

theorem Returns.bind {m : Option α} {f : α → Option β} {a : α} {Q : β → Prop} (hm : m = some a)
    (hf : Returns (f a) Q) : Returns (m >>= f) Q := by
  rw [hm]; exact hf

theorem add_bind {f : BitVec w → Option β} {b : β} (h : x.toNat + y.toNat < 2 ^ w)
    (hf : (x + y).toNat = x.toNat + y.toNat → f (x + y) = some b) : (add x y >>= f) = some b :=
  bind_ok (add_ok h) (hf (BitVec.toNat_add_of_lt h))

theorem sub_bind {f : BitVec w → Option β} {b : β} (h : y.toNat ≤ x.toNat)
    (hf : (x - y).toNat = x.toNat - y.toNat → f (x - y) = some b) : (sub x y >>= f) = some b :=
  bind_ok (sub_ok h) (hf (BitVec.toNat_sub_of_le (BitVec.le_def.mpr h)))

end Word
