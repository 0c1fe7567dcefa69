import Mathlib.Data.Nat.Digits.Lemmas
import Mathlib.Data.BitVec

/-! Numbers as bytes, the least significant first

    What the usual ways of handling such a number byte by byte do to its value: cutting it short,
    masking its last byte, and counting up with a carry. -/

namespace LittleEndian

abbrev Byte := BitVec 8

variable {bs cs : List Byte} {k n : ℕ}

def value (bs : List Byte) : ℕ := Nat.ofDigits 256 (bs.map BitVec.toNat)

theorem digits_lt (bs : List Byte) : ∀ d ∈ bs.map BitVec.toNat, d < 256 := by
  intro d hd
  obtain ⟨b, -, rfl⟩ := List.mem_map.mp hd
  exact b.isLt

@[simp] theorem value_nil : value [] = 0 := rfl

@[simp] theorem value_cons (b : Byte) (bs : List Byte) :
    value (b :: bs) = b.toNat + 256 * value bs := by
  rw [value, List.map_cons, Nat.ofDigits_cons, value]

theorem value_lt (bs : List Byte) : value bs < 256 ^ bs.length := by
  simpa [value] using Nat.ofDigits_lt_base_pow_length (by decide) (digits_lt bs)

/-- Byte strings of one length are told apart by their values. -/
theorem value_inj (hlen : bs.length = cs.length) : value bs = value cs ↔ bs = cs := by
  constructor
  · intro h
    have hmap : bs.map BitVec.toNat = cs.map BitVec.toNat :=
      Nat.ofDigits_inj_of_len_eq (by decide) (by simpa using hlen) (digits_lt bs) (digits_lt cs) h
    exact List.map_injective_iff.mpr (fun _ _ => BitVec.eq_of_toNat_eq) hmap
  · rintro rfl
    rfl

/-- Reducing a number byte by byte. -/
theorem cons_mod (b : Byte) (v m : ℕ) :
    (b.toNat + 256 * v) % (256 * m) = b.toNat + 256 * (v % m) := by
  have hb : b.toNat < 256 := b.isLt
  have e0 : (b.toNat + 256 * v) % 256 = b.toNat := by omega
  have e1 : (b.toNat + 256 * v) / 256 = v := by omega
  rw [Nat.mod_mul, e0, e1]

theorem value_take (bs : List Byte) (n : ℕ) : value (bs.take n) = value bs % 256 ^ n := by
  induction bs generalizing n with
  | nil => simp
  | cons b bs ih =>
    cases n with
    | zero => simp [Nat.mod_one]
    | succ n => rw [List.take_succ_cons, value_cons, value_cons, ih, pow_succ', cons_mod]

/-- The `k` low bits of byte `n`. -/
def mask (k n : ℕ) (bs : List Byte) : List Byte :=
  bs.modify n (· &&& BitVec.ofNat 8 (2 ^ k - 1))

@[simp] theorem length_mask : (mask k n bs).length = bs.length := List.length_modify ..

theorem toNat_and_mask (b : Byte) (hk : k ≤ 8) :
    (b &&& BitVec.ofNat 8 (2 ^ k - 1)).toNat = b.toNat % 2 ^ k := by
  have hp : 2 ^ k ≤ 2 ^ 8 := Nat.pow_le_pow_right (by decide) hk
  rw [BitVec.toNat_and, BitVec.toNat_ofNat, Nat.mod_eq_of_lt (by omega),
    Nat.and_two_pow_sub_one_eq_mod]

/-- Masking the last byte keeps the low bits of the number. -/
theorem value_mask (hk : k ≤ 8) (hlen : bs.length = n + 1) :
    value (mask k n bs) = value bs % (256 ^ n * 2 ^ k) := by
  induction bs generalizing n with
  | nil => cases hlen
  | cons b bs ih =>
    cases n with
    | zero =>
      obtain rfl : bs = [] := List.length_eq_zero_iff.mp (by simpa using hlen)
      simp [mask, toNat_and_mask b hk]
    | succ n =>
      have hm : mask k (n + 1) (b :: bs) = b :: mask k n bs := List.modify_succ_cons ..
      rw [hm, value_cons, value_cons, ih (by simpa using hlen), pow_succ', mul_assoc, cons_mod]

/-- Count up: increment bytes until one does not come out zero. -/
def increment : List Byte → List Byte
  | [] => []
  | b :: bs => if b + 1 ≠ 0 then (b + 1) :: bs else (b + 1) :: increment bs

@[simp] theorem length_increment : ∀ bs : List Byte, (increment bs).length = bs.length
  | [] => rfl
  | b :: bs => by
      rw [increment]
      split
      · rfl
      · rw [List.length_cons, List.length_cons, length_increment bs]

theorem value_increment (bs : List Byte) :
    value (increment bs) = (value bs + 1) % 256 ^ bs.length := by
  induction bs with
  | nil => rfl
  | cons b bs ih =>
    have hb : b.toNat < 256 := b.isLt
    have hv := value_lt bs
    have h1 : (b + 1).toNat = (b.toNat + 1) % 256 := by
      rw [BitVec.toNat_add]
      rfl
    rw [increment, value_cons, List.length_cons, pow_succ', Nat.mod_mul]
    by_cases hz : b + 1 = 0
    · have hb255 : b.toNat = 255 := by
        rw [hz] at h1
        have : (0 : Byte).toNat = 0 := rfl
        omega
      have e0 : (b.toNat + 256 * value bs + 1) % 256 = 0 := by omega
      have e1 : (b.toNat + 256 * value bs + 1) / 256 = value bs + 1 := by omega
      rw [if_neg (not_not.mpr hz), value_cons, hz, ih, e0, e1]
      rfl
    · have hne : b.toNat ≠ 255 := by
        intro h
        apply hz
        apply BitVec.eq_of_toNat_eq
        rw [h1, h]
        rfl
      have e0 : (b.toNat + 256 * value bs + 1) % 256 = b.toNat + 1 := by omega
      have e1 : (b.toNat + 256 * value bs + 1) / 256 = value bs := by omega
      rw [if_pos hz, value_cons, h1, e0, e1, Nat.mod_eq_of_lt hv, Nat.mod_eq_of_lt (by omega)]

end LittleEndian
