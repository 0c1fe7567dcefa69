import Telex.Lib.Packed

/-! Cipher block chaining

    A message of whole blocks under a block cipher, each block mixed with the ciphertext of the one
    before it. What is left for the next message is the last block on the wire, for the side that
    encrypts and for the side that decrypts, so the two stay together over any number of messages. -/

namespace Cbc

/-- A block cipher and the mixing of two blocks. -/
structure Cipher (κ α : Type*) where
  mix : α → α → α
  enc : κ → α → α
  dec : κ → α → α
  mix_mix : ∀ a b, mix (mix a b) b = a
  dec_enc : ∀ k b, dec k (enc k b) = b

attribute [simp] Cipher.mix_mix Cipher.dec_enc

variable {κ α : Type*} (C : Cipher κ α) (k : κ)

def encrypt : α → List α → List α
  | _, [] => []
  | iv, b :: bs => C.enc k (C.mix b iv) :: encrypt (C.enc k (C.mix b iv)) bs

def decrypt : α → List α → List α
  | _, [] => []
  | iv, c :: cs => C.mix (C.dec k c) iv :: decrypt c cs

@[simp] theorem decrypt_encrypt (iv : α) (bs : List α) :
    decrypt C k iv (encrypt C k iv bs) = bs := by
  induction bs generalizing iv with
  | nil => rfl
  | cons b bs ih => simp [encrypt, decrypt, ih]

@[simp] theorem length_encrypt (iv : α) (bs : List α) : (encrypt C k iv bs).length = bs.length := by
  induction bs generalizing iv with
  | nil => rfl
  | cons b bs ih => simp [encrypt, ih]

/-! ### Blocks of bytes -/

open Packed (Byte Bytes)

variable {n : ℕ}

/-- The blocks one after the other. -/
def wire (cs : List (Bytes n)) : List Byte := cs.flatMap (·.1)

theorem length_wire (cs : List (Bytes n)) : (wire cs).length = n * cs.length := by
  induction cs with
  | nil => rfl
  | cons c cs ih =>
    rw [wire, List.flatMap_cons, List.length_append, ← wire, ih, c.2, List.length_cons]
    ring

/-- The blocks that some bytes are made of. -/
def blocks (n : ℕ) : ℕ → List Byte → List (Bytes n)
  | 0, _ => []
  | m + 1, bs => Packed.take n bs :: blocks n m (bs.drop n)

/-- Whole blocks are read back from the wire. -/
theorem blocks_wire (cs : List (Bytes n)) : blocks n cs.length (wire cs) = cs := by
  induction cs with
  | nil => rfl
  | cons c cs ih =>
    have hdrop : (c.1 ++ wire cs).drop n = wire cs := List.drop_left' c.2
    rw [wire, List.flatMap_cons, ← wire, List.length_cons, blocks, Packed.take_eq, hdrop, ih]

/-- Bytes are the wire of their blocks. -/
theorem wire_blocks {m : ℕ} {bs : List Byte} (h : bs.length = n * m) : wire (blocks n m bs) = bs := by
  induction m generalizing bs with
  | zero => exact (List.length_eq_zero_iff.mp h).symm
  | succ m ih =>
    rw [mul_add, mul_one] at h
    have htake : (Packed.take n bs).1 = bs.take n := List.take_append_of_le_length (by omega)
    have hdrop : (bs.drop n).length = n * m := by
      rw [List.length_drop]
      omega
    rw [blocks, wire, List.flatMap_cons, ← wire, ih hdrop, htake, List.take_append_drop]

@[simp] theorem length_blocks (m : ℕ) (bs : List Byte) : (blocks n m bs).length = m := by
  induction m generalizing bs with
  | zero => rfl
  | succ m ih => rw [blocks, List.length_cons, ih]

/-- The last bytes on the wire are the last block. -/
theorem drop_wire {cs : List (Bytes n)} (hne : cs ≠ []) :
    (wire cs).drop ((wire cs).length - n) = (cs.getLast hne).1 := by
  obtain ⟨l, c, rfl⟩ := List.eq_nil_or_concat cs |>.resolve_left hne
  have hw : wire (l ++ [c]) = wire l ++ c.1 := by
    simp [wire]
  have hlen : (wire l ++ c.1).length - n = (wire l).length := by
    rw [List.length_append, c.2]
    omega
  rw [List.concat_eq_append] at hne
  simp only [List.concat_eq_append, hw, hlen, List.drop_left, List.getLast_append_singleton]

end Cbc
