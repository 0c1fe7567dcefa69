import Telex.Ptwist.Felem
import Mathlib.Data.Nat.Digits.Lemmas

/-! Byte strings of `tag/ptwist168.cpp`

    Field elements and scalars are 21 bytes, least significant first. `bin21_to_felem` loads whole
    words at the offsets 0, 7 and 14, so its last load reads one byte past the array; the mask
    drops it. -/

namespace Telex.Ptwist

/-- The number a byte string stands for. -/
def leNat {n : ℕ} (s : Fin n → Byte) : ℕ := Nat.ofDigits 256 ((List.ofFn s).map BitVec.toNat)

/-- The `n`-byte little-endian encoding of `v`. -/
def encode (n v : ℕ) : Fin n → Byte := fun i => BitVec.ofNat 8 (v / 256 ^ i.val)

/-- `*((const uint64_t *) in) & 0x00ffffffffffffffULL` -/
def load56 (inp : Fin 8 → Byte) : Fslice :=
  BitVec.ofNat 64 (leNat inp) &&& 0x00ffffffffffffff#64

/-- Convert a byte array to a field element; `past` is the byte after it in memory. -/
def bin21ToFelem (past : Byte) (inp : Fin 21 → Byte) : Felem :=
  let mem : ℕ → Byte := fun i => if h : i < 21 then inp ⟨i, h⟩ else past
  ⟨load56 fun i => mem i, load56 fun i => mem (7 + i), load56 fun i => mem (14 + i)⟩

/-- Convert a field element to a byte array, seven bytes of each slice. -/
def felemToBin21 (inp : Felem) : Fin 21 → Byte := fun i =>
  let slice := if i.val < 7 then inp.l0 else if i.val < 14 then inp.l1 else inp.l2
  (slice >>> (8 * (i.val % 7))).setWidth 8

theorem digits_lt {n : ℕ} (s : Fin n → Byte) : ∀ d ∈ (List.ofFn s).map BitVec.toNat, d < 256 := by
  intro d hd
  obtain ⟨a, -, rfl⟩ := List.mem_map.mp hd
  exact a.isLt

theorem leNat_lt {n : ℕ} (s : Fin n → Byte) : leNat s < 256 ^ n := by
  simpa [leNat] using Nat.ofDigits_lt_base_pow_length (by decide) (digits_lt s)

theorem leNat_injective {n : ℕ} : Function.Injective (leNat (n := n)) := fun s t h =>
  List.ofFn_injective (List.map_injective_iff.mpr (fun _ _ => BitVec.eq_of_toNat_eq)
    (Nat.ofDigits_inj_of_len_eq (by decide) (by simp) (digits_lt s) (digits_lt t) h))

theorem leNat_append {m n : ℕ} (s : Fin (m + n) → Byte) :
    leNat s = leNat (fun i => s (i.castAdd n)) + 256 ^ m * leNat fun i => s (i.natAdd m) := by
  rw [leNat, List.ofFn_add, List.map_append, Nat.ofDigits_append, List.length_map, List.length_ofFn]
  rfl

theorem leNat_succ {n : ℕ} (s : Fin (n + 1) → Byte) :
    leNat s = (s 0).toNat + 256 * leNat fun i => s i.succ := by
  simp [leNat, List.ofFn_succ, Nat.ofDigits_cons]

theorem leNat_encode : ∀ n v, leNat (encode n v) = v % 256 ^ n
  | 0, v => by simp [leNat, Nat.mod_one]
  | n + 1, v => by
      have ht : (fun i : Fin n => encode (n + 1) v i.succ) = encode n (v / 256) := by
        funext i; simp only [encode, Fin.val_succ, Nat.div_div_eq_div_mul, pow_succ']
      rw [leNat_succ, ht, leNat_encode n, pow_succ', Nat.mod_mul]
      simp [encode]

theorem encode_inj {n u v : ℕ} : encode n u = encode n v ↔ u % 256 ^ n = v % 256 ^ n := by
  rw [← leNat_injective.eq_iff, leNat_encode, leNat_encode]

/-- The load keeps the first seven bytes. -/
theorem load56_toNat (s : Fin 8 → Byte) :
    (load56 s).toNat = leNat fun i : Fin 7 => s (i.castAdd 1) := by
  have hlt := leNat_lt s
  have hlo := leNat_lt fun i : Fin 7 => s (i.castAdd 1)
  rw [load56, BitVec.toNat_and, BitVec.toNat_ofNat, Nat.mod_eq_of_lt (by simpa using hlt)]
  refine (Nat.and_two_pow_sub_one_eq_mod _ 56).trans ?_
  rw [leNat_append (m := 7) (n := 1) s, show 2 ^ 56 = 256 ^ 7 by decide, Nat.add_mul_mod_self_left,
    Nat.mod_eq_of_lt hlo]

/-- `bin21_to_felem` reads the number; the byte past the array does not matter. -/
theorem bin21ToFelem_val (past : Byte) (s : Fin 21 → Byte) :
    (bin21ToFelem past s).l0.toNat < 2 ^ 56 ∧ (bin21ToFelem past s).l1.toNat < 2 ^ 56 ∧
      (bin21ToFelem past s).l2.toNat < 2 ^ 56 ∧ (bin21ToFelem past s).val = leNat s := by
  have e0 : (bin21ToFelem past s).l0.toNat = leNat fun i : Fin 7 => s (i.castAdd 14) :=
    load56_toNat _
  have e1 : (bin21ToFelem past s).l1.toNat = leNat fun i : Fin 7 => s ((i.castAdd 7).natAdd 7) :=
    load56_toNat _
  have e2 : (bin21ToFelem past s).l2.toNat = leNat fun i : Fin 7 => s ((i.natAdd 7).natAdd 7) :=
    load56_toNat _
  have h56 : 256 ^ 7 = 2 ^ 56 := by decide
  refine ⟨e0 ▸ h56 ▸ leNat_lt _, e1 ▸ h56 ▸ leNat_lt _, e2 ▸ h56 ▸ leNat_lt _, ?_⟩
  rw [Felem.val, e0, e1, e2, leNat_append (m := 7) (n := 14) s,
    leNat_append (m := 7) (n := 7) fun i => s (i.natAdd 7)]
  ring

theorem bin21ToFelem_is (past : Byte) (s : Fin 21 → Byte) :
    Is56 (bin21ToFelem past s) (leNat s) :=
  have h := bin21ToFelem_val past s
  ⟨h.1, h.2.1, h.2.2.1.le, by rw [h.2.2.2]⟩

/-- Seven bytes of a slice, whatever stands above them. -/
theorem slice_byte {l r k : ℕ} (hk : k < 7) :
    l / 2 ^ (8 * k) % 256 = (l + 2 ^ 56 * r) / 2 ^ (8 * k) % 256 := by
  have h56 : (2 : ℕ) ^ 56 = 2 ^ (8 * k) * (256 * 2 ^ (48 - 8 * k)) := by
    rw [show (256 : ℕ) = 2 ^ 8 by decide, ← pow_add, ← pow_add]; congr 1; omega
  rw [h56, mul_assoc, Nat.add_mul_div_left _ _ (Nat.two_pow_pos _), mul_assoc,
    Nat.add_mul_mod_self_left]

/-- `felem_to_bin21` writes the low 168 bits of a carried field element. -/
theorem felemToBin21_eq {a : Felem} (h0 : a.l0.toNat < 2 ^ 56) (h1 : a.l1.toNat < 2 ^ 56) :
    felemToBin21 a = encode 21 a.val := by
  funext i
  apply BitVec.eq_of_toNat_eq
  have hp : ∀ k : ℕ, (256 : ℕ) ^ k = 2 ^ (8 * k) := fun k => by rw [pow_mul]; rfl
  simp only [felemToBin21, encode, BitVec.toNat_setWidth, BitVec.toNat_ushiftRight,
    Nat.shiftRight_eq_div_pow, BitVec.toNat_ofNat, hp]
  change _ % 256 = _ % 256
  split
  · rename_i hi
    rw [Nat.mod_eq_of_lt hi, slice_byte hi (r := a.l1.toNat + 2 ^ 56 * a.l2.toNat), Felem.val]
    congr 2; ring
  split
  · rename_i hi _
    have hd : a.val / 2 ^ 56 = a.l1.toNat + 2 ^ 56 * a.l2.toNat := by rw [Felem.val]; omega
    rw [show 8 * i.val = 56 + 8 * (i.val % 7) by omega, pow_add, ← Nat.div_div_eq_div_mul, hd,
      ← slice_byte (Nat.mod_lt _ (by decide))]
  · have hd : a.val / 2 ^ 112 = a.l2.toNat := by rw [Felem.val]; omega
    rw [show 8 * i.val = 112 + 8 * (i.val % 7) by omega, pow_add, ← Nat.div_div_eq_div_mul, hd]

end Telex.Ptwist
