import Telex.Lib.LittleEndian

/-! Packed records

    How values of fixed size lie in memory one after the other, without gaps: numbers with the least
    significant byte first, arrays of bytes, and records made of these. Reading takes a value from the
    front of the memory and does not look at what comes after. -/

namespace Packed

abbrev Byte := BitVec 8

/-- A type whose values take up `size` bytes. -/
structure Layout (α : Type*) where
  size : ℕ
  put : α → List Byte
  get : List Byte → α
  length_put : ∀ x, (put x).length = size
  get_put : ∀ x rest, get (put x ++ rest) = x

attribute [simp] Layout.length_put Layout.get_put

variable {α β : Type*}

/-- One value after the other. -/
def Layout.pair (a : Layout α) (b : Layout β) : Layout (α × β) where
  size := a.size + b.size
  put x := a.put x.1 ++ b.put x.2
  get m := (a.get m, b.get (m.drop a.size))
  length_put x := by simp
  get_put x rest := by
    have hdrop : (a.put x.1 ++ (b.put x.2 ++ rest)).drop a.size = b.put x.2 ++ rest := by
      rw [← a.length_put x.1, List.drop_left]
    rw [List.append_assoc, a.get_put, hdrop, b.get_put]

/-- The same bytes for a record with these fields. -/
def Layout.record (a : Layout α) (mk : α → β) (fields : β → α) (h : ∀ x, mk (fields x) = x) :
    Layout β where
  size := a.size
  put x := a.put (fields x)
  get m := mk (a.get m)
  length_put x := a.length_put _
  get_put x rest := by rw [a.get_put, h]

/-- The bytes of a number. -/
def bytesOf : ℕ → ℕ → List Byte
  | 0, _ => []
  | n + 1, v => BitVec.ofNat 8 v :: bytesOf n (v / 256)

@[simp] theorem length_bytesOf (n v : ℕ) : (bytesOf n v).length = n := by
  induction n generalizing v with
  | zero => rfl
  | succ n ih => simp [bytesOf, ih]

theorem value_bytesOf (n v : ℕ) : LittleEndian.value (bytesOf n v) = v % 256 ^ n := by
  induction n generalizing v with
  | zero => simp [bytesOf, Nat.mod_one]
  | succ n ih =>
    have hb : (BitVec.ofNat 8 v).toNat = v % 256 := BitVec.toNat_ofNat ..
    rw [bytesOf, LittleEndian.value_cons, ih, hb, pow_succ', Nat.mod_mul]

/-- An unsigned number of `n` bytes. -/
def uint (n : ℕ) {w : ℕ} (hw : w = 8 * n) : Layout (BitVec w) where
  size := n
  put x := bytesOf n x.toNat
  get m := BitVec.ofNat w (LittleEndian.value (m.take n))
  length_put x := length_bytesOf n _
  get_put x rest := by
    have hlt : x.toNat < 256 ^ n := by
      have h256 : (256 : ℕ) ^ n = 2 ^ w := by rw [hw, Nat.pow_mul]
      exact h256 ▸ x.isLt
    have htake : (bytesOf n x.toNat ++ rest).take n = bytesOf n x.toNat := by
      simp
    rw [htake, value_bytesOf, Nat.mod_eq_of_lt hlt, BitVec.ofNat_toNat, BitVec.setWidth_eq]

/-- An array of bytes. -/
abbrev Bytes (n : ℕ) : Type := {l : List Byte // l.length = n}

/-- The first `n` bytes of memory. -/
def take (n : ℕ) (m : List Byte) : Bytes n :=
  ⟨(m ++ List.replicate n 0).take n, by simp⟩

theorem take_eq {n : ℕ} (x : Bytes n) (rest : List Byte) : take n (x.1 ++ rest) = x := by
  apply Subtype.ext
  obtain ⟨l, rfl⟩ := x
  simp [take]

def bytes (n : ℕ) : Layout (Bytes n) where
  size := n
  put x := x.1
  get := take n
  length_put x := x.2
  get_put := take_eq

/-- `memcpy` of at most `n` bytes to the start of an array. -/
def memcpy {n : ℕ} (dst : Bytes n) (src : List Byte) (h : src.length ≤ n) : Bytes n :=
  ⟨src ++ dst.1.drop src.length, by rw [List.length_append, List.length_drop, dst.2]; omega⟩

@[simp] theorem length_memcpy {n : ℕ} (dst : Bytes n) {src : List Byte} (h : src.length ≤ n) :
    (memcpy dst src h).1.length = n := (memcpy dst src h).2

theorem memcpy_whole {n : ℕ} (dst : Bytes n) {src : List Byte} (h : src.length ≤ n)
    (hn : src.length = n) : (memcpy dst src h).1 = src := by
  have hdrop : dst.1.drop src.length = [] := List.drop_eq_nil_of_le (by rw [dst.2, hn])
  simp only [memcpy, hdrop, List.append_nil]

theorem take_memcpy {n : ℕ} (dst : Bytes n) {src : List Byte} (h : src.length ≤ n) :
    (memcpy dst src h).1.take src.length = src := List.take_left

end Packed
