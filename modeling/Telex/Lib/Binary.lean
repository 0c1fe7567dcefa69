import Mathlib.Data.BitVec
import Mathlib.Data.List.Basic

/-! Parsers of binary data

    A parser takes what it needs from the front of its input. The `_eq_some` rules take a successful run
    apart: they say what was at the front and what the run returned for it. -/

namespace Binary

abbrev Byte := BitVec 8

abbrev Parser (α : Type) := StateT (List Byte) Option α

variable {α β : Type} {p : Parser α} {f : α → Parser β} {input rest : List Byte}

theorem bind_eq_some {b : β} : (p >>= f) input = some (b, rest) ↔
    ∃ a mid, p input = some (a, mid) ∧ f a mid = some (b, rest) := by
  constructor
  · intro h
    obtain ⟨⟨a, mid⟩, hp, hf⟩ := Option.bind_eq_some_iff.mp h
    exact ⟨a, mid, hp, hf⟩
  · rintro ⟨a, mid, hp, hf⟩
    exact Option.bind_eq_some_iff.mpr ⟨(a, mid), hp, hf⟩

theorem pure_eq_some {a b : α} : (pure a : Parser α) input = some (b, rest) ↔
    a = b ∧ input = rest := by
  constructor
  · intro h
    exact Prod.mk.inj (Option.some.inj h)
  · rintro ⟨rfl, rfl⟩
    rfl

/-- So many bytes. -/
def bytes (n : ℕ) : Parser (List Byte) := fun input =>
  if n ≤ input.length then some (input.take n, input.drop n) else none

/-- So many bytes are there; none is taken. -/
def available (n : ℕ) : Parser Unit := fun input =>
  if n ≤ input.length then some ((), input) else none

def uint8 : Parser Byte
  | a :: input => some (a, input)
  | _ => none

/-- Numbers have their most significant byte first. -/
def uint16 : Parser (BitVec 16)
  | a :: b :: input => some (a ++ b, input)
  | _ => none

def uint24 : Parser (BitVec 24)
  | a :: b :: c :: input => some (a ++ b ++ c, input)
  | _ => none

def uint32 : Parser (BitVec 32)
  | a :: b :: c :: d :: input => some (a ++ b ++ c ++ d, input)
  | _ => none

/-- So many of the same. -/
def array (p : Parser α) : ℕ → Parser (List α)
  | 0 => pure []
  | n + 1 => do
    let a ← p
    let as ← array p n
    return a :: as

theorem bytes_eq_some {n : ℕ} {v : List Byte} :
    bytes n input = some (v, rest) ↔ input = v ++ rest ∧ v.length = n := by
  rw [bytes]
  constructor
  · intro h
    split at h
    · obtain ⟨rfl, rfl⟩ := Prod.mk.inj (Option.some.inj h)
      exact ⟨(List.take_append_drop n input).symm, List.length_take_of_le ‹_›⟩
    · cases h
  · rintro ⟨rfl, rfl⟩
    rw [if_pos (by simp), List.take_left, List.drop_left]

theorem available_eq_some {n : ℕ} {u : Unit} :
    available n input = some (u, rest) ↔ input = rest ∧ n ≤ input.length := by
  rw [available]
  split
  · simp [*]
  · simp [*]

theorem uint8_eq_some {v : Byte} : uint8 input = some (v, rest) ↔ input = v :: rest := by
  match input with
  | [] => simp [uint8]
  | a :: input => simp [uint8]

theorem uint16_eq_some {v : BitVec 16} : uint16 input = some (v, rest) ↔
    ∃ a b : Byte, input = a :: b :: rest ∧ v = a ++ b := by
  match input with
  | [] => simp [uint16]
  | [_] => simp [uint16]
  | a :: b :: input => simp [uint16, eq_comm, and_comm]

theorem uint24_eq_some {v : BitVec 24} : uint24 input = some (v, rest) ↔
    ∃ a b c : Byte, input = a :: b :: c :: rest ∧ v = a ++ b ++ c := by
  match input with
  | [] => simp [uint24]
  | [_] => simp [uint24]
  | [_, _] => simp [uint24]
  | a :: b :: c :: input => simp [uint24, eq_comm, and_comm]

theorem uint32_eq_some {v : BitVec 32} : uint32 input = some (v, rest) ↔
    ∃ a b c d : Byte, input = a :: b :: c :: d :: rest ∧ v = a ++ b ++ c ++ d := by
  match input with
  | [] => simp [uint32]
  | [_] => simp [uint32]
  | [_, _] => simp [uint32]
  | [_, _, _] => simp [uint32]
  | a :: b :: c :: d :: input => simp [uint32, eq_comm, and_comm]

/-- What a parser returns has the property `P`. -/
def Returns (p : Parser α) (P : α → Prop) : Prop := ∀ ⦃input a rest⦄, p input = some (a, rest) → P a

theorem returns_pure {P : α → Prop} {a : α} (h : P a) : Returns (pure a) P := by
  intro input b rest hb
  obtain ⟨rfl, _⟩ := pure_eq_some.mp hb
  exact h

theorem returns_bind {P : β → Prop} (h : ∀ a, Returns (f a) P) : Returns (p >>= f) P := by
  intro input b rest hb
  obtain ⟨a, mid, _, hf⟩ := bind_eq_some.mp hb
  exact h a hf

/-- What a parser leaves is the end of its input. -/
def Front (p : Parser α) : Prop := ∀ ⦃input a rest⦄, p input = some (a, rest) → rest <:+ input

theorem front_pure (a : α) : Front (pure a : Parser α) := by
  intro input b rest h
  obtain ⟨_, rfl⟩ := pure_eq_some.mp h
  exact List.suffix_refl _

theorem front_bind (hp : Front p) (hf : ∀ a, Front (f a)) : Front (p >>= f) := by
  intro input b rest h
  obtain ⟨a, mid, ha, hb⟩ := bind_eq_some.mp h
  exact (hf a hb).trans (hp ha)

theorem front_bytes (n : ℕ) : Front (bytes n) := by
  intro input v rest h
  obtain ⟨rfl, _⟩ := bytes_eq_some.mp h
  exact List.suffix_append v rest

theorem front_available (n : ℕ) : Front (available n) := by
  intro input u rest h
  obtain ⟨rfl, _⟩ := available_eq_some.mp h
  exact List.suffix_refl _

theorem front_uint8 : Front uint8 := by
  intro input v rest h
  rw [uint8_eq_some.mp h]
  exact List.suffix_append [v] rest

theorem front_uint16 : Front uint16 := by
  intro input v rest h
  obtain ⟨a, b, rfl, _⟩ := uint16_eq_some.mp h
  exact List.suffix_append [a, b] rest

theorem front_uint24 : Front uint24 := by
  intro input v rest h
  obtain ⟨a, b, c, rfl, _⟩ := uint24_eq_some.mp h
  exact List.suffix_append [a, b, c] rest

theorem front_array (hp : Front p) (n : ℕ) : Front (array p n) := by
  induction n with
  | zero => exact front_pure []
  | succ n ih =>
    apply front_bind hp
    intro a
    apply front_bind ih
    intro as
    exact front_pure (a :: as)

/-- What is taken where a parser stopped is part of its input. -/
theorem infix_of_bytes {n : ℕ} {v : List Byte} {mid : List Byte} (hmid : mid <:+ input)
    (h : bytes n mid = some (v, rest)) : v <:+: input := by
  obtain ⟨rfl, _⟩ := bytes_eq_some.mp h
  exact (List.prefix_append v rest).isInfix.trans hmid.isInfix

end Binary
