import Mathlib.Data.List.TakeWhile
import Mathlib.Data.Nat.Basic
import Mathlib.Tactic.IntervalCases

/-! Numbers in C texts

    A C string is a list of characters. `strtoull` with base 0 tells decimal, octal and hexadecimal
    numbers apart by their first characters; on the decimal text of a number, which never starts with a
    zero unless it is zero, it gives the number back. -/

namespace CText

abbrev Text := List Char

/-- `isspace` in the C locale. -/
def isSpace (c : Char) : Bool := c == ' ' || ('\t' ≤ c && c ≤ '\r')

/-- The value of a digit of some base up to 36. -/
def digitVal (c : Char) : ℕ :=
  if c.isDigit then c.toNat - '0'.toNat
  else if 'a' ≤ c && c ≤ 'z' then c.toNat - 'a'.toNat + 10
  else if 'A' ≤ c && c ≤ 'Z' then c.toNat - 'A'.toNat + 10
  else 36

/-- The base of a number and its digits: `0x` and a digit start a hexadecimal number, another `0` an
    octal one. -/
def baseOf : Text → ℕ × Text
  | '0' :: x :: d :: t =>
    if (x == 'x' || x == 'X') && digitVal d < 16 then (16, d :: t) else (8, '0' :: x :: d :: t)
  | '0' :: t => (8, '0' :: t)
  | s => (10, s)

/-- The sign of a number and what follows it. -/
def signOf : Text → Bool × Text
  | '-' :: t => (true, t)
  | '+' :: t => (false, t)
  | s => (false, s)

/-- `strtoull (str, &end, 0)`: the number, whether `errno` is set to `ERANGE`, and the text at `end`.
    Nothing where no number is read. -/
def strtoull (str : Text) : Option (ℕ × Bool × Text) :=
  let (neg, s) := signOf (str.dropWhile isSpace)
  let (base, s) := baseOf s
  let ds := s.takeWhile (digitVal · < base)
  let n := ds.foldl (fun n c => base * n + digitVal c) 0
  if ds = [] then none
  else if 2 ^ 64 ≤ n then some (2 ^ 64 - 1, true, s.dropWhile (digitVal · < base))
  else some (if neg then (2 ^ 64 - n) % 2 ^ 64 else n, false, s.dropWhile (digitVal · < base))

/-- `sprintf ("%d")` of a number that is not negative. -/
def decimal (n : ℕ) : Text := Nat.toDigits 10 n

theorem isDigit_of_mem_decimal {n : ℕ} {c : Char} (h : c ∈ decimal n) : c.isDigit = true :=
  Nat.isDigit_of_mem_toDigits (by decide) (by decide) h

theorem decimal_ne_nil (n : ℕ) : decimal n ≠ [] := Nat.toDigits_ne_nil

theorem digitVal_lt {c : Char} (h : c.isDigit = true) : digitVal c < 10 := by
  simp only [digitVal, h, if_true]
  simp only [Char.isDigit, Bool.and_eq_true, decide_eq_true_eq, ge_iff_le] at h
  have h9 : c.toNat ≤ 57 := h.2
  have h0 : '0'.toNat = 48 := rfl
  omega

theorem foldl_digitVal {l : Text} (h : ∀ c ∈ l, c.isDigit = true) (b k : ℕ) :
    l.foldl (fun n c => b * n + digitVal c) k = Nat.ofDigitChars b l k := by
  induction l generalizing k with
  | nil => rfl
  | cons c l ih =>
    rw [Nat.ofDigitChars_cons, List.foldl_cons, ih fun d hd => h d (.tail _ hd)]
    simp [digitVal, h c (.head _)]

/-- The first digit of a positive number is not a zero. -/
theorem decimal_head {n : ℕ} (hn : 0 < n) : ∃ c t, decimal n = c :: t ∧ c ≠ '0' := by
  induction n using Nat.strongRecOn with
  | _ n ih =>
    rcases Nat.lt_or_ge n 10 with h | h
    · refine ⟨n.digitChar, [], Nat.toDigits_of_lt_base h, ?_⟩
      interval_cases n <;> decide
    · obtain ⟨c, t, hc, h0⟩ := ih (n / 10) (by omega) (by omega)
      refine ⟨c, t ++ [(n % 10).digitChar], ?_, h0⟩
      rw [decimal] at hc ⊢
      rw [Nat.toDigits_of_base_le (by decide) h, hc, List.cons_append]

theorem not_isSpace {c : Char} (h : c.isDigit = true) : isSpace c = false := by
  simp only [Char.isDigit, Bool.and_eq_true, decide_eq_true_eq, ge_iff_le] at h
  simp only [isSpace, Bool.or_eq_false_iff, beq_eq_false_iff_ne, ne_eq, Bool.and_eq_false_iff,
    decide_eq_false_iff_not]
  refine ⟨fun he => ?_, .inr fun hr => ?_⟩
  · subst he; exact absurd h.1 (by decide)
  · exact absurd (Nat.le_trans h.1 hr) (by decide)

theorem dropWhile_isSpace_decimal (n : ℕ) : (decimal n).dropWhile isSpace = decimal n := by
  cases hd : decimal n with
  | nil => rfl
  | cons c t =>
    have hc := isDigit_of_mem_decimal (n := n) (c := c) (by simp [hd])
    simp [not_isSpace hc]

theorem signOf_digit {c : Char} (h : c.isDigit = true) (t : Text) : signOf (c :: t) = (false, c :: t) := by
  unfold signOf
  split
  · next he => rw [(List.cons.inj he).1] at h; exact absurd h (by decide)
  · next he => rw [(List.cons.inj he).1] at h; exact absurd h (by decide)
  · rfl

theorem baseOf_ne_zero {c : Char} (h : c ≠ '0') (t : Text) : baseOf (c :: t) = (10, c :: t) := by
  unfold baseOf
  split
  · next he => exact absurd (List.cons.inj he).1 h
  · next he => exact absurd (List.cons.inj he).1 h
  · rfl

theorem takeWhile_digits {l : Text} (h : ∀ c ∈ l, c.isDigit = true) :
    l.takeWhile (digitVal · < 10) = l ∧ l.dropWhile (digitVal · < 10) = [] := by
  refine ⟨List.takeWhile_eq_self_iff.mpr ?_, List.dropWhile_eq_nil_iff.mpr ?_⟩ <;>
    exact fun c hc => decide_eq_true (digitVal_lt (h c hc))

/-- A number below the range of `unsigned long long` is read back from its decimal text. -/
theorem strtoull_decimal {n : ℕ} (hn : n < 2 ^ 64) : strtoull (decimal n) = some (n, false, []) := by
  rcases Nat.eq_zero_or_pos n with rfl | h
  · rfl
  obtain ⟨c, t, hc, h0⟩ := decimal_head h
  have hdig : ∀ d ∈ c :: t, d.isDigit = true := fun d hd => isDigit_of_mem_decimal (hc ▸ hd)
  have hval : (c :: t).foldl (fun n c => 10 * n + digitVal c) 0 = n := by
    rw [foldl_digitVal hdig, ← hc]; exact Nat.ofDigitChars_ten_toDigits
  have hsp := dropWhile_isSpace_decimal n
  obtain ⟨htake, hdrop⟩ := takeWhile_digits hdig
  rw [hc] at hsp ⊢
  simp only [strtoull, hsp, signOf_digit (hdig c (.head _)), baseOf_ne_zero h0, htake, hdrop, hval]
  simpa using hn

end CText
