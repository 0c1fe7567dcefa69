import Mathlib.Algebra.BigOperators.Group.List.Basic
import Mathlib.Data.BitVec
import Mathlib.Algebra.Ring.Parity

/-! The Internet checksum

    The data is a sequence of 16-bit words, most significant byte first, and an odd last byte is padded
    with a zero byte. Words are added with end-around carry; a checksum makes the sum `0xFFFF`. Such a
    sum is the plain one up to multiples of `0xFFFF`, and is zero only if all the words are. -/

namespace Checksum

variable {l m : List (BitVec 8)}

/-- The words of the data. -/
def words : List (BitVec 8) → List ℕ
  | [] => []
  | [a] => [256 * a.toNat]
  | a :: b :: l => (256 * a.toNat + b.toNat) :: words l

/-- Addition of words with end-around carry. -/
def carryAdd (a b : ℕ) : ℕ := if 65536 ≤ a + b then a + b - 65535 else a + b

/-- The one's complement sum. -/
def onesSum (l : List (BitVec 8)) : ℕ := (words l).foldl carryAdd 0

/-- The plain sum. -/
def wordSum (l : List (BitVec 8)) : ℕ := (words l).sum

/-- The data includes a right checksum. -/
def Valid (l : List (BitVec 8)) : Prop := onesSum l = 0xFFFF

instance : DecidablePred Valid := fun _ => inferInstanceAs (Decidable (_ = _))

theorem words_append : ∀ {l m : List (BitVec 8)}, Even l.length → words (l ++ m) = words l ++ words m
  | [], _, _ => rfl
  | [_], _, h => by simp at h
  | a :: b :: l, m, h => by
    have hl : Even l.length := by
      rw [List.length_cons, List.length_cons, Nat.even_add_one, Nat.even_add_one, not_not] at h
      exact h
    simp only [List.cons_append, words, words_append hl]

theorem wordSum_append (h : Even l.length) : wordSum (l ++ m) = wordSum l + wordSum m := by
  rw [wordSum, words_append h, List.sum_append, wordSum, wordSum]

theorem words_lt : ∀ l : List (BitVec 8), ∀ w ∈ words l, w < 65536
  | [], w, h => by simp [words] at h
  | [a], w, h => by
    have ha := a.isLt
    rw [words, List.mem_singleton] at h
    omega
  | a :: b :: l, w, h => by
    have ha := a.isLt
    have hb := b.isLt
    rw [words, List.mem_cons] at h
    rcases h with rfl | h
    · omega
    · exact words_lt l w h

theorem wordSum_le : ∀ l : List (BitVec 8), 2 * wordSum l ≤ 65535 * (l.length + 1)
  | [] => by simp [wordSum, words]
  | [a] => by
    have ha := a.isLt
    simp only [wordSum, words, List.sum_cons, List.sum_nil, List.length_singleton]
    omega
  | a :: b :: l => by
    have ha := a.isLt
    have hb := b.isLt
    have ih := wordSum_le l
    simp only [wordSum, words, List.sum_cons, List.length_cons] at ih ⊢
    omega

theorem wordSum_pos {a : BitVec 8} (h : a ≠ 0) : 0 < wordSum (a :: l) := by
  have ha : 0 < a.toNat := Nat.pos_of_ne_zero fun h0 => h (BitVec.eq_of_toNat_eq h0)
  cases l <;> simp only [wordSum, words, List.sum_cons] <;> omega

/-- The whole words of the data, and the byte that is left when there is an odd number of them. -/
theorem wordSum_take : ∀ l : List (BitVec 8), wordSum l = wordSum (l.take (2 * (l.length / 2))) +
    if l.length % 2 = 1 then 256 * (l.getD (l.length - 1) 0).toNat else 0
  | [] => rfl
  | [_] => by simp [wordSum, words]
  | a :: b :: l => by
    have ih := wordSum_take l
    have hdiv : 2 * ((l.length + 1 + 1) / 2) = 2 * (l.length / 2) + 1 + 1 := by omega
    have hmod : (l.length + 1 + 1) % 2 = l.length % 2 := by omega
    have hlast : l.length % 2 = 1 → (a :: b :: l).getD (l.length + 1 + 1 - 1) 0 =
        l.getD (l.length - 1) 0 := fun h => by
      rw [show l.length + 1 + 1 - 1 = l.length - 1 + 1 + 1 by omega]
      rfl
    simp only [List.length_cons, hdiv, hmod, List.take_succ_cons, wordSum, words,
      List.sum_cons] at ih ⊢
    split
    · rw [hlast ‹_›]
      rw [if_pos ‹_›] at ih
      omega
    · rw [if_neg ‹_›] at ih
      omega

/-- One addition keeps the value up to multiples of `0xFFFF`, stays a word and is zero only for zeros. -/
theorem carryAdd_spec {a b s : ℕ} (ha : a < 65536) (hb : b < 65536) (hm : a % 65535 = s % 65535)
    (h0 : a = 0 ↔ s = 0) : carryAdd a b < 65536 ∧ carryAdd a b % 65535 = (s + b) % 65535 ∧
      (carryAdd a b = 0 ↔ s + b = 0) := by
  rw [carryAdd]
  split <;> omega

theorem foldl_carryAdd_spec {ws : List ℕ} (hws : ∀ w ∈ ws, w < 65536) {a s : ℕ} (ha : a < 65536)
    (hm : a % 65535 = s % 65535) (h0 : a = 0 ↔ s = 0) : ws.foldl carryAdd a < 65536 ∧
      ws.foldl carryAdd a % 65535 = (s + ws.sum) % 65535 ∧
      (ws.foldl carryAdd a = 0 ↔ s + ws.sum = 0) := by
  induction ws generalizing a s with
  | nil => exact ⟨ha, hm, h0⟩
  | cons w ws ih =>
    obtain ⟨h1, h2, h3⟩ := carryAdd_spec ha (hws w (.head _)) hm h0
    rw [List.foldl_cons, List.sum_cons, ← Nat.add_assoc]
    exact ih (fun w hw => hws w (.tail _ hw)) h1 h2 h3

/-- A sum is right when the plain one is a multiple of `0xFFFF` other than zero. -/
theorem valid_iff : Valid l ↔ 0 < wordSum l ∧ 65535 ∣ wordSum l := by
  obtain ⟨h1, h2, h3⟩ := foldl_carryAdd_spec (words_lt l) (a := 0) (s := 0) (by decide) rfl Iff.rfl
  rw [Nat.zero_add] at h2 h3
  rw [Valid, onesSum, wordSum]
  omega

/-- The complement of a sum that was folded twice to 16 bits. -/
def complement (s : ℕ) : ℕ :=
  65535 - (s / 65536 + s % 65536 + (s / 65536 + s % 65536) / 65536) % 65536

/-- It completes every 32-bit sum to a multiple of `0xFFFF`. -/
theorem dvd_complement_add {s : ℕ} (h : s < 2 ^ 32) : 65535 ∣ complement s + s := by
  obtain ⟨t, ht⟩ : ∃ t, t = s / 65536 + s % 65536 := ⟨_, rfl⟩
  rw [complement, ← ht]
  by_cases hc : t < 65536
  · exact ⟨s / 65536 + 1, by omega⟩
  · have hq : t / 65536 = 1 := by omega
    have hr : (t + 1) % 65536 = t - 65535 := by omega
    rw [hq, hr]
    exact ⟨s / 65536 + 2, by omega⟩

end Checksum
