import Telex.Lib.Text

/-! `fscanf` and `snprintf` of decimal integers

    A file is the text still to be read. `%d` and `%ld` skip white space and read the longest text that
    could begin a number; where that is none they fail, and the character that stopped them stays
    unread. `fscanf` returns `EOF` only if the text ends before its first conversion. White space in
    a format reads nothing a conversion after it would not skip. -/

namespace CText

/-! ### Conversions -/

inductive Conversion
  | number (z : ℤ) (rest : Text)
  | mismatch (rest : Text)
  | ended

/-- `%d` and `%ld`, before the number is stored. -/
def convert (s : Text) : Conversion :=
  match s.dropWhile isSpace with
  | [] => .ended
  | c :: t =>
    let (neg, body) := signOf (c :: t)
    let ds := body.takeWhile Char.isDigit
    if ds = [] then .mismatch body
    else
      let n := ds.foldl (fun n c => 10 * n + digitVal c) 0
      .number (if neg then -(n : ℤ) else n) (body.dropWhile Char.isDigit)

/-- The number as it is stored: `strtol` stops at the ends of `long`, the store keeps the low bits. -/
def toWord (w : ℕ) (z : ℤ) : BitVec w := BitVec.ofInt w (max (-2 ^ 63) (min z (2 ^ 63 - 1)))

/-- What a call of `fscanf` converted, whether it returned `EOF`, and what is left to read. -/
structure Scanned where
  items : List ℤ
  eof : Bool
  rest : Text
  deriving DecidableEq

def scan : ℕ → Text → List ℤ → Scanned
  | 0, s, items => ⟨items, false, s⟩
  | n + 1, s, items =>
    match convert s with
    | .number z rest => scan n rest (items ++ [z])
    | .mismatch rest => ⟨items, false, rest⟩
    | .ended => ⟨items, items.isEmpty, []⟩

/-- `fscanf` with a format of `n` integer conversions. -/
def fscanf (n : ℕ) (s : Text) : Scanned := scan n s []

/-- `%d` or `%ld` of a number. -/
def printSigned (z : ℤ) : Text := if z < 0 then '-' :: decimal z.natAbs else decimal z.natAbs

/-! ### What can be read -/

/-- The characters some conversion reads. -/
def readable (c : Char) : Bool := isSpace c || c.isDigit || c == '+' || c == '-'

def Conversion.rest : Conversion → Text
  | .number _ rest => rest
  | .mismatch rest => rest
  | .ended => []

theorem readable_of_isSpace {c : Char} (h : isSpace c = true) : readable c = true := by
  simp [readable, h]

theorem readable_of_isDigit {c : Char} (h : c.isDigit = true) : readable c = true := by
  simp [readable, h]

/-- A sign is read off the front, or nothing is. -/
theorem signOf_cases (c : Char) (t : Text) : (signOf (c :: t)).2 = t ∧ readable c = true ∨
    (signOf (c :: t)).2 = c :: t ∧ c ≠ '+' ∧ c ≠ '-' := by
  by_cases hm : c = '-'
  · subst hm
    exact .inl ⟨rfl, rfl⟩
  · by_cases hp : c = '+'
    · subst hp
      exact .inl ⟨rfl, rfl⟩
    · refine .inr ⟨?_, hp, hm⟩
      unfold signOf
      split
      · next he => exact absurd (List.cons.inj he).1 hm
      · next he => exact absurd (List.cons.inj he).1 hp
      · rfl

/-- A conversion reads readable characters off the front. -/
theorem convert_reads (s : Text) : ∃ front, s = front ++ (convert s).rest ∧
    ∀ c ∈ front, readable c = true := by
  have hsp : ∀ c ∈ s.takeWhile isSpace, readable c = true := fun c hc =>
    readable_of_isSpace (List.mem_takeWhile_imp hc)
  have hs := List.takeWhile_append_dropWhile (p := isSpace) (l := s)
  unfold convert
  cases hd : s.dropWhile isSpace with
  | nil =>
    rw [hd, List.append_nil] at hs
    exact ⟨s, (List.append_nil s).symm, hs ▸ hsp⟩
  | cons c t =>
    obtain ⟨sign, hsign, hread⟩ : ∃ sign, c :: t = sign ++ (signOf (c :: t)).2 ∧
        ∀ d ∈ sign, readable d = true := by
      rcases signOf_cases c t with ⟨h, hc⟩ | ⟨h, -, -⟩
      · exact ⟨[c], by rw [h]; rfl, by simpa using hc⟩
      · exact ⟨[], by rw [h]; rfl, by simp⟩
    have hall : s = (s.takeWhile isSpace ++ sign) ++ (signOf (c :: t)).2 := by
      rw [List.append_assoc, ← hsign, ← hd, hs]
    have hfront : ∀ d ∈ s.takeWhile isSpace ++ sign, readable d = true := by
      intro d hmem
      rcases List.mem_append.mp hmem with h | h
      · exact hsp d h
      · exact hread d h
    simp only
    split
    · exact ⟨_, hall, hfront⟩
    · have hb := List.takeWhile_append_dropWhile (p := Char.isDigit) (l := (signOf (c :: t)).2)
      refine ⟨(s.takeWhile isSpace ++ sign) ++ (signOf (c :: t)).2.takeWhile Char.isDigit, ?_, ?_⟩
      · rw [List.append_assoc, Conversion.rest, hb, ← hall]
      · intro d hmem
        rcases List.mem_append.mp hmem with h | h
        · exact hfront d h
        · exact readable_of_isDigit (List.mem_takeWhile_imp h)

/-- On readable text a conversion moves on, unless nothing but white space is left. -/
theorem convert_shorter {s : Text} (h : ∀ c ∈ s, readable c = true) :
    convert s = .ended ∨ (convert s).rest.length < s.length := by
  unfold convert
  cases hd : s.dropWhile isSpace with
  | nil => exact .inl rfl
  | cons c t =>
    right
    have hlen : (c :: t).length ≤ s.length := hd ▸ (List.dropWhile_sublist isSpace).length_le
    rw [List.length_cons] at hlen
    have hc : isSpace c = false := by
      have := List.head_dropWhile_not isSpace (l := s) (by rw [hd]; exact List.cons_ne_nil _ _)
      simpa [hd] using this
    have hrest : ∀ l : Text, (l.dropWhile Char.isDigit).length ≤ l.length := fun l =>
      (List.dropWhile_sublist Char.isDigit).length_le
    simp only
    rcases signOf_cases c t with ⟨hs, -⟩ | ⟨hs, hp, hm⟩
    · rw [hs]
      have := hrest t
      split <;> simp only [Conversion.rest] <;> omega
    · have hdig : c.isDigit = true := by
        have hr := h c ((List.dropWhile_sublist isSpace).mem (hd ▸ List.mem_cons_self ..))
        simpa [readable, hc, hp, hm] using hr
      rw [hs, if_neg (by simp [hdig]), Conversion.rest, List.dropWhile_cons_of_pos hdig]
      have := hrest t
      omega

theorem scan_reads (n : ℕ) (s : Text) (items : List ℤ) :
    ∃ front, s = front ++ (scan n s items).rest ∧ ∀ c ∈ front, readable c = true := by
  induction n generalizing s items with
  | zero => exact ⟨[], rfl, by simp⟩
  | succ n ih =>
    obtain ⟨front, hs, hf⟩ := convert_reads s
    rw [scan]
    cases hc : convert s with
    | number z rest =>
      obtain ⟨more, hm, hmr⟩ := ih rest (items ++ [z])
      refine ⟨front ++ more, ?_, ?_⟩
      · rw [List.append_assoc, ← hm, hs, hc, Conversion.rest]
      · intro c hmem
        rcases List.mem_append.mp hmem with h | h
        · exact hf c h
        · exact hmr c h
    | mismatch rest =>
      rw [hc] at hs
      exact ⟨front, hs, hf⟩
    | ended =>
      rw [hc] at hs
      exact ⟨front, hs, hf⟩

/-- `EOF` is returned with nothing left to read. -/
theorem scan_eof (n : ℕ) (s : Text) (items : List ℤ) (h : (scan n s items).eof = true) :
    (scan n s items).rest = [] := by
  induction n generalizing s items with
  | zero => cases h
  | succ n ih =>
    rw [scan] at h ⊢
    cases hc : convert s with
    | number z rest =>
      rw [hc] at h
      exact ih _ _ h
    | mismatch rest =>
      rw [hc] at h
      cases h
    | ended => rfl

/-- On readable text `fscanf` returns `EOF` or moves on. -/
theorem fscanf_shorter {n : ℕ} {s : Text} (hn : 0 < n) (h : ∀ c ∈ s, readable c = true) :
    (fscanf n s).eof = true ∨ (fscanf n s).rest.length < s.length := by
  obtain ⟨n, rfl⟩ : ∃ k, n = k + 1 := ⟨n - 1, by omega⟩
  have hc := convert_shorter h
  rw [fscanf, scan]
  cases hcv : convert s with
  | number z rest =>
    obtain ⟨front, hs, -⟩ := scan_reads n rest ([] ++ [z])
    have hlen := congrArg List.length hs
    rw [List.length_append] at hlen
    rw [hcv] at hc
    rcases hc with hc | hc
    · cases hc
    · rw [Conversion.rest] at hc
      right
      simp only
      omega
  | mismatch rest =>
    rw [hcv] at hc
    rcases hc with hc | hc
    · cases hc
    · exact .inr hc
  | ended => exact .inl rfl

/-- What is left after `fscanf` is readable exactly if the text was. -/
theorem fscanf_readable_iff (n : ℕ) (s : Text) :
    (∀ c ∈ (fscanf n s).rest, readable c = true) ↔ ∀ c ∈ s, readable c = true := by
  obtain ⟨front, hs, hf⟩ := scan_reads n s []
  constructor
  · intro h c hc
    rw [hs] at hc
    rcases List.mem_append.mp hc with hc | hc
    · exact hf c hc
    · exact h c hc
  · intro h c hc
    apply h
    rw [hs]
    exact List.mem_append_right _ hc

/-- A character that cannot be read keeps `fscanf` from ever returning `EOF`. -/
theorem fscanf_not_eof {n : ℕ} {s : Text} (h : ¬∀ c ∈ s, readable c = true) :
    (fscanf n s).eof = false := by
  rw [← fscanf_readable_iff n] at h
  by_contra heof
  rw [Bool.not_eq_false] at heof
  apply h
  intro c hc
  have hnil : (fscanf n s).rest = [] := scan_eof n s [] heof
  rw [hnil] at hc
  cases hc

/-! ### Reading back what was printed -/

/-- Numbers with a space between each two. -/
def joined : List ℤ → Text
  | [] => []
  | [z] => printSigned z
  | z :: zs => printSigned z ++ ' ' :: joined zs

theorem convert_space {c : Char} (h : isSpace c = true) (s : Text) :
    convert (c :: s) = convert s := by
  rw [convert, convert, List.dropWhile_cons_of_pos h]

theorem foldl_decimal (n : ℕ) : (decimal n).foldl (fun n c => 10 * n + digitVal c) 0 = n := by
  rw [foldl_digitVal (fun c hc => isDigit_of_mem_decimal hc)]
  exact Nat.ofDigitChars_ten_toDigits

theorem takeWhile_digits_cons {ds : Text} (hds : ∀ d ∈ ds, d.isDigit = true) {c : Char}
    (hc : c.isDigit = false) (t : Text) : (ds ++ c :: t).takeWhile Char.isDigit = ds ∧
      (ds ++ c :: t).dropWhile Char.isDigit = c :: t := by
  constructor
  · rw [List.takeWhile_append_of_pos hds, List.takeWhile_cons_of_neg (by simp [hc]), List.append_nil]
  · rw [List.dropWhile_append_of_pos hds, List.dropWhile_cons_of_neg (by simp [hc])]

section Digits

variable {ds : Text} {c : Char}

/-- Digits up to something else are read as their number. -/
theorem convert_digits (hds : ∀ d ∈ ds, d.isDigit = true) (hne : ds ≠ [])
    (hc : c.isDigit = false) (t : Text) : convert (ds ++ c :: t) =
      .number (ds.foldl (fun n c => 10 * n + digitVal c) 0 : ℕ) (c :: t) := by
  obtain ⟨htake, hdrop⟩ := takeWhile_digits_cons hds hc t
  obtain ⟨d, ds, rfl⟩ := List.exists_cons_of_ne_nil hne
  have hdig : d.isDigit = true := hds d (List.mem_cons_self ..)
  rw [convert, List.cons_append, List.dropWhile_cons_of_neg (by simp [not_isSpace hdig])]
  rw [List.cons_append] at htake hdrop
  simp only [signOf_digit hdig, htake, hdrop, if_neg (List.cons_ne_nil d ds), Bool.false_eq_true,
    if_false]

theorem convert_minus (hds : ∀ d ∈ ds, d.isDigit = true) (hne : ds ≠ [])
    (hc : c.isDigit = false) (t : Text) : convert ('-' :: (ds ++ c :: t)) =
      .number (-(ds.foldl (fun n c => 10 * n + digitVal c) 0 : ℕ)) (c :: t) := by
  obtain ⟨htake, hdrop⟩ := takeWhile_digits_cons hds hc t
  have hsp : isSpace '-' = false := by decide
  rw [convert, List.dropWhile_cons_of_neg (by simp [hsp])]
  simp only [signOf, htake, hdrop, if_neg hne, if_true]

/-- A sign alone is read, and nothing is converted. -/
theorem convert_minus_nil (hc : c.isDigit = false) (t : Text) :
    convert ('-' :: c :: t) = .mismatch (c :: t) := by
  have hsp : isSpace '-' = false := by decide
  rw [convert, List.dropWhile_cons_of_neg (by simp [hsp])]
  simp only [signOf, List.takeWhile_cons_of_neg (show ¬c.isDigit = true by simp [hc]), if_true]

end Digits

/-- A printed number followed by something else than a digit is read back. -/
theorem convert_print (z : ℤ) {c : Char} (hc : c.isDigit = false) (t : Text) :
    convert (printSigned z ++ c :: t) = .number z (c :: t) := by
  have hds : ∀ d ∈ decimal z.natAbs, d.isDigit = true := fun d h => isDigit_of_mem_decimal h
  have hne : decimal z.natAbs ≠ [] := decimal_ne_nil _
  rw [printSigned]
  split
  · rw [List.cons_append, convert_minus hds hne hc, foldl_decimal]
    congr 1
    omega
  · rw [convert_digits hds hne hc, foldl_decimal]
    congr 1
    omega

/-- What follows a number: the separator and the numbers after it, or the end of the line. -/
def remains (c : Char) (t : Text) : List ℤ → Text
  | [] => c :: t
  | z :: zs => ' ' :: (joined (z :: zs) ++ c :: t)

theorem joined_cons_cons (z w : ℤ) (zs : List ℤ) :
    joined (z :: w :: zs) = printSigned z ++ ' ' :: joined (w :: zs) := rfl

theorem joined_cons (z : ℤ) (zs : List ℤ) (c : Char) (t : Text) :
    joined (z :: zs) ++ c :: t = printSigned z ++ remains c t zs := by
  cases zs with
  | nil => rfl
  | cons w zs => rw [joined_cons_cons, remains, List.append_assoc, List.cons_append]

theorem convert_joined (z : ℤ) (zs : List ℤ) {c : Char} (hc : c.isDigit = false) (t : Text) :
    convert (joined (z :: zs) ++ c :: t) = .number z (remains c t zs) := by
  rw [joined_cons]
  cases zs with
  | nil => exact convert_print z hc t
  | cons w zs => exact convert_print z (by decide) _

theorem scan_remains (n : ℕ) (z : ℤ) (zs : List ℤ) (c : Char) (t : Text) (items : List ℤ) :
    scan (n + 1) (remains c t (z :: zs)) items = scan (n + 1) (joined (z :: zs) ++ c :: t) items := by
  rw [remains, scan, scan, convert_space (by decide)]

theorem scan_joined (zs ws : List ℤ) {c : Char} (hc : c.isDigit = false) (t : Text)
    (items : List ℤ) (hne : zs ≠ []) :
    scan zs.length (joined (zs ++ ws) ++ c :: t) items = ⟨items ++ zs, false, remains c t ws⟩ := by
  induction zs generalizing items with
  | nil => exact absurd rfl hne
  | cons z zs ih =>
    rw [List.length_cons, scan, List.cons_append, convert_joined z _ hc]
    cases zs with
    | nil => rfl
    | cons w zs =>
      simp only
      rw [List.cons_append, List.length_cons, scan_remains]
      have h := ih (items ++ [z]) (List.cons_ne_nil _ _)
      rw [List.length_cons, List.cons_append] at h
      rw [h, List.append_assoc]
      rfl

/-- `fscanf` takes the first numbers of a line and leaves the others. -/
theorem fscanf_joined (zs ws : List ℤ) {c : Char} (hc : c.isDigit = false) (t : Text)
    (hne : zs ≠ []) :
    fscanf zs.length (joined (zs ++ ws) ++ c :: t) = ⟨zs, false, remains c t ws⟩ := by
  rw [fscanf, scan_joined zs ws hc t [] hne, List.nil_append]

/-- White space at the front changes nothing. -/
theorem fscanf_space {n : ℕ} (hn : 0 < n) {c : Char} (h : isSpace c = true) (s : Text) :
    fscanf n (c :: s) = fscanf n s := by
  obtain ⟨n, rfl⟩ : ∃ k, n = k + 1 := ⟨n - 1, by omega⟩
  rw [fscanf, fscanf, scan, scan, convert_space h]

/-- No word read as a signed number is beyond a `long`. -/
theorem toInt_range {w : ℕ} (hw : w ≤ 64) (x : BitVec w) :
    -2 ^ 63 ≤ x.toInt ∧ x.toInt < 2 ^ 63 := by
  have hp : (2 : ℤ) ^ w ≤ 2 ^ 64 := by
    exact_mod_cast Nat.pow_le_pow_right (by decide) hw
  have hl := BitVec.le_two_mul_toInt (x := x)
  have hu := BitVec.two_mul_toInt_lt (x := x)
  omega

/-- A number that is a `long` is stored by its low bits. -/
theorem toWord_of_range {z : ℤ} (h : -2 ^ 63 ≤ z ∧ z < 2 ^ 63) (w : ℕ) :
    toWord w z = BitVec.ofInt w z := by
  have e : max (-2 ^ 63) (min z (2 ^ 63 - 1)) = z := by omega
  rw [toWord, e]

/-- A word is stored as it was before it was printed as a signed number. -/
theorem toWord_toInt {w : ℕ} (hw : w ≤ 64) (x : BitVec w) : toWord w x.toInt = x := by
  rw [toWord_of_range (toInt_range hw x), BitVec.ofInt_toInt]

/-- A `long` is stored in a shorter word by its low bits. -/
theorem toWord_long {w : ℕ} (hw : w ≤ 64) (x : BitVec 64) : toWord w x.toInt = x.setWidth w := by
  rw [toWord_of_range (toInt_range le_rfl x), ← BitVec.signExtend,
    BitVec.signExtend_eq_setWidth_of_le x hw]

/-! ### Lines -/

/-- Numbers with a space behind each. -/
def spaced (zs : List ℤ) : Text := zs.flatMap fun z => printSigned z ++ [' ']

theorem joined_append {zs ws : List ℤ} (hz : zs ≠ []) (hw : ws ≠ []) :
    joined (zs ++ ws) = joined zs ++ ' ' :: joined ws := by
  induction zs with
  | nil => exact absurd rfl hz
  | cons z zs ih =>
    cases zs with
    | nil =>
      obtain ⟨w, ws, rfl⟩ := List.exists_cons_of_ne_nil hw
      rfl
    | cons y zs =>
      have h := ih (List.cons_ne_nil _ _)
      rw [List.cons_append] at h
      rw [List.cons_append, List.cons_append, joined_cons_cons, joined_cons_cons, h,
        List.append_assoc, List.cons_append]

theorem spaced_eq {zs : List ℤ} (h : zs ≠ []) : spaced zs = joined zs ++ [' '] := by
  induction zs with
  | nil => exact absurd rfl h
  | cons z zs ih =>
    cases zs with
    | nil => exact List.append_nil _
    | cons w zs =>
      have hrec := ih (List.cons_ne_nil _ _)
      rw [spaced, List.flatMap_cons, ← spaced, hrec, joined_cons_cons]
      simp only [List.append_assoc, List.cons_append, List.nil_append]

/-- No word is printed in more than twenty characters. -/
theorem length_printSigned_le {w : ℕ} (hw : w ≤ 64) (x : BitVec w) :
    (printSigned x.toInt).length ≤ 20 := by
  have hx := toInt_range hw x
  have hd : (decimal x.toInt.natAbs).length ≤ 19 :=
    (Nat.length_toDigits_le_iff (by decide) (by decide)).mpr (by omega)
  rw [printSigned]
  split
  · rw [List.length_cons]
    omega
  · omega

theorem length_joined_le {zs : List ℤ} (h : ∀ z ∈ zs, (printSigned z).length ≤ 20) :
    (joined zs).length ≤ 21 * zs.length := by
  induction zs with
  | nil => exact le_rfl
  | cons z zs ih =>
    have hz := h z (List.mem_cons_self ..)
    have hrec := ih fun y hy => h y (List.mem_cons_of_mem _ hy)
    cases zs with
    | nil =>
      rw [joined, List.length_singleton]
      omega
    | cons w zs =>
      rw [joined_cons_cons, List.length_append, List.length_cons, List.length_cons]
      omega

/-! ### Reading a line that was cut short -/

/-- White space at the front changes nothing. -/
theorem fscanf_spaces {n : ℕ} (hn : 0 < n) {gap : Text} (h : ∀ c ∈ gap, isSpace c = true) (s : Text) :
    fscanf n (gap ++ s) = fscanf n s := by
  induction gap with
  | nil => rfl
  | cons c gap ih =>
    rw [List.cons_append, fscanf_space hn (h c (List.mem_cons_self ..))]
    exact ih fun d hd => h d (List.mem_cons_of_mem _ hd)

theorem fscanf_nil {n : ℕ} (hn : 0 < n) : fscanf n [] = ⟨[], true, []⟩ := by
  obtain ⟨n, rfl⟩ : ∃ k, n = k + 1 := ⟨n - 1, by omega⟩
  rfl

theorem items_scan (n : ℕ) (s : Text) (items : List ℤ) :
    (scan n s items).items = items ++ (fscanf n s).items := by
  induction n generalizing s items with
  | zero => exact (List.append_nil items).symm
  | succ n ih =>
    rw [fscanf, scan, scan]
    cases convert s with
    | number z rest =>
      simp only
      rw [ih, ih rest ([] ++ [z]), ← List.append_assoc, List.nil_append]
    | mismatch rest => exact (List.append_nil items).symm
    | ended => exact (List.append_nil items).symm

theorem items_number {n : ℕ} {s rest : Text} {z : ℤ} (h : convert s = .number z rest) :
    (fscanf (n + 1) s).items = z :: (fscanf n rest).items := by
  rw [fscanf, scan, h]
  exact items_scan n rest [z]

/-- Closer to zero, on the same side. -/
def Nearer (z' z : ℤ) : Prop := z' ≠ z ∧ (0 ≤ z' ∧ z' ≤ z ∨ z ≤ z' ∧ z' ≤ 0)

theorem le_foldl_digitVal (a : ℕ) (l : Text) : a ≤ l.foldl (fun n c => 10 * n + digitVal c) a := by
  induction l generalizing a with
  | nil => exact le_rfl
  | cons c l ih =>
    have := ih (10 * a + digitVal c)
    rw [List.foldl_cons]
    omega

/-- The digits a number begins with are a smaller number. -/
theorem foldl_cut {n : ℕ} {p more : Text} (h : decimal n = p ++ more) (hp : p ≠ []) (hm : more ≠ []) :
    p.foldl (fun n c => 10 * n + digitVal c) 0 < n := by
  obtain ⟨c, more, rfl⟩ := List.exists_cons_of_ne_nil hm
  have hn : n ≠ 0 := by
    rintro rfl
    have hlen := congrArg List.length h
    have h1 : (decimal 0).length = 1 := rfl
    have := List.length_pos_iff.mpr hp
    rw [h1, List.length_append, List.length_cons] at hlen
    omega
  have hv := foldl_decimal n
  rw [h, List.foldl_append, List.foldl_cons] at hv
  have := le_foldl_digitVal (10 * p.foldl (fun n c => 10 * n + digitVal c) 0 + digitVal c) more
  rw [hv] at this
  omega

theorem not_isDigit_of_isSpace {c : Char} (h : isSpace c = true) : c.isDigit = false := by
  by_contra hd
  rw [Bool.not_eq_false] at hd
  rw [not_isSpace hd] at h
  cases h

/-- A number cut off is read as one nearer to zero, or not at all. -/
theorem convert_cut {z z' : ℤ} {p more rest : Text} (h : printSigned z = p ++ more)
    (hm : more ≠ []) {c : Char} (hc : isSpace c = true)
    (hr : convert (p ++ [c]) = .number z' rest) : Nearer z' z := by
  have hcd := not_isDigit_of_isSpace hc
  rcases p with _ | ⟨d, p⟩
  · rw [List.nil_append, convert_space hc] at hr
    cases hr
  · rw [printSigned] at h
    split at h
    · obtain ⟨rfl, hdec⟩ : '-' = d ∧ decimal z.natAbs = p ++ more := List.cons.inj h
      rcases eq_or_ne p [] with rfl | hp
      · rw [List.singleton_append, convert_minus_nil hcd] at hr
        cases hr
      · have hds : ∀ d ∈ p, d.isDigit = true := fun d hd =>
          isDigit_of_mem_decimal (hdec ▸ List.mem_append_left _ hd)
        have hlt := foldl_cut hdec hp hm
        rw [List.cons_append, convert_minus hds hp hcd] at hr
        obtain ⟨rfl, -⟩ := Conversion.number.inj hr
        exact ⟨by omega, .inr ⟨by omega, by omega⟩⟩
    · have hds : ∀ e ∈ d :: p, e.isDigit = true := fun e he =>
        isDigit_of_mem_decimal (h ▸ List.mem_append_left _ he)
      have hlt := foldl_cut h (List.cons_ne_nil _ _) hm
      rw [convert_digits hds (List.cons_ne_nil _ _) hcd] at hr
      obtain ⟨rfl, -⟩ := Conversion.number.inj hr
      exact ⟨by omega, .inl ⟨by omega, by omega⟩⟩

theorem joined_ne_nil {zs : List ℤ} (h : zs ≠ []) : joined zs ≠ [] := by
  obtain ⟨z, zs, rfl⟩ := List.exists_cons_of_ne_nil h
  have hz : printSigned z ≠ [] := by
    rw [printSigned]
    split
    · exact List.cons_ne_nil _ _
    · exact decimal_ne_nil _
  cases zs with
  | nil => exact hz
  | cons w zs => exact List.append_ne_nil_of_left_ne_nil hz _

/-- A cut goes through the first numbers, or comes after them. -/
theorem joined_cut {zs ws : List ℤ} {cut more : Text} (hz : zs ≠ [])
    (h : joined (zs ++ ws) = cut ++ more) (hm : more ≠ []) :
    (∃ lost, lost ≠ [] ∧ joined zs = cut ++ lost) ∨ ws ≠ [] ∧ (cut = joined zs ∨
      ∃ cut', cut = joined zs ++ ' ' :: cut' ∧ joined ws = cut' ++ more) := by
  rcases eq_or_ne ws [] with rfl | hw
  · rw [List.append_nil] at h
    exact .inl ⟨more, hm, h⟩
  · rw [joined_append hz hw] at h
    rcases List.append_eq_append_iff.mp h with ⟨rest, hcut, htail⟩ | ⟨lost, hzs, -⟩
    · refine .inr ⟨hw, ?_⟩
      rcases rest with _ | ⟨d, rest⟩
      · exact .inl (hcut.trans (List.append_nil _))
      · obtain ⟨rfl, hrest⟩ : ' ' = d ∧ joined ws = rest ++ more := List.cons.inj htail
        exact .inr ⟨rest, hcut, hrest⟩
    · rcases eq_or_ne lost [] with rfl | hl
      · exact .inr ⟨hw, .inl (by rw [hzs, List.append_nil])⟩
      · exact .inl ⟨lost, hl, hzs⟩

/-- Of a line cut short some number is not read, or read as one nearer to zero. -/
theorem fscanf_cut (zs : List ℤ) : ∀ {cut more : Text} {c : Char}, joined zs = cut ++ more →
    more ≠ [] → isSpace c = true → ∃ (k : ℕ) (z : ℤ), zs[k]? = some z ∧
      ∀ z' ∈ (fscanf zs.length (cut ++ [c])).items[k]?, Nearer z' z := by
  induction zs with
  | nil =>
    intro cut more c h hm
    exact absurd (List.append_eq_nil_iff.mp h.symm).2 hm
  | cons z zs ih =>
    intro cut more c h hm hc
    have hcd := not_isDigit_of_isSpace hc
    rw [List.length_cons]
    have hz₁ : [z] ≠ [] := List.cons_ne_nil _ _
    rcases joined_cut hz₁ h hm with ⟨lost, hl, hz⟩ | ⟨hne, rfl | ⟨cut', rfl, hrest⟩⟩
    · refine ⟨0, z, rfl, ?_⟩
      intro z' hz'
      cases hcv : convert (cut ++ [c]) with
      | number y rest =>
        rw [items_number hcv] at hz'
        obtain rfl : y = z' := Option.some.inj hz'
        exact convert_cut hz hl hc hcv
      | mismatch rest =>
        rw [fscanf, scan, hcv] at hz'
        cases hz'
      | ended =>
        rw [fscanf, scan, hcv] at hz'
        cases hz'
    · obtain ⟨k, w, hk, hnear⟩ := ih (List.nil_append (joined zs)).symm (joined_ne_nil hne) hc
      refine ⟨k + 1, w, hk, ?_⟩
      rw [joined, items_number (convert_print z hcd [])]
      exact hnear
    · obtain ⟨k, w, hk, hnear⟩ := ih hrest hm hc
      refine ⟨k + 1, w, hk, ?_⟩
      have hn : 0 < zs.length := List.length_pos_iff.mpr hne
      rw [joined, List.append_assoc, List.cons_append, items_number (convert_print z (by decide) _),
        fscanf_space hn (by decide)]
      exact hnear

/-- A number nearer to zero is stored as another word. -/
theorem toWord_ne {w : ℕ} (hw : w ≤ 64) {z : ℤ} {x : BitVec w} (h : Nearer z x.toInt) :
    toWord w z ≠ x := by
  have hl := BitVec.le_two_mul_toInt (x := x)
  have hu := BitVec.two_mul_toInt_lt (x := x)
  have hx := toInt_range hw x
  obtain ⟨hne, hrange⟩ := h
  have hcast : ((2 ^ w : ℕ) : ℤ) = 2 ^ w := by norm_cast
  intro heq
  apply hne
  rw [← heq, toWord_of_range (by omega), BitVec.toInt_ofInt]
  exact (Int.bmod_eq_of_le_mul_two (by omega) (by omega)).symm

end CText
