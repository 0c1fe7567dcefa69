import Telex.Lib.LittleEndian
import Mathlib.Tactic.Ring

/-! The client puzzle of `tag/tag.c`

    With `PTWIST_PUZZLE_STRENGTH` set to `S` the seven bytes after the abscissa are not a hash of the
    shared secret but a solved puzzle: a response `R` of `S + 6` bits such that the hash of the key
    and `R` begins with `S` zero bits, and the next `50 - S` bits of that hash. `gen_tag` shifts and
    adds the two into one number; `check_tag` takes them apart with byte copies, masks and shifts.
    The big integers are the relic library's, as `ptwist.diff` patches it; here they are a
    parameter, of which only what the two functions rely on is assumed. The hash is a parameter. -/

namespace Telex.Puzzle
open LittleEndian

/-! ### The sizes of `ptwist.h` -/

/-- `PTWIST_PUZZLE_MASK`; for `S = 31` the shift and the subtraction wrap. -/
def puzzleMask (S : ℕ) : BitVec 32 := (1#32 <<< S) - 1#32

/-- `PTWIST_RESP_BITS` -/
def respBits (S : ℕ) : ℕ := if S = 0 then 0 else S + 6

/-- `PTWIST_RESP_BYTES` -/
def respBytes (S : ℕ) : ℕ := (respBits S + 7) / 8

/-- `((bits & 7) == 0) ? 8 : (bits & 7)`, the width of the two byte masks. -/
def lastBits (bits : ℕ) : ℕ := if bits % 8 = 0 then 8 else bits % 8

/-- `PTWIST_HASH_SHOWBITS` -/
def hashShowbits (S : ℕ) : ℕ := 224 - 168 - respBits S

/-- `PTWIST_HASH_TOTBITS` -/
def hashTotbits (S : ℕ) : ℕ := hashShowbits S + S

/-- `PTWIST_HASH_TOTBYTES` -/
def hashTotbytes (S : ℕ) : ℕ := (hashTotbits S + 7) / 8

/-- `value_to_hash[16+PTWIST_RESP_BYTES-1] &= PTWIST_RESP_MASK`, on the bytes of the response. -/
def maskResp (S : ℕ) (R : List Byte) : List Byte := mask (lastBits (respBits S)) (respBytes S - 1) R

/-- The first `PTWIST_HASH_TOTBYTES` bytes after
    `hashout[PTWIST_HASH_TOTBYTES-1] &= PTWIST_HASH_MASK`. -/
def maskHash (S : ℕ) (hashout : Fin 32 → Byte) : List Byte :=
  (mask (lastBits (hashTotbits S)) (hashTotbytes S - 1) (List.ofFn hashout)).take (hashTotbytes S)

/-! ### Big integers -/

/-- What `tag.c` uses of relic. -/
structure Relic where
  Bn : Type
  /-- `dp[0]` to `dp[used - 1]`. -/
  dp : Bn → List (BitVec 64)
  readBin : List Byte → Bn
  lsh : Bn → ℕ → Bn
  rsh : Bn → ℕ → Bn
  add : Bn → Bn → Bn
  /-- `bn_cmp(a, b) == CMP_EQ` -/
  cmpEq : Bn → Bn → Bool
  sizeBin : Bn → ℕ

/-- The number the digits stand for. -/
def Relic.val (bn : Relic) (a : bn.Bn) : ℕ := Nat.ofDigits (2 ^ 64) ((bn.dp a).map BitVec.toNat)

/-- The library computes with natural numbers, reads bytes the least significant first and keeps at
    least one digit. -/
structure Relic.Lawful (bn : Relic) : Prop where
  readBin : ∀ bs, bn.val (bn.readBin bs) = value bs
  lsh : ∀ a n, bn.val (bn.lsh a n) = bn.val a * 2 ^ n
  rsh : ∀ a n, bn.val (bn.rsh a n) = bn.val a / 2 ^ n
  add : ∀ a b, bn.val (bn.add a b) = bn.val a + bn.val b
  cmpEq : ∀ a b, bn.cmpEq a b = true ↔ bn.val a = bn.val b
  sizeBin : ∀ a n, bn.val a < 256 ^ n → bn.sizeBin a ≤ n
  used : ∀ a, bn.dp a ≠ []

/-- `if (offset < *len) bin[offset++] = d & 0xFF;` -/
def writeByte (len : ℕ) (st : List Byte × ℕ) (d : BitVec 64) : List Byte × ℕ :=
  if st.2 < len then (st.1.set st.2 (d.setWidth 8), st.2 + 1) else st

/-- The inner loop of `bn_write_bin` over the bytes of a digit. -/
def writeDigit (len : ℕ) : ℕ → BitVec 64 → List Byte × ℕ → List Byte × ℕ
  | 0, _, st => st
  | j + 1, d, st => writeDigit len j (d >>> 8) (writeByte len st d)

/-- The patched `bn_write_bin`: `bin` and `*len` afterwards, or nothing if the number is too long. -/
def bnWriteBin (bn : Relic) (bin : List Byte) (len : ℕ) (a : bn.Bn) : Option (List Byte × ℕ) :=
  if len < bn.sizeBin a then none
  else some ((bn.dp a).foldl (fun st d => writeDigit len 8 d st) (bin, 0))

/-! ### gen_tag -/

abbrev Sha := List Byte → Fin 32 → Byte

/-- `*(unsigned int*)hashout` -/
def firstbits (hashout : Fin 32 → Byte) : BitVec 32 :=
  BitVec.ofNat 32 (value ((List.ofFn hashout).take 4))

/-- The puzzle is solved: `(firstbits & PTWIST_PUZZLE_MASK) == 0`. -/
def solved (S : ℕ) (hashout : Fin 32 → Byte) : Bool := firstbits hashout &&& puzzleMask S == 0

/-- `value_to_hash`: the key and the response. -/
def valueToHash (K : Fin 16 → Byte) (R : List Byte) : List Byte := List.ofFn K ++ R

/-- Increment `R` and try again. -/
def next (S : ℕ) (R : List Byte) : List Byte := maskResp S (increment R)

/-- The loop that looks for a response. -/
def search (S : ℕ) (sha : Sha) (K : Fin 16 → Byte) : ℕ → List Byte → Option (List Byte)
  | 0, _ => none
  | fuel + 1, R =>
    if solved S (sha (valueToHash K R)) then some R else search S sha K fuel (next S R)

/-- `Hbn` when it is written: the masked hash, shifted, plus the response. -/
def packed (bn : Relic) (S : ℕ) (R : List Byte) (hashout : Fin 32 → Byte) : bn.Bn :=
  let Rbn := bn.readBin R
  let Hbn := bn.readBin (maskHash S hashout)
  let Hbn := bn.lsh Hbn (respBits S - S)
  bn.add Hbn Rbn

/-- The seven bytes `gen_tag` writes after the abscissa, over the fill of `memset`; `rand` is where
    the search starts. -/
def genTail (bn : Relic) (S : ℕ) (sha : Sha) (K : Fin 16 → Byte) (rand : List Byte) (fuel : ℕ) :
    Option (List Byte) := do
  let R ← search S sha K fuel (maskResp S rand)
  let (tail, _) ← bnWriteBin bn (List.replicate 7 0xAA#8) 7 (packed bn S R (sha (valueToHash K R)))
  return tail

/-! ### check_tag -/

/-- The response `check_tag` reads from the tag. -/
def response (S : ℕ) (tail : List Byte) : List Byte := maskResp S (tail.take (respBytes S))

/-- `Tbn` as it is compared. -/
def shownBits (bn : Relic) (S : ℕ) (tail : List Byte) : bn.Bn :=
  bn.rsh (bn.readBin tail) (respBits S)

/-- `Hbn` as it is compared. -/
def hashBits (bn : Relic) (S : ℕ) (hashout : Fin 32 → Byte) : bn.Bn :=
  bn.rsh (bn.readBin (maskHash S hashout)) S

/-- The return value of `check_tag`. -/
def checkTail (bn : Relic) (S : ℕ) (sha : Sha) (K : Fin 16 → Byte) (tail : List Byte) : ℤ :=
  let hashout := sha (valueToHash K (response S tail))
  if solved S hashout then
    if bn.cmpEq (shownBits bn S tail) (hashBits bn S hashout) then 0 else 1
  else -1

/-! ### Sizes -/

variable {S : ℕ} {sha : Sha} {K : Fin 16 → Byte} {R tail : List Byte} {hashout : Fin 32 → Byte}

/-- The mask of the last byte and the bytes before it make up the bits. -/
theorem lastBits_add {bits : ℕ} (h : 0 < bits) :
    8 * ((bits + 7) / 8 - 1) + lastBits bits = bits ∧ lastBits bits ≤ 8 := by
  rw [lastBits]
  split <;> omega

theorem pow_lastBits {bits : ℕ} (h : 0 < bits) :
    256 ^ ((bits + 7) / 8 - 1) * 2 ^ lastBits bits = 2 ^ bits := by
  rw [show 256 = 2 ^ 8 from rfl, ← pow_mul, ← pow_add, (lastBits_add h).1]

/-- Masking the last byte of so many bits leaves the number modulo their power of two. -/
theorem value_mask_lastBits {bits : ℕ} (h : 0 < bits) (bs : List Byte)
    (hlen : bs.length = (bits + 7) / 8) :
    value (mask (lastBits bits) ((bits + 7) / 8 - 1) bs) = value bs % 2 ^ bits := by
  rw [value_mask (lastBits_add h).2 (by omega), pow_lastBits h]

theorem respBits_eq (h : 1 ≤ S) : respBits S = S + 6 := if_neg (by omega)

theorem hashTotbits_eq (h : 1 ≤ S) (h31 : S ≤ 31) : hashTotbits S = 50 := by
  rw [hashTotbits, hashShowbits, respBits_eq h]
  omega

theorem respBytes_le (h : 1 ≤ S) (h31 : S ≤ 31) : respBytes S ≤ 7 := by
  rw [respBytes, respBits_eq h]
  omega

theorem length_maskResp : (maskResp S R).length = R.length := length_mask

theorem value_maskResp (h : 1 ≤ S) (hlen : R.length = respBytes S) :
    value (maskResp S R) = value R % 2 ^ (S + 6) := by
  rw [← respBits_eq h]
  exact value_mask_lastBits (by rw [respBits_eq h]; omega) R hlen

theorem value_maskHash (h : 1 ≤ S) (h31 : S ≤ 31) (hashout : Fin 32 → Byte) :
    value (maskHash S hashout) = value (List.ofFn hashout) % 2 ^ 50 := by
  have ht : hashTotbytes S = 7 := by rw [hashTotbytes, hashTotbits_eq h h31]
  have hm : maskHash S hashout = mask (lastBits 50) 6 ((List.ofFn hashout).take 7) := by
    rw [maskHash, ht, hashTotbits_eq h h31, mask, mask, List.take_modify]
  rw [hm]
  have hv := @value_mask_lastBits 50 (by decide) ((List.ofFn hashout).take 7) (by simp)
  rw [hv, value_take]
  exact Nat.mod_mod_of_dvd _ ⟨64, by decide⟩

/-! ### The search -/

/-- A response as the search keeps it: all its bytes and no bit beyond `S + 6`. -/
structure IsResponse (S : ℕ) (R : List Byte) : Prop where
  length : R.length = respBytes S
  lt : value R < 2 ^ (S + 6)

theorem isResponse_maskResp (h : 1 ≤ S) (hlen : R.length = respBytes S) :
    IsResponse S (maskResp S R) :=
  ⟨length_maskResp.trans hlen, by
    rw [value_maskResp h hlen]
    exact Nat.mod_lt _ (Nat.two_pow_pos _)⟩

theorem IsResponse.next (h : 1 ≤ S) (hR : IsResponse S R) : IsResponse S (next S R) :=
  isResponse_maskResp h ((length_increment R).trans hR.length)

/-- Every response the search returns is one, and solves the puzzle. -/
theorem search_some (h : 1 ≤ S) : ∀ {fuel : ℕ} {R₀ : List Byte}, IsResponse S R₀ →
    search S sha K fuel R₀ = some R → IsResponse S R ∧ solved S (sha (valueToHash K R)) = true
  | 0, _, _, hs => by cases hs
  | fuel + 1, R₀, hR₀, hs => by
      rw [search] at hs
      split at hs
      · rename_i hsol
        obtain rfl := Option.some.inj hs
        exact ⟨hR₀, hsol⟩
      · exact search_some h (hR₀.next h) hs

/-- One step counts up modulo `2^(S+6)`. -/
theorem value_next (h : 1 ≤ S) (hlen : R.length = respBytes S) :
    value (next S R) = (value R + 1) % 2 ^ (S + 6) := by
  rw [next, value_maskResp h ((length_increment R).trans hlen), value_increment]
  refine Nat.mod_mod_of_dvd _ ⟨2 ^ (8 * respBytes S - (S + 6)), ?_⟩
  have hle : S + 6 ≤ 8 * respBytes S := by
    rw [respBytes, respBits_eq h]
    omega
  rw [hlen, show 256 = 2 ^ 8 from rfl, ← pow_mul, ← pow_add]
  congr 1
  omega

/-- The search visits every response: it returns as soon as there is one that solves the puzzle. -/
theorem search_returns (h : 1 ≤ S) (hsol : solved S (sha (valueToHash K R)) = true)
    (hR : IsResponse S R) : ∀ {d : ℕ} {R₀ : List Byte}, IsResponse S R₀ →
    (value R₀ + d) % 2 ^ (S + 6) = value R → ∃ R', search S sha K (d + 1) R₀ = some R'
  | 0, R₀, hR₀, hd => by
      have e : R₀ = R := by
        rw [Nat.add_zero, Nat.mod_eq_of_lt hR₀.lt] at hd
        exact (value_inj (hR₀.length.trans hR.length.symm)).mp hd
      exact ⟨R, by rw [search, e, if_pos hsol]⟩
  | d + 1, R₀, hR₀, hd => by
      rw [search]
      split
      · exact ⟨R₀, rfl⟩
      · refine search_returns h hsol hR (hR₀.next h) ?_
        rw [value_next h hR₀.length, Nat.mod_add_mod, ← hd]
        congr 1
        omega

/-- From any start the search ends within one round if some response solves the puzzle. -/
theorem search_terminates (h : 1 ≤ S) (hsol : solved S (sha (valueToHash K R)) = true)
    (hR : IsResponse S R) {R₀ : List Byte} (hR₀ : IsResponse S R₀) :
    ∃ fuel ≤ 2 ^ (S + 6), ∃ R', search S sha K fuel R₀ = some R' := by
  have hlt := hR.lt
  have hlt₀ := hR₀.lt
  by_cases hle : value R₀ ≤ value R
  · refine ⟨value R - value R₀ + 1, by omega, search_returns h hsol hR hR₀ ?_⟩
    rw [Nat.add_sub_cancel' hle, Nat.mod_eq_of_lt hlt]
  · refine ⟨2 ^ (S + 6) - value R₀ + value R + 1, by omega, search_returns h hsol hR hR₀ ?_⟩
    rw [show value R₀ + (2 ^ (S + 6) - value R₀ + value R) = value R + 2 ^ (S + 6) by omega,
      Nat.add_mod_right, Nat.mod_eq_of_lt hlt]

/-! ### The first bits of the hash -/

theorem puzzleMask_toNat (h31 : S ≤ 31) : (puzzleMask S).toNat = 2 ^ S - 1 := by
  have hS : 2 ^ S ≤ 2 ^ 31 := Nat.pow_le_pow_right (by decide) h31
  have hpos : 0 < 2 ^ S := Nat.two_pow_pos S
  have e : (1#32 <<< S).toNat = 2 ^ S := by
    rw [BitVec.toNat_shiftLeft, Nat.shiftLeft_eq]
    have : (1#32).toNat = 1 := rfl
    rw [this, Nat.one_mul, Nat.mod_eq_of_lt (by omega)]
  have one : (1#32).toNat = 1 := rfl
  rw [puzzleMask, BitVec.toNat_sub_of_le (by rw [BitVec.le_def, e, one]; omega), e, one]

/-- A solved puzzle is a hash divisible by `2^S`. -/
theorem solved_iff (h31 : S ≤ 31) :
    solved S hashout = true ↔ value (List.ofFn hashout) % 2 ^ S = 0 := by
  have hd : (2 : ℕ) ^ S ∣ 2 ^ 32 := pow_dvd_pow 2 (by omega)
  have hv : (firstbits hashout).toNat = value (List.ofFn hashout) % 2 ^ 32 := by
    rw [firstbits, BitVec.toNat_ofNat, value_take]
    exact Nat.mod_mod _ _
  rw [solved, beq_iff_eq, ← BitVec.toNat_inj, BitVec.toNat_and, puzzleMask_toNat h31,
    Nat.and_two_pow_sub_one_eq_mod, hv, Nat.mod_mod_of_dvd _ hd]
  rfl

/-! ### Writing the number -/

theorem writeDigit_full {len : ℕ} : ∀ (j : ℕ) (d : BitVec 64) (bin : List Byte),
    writeDigit len j d (bin, len) = (bin, len)
  | 0, _, _ => rfl
  | j + 1, d, bin => by rw [writeDigit, writeByte, if_neg (Nat.lt_irrefl _), writeDigit_full j]

theorem foldl_writeDigit_full {len : ℕ} (ds : List (BitVec 64)) (bin : List Byte) :
    ds.foldl (fun st d => writeDigit len 8 d st) (bin, len) = (bin, len) := by
  induction ds with
  | nil => rfl
  | cons d ds ih => rw [List.foldl_cons, writeDigit_full, ih]

/-- The bytes of a digit from the bottom up. -/
def digitBytes : ℕ → BitVec 64 → List Byte
  | 0, _ => []
  | j + 1, d => d.setWidth 8 :: digitBytes j (d >>> 8)

theorem length_digitBytes : ∀ (j : ℕ) (d : BitVec 64), (digitBytes j d).length = j
  | 0, _ => rfl
  | j + 1, d => by rw [digitBytes, List.length_cons, length_digitBytes j]

theorem value_digitBytes : ∀ (j : ℕ) (d : BitVec 64), value (digitBytes j d) = d.toNat % 256 ^ j
  | 0, d => by simp [digitBytes, Nat.mod_one]
  | j + 1, d => by
      rw [digitBytes, value_cons, value_digitBytes j, pow_succ', Nat.mod_mul, BitVec.toNat_setWidth,
        BitVec.toNat_ushiftRight, Nat.shiftRight_eq_div_pow]

/-- A digit is written over what is left of the buffer, and stops at its end. -/
theorem writeDigit_eq {len : ℕ} : ∀ (j : ℕ) (d : BitVec 64) (done rest : List Byte),
    done.length + rest.length = len → rest.length ≤ j →
    writeDigit len j d (done ++ rest, done.length) = (done ++ digitBytes rest.length d, len)
  | j, d, done, [], hlen, _ => by
      have hl : done.length = len := by simpa using hlen
      rw [hl, List.append_nil, writeDigit_full, List.length_nil, digitBytes, List.append_nil]
  | 0, _, _, b :: rest, _, hj => by
      rw [List.length_cons] at hj
      omega
  | j + 1, d, done, b :: rest, hlen, hj => by
      rw [List.length_cons] at hlen hj
      have hset : (done ++ b :: rest).set done.length (d.setWidth 8) =
          (done ++ [d.setWidth 8]) ++ rest := by simp
      have hl : done.length + 1 = (done ++ [d.setWidth 8]).length := by simp
      rw [writeDigit, writeByte, if_pos (show done.length < len by omega), hset, hl,
        writeDigit_eq j (d >>> 8) _ rest (by rw [← hl]; omega) (by omega), List.length_cons,
        digitBytes, List.append_assoc]
      rfl

/-- Seven bytes hold a number below `2^56`; the eighth byte of its digit is not written. -/
theorem bnWriteBin_eq {bn : Relic} (hbn : bn.Lawful) {bin : List Byte} (hbin : bin.length = 7)
    (a : bn.Bn) (ha : bn.val a < 256 ^ 7) :
    ∃ tail, bnWriteBin bn bin 7 a = some (tail, 7) ∧ tail.length = 7 ∧ value tail = bn.val a := by
  have hsize := hbn.sizeBin a 7 ha
  obtain ⟨d, ds, hd⟩ := List.exists_cons_of_ne_nil (hbn.used a)
  have hval : bn.val a = d.toNat + 2 ^ 64 * Nat.ofDigits (2 ^ 64) (ds.map BitVec.toNat) := by
    rw [Relic.val, hd, List.map_cons, Nat.ofDigits_cons]
  have hd56 : d.toNat = bn.val a ∧ d.toNat < 256 ^ 7 := by omega
  have hfirst : writeDigit 7 8 d (bin, 0) = (digitBytes 7 d, 7) := by
    have h := @writeDigit_eq 7 8 d [] bin (by simp [hbin]) (by omega)
    rwa [hbin] at h
  refine ⟨digitBytes 7 d, ?_, length_digitBytes 7 d, ?_⟩
  · rw [bnWriteBin, if_neg (by omega), hd, List.foldl_cons, hfirst, foldl_writeDigit_full]
  · rw [value_digitBytes, Nat.mod_eq_of_lt hd56.2, hd56.1]

/-! ### Packing and taking apart -/

/-- Bits `S` to `49` of the hash, the ones the tag shows. -/
def shown (S : ℕ) (hashout : Fin 32 → Byte) : ℕ := value (List.ofFn hashout) / 2 ^ S % 2 ^ (50 - S)

theorem masked_eq (h31 : S ≤ 31) (hsol : solved S hashout = true) :
    value (List.ofFn hashout) % 2 ^ 50 = 2 ^ S * shown S hashout := by
  have e : (2 : ℕ) ^ 50 = 2 ^ S * 2 ^ (50 - S) := by
    rw [← pow_add]
    congr 1
    omega
  rw [e, Nat.mod_mul, (solved_iff h31).mp hsol, Nat.zero_add, shown]

theorem shown_lt (S : ℕ) (hashout : Fin 32 → Byte) : shown S hashout < 2 ^ (50 - S) :=
  Nat.mod_lt _ (Nat.two_pow_pos _)

variable {bn : Relic}

/-- The number `gen_tag` writes: the response below, the shown bits of the hash above. -/
theorem val_packed (hbn : bn.Lawful) (h : 1 ≤ S) (h31 : S ≤ 31) (hsol : solved S hashout = true) :
    bn.val (packed bn S R hashout) = value R + 2 ^ (S + 6) * shown S hashout := by
  have e : respBits S - S = 6 := by
    rw [respBits_eq h]
    omega
  rw [packed, hbn.add, hbn.lsh, hbn.readBin, hbn.readBin, value_maskHash h h31, masked_eq h31 hsol,
    e, pow_add]
  ring

theorem val_packed_lt (hbn : bn.Lawful) (h : 1 ≤ S) (h31 : S ≤ 31) (hR : IsResponse S R)
    (hsol : solved S hashout = true) : bn.val (packed bn S R hashout) < 256 ^ 7 := by
  have hr := hR.lt
  have hs := shown_lt S hashout
  have e : (256 : ℕ) ^ 7 = 2 ^ (S + 6) * 2 ^ (50 - S) := by
    rw [← pow_add, show S + 6 + (50 - S) = 56 by omega]
    rfl
  rw [val_packed hbn h h31 hsol, e]
  calc value R + 2 ^ (S + 6) * shown S hashout
      < 2 ^ (S + 6) + 2 ^ (S + 6) * shown S hashout := by omega
    _ = 2 ^ (S + 6) * (shown S hashout + 1) := by ring
    _ ≤ 2 ^ (S + 6) * 2 ^ (50 - S) := Nat.mul_le_mul_left _ hs

/-- `check_tag` takes the low bits of the tag for the response. -/
theorem response_spec (h : 1 ≤ S) (h31 : S ≤ 31) (hlen : tail.length = 7) :
    (response S tail).length = respBytes S ∧ value (response S tail) = value tail % 2 ^ (S + 6) := by
  have hle := respBytes_le h h31
  have htake : (tail.take (respBytes S)).length = respBytes S := by
    rw [List.length_take, hlen]
    omega
  have hd : 2 ^ (S + 6) ∣ 256 ^ respBytes S := by
    rw [show 256 = 2 ^ 8 from rfl, ← pow_mul]
    refine pow_dvd_pow 2 ?_
    rw [respBytes, respBits_eq h]
    omega
  constructor
  · rw [response, length_maskResp, htake]
  · rw [response, value_maskResp h htake, value_take, Nat.mod_mod_of_dvd _ hd]

/-- `check_tag` reads back the response. -/
theorem response_eq (h : 1 ≤ S) (h31 : S ≤ 31) (hR : IsResponse S R) (hlen : tail.length = 7)
    {t : ℕ} (hv : value tail = value R + 2 ^ (S + 6) * t) : response S tail = R := by
  obtain ⟨hbytes, hval⟩ := response_spec h h31 hlen
  apply (value_inj (hbytes.trans hR.length.symm)).mp
  rw [hval, hv, Nat.add_mul_mod_self_left, Nat.mod_eq_of_lt hR.lt]

/-- What `check_tag` compares on the side of the tag. -/
theorem val_shownBits (hbn : bn.Lawful) (h : 1 ≤ S) (tail : List Byte) :
    bn.val (shownBits bn S tail) = value tail / 2 ^ (S + 6) := by
  rw [shownBits, hbn.rsh, hbn.readBin, respBits_eq h]

theorem div_of_packed (hR : IsResponse S R) {t : ℕ} (hv : value tail = value R + 2 ^ (S + 6) * t) :
    value tail / 2 ^ (S + 6) = t := by
  rw [hv, Nat.add_mul_div_left _ _ (Nat.two_pow_pos _), Nat.div_eq_of_lt hR.lt, Nat.zero_add]

/-- What `check_tag` compares on the side of the hash. -/
theorem val_hashBits (hbn : bn.Lawful) (h : 1 ≤ S) (h31 : S ≤ 31) (hsol : solved S hashout = true) :
    bn.val (hashBits bn S hashout) = shown S hashout := by
  rw [hashBits, hbn.rsh, hbn.readBin, value_maskHash h h31, masked_eq h31 hsol,
    Nat.mul_div_cancel_left _ (Nat.two_pow_pos _)]

/-- The tags `check_tag` accepts: their low bits are a response that solves the puzzle, and the bits
    above are bits `S` to `49` of its hash. -/
theorem checkTail_eq_zero_iff (hbn : bn.Lawful) (h : 1 ≤ S) (h31 : S ≤ 31) (sha : Sha)
    (K : Fin 16 → Byte) (tail : List Byte) :
    checkTail bn S sha K tail = 0 ↔
      value (List.ofFn (sha (valueToHash K (response S tail)))) % 2 ^ S = 0 ∧
      value tail / 2 ^ (S + 6) = shown S (sha (valueToHash K (response S tail))) := by
  rw [checkTail, ← solved_iff h31]
  split
  · next hsol =>
    rw [← val_shownBits hbn h, ← val_hashBits hbn h h31 hsol, ← hbn.cmpEq, and_iff_right hsol]
    split
    · next hcmp => exact iff_of_true rfl hcmp
    · next hcmp => exact iff_of_false one_ne_zero hcmp
  · next hsol => exact iff_of_false (by decide) fun hc => hsol hc.1

/-- Every response the search finds is packed into seven bytes that `check_tag` accepts: it reads
    back that response and compares bits `S` to `49` of the same hash. It accepts nothing else than such
    tags. -/
theorem puzzle_accepted (bn : Relic) (hbn : bn.Lawful) (S : ℕ) (h : 1 ≤ S) (h31 : S ≤ 31)
    (sha : Sha) (K : Fin 16 → Byte) (rand : List Byte) (hrand : rand.length = respBytes S)
    (fuel : ℕ) (R : List Byte) (hfound : search S sha K fuel (maskResp S rand) = some R) :
    value R < 2 ^ (S + 6) ∧ ∃ tail, genTail bn S sha K rand fuel = some tail ∧ tail.length = 7 ∧
      response S tail = R ∧ checkTail bn S sha K tail = 0 ∧
      bn.val (shownBits bn S tail) = shown S (sha (valueToHash K R)) ∧
      bn.val (hashBits bn S (sha (valueToHash K R))) = shown S (sha (valueToHash K R)) ∧
      ∀ tail' : List Byte, tail'.length = 7 →
        (response S tail').length = respBytes S ∧
        value (response S tail') = value tail' % 2 ^ (S + 6) ∧
        (checkTail bn S sha K tail' = 0 ↔
          value (List.ofFn (sha (valueToHash K (response S tail')))) % 2 ^ S = 0 ∧
          value tail' / 2 ^ (S + 6) = shown S (sha (valueToHash K (response S tail')))) := by
  obtain ⟨hR, hsol⟩ := search_some h (isResponse_maskResp h hrand) hfound
  obtain ⟨tail, hwrite, hlen, hv⟩ := bnWriteBin_eq hbn (List.length_replicate (a := 0xAA#8))
    (packed bn S R (sha (valueToHash K R))) (val_packed_lt hbn h h31 hR hsol)
  rw [val_packed hbn h h31 hsol] at hv
  have hresp := response_eq h h31 hR hlen hv
  have hdiv := div_of_packed hR hv
  have ht := (val_shownBits hbn h tail).trans hdiv
  have hh := val_hashBits hbn h h31 hsol
  refine ⟨hR.lt, tail, ?_, hlen, hresp, ?_, ht, hh, fun tail' hlen' => ?_⟩
  · rw [genTail, hfound]
    exact congrArg (· >>= fun r => some r.1) hwrite
  · rw [checkTail_eq_zero_iff hbn h h31, hresp]
    exact ⟨(solved_iff h31).mp hsol, hdiv⟩
  · obtain ⟨hbytes, hval⟩ := response_spec h h31 hlen'
    exact ⟨hbytes, hval, checkTail_eq_zero_iff hbn h h31 sha K tail'⟩

/-- The digits relic keeps for a number. -/
def natDigits (n : ℕ) : List (BitVec 64) :=
  if n = 0 then [0] else (Nat.digits (2 ^ 64) n).map (BitVec.ofNat 64)

theorem ofDigits_natDigits (n : ℕ) :
    Nat.ofDigits (2 ^ 64) ((natDigits n).map BitVec.toNat) = n := by
  rw [natDigits]
  split
  · rename_i hn
    rw [hn]
    rfl
  · have hid : (Nat.digits (2 ^ 64) n).map (BitVec.toNat ∘ BitVec.ofNat 64) =
        Nat.digits (2 ^ 64) n := by
      refine (List.map_congr_left fun d hd => ?_).trans (List.map_id _)
      have hlt := Nat.digits_lt_base (by decide) hd
      rw [Function.comp_apply, BitVec.toNat_ofNat, Nat.mod_eq_of_lt hlt, id]
    rw [List.map_map, hid, Nat.ofDigits_digits]

theorem natDigits_ne_nil (n : ℕ) : natDigits n ≠ [] := by
  rw [natDigits]
  split
  · exact List.cons_ne_nil _ _
  · rename_i hn
    rw [Ne, List.map_eq_nil_iff, Nat.digits_eq_nil_iff_eq_zero]
    exact hn

/-- Natural numbers for the library's. -/
def natRelic : Relic where
  Bn := ℕ
  dp := natDigits
  readBin := value
  lsh a n := a * 2 ^ n
  rsh a n := a / 2 ^ n
  add a b := a + b
  cmpEq a b := a == b
  sizeBin n := (Nat.digits 256 n).length

theorem natRelic_lawful : natRelic.Lawful := by
  have hval : ∀ n : ℕ, natRelic.val n = n := ofDigits_natDigits
  constructor
  · exact fun bs => hval _
  · exact fun a n => (hval _).trans (congrArg (· * 2 ^ n) (hval a).symm)
  · exact fun a n => (hval _).trans (congrArg (· / 2 ^ n) (hval a).symm)
  · exact fun a b => (hval _).trans (congrArg₂ (· + ·) (hval a).symm (hval b).symm)
  · intro a b
    refine beq_iff_eq.trans ⟨fun h => by rw [h], fun h => ?_⟩
    exact (hval a).symm.trans (h.trans (hval b))
  · exact fun a n h => (Nat.digits_length_le_iff (by decide) a).mpr (lt_of_eq_of_lt (hval a).symm h)
  · exact natDigits_ne_nil

/-- SHA256 of sixteen zero bytes and the response `fb d9 1a 00`, the first that solves the puzzle of
    strength 21. -/
def solvedHash : List Byte :=
  [0x00#8, 0x00#8, 0x00#8, 0x11#8, 0x16#8, 0x0a#8, 0xaa#8, 0x81#8, 0xb8#8, 0xe8#8, 0xd7#8,
    0x48#8, 0x1b#8, 0x08#8, 0xeb#8, 0xea#8, 0xfe#8, 0xd9#8, 0x2b#8, 0xd6#8, 0x37#8, 0x85#8,
    0x45#8, 0xb5#8, 0xf2#8, 0x2b#8, 0x00#8, 0x3d#8, 0xb2#8, 0x36#8, 0x32#8, 0x53#8]

theorem puzzle_accepted_first :
    ∃ tail, genTail natRelic 21 (fun _ i => solvedHash.getD i 0) (fun _ => 0)
        [0xfb#8, 0xd9#8, 0x1a#8, 0x00#8] 1 = some tail ∧
      checkTail natRelic 21 (fun _ i => solvedHash.getD i 0) (fun _ => 0) tail = 0 := by
  obtain ⟨-, tail, hgen, -, -, hcheck, -⟩ := puzzle_accepted natRelic natRelic_lawful 21
    (by decide) (by decide) (fun _ i => solvedHash.getD i 0) (fun _ => 0)
    [0xfb#8, 0xd9#8, 0x1a#8, 0x00#8] (by decide) 1 [0xfb#8, 0xd9#8, 0x1a#8, 0x00#8] (by decide)
  exact ⟨tail, hgen, hcheck⟩

end Telex.Puzzle
