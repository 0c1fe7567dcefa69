import Mathlib.Data.List.GetD
import Mathlib.Data.List.OfFn
import Mathlib.Data.Int.Basic
import Mathlib.Data.BitVec

/-! The private key file: `tag/package_keys.py`, which writes it, and `telex_init` of `bro.bif`

    The file is the number of keys and then, for each key, its 21 bytes and the port of its service.
    Numbers take two bytes, least significant first. `package_keys.py` copies the first line of a key's
    file, so a key is cut after its first byte 10; what `telex_init` then misses at the end of the file
    it takes from uninitialised memory. -/

namespace Telex.Keys

abbrev Byte := BitVec 8

/-- `struct telex_priv_keys` -/
structure TelexPrivKeys where
  key : Fin 21 → Byte
  port : BitVec 16
  deriving DecidableEq

/-- What ends `package_keys.py` early. -/
inductive PyError
  | usage
  | valueError
  | indexError
  deriving DecidableEq

def chr (n : ℤ) : Except PyError Byte :=
  if 0 ≤ n ∧ n < 256 then .ok (BitVec.ofInt 8 n) else .error .valueError

def numToUint16TStr (num : ℤ) : Except PyError (List Byte) := do
  let low ← chr (num % 256)
  let high ← chr (num / 256)
  return [low, high]

/-- The first line of a file that is not empty, with its newline. -/
def firstLine : List Byte → List Byte
  | [] => []
  | b :: bs => if b = 10#8 then [b] else b :: firstLine bs

/-- `f.readlines()[0]` -/
def readlines0 (file : List Byte) : Except PyError (List Byte) :=
  if file = [] then .error .indexError else .ok (firstLine file)

/-- What is written for one key; a file that cannot be opened is reported and skipped. -/
def packageKey : Option (List Byte) × ℤ → Except PyError (List Byte)
  | (none, _) => .ok []
  | (some file, port) => do
    let key ← readlines0 file
    let port ← numToUint16TStr port
    return key ++ port

/-- `package_keys.py`, on the contents of the key files and the ports it is called with. -/
def packageKeys (args : List (Option (List Byte) × ℤ)) : Except PyError (List Byte) := do
  if args = [] then throw .usage
  let num ← numToUint16TStr args.length
  let keys ← args.mapM packageKey
  return num ++ keys.flatten

/-- The calls after which `telex_init` exits. -/
inductive InitError
  | fopen
  | freadNum
  | freadKeys
  deriving DecidableEq

/-- A `uint16_t` from its two bytes in memory. -/
def uint16 (low high : Byte) : BitVec 16 := high ++ low

/-- Memory after `fread` has put `bytes` over it. -/
def fread (bytes : List Byte) (mem : ℕ → Byte) (i : ℕ) : Byte := bytes.getD i (mem i)

/-- A `struct telex_priv_keys` at the start of `mem`. -/
def keyAt (mem : ℕ → Byte) : TelexPrivKeys := ⟨fun i => mem i, uint16 (mem 21) (mem 22)⟩

/-- The array of `num` keys at the start of `mem`. -/
def keyList (mem : ℕ → Byte) (num : ℕ) : List TelexPrivKeys :=
  List.ofFn fun i : Fin num => keyAt fun j => mem (23 * i + j)

/-- `telex_init` up to its use of the network: `file` is the key file and `heap` what `malloc` finds in
    the memory it gives. The value is `telex_key_list`; `telex_num_keys` is its length. -/
def telexInit (heap : ℕ → Byte) (file : Option (List Byte)) :
    Except InitError (List TelexPrivKeys) :=
  match file with
  | none => .error .fopen
  | some (low :: high :: bytes) =>
    let num := (uint16 low high).toNat
    if min num (bytes.length / 23) < 1 then .error .freadKeys
    else .ok (keyList (fread (bytes.take (23 * num)) heap) num)
  | some _ => .error .freadNum

theorem firstLine_eq_iff (file : List Byte) :
    firstLine file = file ↔ ∀ b ∈ file.dropLast, b ≠ 10#8 := by
  induction file with
  | nil => simp [firstLine]
  | cons b bs ih =>
    cases bs with
    | nil => by_cases hb : b = 10#8 <;> simp [firstLine, hb]
    | cons c bs =>
      rw [List.dropLast_cons_cons, List.forall_mem_cons, ← ih]
      by_cases hb : b = 10#8
      · simp [firstLine, hb]
      · simp [firstLine.eq_def (b :: c :: bs), hb]

theorem length_firstLine_le (file : List Byte) : (firstLine file).length ≤ file.length := by
  induction file with
  | nil => simp [firstLine]
  | cons b bs ih =>
    by_cases hb : b = 10#8
    · simp [firstLine, hb]
    · simpa [firstLine, hb] using ih

/-- A first line as long as the file is the file. -/
theorem firstLine_eq_of_length {file : List Byte} (h : (firstLine file).length = file.length) :
    firstLine file = file := by
  induction file with
  | nil => rfl
  | cons b bs ih =>
    by_cases hb : b = 10#8
    · cases bs with
      | nil => simp [firstLine, hb]
      | cons c bs => simp [firstLine, hb] at h
    · simp only [firstLine, hb, if_false, List.length_cons, Nat.add_right_cancel_iff] at h ⊢
      rw [ih h]

/-- What `package_keys.py` is called with for a key and its port. -/
def arg (k : TelexPrivKeys) : Option (List Byte) × ℤ := (some (List.ofFn k.key), k.port.toNat)

/-- The bytes of a key and its port in the file, the key from the first line of its file. -/
def record (k : TelexPrivKeys) : List Byte :=
  firstLine (List.ofFn k.key) ++ [k.port.setWidth 8, (k.port >>> 8).setWidth 8]

theorem numToUint16TStr_eq {n : ℕ} (h : n < 65536) :
    numToUint16TStr n = .ok [BitVec.ofNat 8 n, BitVec.ofNat 8 (n / 256)] := by
  have hlow : (n : ℤ) % 256 = ((n % 256 : ℕ) : ℤ) := by omega
  have hhigh : (n : ℤ) / 256 = ((n / 256 : ℕ) : ℤ) := by omega
  have h1 : chr ((n : ℤ) % 256) = .ok (BitVec.ofNat 8 n) := by
    rw [chr, if_pos (by omega), hlow, BitVec.ofInt_natCast]
    exact congrArg _ (BitVec.eq_of_toNat_eq (by simp))
  have h2 : chr ((n : ℤ) / 256) = .ok (BitVec.ofNat 8 (n / 256)) := by
    rw [chr, if_pos (by omega), hhigh, BitVec.ofInt_natCast]
  rw [numToUint16TStr, h1, h2]
  rfl

theorem packageKey_arg (k : TelexPrivKeys) : packageKey (arg k) = .ok (record k) := by
  have hp := numToUint16TStr_eq k.port.isLt
  have hl : BitVec.ofNat 8 k.port.toNat = k.port.setWidth 8 := BitVec.eq_of_toNat_eq (by simp)
  have hh : BitVec.ofNat 8 (k.port.toNat / 256) = (k.port >>> 8).setWidth 8 :=
    BitVec.eq_of_toNat_eq (by simp [Nat.shiftRight_eq_div_pow])
  rw [hl, hh] at hp
  have hr : readlines0 (List.ofFn k.key) = .ok (firstLine (List.ofFn k.key)) := by
    rw [readlines0, if_neg]
    simp
  simp only [packageKey, arg, hr, hp, record]
  rfl

theorem packageKeys_args {keys : List TelexPrivKeys} (h0 : keys ≠ []) (hn : keys.length < 65536) :
    packageKeys (keys.map arg) = .ok (BitVec.ofNat 8 keys.length :: BitVec.ofNat 8 (keys.length / 256) ::
      keys.flatMap record) := by
  have hm : (keys.map arg).mapM packageKey = .ok (keys.map record) := by
    clear h0 hn
    induction keys with
    | nil => rfl
    | cons k keys ih =>
      rw [List.map_cons, List.mapM_cons, packageKey_arg, ih]
      rfl
  simp only [packageKeys, List.length_map, numToUint16TStr_eq hn, hm]
  rw [if_neg (by simpa using h0)]
  rfl

theorem uint16_toNat (low high : Byte) : (uint16 low high).toNat = 256 * high.toNat + low.toNat := by
  have hl := low.isLt
  rw [uint16, BitVec.toNat_append, Nat.shiftLeft_eq, ← Nat.shiftLeft_eq,
    ← Nat.shiftLeft_add_eq_or_of_lt hl, Nat.shiftLeft_eq]
  omega

theorem uint16_length {n : ℕ} (h : n < 65536) :
    (uint16 (BitVec.ofNat 8 n) (BitVec.ofNat 8 (n / 256))).toNat = n := by
  rw [uint16_toNat, BitVec.toNat_ofNat, BitVec.toNat_ofNat]
  omega

theorem uint16_port (port : BitVec 16) :
    uint16 (port.setWidth 8) ((port >>> 8).setWidth 8) = port := by
  have hp := port.isLt
  apply BitVec.eq_of_toNat_eq
  rw [uint16_toNat]
  simp only [BitVec.toNat_setWidth, BitVec.toNat_ushiftRight, Nat.shiftRight_eq_div_pow]
  omega

theorem length_record_le (k : TelexPrivKeys) : (record k).length ≤ 23 := by
  have h := length_firstLine_le (List.ofFn k.key)
  rw [List.length_ofFn] at h
  simp only [record, List.length_append, List.length_cons, List.length_nil]
  omega

/-- A key whose file is one line is written whole. -/
theorem whole_iff (k : TelexPrivKeys) :
    (record k).length = 23 ↔ ∀ i : Fin 21, i.val < 20 → k.key i ≠ 10#8 := by
  have hlen : (record k).length = 23 ↔
      (firstLine (List.ofFn k.key)).length = (List.ofFn k.key).length := by
    simp [record]
  have hline : (firstLine (List.ofFn k.key)).length = (List.ofFn k.key).length ↔
      firstLine (List.ofFn k.key) = List.ofFn k.key :=
    ⟨firstLine_eq_of_length, fun h => by rw [h]⟩
  rw [hlen, hline, firstLine_eq_iff]
  constructor
  · intro h i hi
    refine h _ (List.mem_iff_getElem.mpr ⟨i, by rw [List.length_dropLast, List.length_ofFn]; exact hi, ?_⟩)
    rw [List.getElem_dropLast, List.getElem_ofFn]
  · rintro h b hb rfl
    obtain ⟨i, hi, hb⟩ := List.mem_iff_getElem.mp hb
    rw [List.length_dropLast, List.length_ofFn] at hi
    rw [List.getElem_dropLast, List.getElem_ofFn] at hb
    exact h ⟨i, by omega⟩ hi hb

/-- The first key of the array is the one whose record comes first in the file. -/
theorem keyList_record {k : TelexPrivKeys} (h : (record k).length = 23) (rest : List Byte)
    (heap : ℕ → Byte) (n : ℕ) :
    keyList (fread (record k ++ rest) heap) (n + 1) =
      k :: keyList (fread rest fun i => heap (23 + i)) n := by
  have hline : firstLine (List.ofFn k.key) = List.ofFn k.key :=
    firstLine_eq_of_length (by simpa [record] using h)
  rw [keyList, List.ofFn_succ]
  congr 1
  · have hkey : ∀ i : Fin 21, fread (record k ++ rest) heap i = k.key i := fun i => by
      have hi : i.val < (List.ofFn k.key).length := by simp
      rw [fread, record, hline, List.append_assoc, List.getD_append _ _ _ _ hi,
        List.getD_eq_getElem _ _ hi, List.getElem_ofFn]
    have hlow : fread (record k ++ rest) heap 21 = k.port.setWidth 8 := by
      rw [fread, record, hline]; rfl
    have hhigh : fread (record k ++ rest) heap 22 = (k.port >>> 8).setWidth 8 := by
      rw [fread, record, hline]; rfl
    simp only [keyAt, Fin.val_zero, Nat.mul_zero, Nat.zero_add, hkey, hlow, hhigh, uint16_port]
  · refine List.ofFn_inj.mpr (funext fun i => congrArg keyAt (funext fun j => ?_))
    have hidx : 23 * (i.succ : ℕ) + j = 23 + (23 * i + j) := by simp [Fin.val_succ]; omega
    rw [hidx, fread, List.getD_append_right _ _ _ _ (by omega), h, Nat.add_sub_cancel_left]
    rfl

theorem keyList_records {keys : List TelexPrivKeys} (h : ∀ k ∈ keys, (record k).length = 23)
    (heap : ℕ → Byte) : keyList (fread (keys.flatMap record) heap) keys.length = keys := by
  induction keys generalizing heap with
  | nil => rfl
  | cons k keys ih =>
    rw [List.flatMap_cons, List.length_cons, keyList_record (h k (.head _)),
      ih fun k hk => h k (.tail _ hk)]

theorem length_records_le (keys : List TelexPrivKeys) :
    (keys.flatMap record).length ≤ 23 * keys.length := by
  induction keys with
  | nil => simp
  | cons k keys ih =>
    have hk := length_record_le k
    rw [List.flatMap_cons, List.length_append, List.length_cons]
    omega

theorem whole_of_length {keys : List TelexPrivKeys}
    (h : 23 * keys.length ≤ (keys.flatMap record).length) : ∀ k ∈ keys, (record k).length = 23 := by
  induction keys with
  | nil => simp
  | cons k keys ih =>
    have hk := length_record_le k
    have hkeys := length_records_le keys
    rw [List.flatMap_cons, List.length_append, List.length_cons] at h
    rw [List.forall_mem_cons]
    exact ⟨by omega, ih (by omega)⟩

/-- An array that does not depend on what the memory held before is in the file whole. -/
theorem length_of_keyList {bytes : List Byte} {n : ℕ} (h0 : 0 < n)
    (h : keyList (fread bytes fun _ => 0) n = keyList (fread bytes fun _ => 1) n) :
    23 * n ≤ bytes.length := by
  by_contra hlt
  have hlast := congrFun (List.ofFn_injective h) ⟨n - 1, by omega⟩
  have hport := congrArg (fun k => k.port.toNat) hlast
  have hmiss : ∀ b : Byte, fread bytes (fun _ => b) (23 * (n - 1) + 22) = b := fun b =>
    List.getD_eq_default _ _ (by omega)
  simp only [keyAt, uint16_toNat, hmiss] at hport
  have h1 := (fread bytes (fun _ => 0) (23 * (n - 1) + 21)).isLt
  simp at hport
  omega

theorem telexInit_packaged {keys : List TelexPrivKeys} (hn : keys.length < 65536) (heap : ℕ → Byte) :
    telexInit heap (some (BitVec.ofNat 8 keys.length :: BitVec.ofNat 8 (keys.length / 256) ::
      keys.flatMap record)) =
    if min keys.length ((keys.flatMap record).length / 23) < 1 then .error .freadKeys
    else .ok (keyList (fread (keys.flatMap record) heap) keys.length) := by
  rw [telexInit]
  simp only [uint16_length hn, List.take_of_length_le (length_records_le keys)]

/-- The file that `package_keys.py` writes for some keys is read back as these keys, whatever the memory
    held before, exactly when no key has a byte 10 before its last byte. -/
theorem key_file_round_trip_iff {keys : List TelexPrivKeys} (h0 : keys ≠ [])
    (hn : keys.length ≤ 65535) :
    (∃ file, packageKeys (keys.map arg) = .ok file ∧ ∀ heap, telexInit heap (some file) = .ok keys) ↔
    ∀ k ∈ keys, ∀ i : Fin 21, i.val < 20 → k.key i ≠ 10#8 := by
  have hlen : 0 < keys.length := List.length_pos_of_ne_nil h0
  have hn' : keys.length < 65536 := by omega
  simp only [← whole_iff]
  rw [packageKeys_args h0 hn']
  constructor
  · rintro ⟨file, hf, h⟩
    obtain rfl := Except.ok.inj hf
    refine whole_of_length (length_of_keyList hlen ?_)
    have hz := h fun _ => 0
    have ho := h fun _ => 1
    rw [telexInit_packaged hn'] at hz ho
    split at hz
    · cases hz
    · rw [if_neg ‹_›] at ho
      exact (Except.ok.inj hz).trans (Except.ok.inj ho).symm
  · intro h
    refine ⟨_, rfl, fun heap => ?_⟩
    have hbytes : 23 * keys.length ≤ (keys.flatMap record).length := by
      rw [List.length_flatMap, List.map_congr_left h, List.map_const', List.sum_replicate_nat]
      omega
    rw [telexInit_packaged hn', keyList_records h, if_neg (by omega)]

/-- A byte 10 at the end of a key does no harm. -/
def sampleKeys (i : Fin 21) : List TelexPrivKeys :=
  [⟨fun j => if j = i then 10#8 else 7#8, 3128⟩, ⟨fun _ => 9#8, 3129⟩]

theorem key_file_round_trip_last : ∃ file, packageKeys ((sampleKeys 20).map arg) = .ok file ∧
    ∀ heap, telexInit heap (some file) = .ok (sampleKeys 20) :=
  (key_file_round_trip_iff (by decide) (by decide)).mpr (by decide)

/-- With a byte 10 in the middle of the first key, its port is taken from the second key, and the second
    port from memory. -/
theorem newline_cuts_key : ∃ file keys, packageKeys ((sampleKeys 9).map arg) = .ok file ∧
    telexInit (fun _ => 0) (some file) = .ok keys ∧
    keys.map TelexPrivKeys.port = [0x0909, 0] ∧ keys ≠ sampleKeys 9 := by
  have hp : (keyList (fread ((sampleKeys 9).flatMap record) fun _ => 0) 2).map TelexPrivKeys.port =
      [0x0909, 0] := by decide
  refine ⟨_, _, packageKeys_args (by decide) (by decide), telexInit_packaged (by decide) _, hp, ?_⟩
  intro h
  have hports := hp.symm.trans (congrArg (List.map TelexPrivKeys.port) h)
  exact absurd hports (by decide)

end Telex.Keys
