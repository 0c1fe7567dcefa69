import Telex.Tag
import Telex.Keys

/-! Starting the station: the rest of `telex_init` and `telex_tag_get_key` of `bro.bif`

    `telex_init` asks `fread` for as many keys as the file announces but is content with one, so a file
    that was cut off anywhere after its first key is taken. The missing entries are then whatever the
    allocated memory held, and `telex_tag_get_key` goes through them like the others. The connection to
    the flow blocker is not asked for either: when it is refused, `telex_connect_to_flow_blocker` returns
    `errno`, and `telex_init` takes what is not negative for a socket. Memory is always granted. -/

namespace Telex.KeyFile
open Keys Tag

/-- The calls after which `telex_init` exits. -/
inductive StartError
  | file (e : InitError)
  | socket
  | flowBlocker
  deriving DecidableEq

/-- What `errno` is after a call that failed. -/
structure Errno where
  code : ℤ
  pos : 0 < code
  deriving DecidableEq

/-- What the system answers to the calls of `telex_tcp_init` and `telex_connect_to_flow_blocker`: the
    raw socket, the result of `getaddrinfo`, the other socket, and the error of `connect` if it fails. -/
structure Network where
  rawSock : Bool
  getaddrinfo : ℤ
  socket : Except Errno ℕ
  connect : Option Errno

/-- `telex_connect_to_flow_blocker` -/
def telexConnectToFlowBlocker (net : Network) : ℤ :=
  if net.getaddrinfo ≠ 0 then net.getaddrinfo
  else
    match net.socket with
    | .error errno => errno.code
    | .ok flowBlockerSock =>
      match net.connect with
      | some errno => errno.code
      | none => flowBlockerSock

/-- The whole of `telex_init`. -/
def start (heap : ℕ → Keys.Byte) (net : Network) (file : Option (List Keys.Byte)) :
    Except StartError (List TelexPrivKeys) :=
  match telexInit heap file with
  | .error e => .error (.file e)
  | .ok keys =>
    if !net.rawSock then .error .socket
    else if telexConnectToFlowBlocker net < 0 then .error .flowBlocker
    else .ok keys

/-- What a call of `telex_tag_get_key` did: the entries it passed to `check_tag`, in order, and the
    shared key and port of the one that was accepted. -/
structure Lookup where
  passed : List TelexPrivKeys
  found : Option ((Fin 16 → Keys.Byte) × BitVec 16)

/-- The loop of `telex_tag_get_key` from the `i`th key on; `key` is `telex_tag_key`. Nothing is the
    failed assertion of `check_tag`. -/
def checkKeys (sha : Sha) (junk : ℕ → Ptwist.Junk) (tag : Fin 28 → Keys.Byte)
    (context : List Keys.Byte) (i : ℕ) (key : Fin 16 → Keys.Byte) :
    List TelexPrivKeys → Option Lookup
  | [] => some ⟨[], none⟩
  | k :: ks =>
    match checkTag sha (junk i) key k.key tag context with
    | none => none
    | some (0, key) => some ⟨[k], some (key, k.port)⟩
    | some (_ + 1, key) =>
      (checkKeys sha junk tag context (i + 1) key ks).map fun l => ⟨k :: l.passed, l.found⟩

/-- `telex_tag_get_key` -/
def telexTagGetKey (sha : Sha) (junk : ℕ → Ptwist.Junk) (keys : List TelexPrivKeys)
    (key : Fin 16 → Keys.Byte) (clientHello context : List Keys.Byte) : Option Lookup :=
  if h : clientHello.length = 28 then
    checkKeys sha junk (fun i => clientHello.get (i.cast h.symm)) context 0 key keys
  else some ⟨[], none⟩

variable {sha : Sha} {junk : ℕ → Ptwist.Junk} {keys : List TelexPrivKeys} {key : Fin 16 → Keys.Byte}
  {context : List Keys.Byte} {l : Lookup}

/-- The loop passes the keys to `check_tag` in the order of the list, without a gap. -/
theorem checkKeys_passed {tag : Fin 28 → Keys.Byte} {i : ℕ}
    (h : checkKeys sha junk tag context i key keys = some l) :
    l.passed <+: keys ∧ (l.found = none → l.passed = keys) := by
  induction keys generalizing i key l with
  | nil =>
    obtain rfl := Option.some.inj h
    exact ⟨List.prefix_refl _, fun _ => rfl⟩
  | cons k ks ih =>
    rw [checkKeys] at h
    split at h
    · cases h
    · obtain rfl := Option.some.inj h
      exact ⟨⟨ks, rfl⟩, by simp⟩
    · obtain ⟨l', hl', rfl⟩ := Option.map_eq_some_iff.mp h
      obtain ⟨hp, hn⟩ := ih hl'
      exact ⟨List.prefix_cons_inj k |>.mpr hp, fun hf => congrArg (k :: ·) (hn hf)⟩

theorem telexTagGetKey_passed {clientHello : List Keys.Byte}
    (h : telexTagGetKey sha junk keys key clientHello context = some l) : l.passed <+: keys := by
  rw [telexTagGetKey] at h
  split at h
  · exact (checkKeys_passed h).1
  · obtain rfl := Option.some.inj h
    exact List.nil_prefix

/-- The bytes of a `struct telex_priv_keys`. -/
def entry (k : TelexPrivKeys) : List Keys.Byte :=
  List.ofFn k.key ++ [k.port.setWidth 8, (k.port >>> 8).setWidth 8]

/-- The number of keys that a file announces. -/
def announced : List Keys.Byte → ℕ
  | low :: high :: _ => (uint16 low high).toNat
  | _ => 0

/-- The bytes of the `i`th key in a file. -/
def fileEntry (bytes : List Keys.Byte) (i : ℕ) : List Keys.Byte :=
  (bytes.drop (2 + 23 * i)).take 23

/-- A file is taken only if it is complete, and the keys that `telex_tag_get_key` then passes to
    `check_tag` are those of the file; a shorter file ends the program. -/
structure OnlyComplete (heap : ℕ → Keys.Byte) (net : Network) (bytes : List Keys.Byte) : Prop where
  complete : ∀ keys, start heap net (some bytes) = .ok keys →
    2 + 23 * announced bytes ≤ bytes.length ∧ keys.length = announced bytes ∧
    (∀ i (hi : i < keys.length), entry keys[i] = fileEntry bytes i) ∧
    ∀ sha junk key clientHello context l,
      telexTagGetKey sha junk keys key clientHello context = some l → l.passed <+: keys
  shorter : bytes.length < 2 + 23 * announced bytes → ∃ e, start heap net (some bytes) = .error e

theorem entry_keyAt (mem : ℕ → Keys.Byte) : entry (keyAt mem) = List.ofFn fun j : Fin 23 => mem j := by
  have hlow : (uint16 (mem 21) (mem 22)).setWidth 8 = mem 21 := by
    have h := (mem 21).isLt
    apply BitVec.eq_of_toNat_eq
    rw [BitVec.toNat_setWidth, uint16_toNat]
    omega
  have hhigh : (uint16 (mem 21) (mem 22) >>> 8).setWidth 8 = mem 22 := by
    have h := (mem 21).isLt
    have h' := (mem 22).isLt
    apply BitVec.eq_of_toNat_eq
    rw [BitVec.toNat_setWidth, BitVec.toNat_ushiftRight, uint16_toNat, Nat.shiftRight_eq_div_pow]
    omega
  rw [entry, keyAt, hlow, hhigh]
  exact (List.ofFn_fin_append _ ![mem 21, mem 22]).symm.trans
    (List.ofFn_inj.mpr (funext fun j => by fin_cases j <;> rfl))

/-- An entry that is in the file whole is read as it is there. -/
theorem entry_keyList (low high : Keys.Byte) {bytes : List Keys.Byte} {n i : ℕ}
    (heap : ℕ → Keys.Byte) (hn : 23 * n ≤ bytes.length) (hi : i < n) :
    entry (keyAt fun j => fread (bytes.take (23 * n)) heap (23 * i + j)) =
      fileEntry (low :: high :: bytes) i := by
  rw [entry_keyAt, fileEntry]
  apply List.ext_getElem
  · simp only [List.length_ofFn, List.length_take, List.length_drop, List.length_cons]
    omega
  · intro j hj _
    rw [List.length_ofFn] at hj
    have hlt : 23 * i + j < (bytes.take (23 * n)).length := by rw [List.length_take]; omega
    have hidx : 2 + 23 * i + j = 23 * i + j + 1 + 1 := by omega
    simp only [List.getElem_ofFn, List.getElem_take, List.getElem_drop, fread,
      List.getD_eq_getElem _ _ hlt, hidx, List.getElem_cons_succ]

/-- Only `getaddrinfo` has a negative error. -/
theorem telexConnectToFlowBlocker_neg_iff {net : Network} :
    telexConnectToFlowBlocker net < 0 ↔ net.getaddrinfo < 0 := by
  rw [telexConnectToFlowBlocker]
  split
  · rfl
  · next h0 =>
    rw [not_ne_iff.mp h0]
    split
    · next errno _ => exact iff_of_false (not_lt.mpr errno.pos.le) (lt_irrefl 0)
    · split
      · next errno _ => exact iff_of_false (not_lt.mpr errno.pos.le) (lt_irrefl 0)
      · exact iff_of_false (not_lt.mpr (Int.natCast_nonneg _)) (lt_irrefl 0)

theorem start_ok_iff {heap : ℕ → Keys.Byte} {net : Network} {file : Option (List Keys.Byte)} :
    start heap net file = .ok keys ↔
      (net.rawSock = true ∧ ¬net.getaddrinfo < 0) ∧ telexInit heap file = .ok keys := by
  rw [start, ← telexConnectToFlowBlocker_neg_iff]
  cases telexInit heap file with
  | error e => simp
  | ok keys' => cases net.rawSock <;> by_cases hc : telexConnectToFlowBlocker net < 0 <;> simp [hc]

/-- `telex_init` takes every file with one whole key. -/
theorem telexInit_ok_iff {heap : ℕ → Keys.Byte} {bytes : List Keys.Byte} :
    telexInit heap (some bytes) = .ok keys ↔
      (0 < announced bytes ∧ 25 ≤ bytes.length) ∧
      keys = keyList (fread ((bytes.drop 2).take (23 * announced bytes)) heap) (announced bytes) := by
  match bytes with
  | [] => simp [telexInit, announced]
  | [_] => simp [telexInit, announced]
  | low :: high :: bytes =>
    simp only [telexInit, announced, List.length_cons, List.drop_succ_cons, List.drop_zero]
    split
    · simp only [reduceCtorEq, false_iff]
      omega
    · rw [Except.ok.injEq, eq_comm, and_iff_right (by omega)]

/-- The files `telex_init` treats rightly are those that hold all the keys they announce, and those that
    do not hold even one. -/
theorem only_complete_iff (heap : ℕ → Keys.Byte) (net : Network) (bytes : List Keys.Byte) :
    OnlyComplete heap net bytes ↔ net.rawSock = false ∨ net.getaddrinfo < 0 ∨
      bytes.length < 25 ∨ 2 + 23 * announced bytes ≤ bytes.length := by
  constructor
  · intro h
    by_contra hbad
    rw [not_or, not_or, not_or, Bool.not_eq_false, not_lt (a := bytes.length), not_le] at hbad
    obtain ⟨hs, hf, hone, hshort⟩ := hbad
    obtain ⟨e, he⟩ := h.shorter hshort
    have hok : ∃ keys, start heap net (some bytes) = .ok keys :=
      ⟨_, start_ok_iff.mpr ⟨⟨hs, hf⟩, telexInit_ok_iff.mpr ⟨⟨by omega, hone⟩, rfl⟩⟩⟩
    obtain ⟨keys, hk⟩ := hok
    rw [hk] at he
    cases he
  · intro h
    have hlen : ∀ keys, start heap net (some bytes) = .ok keys →
        2 + 23 * announced bytes ≤ bytes.length := by
      intro keys hk
      obtain ⟨⟨hs, hf⟩, hk⟩ := start_ok_iff.mp hk
      obtain ⟨⟨_, hone⟩, _⟩ := telexInit_ok_iff.mp hk
      rcases h with h | h | h | h
      · simp [hs] at h
      · exact absurd h hf
      · omega
      · exact h
    constructor
    · intro keys hk
      have hn := hlen keys hk
      obtain ⟨_, hk⟩ := start_ok_iff.mp hk
      obtain ⟨⟨h0, hone⟩, rfl⟩ := telexInit_ok_iff.mp hk
      refine ⟨hn, by simp [keyList], ?_, fun _ _ _ _ _ _ => telexTagGetKey_passed⟩
      intro i hi
      rcases bytes with _ | ⟨low, _ | ⟨high, bytes⟩⟩
      · rw [List.length_nil] at hone
        omega
      · rw [List.length_singleton] at hone
        omega
      · simp only [keyList, List.length_ofFn, List.length_cons, List.getElem_ofFn,
          List.drop_succ_cons, List.drop_zero] at hi hn ⊢
        exact entry_keyList low high heap (by omega) hi
    · intro hshort
      cases hs : start heap net (some bytes) with
      | error e => exact ⟨e, rfl⟩
      | ok keys => exact absurd (hlen keys hs) (by omega)

/-- A network on which every call succeeds. -/
def sampleNetwork : Network := ⟨true, 0, .ok 4, none⟩

/-- Two keys are announced and the file ends after the first. -/
theorem truncated_file_taken : ∃ keys,
    start (fun _ => 0) sampleNetwork (some (2 :: 0 :: List.replicate 23 7)) = .ok keys ∧
    keys.map entry = [List.replicate 23 7, List.replicate 23 0] ∧
    ¬OnlyComplete (fun _ => 0) sampleNetwork (2 :: 0 :: List.replicate 23 7) := by
  refine ⟨_, start_ok_iff.mpr ⟨⟨rfl, by decide⟩, telexInit_ok_iff.mpr ⟨by decide, rfl⟩⟩, by decide, ?_⟩
  intro h
  obtain ⟨e, he⟩ := h.shorter (by decide)
  cases he

end Telex.KeyFile
