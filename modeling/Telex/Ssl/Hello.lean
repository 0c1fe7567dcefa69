import Telex.Lib.Binary
import Telex.Tcp.Checksum

/-! The hellos of the handshake: `ssl-protocol.pac` and `ssl-analyzer.pac`

    The analyzer parses the hellos of both versions of the protocol and hands each to one of two
    handlers, which build the 32 bytes of a client or server random from a time and a field of the
    message. That field has 28 bytes in version 3; in version 2 it is the challenge or the connection
    identifier, whose length is in the message, and the time is zero.

    A `bytestring` of a parsed message is a copy of its bytes with a zero behind them. The `&check`s of
    the grammar are not modelled: this binpac makes no code of them. Of a `&requires` it only makes an
    order: a handler runs after `state_changed` was computed, whatever that came to. What the handlers
    report of a message out of place or of an odd version is left out; they go on after it. -/

namespace Telex.Ssl
open Bro (Byte)
open Tcp (le32 htonl written)
open Binary (Parser bytes available uint8 uint16 uint24 uint32 array)

structure ClientHello where
  clientVersion : BitVec 16
  gmtUnixTime : BitVec 32
  randomBytes : List Byte
  sessionId : List Byte
  csuits : List (BitVec 16)
  cmeths : List Byte
  deriving DecidableEq

structure V2ClientHello where
  clientVersion : BitVec 16
  ciphers : List (BitVec 24)
  sessionId : List Byte
  challenge : List Byte
  deriving DecidableEq

structure ServerHello where
  serverVersion : BitVec 16
  gmtUnixTime : BitVec 32
  randomBytes : List Byte
  sessionId : List Byte
  cipherSuite : List (BitVec 16)
  compressionMethod : Byte
  deriving DecidableEq

structure V2ServerHello where
  sessionIdHit : Byte
  certType : Byte
  serverVersion : BitVec 16
  certData : List Byte
  ciphers : List (BitVec 24)
  connIdData : List Byte
  deriving DecidableEq

/-! ### The grammar -/

def clientHello : Parser ClientHello := do
  let clientVersion ← uint16
  let gmtUnixTime ← uint32
  let randomBytes ← bytes 28
  let sessionLen ← uint8
  let sessionId ← array uint8 sessionLen.toNat
  let csuitLen ← uint16
  let csuits ← array uint16 (csuitLen.toNat / 2)
  let cmethLen ← uint8
  let cmeths ← array uint8 cmethLen.toNat
  return { clientVersion, gmtUnixTime, randomBytes, sessionId, csuits, cmeths }

def v2ClientHello : Parser V2ClientHello := do
  let clientVersion ← uint16
  let csuitLen ← uint16
  let sessionLen ← uint16
  let chalLen ← uint16
  let _ ← available (csuitLen.toNat + sessionLen.toNat + chalLen.toNat)
  let ciphers ← array uint24 (csuitLen.toNat / 3)
  let sessionId ← array uint8 sessionLen.toNat
  let challenge ← bytes chalLen.toNat
  return { clientVersion, ciphers, sessionId, challenge }

def serverHello : Parser ServerHello := do
  let serverVersion ← uint16
  let gmtUnixTime ← uint32
  let randomBytes ← bytes 28
  let sessionLen ← uint8
  let sessionId ← array uint8 sessionLen.toNat
  let cipherSuite ← array uint16 1
  let compressionMethod ← uint8
  return { serverVersion, gmtUnixTime, randomBytes, sessionId, cipherSuite, compressionMethod }

def v2ServerHello : Parser V2ServerHello := do
  let sessionIdHit ← uint8
  let certType ← uint8
  let serverVersion ← uint16
  let certLen ← uint16
  let ciphLen ← uint16
  let connIdLen ← uint16
  let _ ← available (certLen.toNat + ciphLen.toNat + connIdLen.toNat)
  let certData ← bytes certLen.toNat
  let ciphers ← array uint24 (ciphLen.toNat / 3)
  let connIdData ← bytes connIdLen.toNat
  return { sessionIdHit, certType, serverVersion, certData, ciphers, connIdData }

/-- The four messages. -/
inductive Hello
  | client (m : ClientHello)
  | v2Client (m : V2ClientHello)
  | server (m : ServerHello)
  | v2Server (m : V2ServerHello)
  deriving DecidableEq

/-- What selects the grammar: the type of the record and, in version 3, of the handshake message. -/
inductive Kind
  | client
  | v2Client
  | server
  | v2Server
  deriving DecidableEq

/-- The message that the grammar makes of the bytes, if it accepts them. -/
def parse (kind : Kind) (msg : List Byte) : Option Hello :=
  match kind with
  | .client => (clientHello msg).map fun r => .client r.1
  | .v2Client => (v2ClientHello msg).map fun r => .v2Client r.1
  | .server => (serverHello msg).map fun r => .server r.1
  | .v2Server => (v2ServerHello msg).map fun r => .v2Server r.1

/-! ### The analyzer -/

inductive AnalyzerState
  | initial
  | clientHelloRcvd
  | inServerHello
  | serverHelloDone
  | clientCert
  | clientKeyWithCert
  | clientKeyNoCert
  | clientCertVerified
  | clientEncrypted
  | clientFinished
  | abbrevServerEncrypted
  | abbrevServerFinished
  | commEncrypted
  | connEstablished
  | v2ClMasterKeyExpected
  | trackLost
  | any
  deriving DecidableEq

/-- The members of `SSLAnalyzer` that decide what is done with a hello. -/
structure Analyzer where
  currentRecordIsOrig : Bool
  state : AnalyzerState
  oldState : AnalyzerState
  helloRequested : Bool
  deriving DecidableEq

def Analyzer.transition (a : Analyzer) (olds news : AnalyzerState) (isOrig : Bool) : Bool × Analyzer :=
  if (olds ≠ .any ∧ olds ≠ a.state) ∨ a.currentRecordIsOrig ≠ isOrig then (false, a)
  else (true, { a with oldState := a.state, state := news })

def Analyzer.lostTrack (a : Analyzer) : Bool × Analyzer := (false, { a with state := .trackLost })

/-- `||` of two calls. -/
def orElse (r : Bool × Analyzer) (f : Analyzer → Bool × Analyzer) : Bool × Analyzer :=
  if r.1 then r else f r.2

/-- `hello_requested() && transition(STATE_ANY, STATE_CLIENT_HELLO_RCVD, true)` -/
def Analyzer.requested (a : Analyzer) : Bool × Analyzer :=
  if a.helloRequested then
    { a with helloRequested := false }.transition .any .clientHelloRcvd true
  else (false, a)

/-- `state_changed` of a message. -/
def Analyzer.stateChanged (a : Analyzer) : Hello → Bool × Analyzer
  | .client _ | .v2Client _ =>
    orElse (a.transition .initial .clientHelloRcvd true) fun a =>
      orElse a.requested Analyzer.lostTrack
  | .server _ => orElse (a.transition .clientHelloRcvd .inServerHello false) Analyzer.lostTrack
  | .v2Server m =>
    orElse (if 0 < m.sessionIdHit.toNat then a.transition .clientHelloRcvd .connEstablished false
      else a.transition .clientHelloRcvd .v2ClMasterKeyExpected false) Analyzer.lostTrack

/-- What a handler builds: the random, and the offsets in the field that `memcpy` read for it. -/
structure Built where
  random : List Byte
  reads : List ℕ
  deriving DecidableEq

/-- The random of `proc_client_hello` and `proc_server_hello`; `beyond` is the memory from the start of
    the field's copy on. -/
def build (beyond : ℕ → Byte) (gmtUnixTime : BitVec 32) (randomBytes : List Byte) : Built where
  random := le32 (htonl gmtUnixTime) ++ (List.range 28).map (written (randomBytes ++ [0]) beyond)
  reads := List.range 28

/-- The time and the field that a message hands to its handler. -/
def Hello.args : Hello → BitVec 32 × List Byte
  | .client m => (m.gmtUnixTime, m.randomBytes)
  | .v2Client m => (0, m.challenge)
  | .server m => (m.gmtUnixTime, m.randomBytes)
  | .v2Server m => (0, m.connIdData)

/-- The field. -/
def Hello.field (h : Hello) : List Byte := h.args.2

def Hello.IsV3 : Hello → Prop
  | .client _ | .server _ => True
  | .v2Client _ | .v2Server _ => False

/-- The `let` fields of a message: the state moves on or the track is lost, and the handler runs. -/
def process (beyond : ℕ → Byte) (a : Analyzer) (h : Hello) : Built × Analyzer :=
  (build beyond h.args.1 h.args.2, (a.stateChanged h).2)

/-! ### The client -/

/-- `tag_context` of `ssl_new_telex`, at the time `t`. -/
def tagContext (serverIp t : BitVec 32) : List Byte := le32 serverIp ++ le32 (htonl t) ++ [0]

/-- `telex_client_random` -/
def telexClientRandom (t : BitVec 32) (tag : List Byte) : List Byte := le32 (htonl t) ++ tag

/-! ### Where the bytes are -/

variable {msg : List Byte}

/-- The random that the handler of the message `h` builds is as it should be: no byte beyond the field is
    read, the field is part of the message, and in version 3 the random is the one on the wire, so that
    it starts with the time in the client's context and ends with the tag. -/
structure Good (msg : List Byte) (h : Hello) (b : Built) : Prop where
  inside : ∀ i ∈ b.reads, i < h.field.length
  part : h.field <:+: msg
  wire : h.IsV3 → b.random = (msg.drop 2).take 32
  tag : h.IsV3 → ∀ serverIp t tag, (msg.drop 2).take 32 = telexClientRandom t tag →
    b.random.take 4 = ((tagContext serverIp t).drop 4).take 4 ∧ b.random.drop 4 = tag

/-- Whatever the grammar makes of `msg`, what is built of it is good. -/
def Safe (kind : Kind) (msg : List Byte) (a : Analyzer) : Prop :=
  ∀ h, parse kind msg = some h → ∀ beyond, Good msg h (process beyond a h).1

theorem htonl_bytes (a b c d : Byte) : le32 (htonl (a ++ b ++ c ++ d)) = [a, b, c, d] := by
  have h1 := Tcp.setWidth_shift_append (a ++ b ++ c) d
  have h2 := Tcp.setWidth_shift_append (a ++ b) c
  have h3 := Tcp.setWidth_shift_append a b
  rw [Tcp.le32_htonl, Tcp.setWidth_append_byte, h1 0, h1 8, h1 16, h2 0, h2 8, h3 0]
  simp only [BitVec.ushiftRight_zero, Tcp.setWidth_append_byte, BitVec.setWidth_eq]

/-- The first bytes of a field that is long enough. -/
theorem map_written {n : ℕ} {l : List Byte} (h : n ≤ l.length) (beyond : ℕ → Byte) :
    (List.range n).map (written (l ++ [0]) beyond) = l.take n := by
  apply List.ext_getElem
  · simp [h]
  · intro i hi _
    rw [List.length_map, List.length_range] at hi
    rw [List.getElem_map, List.getElem_range, Tcp.written_append_of_lt (by omega),
      Tcp.written_of_lt (by omega), List.getElem_take]

/-- A time and 28 bytes behind a version number. -/
def Randomized (msg : List Byte) (gmtUnixTime : BitVec 32) (randomBytes : List Byte) : Prop :=
  ∃ v w a b c d rest, msg = v :: w :: a :: b :: c :: d :: (randomBytes ++ rest) ∧
    gmtUnixTime = a ++ b ++ c ++ d ∧ randomBytes.length = 28

theorem Randomized.part {t : BitVec 32} {r : List Byte} (h : Randomized msg t r) : r <:+: msg := by
  obtain ⟨v, w, a, b, c, d, rest, rfl, _, _⟩ := h
  exact ⟨[v, w, a, b, c, d], rest, rfl⟩

/-- The random is the one on the wire. -/
theorem Randomized.random {t : BitVec 32} {r : List Byte} (h : Randomized msg t r)
    (beyond : ℕ → Byte) : (build beyond t r).random = (msg.drop 2).take 32 := by
  obtain ⟨v, w, a, b, c, d, rest, rfl, rfl, hlen⟩ := h
  have htake : (r ++ rest).take 28 = r.take 28 := by
    rw [List.take_append_of_le_length hlen.ge]
  rw [build, htonl_bytes, map_written hlen.ge, ← htake]
  rfl

/-- Both hellos of version 3 start so. -/
theorem randomized_of_bind {α : Type} {f : BitVec 16 → BitVec 32 → List Byte → Parser α} {m : α}
    {rest : List Byte}
    (h : (uint16 >>= fun v => uint32 >>= fun t => bytes 28 >>= fun r => f v t r) msg = some (m, rest)) :
    ∃ v t r mid, Randomized msg t r ∧ f v t r mid = some (m, rest) := by
  obtain ⟨v, _, hv, h⟩ := Binary.bind_eq_some.mp h
  obtain ⟨t, _, ht, h⟩ := Binary.bind_eq_some.mp h
  obtain ⟨r, mid, hr, hf⟩ := Binary.bind_eq_some.mp h
  obtain ⟨b0, b1, rfl, _⟩ := Binary.uint16_eq_some.mp hv
  obtain ⟨a, b, c, d, rfl, rfl⟩ := Binary.uint32_eq_some.mp ht
  obtain ⟨rfl, hlen⟩ := Binary.bytes_eq_some.mp hr
  exact ⟨v, _, r, mid, ⟨b0, b1, a, b, c, d, mid, rfl, rfl, hlen⟩, hf⟩

theorem clientHello_spec {m : ClientHello} {rest : List Byte} (h : clientHello msg = some (m, rest)) :
    Randomized msg m.gmtUnixTime m.randomBytes := by
  obtain ⟨_, t, r, mid, hr, h⟩ := randomized_of_bind h
  have hfields : m.gmtUnixTime = t ∧ m.randomBytes = r := by
    refine Binary.returns_bind (P := fun m => m.gmtUnixTime = t ∧ m.randomBytes = r) (fun _ => ?_) h
    refine Binary.returns_bind fun _ => Binary.returns_bind fun _ => Binary.returns_bind fun _ => ?_
    refine Binary.returns_bind fun _ => Binary.returns_bind fun _ => ?_
    exact Binary.returns_pure ⟨rfl, rfl⟩
  rw [hfields.1, hfields.2]
  exact hr

theorem serverHello_spec {m : ServerHello} {rest : List Byte} (h : serverHello msg = some (m, rest)) :
    Randomized msg m.gmtUnixTime m.randomBytes := by
  obtain ⟨_, t, r, mid, hr, h⟩ := randomized_of_bind h
  have hfields : m.gmtUnixTime = t ∧ m.randomBytes = r := by
    refine Binary.returns_bind (P := fun m => m.gmtUnixTime = t ∧ m.randomBytes = r) (fun _ => ?_) h
    refine Binary.returns_bind fun _ => Binary.returns_bind fun _ => Binary.returns_bind fun _ => ?_
    exact Binary.returns_pure ⟨rfl, rfl⟩
  rw [hfields.1, hfields.2]
  exact hr

theorem v2ClientHello_spec {m : V2ClientHello} {rest : List Byte}
    (h : v2ClientHello msg = some (m, rest)) : m.challenge <:+: msg := by
  obtain ⟨_, _, h1, h⟩ := Binary.bind_eq_some.mp h
  obtain ⟨_, _, h2, h⟩ := Binary.bind_eq_some.mp h
  obtain ⟨_, _, h3, h⟩ := Binary.bind_eq_some.mp h
  obtain ⟨_, _, h4, h⟩ := Binary.bind_eq_some.mp h
  obtain ⟨_, _, h5, h⟩ := Binary.bind_eq_some.mp h
  obtain ⟨_, _, h6, h⟩ := Binary.bind_eq_some.mp h
  obtain ⟨_, mid, h7, h⟩ := Binary.bind_eq_some.mp h
  obtain ⟨_, _, hc, h⟩ := Binary.bind_eq_some.mp h
  obtain ⟨rfl, _⟩ := Binary.pure_eq_some.mp h
  have lengths := ((Binary.front_uint16 h4).trans (Binary.front_uint16 h3)).trans
    ((Binary.front_uint16 h2).trans (Binary.front_uint16 h1))
  have fields := (Binary.front_array Binary.front_uint8 _ h7).trans
    ((Binary.front_array Binary.front_uint24 _ h6).trans (Binary.front_available _ h5))
  exact Binary.infix_of_bytes (fields.trans lengths) hc

theorem v2ServerHello_spec {m : V2ServerHello} {rest : List Byte}
    (h : v2ServerHello msg = some (m, rest)) : m.connIdData <:+: msg := by
  obtain ⟨_, _, h1, h⟩ := Binary.bind_eq_some.mp h
  obtain ⟨_, _, h2, h⟩ := Binary.bind_eq_some.mp h
  obtain ⟨_, _, h3, h⟩ := Binary.bind_eq_some.mp h
  obtain ⟨_, _, h4, h⟩ := Binary.bind_eq_some.mp h
  obtain ⟨_, _, h5, h⟩ := Binary.bind_eq_some.mp h
  obtain ⟨_, _, h6, h⟩ := Binary.bind_eq_some.mp h
  obtain ⟨_, _, h7, h⟩ := Binary.bind_eq_some.mp h
  obtain ⟨_, _, h8, h⟩ := Binary.bind_eq_some.mp h
  obtain ⟨_, mid, h9, h⟩ := Binary.bind_eq_some.mp h
  obtain ⟨_, _, hc, h⟩ := Binary.bind_eq_some.mp h
  obtain ⟨rfl, _⟩ := Binary.pure_eq_some.mp h
  have types := (Binary.front_uint16 h3).trans ((Binary.front_uint8 h2).trans (Binary.front_uint8 h1))
  have lengths := (Binary.front_uint16 h6).trans
    ((Binary.front_uint16 h5).trans (Binary.front_uint16 h4))
  have fields := (Binary.front_array Binary.front_uint24 _ h9).trans
    ((Binary.front_bytes _ h8).trans (Binary.front_available _ h7))
  exact Binary.infix_of_bytes (fields.trans (lengths.trans types)) hc

/-- What the grammar says of a message: the field is in it, and in version 3 it is where the random
    is. -/
theorem parse_spec {kind : Kind} {h : Hello} (hp : parse kind msg = some h) :
    h.field <:+: msg ∧ (h.IsV3 → Randomized msg h.args.1 h.args.2) := by
  cases kind with
  | client =>
    obtain ⟨⟨m, rest⟩, hm, rfl⟩ := Option.map_eq_some_iff.mp hp
    have hr := clientHello_spec hm
    exact ⟨hr.part, fun _ => hr⟩
  | v2Client =>
    obtain ⟨⟨m, rest⟩, hm, rfl⟩ := Option.map_eq_some_iff.mp hp
    exact ⟨v2ClientHello_spec hm, False.elim⟩
  | server =>
    obtain ⟨⟨m, rest⟩, hm, rfl⟩ := Option.map_eq_some_iff.mp hp
    have hr := serverHello_spec hm
    exact ⟨hr.part, fun _ => hr⟩
  | v2Server =>
    obtain ⟨⟨m, rest⟩, hm, rfl⟩ := Option.map_eq_some_iff.mp hp
    exact ⟨v2ServerHello_spec hm, False.elim⟩

/-! ### What the handlers build -/

theorem build_inside {beyond : ℕ → Byte} {t : BitVec 32} {field : List Byte} :
    (∀ i ∈ (build beyond t field).reads, i < field.length) ↔ 28 ≤ field.length := by
  constructor
  · intro h
    exact h 27 (List.mem_range.mpr (by omega))
  · intro h i hi
    exact (List.mem_range.mp hi).trans_le h

/-- The random of a client that put its tag there. -/
theorem tagged {random : List Byte} {serverIp t : BitVec 32} {tag : List Byte}
    (h : random = telexClientRandom t tag) :
    random.take 4 = ((tagContext serverIp t).drop 4).take 4 ∧ random.drop 4 = tag := by
  subst h
  exact ⟨rfl, rfl⟩

theorem good_of_length {kind : Kind} {h : Hello} (hp : parse kind msg = some h)
    (hlen : 28 ≤ h.field.length) (beyond : ℕ → Byte) :
    Good msg h (build beyond h.args.1 h.args.2) := by
  obtain ⟨hpart, hv3⟩ := parse_spec hp
  exact ⟨build_inside.mpr hlen, hpart, fun h3 => (hv3 h3).random beyond,
    fun h3 serverIp t tag hw => tagged ((hv3 h3).random beyond ▸ hw)⟩

/-- The handlers read 28 bytes of the field, whatever its length: they are right of every hello of
    version 3, and of one of version 2 only when its challenge or connection identifier is that long. -/
theorem safe_iff (kind : Kind) (msg : List Byte) (a : Analyzer) :
    Safe kind msg a ↔ ∀ h, parse kind msg = some h → h.IsV3 ∨ 28 ≤ h.field.length := by
  constructor
  · intro hs h hp
    right
    have good := hs h hp fun _ => 0
    exact build_inside.mp good.inside
  · intro hcond h hp beyond
    apply good_of_length hp
    rcases hcond h hp with h3 | hlen
    · obtain ⟨_, _, _, _, _, _, _, _, _, h28⟩ := (parse_spec hp).2 h3
      exact h28.ge
    · exact hlen

/-- A hello of version 2 with the usual challenge of 16 bytes, the first of its connection. -/
theorem short_challenge_read_beyond :
    ¬ Safe .v2Client
      ([0x00, 0x02, 0x00, 0x03, 0x00, 0x00, 0x00, 0x10, 0x01, 0x00, 0x80] ++ List.replicate 16 0xaa)
      ⟨true, .initial, .initial, false⟩ := by
  intro hs
  have good := hs (.v2Client ⟨2, [0x010080], [], List.replicate 16 0xaa⟩) (by decide) fun _ => 0
  exact absurd (build_inside.mp good.inside) (by decide)

end Telex.Ssl
