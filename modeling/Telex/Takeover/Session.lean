import Mathlib.Data.Nat.Size
import Telex.Lib.Cbc
import Telex.Takeover.Transcript

/-! The session that bronnect takes over

    The client draws its Diffie-Hellman key from the secret of its tag, and the station, which finds the
    same secret in the tag, draws the same key. With what Bro saw of the handshake bronnect builds an SSL
    object as the server would have it after the Finished messages: keys from the key block, one record
    behind each sequence number, and the last ciphertext block of each direction as its initialization
    vector. It is the mirror image of the client's, so the two go on in the server's place.

    All this is for one cipher suite. The client takes the suite that the server chooses, the policy does
    not look at it, and bronnect always builds its object for DHE-RSA-AES256-SHA without compression. -/

namespace Telex.Takeover
open Runs Bro
open Packed (Bytes bytesOf)

/-- What the two programs call of OpenSSL. A record goes out as the blocks that `pack` makes of its
    contents, with the MAC and the padding, in AES-256-CBC. -/
structure Openssl where
  hmac : Str → Str → Bytes 32
  dhComputeKey : ℕ → ℕ → ℕ → Option Str
  tls1GenerateMasterSecret : Str → Str → Str → Str
  tls1SetupKeyBlock : Str → Str → Str → Bytes 136
  aes : Cbc.Cipher (Bytes 32) (Bytes 16)
  pack : Bytes 20 → BitVec 64 → Byte → Str → List (Bytes 16)
  unpack : Bytes 20 → BitVec 64 → Byte → List (Bytes 16) → Option Str
  pack_ne_nil : ∀ mac n typ x, pack mac n typ x ≠ []
  unpack_pack : ∀ mac n typ x, x.length ≤ 16384 → unpack mac n typ (pack mac n typ x) = some x

/-! ### The private key -/

def uniq : Str := "Telex PRG".toList.map fun c => BitVec.ofNat 8 c.toNat

/-- The rounds of the generator from `i` on, each keyed with the secret. -/
def prg (hmac : Str → Str → Bytes 32) (secret : Str) : ℕ → ℕ → Str → Str
  | 0, _, _ => []
  | n + 1, i, out =>
    let out := (hmac (secret.take 16) (out ++ uniq ++ bytesOf 4 i)).1
    out ++ prg hmac secret n (i + 1) out

/-- `telex_ssl_get_dh_key`, of the client and of the station -/
def telexSslGetDhKey (hmac : Str → Str → Bytes 32) (secret : Str) : ℕ :=
  bnBin2bn ((prg hmac secret 4 0 []).modify 0 fun b => (b ||| 0x40#8) &&& 0x7f#8)

theorem length_prg (hmac : Str → Str → Bytes 32) (secret : Str) (n i : ℕ) (out : Str) :
    (prg hmac secret n i out).length = 32 * n := by
  induction n generalizing i out with
  | zero => rfl
  | succ n ih =>
    rw [prg, List.length_append, ih, (hmac _ _).2]
    ring

theorem bnBin2bn_cons (b : Byte) (bs : Str) :
    bnBin2bn (b :: bs) = b.toNat * 256 ^ bs.length + bnBin2bn bs := by
  rw [bnBin2bn, LittleEndian.value, List.reverse_cons, List.map_append, Nat.ofDigits_append,
    List.length_map, List.length_reverse, bnBin2bn, LittleEndian.value]
  simp
  ring

theorem bnBin2bn_lt (bs : Str) : bnBin2bn bs < 256 ^ bs.length := by
  have h := LittleEndian.value_lt bs.reverse
  rwa [List.length_reverse] at h

theorem top_byte (b : Byte) : 64 ≤ ((b ||| 0x40#8) &&& 0x7f#8).toNat ∧
    ((b ||| 0x40#8) &&& 0x7f#8).toNat < 128 := by
  revert b
  decide

theorem size_top {t v n : ℕ} (hlo : 64 ≤ t) (hhi : t < 128) (hv : v < 256 ^ n) :
    (t * 256 ^ n + v).size = 8 * n + 7 := by
  have hpow : (2 : ℕ) ^ (8 * n) = 256 ^ n := pow_mul 2 8 n
  have hupper : t * 256 ^ n + v < 2 ^ (8 * n + 7) := by
    calc t * 256 ^ n + v < (t + 1) * 256 ^ n := by rw [add_mul, one_mul]; omega
      _ ≤ 128 * 256 ^ n := Nat.mul_le_mul_right _ hhi
      _ = 2 ^ (8 * n + 7) := by rw [pow_add, hpow]; ring
  have hlower : 2 ^ (8 * n + 6) ≤ t * 256 ^ n + v := by
    calc 2 ^ (8 * n + 6) = 64 * 256 ^ n := by rw [pow_add, hpow]; ring
      _ ≤ t * 256 ^ n := Nat.mul_le_mul_right _ hlo
      _ ≤ t * 256 ^ n + v := Nat.le_add_right _ _
  exact le_antisymm (Nat.size_le.mpr hupper) (Nat.lt_size.mpr hlower)

/-- The private key has 1023 bits, whatever the secret. -/
theorem dh_key_size (hmac : Str → Str → Bytes 32) (secret : Str) :
    (telexSslGetDhKey hmac secret).size = 1023 := by
  have hlen := length_prg hmac secret 4 0 []
  rw [telexSslGetDhKey]
  cases hb : prg hmac secret 4 0 [] with
  | nil =>
    rw [hb] at hlen
    cases hlen
  | cons b bs =>
    rw [hb, List.length_cons] at hlen
    have hbs : 8 * bs.length + 7 = 1023 := by omega
    obtain ⟨hlo, hhi⟩ := top_byte b
    rw [List.modify_zero_cons, bnBin2bn_cons, size_top hlo hhi (bnBin2bn_lt bs), hbs]

/-! ### SSL objects -/

/-- What an SSL object keeps for one direction. -/
structure Direction where
  macSecret : Bytes 20
  key : Bytes 32
  iv : Bytes 16
  sequence : BitVec 64
  deriving DecidableEq

/-- An SSL object, as far as records are concerned. -/
structure Ssl where
  read : Direction
  write : Direction
  deriving DecidableEq

/-- The parts of the key block for what the client writes. -/
def clientKeys (keyBlock : Bytes 136) : Direction :=
  ⟨Packed.take 20 keyBlock.1, Packed.take 32 (keyBlock.1.drop 40), Packed.take 16 (keyBlock.1.drop 104), 0⟩

/-- The parts of the key block for what the server writes. -/
def serverKeys (keyBlock : Bytes 136) : Direction :=
  ⟨Packed.take 20 (keyBlock.1.drop 20), Packed.take 32 (keyBlock.1.drop 72),
    Packed.take 16 (keyBlock.1.drop 120), 0⟩

variable (L : Openssl)

/-- The key block of a premaster secret and the two randoms. -/
def keyBlock (premaster clientRandom serverRandom : Str) : Bytes 136 :=
  L.tls1SetupKeyBlock (L.tls1GenerateMasterSecret premaster clientRandom serverRandom) clientRandom
    serverRandom

/-- `switch_to_telex_crypto`, on the SSL object of `get_live_ssl_obj` -/
def switchToTelexCrypto (secret clientRandom serverRandom : Str) (isServer : Bool) : Ssl :=
  let block := keyBlock L secret clientRandom serverRandom
  let write := if isServer then serverKeys block else clientKeys block
  let read := if isServer then clientKeys block else serverKeys block
  ⟨{ read with sequence := 1 }, { write with sequence := 1 }⟩

def telexGetSharedSecret (clientDhPrivKey p serverDhPubKey : ℕ) : Option Str :=
  L.dhComputeKey serverDhPubKey clientDhPrivKey p

/-- The SSL object that `on_telex_read` makes of an init record; there is none if the shared secret
    cannot be computed. -/
def leakedSsl (l : Leaked) : Option Ssl := do
  let clientPriv := telexSslGetDhKey L.hmac l.sharedSecret
  let secret ← telexGetSharedSecret L clientPriv l.dhP l.srvrPubKey
  let ssl := switchToTelexCrypto L secret l.clientRandom l.serverRandom true
  return ⟨{ ssl.read with iv := Packed.take 16 l.clientIv },
    { ssl.write with iv := Packed.take 16 l.serverIv }⟩

/-! ### Records -/

/-- What is kept after a record of these blocks. -/
def Direction.next (d : Direction) (blocks : List (Bytes 16)) : Direction :=
  { d with iv := blocks.getLastD d.iv, sequence := d.sequence + 1 }

/-- Write a record: its bytes on the wire, and what is kept for the next one. -/
def Direction.send (d : Direction) (typ : Byte) (data : Str) : Str × Direction :=
  let blocks := Cbc.encrypt L.aes d.key d.iv (L.pack d.macSecret d.sequence typ data)
  (Cbc.wire blocks, d.next blocks)

/-- Read a record, which is whole blocks. -/
def Direction.receive (d : Direction) (typ : Byte) (record : Str) : Option (Str × Direction) :=
  if record = [] ∨ record.length % 16 ≠ 0 then none
  else
    let blocks := Cbc.blocks 16 (record.length / 16) record
    (L.unpack d.macSecret d.sequence typ (Cbc.decrypt L.aes d.key d.iv blocks)).map fun data =>
      (data, d.next blocks)

/-- The values of a handshake: what the server chose, the secret of the client's tag, with the port of
    the service behind the station's key, the randoms, the key exchange as the server sent it, and the
    Finished messages. -/
structure Handshake where
  cipherSuite : BitVec 16
  compressionMethod : Byte
  secret : Bytes 16
  port : ℕ
  clientRandom : Bytes 32
  serverRandom : Bytes 32
  p : Str
  g : Str
  pubKey : Str
  verifyData : Str
  serverFinished : Str

/-- The suite of `switch_to_telex_crypto` -/
def dheRsaAes256Sha : BitVec 16 := 0x0039#16

/-- The server chose what bronnect takes for granted. -/
structure Handshake.Expected (x : Handshake) : Prop where
  cipherSuite : x.cipherSuite = dheRsaAes256Sha
  compressionMethod : x.compressionMethod = 0

/-- The client's side at the end of a handshake in that suite: its Finished record, and its SSL object
    after the server's. -/
def Handshake.connect (x : Handshake) (_ : x.Expected) : Option (Str × Ssl) := do
  let privKey := telexSslGetDhKey L.hmac x.secret.1
  let premaster ← L.dhComputeKey (bnBin2bn x.pubKey) privKey (bnBin2bn x.p)
  let block := keyBlock L premaster x.clientRandom.1 x.serverRandom.1
  let finished := (clientKeys block).send L 22 x.verifyData
  let read ← (serverKeys block).receive L 22 x.serverFinished
  return (finished.1, ⟨read.2, finished.2⟩)

/-- Bro saw the handshake up to the server's Finished record. -/
structure Handshake.SeenIn (x : Handshake) (finished : Str) (h : List Event) : Prop where
  hello : enteredBy h = some (⟨x.secret.1, x.port⟩, x.clientRandom.1)
  reply : lastServerRandom h = some x.serverRandom.1
  keyExchange : lastParams h = some (x.p, x.g, x.pubKey)
  finished : lastFinished h = some finished

/-- The same object on the other side. -/
def Ssl.mirror (s : Ssl) : Ssl := ⟨s.write, s.read⟩

/-- A record of a conversation. -/
structure Message where
  fromClient : Bool
  type : Byte
  data : Str

/-- What the two sides read of a conversation. -/
def converse (client station : Ssl) : List Message → Option (List Str)
  | [] => some []
  | m :: ms =>
    if m.fromClient then do
      let out := client.write.send L m.type m.data
      let got ← station.read.receive L m.type out.1
      return got.1 :: (← converse { client with write := out.2 } { station with read := got.2 } ms)
    else do
      let out := station.write.send L m.type m.data
      let got ← client.read.receive L m.type out.1
      return got.1 :: (← converse { client with read := got.2 } { station with write := out.2 } ms)

variable {L}

theorem receive_wire (d : Direction) (typ : Byte) {cs : List (Bytes 16)} (hne : cs ≠ []) :
    d.receive L typ (Cbc.wire cs) =
      (L.unpack d.macSecret d.sequence typ (Cbc.decrypt L.aes d.key d.iv cs)).map fun data =>
        (data, d.next cs) := by
  have hpos := List.length_pos_iff.mpr hne
  have hlen := Cbc.length_wire cs
  have hcount : (Cbc.wire cs).length / 16 = cs.length := by omega
  have hwhole : ¬(Cbc.wire cs = [] ∨ (Cbc.wire cs).length % 16 ≠ 0) := by
    rintro (h0 | h0)
    · rw [h0, List.length_nil] at hlen
      omega
    · omega
  simp only [Direction.receive, if_neg hwhole, hcount, Cbc.blocks_wire]

theorem encrypt_ne_nil (d : Direction) (typ : Byte) (data : Str) :
    Cbc.encrypt L.aes d.key d.iv (L.pack d.macSecret d.sequence typ data) ≠ [] := by
  intro he
  have hlen := congrArg List.length he
  rw [Cbc.length_encrypt] at hlen
  exact L.pack_ne_nil _ _ _ _ (List.length_eq_zero_iff.mp hlen)

/-- A record is read as it was written, and both sides keep the same. -/
theorem receive_send (d : Direction) (typ : Byte) {data : Str} (h : data.length ≤ 16384) :
    d.receive L typ (d.send L typ data).1 = some (data, (d.send L typ data).2) := by
  simp only [Direction.send]
  rw [receive_wire d typ (encrypt_ne_nil d typ data), Cbc.decrypt_encrypt, L.unpack_pack _ _ _ _ h,
    Option.map_some]

/-- Mirror images understand each other, in any order of turns. -/
theorem converse_mirror (client : Ssl) (ms : List Message) (h : ∀ m ∈ ms, m.data.length ≤ 16384) :
    converse L client client.mirror ms = some (ms.map Message.data) := by
  induction ms generalizing client with
  | nil => rfl
  | cons m ms ih =>
    have hm := h m List.mem_cons_self
    have hms := fun x hx => h x (List.mem_cons_of_mem _ hx)
    rw [converse]
    split
    · have hr : client.mirror.read.receive L m.type (client.write.send L m.type m.data).1 = _ :=
        receive_send client.write m.type hm
      simp only [hr]
      have hi := ih { client with write := (client.write.send L m.type m.data).2 } hms
      simp only [Ssl.mirror] at hi
      simp [Ssl.mirror, hi]
    · have hr : client.read.receive L m.type (client.mirror.write.send L m.type m.data).1 = _ :=
        receive_send client.read m.type hm
      simp only [hr]
      have hi := ih { client with read := (client.read.send L m.type m.data).2 } hms
      simp only [Ssl.mirror] at hi
      simp [Ssl.mirror, hi]

/-! ### The takeover -/

variable {x : Handshake} {hx : x.Expected} {finished : Str} {client : Ssl}

/-- What the policy takes for the initialization vector is the last block of the record. -/
theorem getIvFromHandshake_wire {cs : List (Bytes 16)} (hne : cs ≠ []) :
    getIvFromHandshake (Cbc.wire cs) = (cs.getLast hne).1 := by
  have hlen := Cbc.length_wire cs
  have hpos := List.length_pos_iff.mpr hne
  rw [getIvFromHandshake, if_neg (by omega), Cbc.drop_wire hne]

theorem Direction.next_eq (d : Direction) {cs : List (Bytes 16)} (hne : cs ≠ []) :
    d.next cs = { d with iv := cs.getLast hne, sequence := d.sequence + 1 } := by
  rw [Direction.next, List.getLastD_eq_getLast?, List.getLast?_eq_some_getLast hne, Option.getD_some]

theorem receive_some {d : Direction} {typ : Byte} {record : Str} {got : Str × Direction}
    (h : d.receive L typ record = some got) :
    ∃ cs : List (Bytes 16), cs ≠ [] ∧ record = Cbc.wire cs ∧ got.2 = d.next cs := by
  unfold Direction.receive at h
  split at h
  · cases h
  · next hw =>
    simp only [not_or, not_not] at hw
    obtain ⟨data, -, rfl⟩ := Option.map_eq_some_iff.mp h
    have hlen : record.length = 16 * (record.length / 16) := by omega
    refine ⟨_, fun he => hw.1 ?_, (Cbc.wire_blocks hlen).symm, rfl⟩
    have h0 := congrArg List.length he
    rw [Cbc.length_blocks, List.length_nil] at h0
    exact List.length_eq_zero_iff.mp (by omega)

/-- The client's object after the handshake, by the blocks of the two Finished records. -/
theorem connect_some (hc : x.connect L hx = some (finished, client)) : ∃ premaster cs ss,
    L.dhComputeKey (bnBin2bn x.pubKey) (telexSslGetDhKey L.hmac x.secret.1) (bnBin2bn x.p) =
      some premaster ∧ cs ≠ [] ∧ ss ≠ [] ∧ finished = Cbc.wire cs ∧ x.serverFinished = Cbc.wire ss ∧
    client = ⟨(serverKeys (keyBlock L premaster x.clientRandom.1 x.serverRandom.1)).next ss,
      (clientKeys (keyBlock L premaster x.clientRandom.1 x.serverRandom.1)).next cs⟩ := by
  simp only [Handshake.connect, Option.bind_eq_bind, Option.bind_eq_some_iff] at hc
  obtain ⟨premaster, hp, read, hread, he⟩ := hc
  obtain ⟨ss, hss, hsf, hr⟩ := receive_some hread
  obtain ⟨rfl, rfl⟩ := Prod.ext_iff.mp (Option.some.inj he)
  exact ⟨premaster, _, ss, hp, encrypt_ne_nil _ _ _, hss, rfl, hsf, by rw [hr]; rfl⟩

/-- bronnect's object from the values of the handshake. -/
theorem leakedSsl_eq (hc : x.connect L hx = some (finished, client)) {l : Leaked}
    (hkey : l.sharedSecret = x.secret.1) (hp : l.dhP = bnBin2bn x.p)
    (hpub : l.srvrPubKey = bnBin2bn x.pubKey) (hcr : l.clientRandom = x.clientRandom.1)
    (hsr : l.serverRandom = x.serverRandom.1) (hci : l.clientIv = getIvFromHandshake finished)
    (hsi : l.serverIv = getIvFromHandshake x.serverFinished) : leakedSsl L l = some client.mirror := by
  obtain ⟨premaster, cs, ss, hpm, hcs, hss, hf, hsf, rfl⟩ := connect_some hc
  have htake : ∀ b : Bytes 16, Packed.take 16 b.1 = b := fun b => by
    have h := Packed.take_eq b []
    rwa [List.append_nil] at h
  rw [hf, getIvFromHandshake_wire hcs] at hci
  rw [hsf, getIvFromHandshake_wire hss] at hsi
  simp only [leakedSsl, telexGetSharedSecret, hkey, hp, hpub, hpm, hcr, hsr, hci, hsi, htake, Option.bind_eq_bind,
    Option.bind_some, switchToTelexCrypto, if_true, Ssl.mirror, Direction.next_eq _ hcs,
    Direction.next_eq _ hss]
  rfl

/-- What bronnect reads of the init record are the values of the handshake. -/
theorem Matches.whole {h : List Event} {te : TelexInfo} {d : InitData}
    (hm : Matches h x.serverFinished d) (hseen : x.SeenIn finished h)
    (hc : x.connect L hx = some (finished, client)) (hh : Holds h te) :
    Whole te d ∧ te.keyInfo.sharedKey = x.secret.1 ∧ d.sharedSecret = x.secret.1 ∧
      d.clientRandom = x.clientRandom.1 ∧ d.serverRandom = x.serverRandom.1 ∧ d.p = x.p ∧
      d.pubKey = x.pubKey ∧ d.clientIv = getIvFromHandshake finished := by
  obtain ⟨premaster, cs, ss, -, hcs, hss, hf, hsf, -⟩ := connect_some hc
  obtain ⟨key, hent, hkey⟩ := hm.hello
  obtain ⟨r, -, hent'⟩ := hh.hello
  obtain ⟨g, hpar⟩ := hm.params
  obtain ⟨cf, hlast, hci⟩ := hm.clientIv
  have hsr := hm.serverRandom
  have hsi := hm.serverIv
  rw [hseen.hello] at hent hent'
  rw [hseen.reply] at hsr
  rw [hseen.keyExchange] at hpar
  rw [hseen.finished] at hlast
  obtain ⟨hkey', hcr⟩ := Prod.ext_iff.mp (Option.some.inj hent)
  obtain ⟨hte, -⟩ := Prod.ext_iff.mp (Option.some.inj hent')
  obtain ⟨hp, hrest⟩ := Prod.ext_iff.mp (Option.some.inj hpar)
  have hpub := (Prod.ext_iff.mp hrest).2
  rw [← Option.some.inj hlast] at hci
  dsimp only at hkey' hcr hte hp hpub
  have hsec : te.keyInfo.sharedKey = x.secret.1 := by rw [← hte]
  have hds : d.sharedSecret = x.secret.1 := by
    rw [← hkey'] at hkey
    exact (hkey x.secret.2).1
  refine ⟨⟨?_, ?_, ?_, ?_, ?_⟩, hsec, hds, hcr.symm, (Option.some.inj hsr).symm, hp.symm, hpub.symm, hci⟩
  · rw [hsec, x.secret.2]
  · rw [← hcr, x.clientRandom.2]
  · rw [← Option.some.inj hsr, x.serverRandom.2]
  · rw [hci, hf, getIvFromHandshake_wire hcs, (cs.getLast hcs).2]
  · rw [hsi, hsf, getIvFromHandshake_wire hss, (ss.getLast hss).2]

/-- When Bro sends an init record for a handshake that it saw, in the suite that bronnect expects, bronnect
    builds the mirror image of the client's SSL object from it, whatever was in the buffer and whatever
    follows on the stream, and the two read each other's records from then on. -/
theorem station_takes_over {Time : Type} {evs : List Event} {w w' : Traced} {d : InitData}
    {cid : ConnId} {o r : Endpoint} {send blocker : Bool} (hr : Run TracedStep .init evs w)
    (hs : TracedStep w (.sslRecord cid false 22 x.serverFinished o r send blocker) w')
    (hd : inits w'.state.log = (cid, d) :: inits w.state.log) (hseen : x.SeenIn finished (w.hist cid))
    (hx : x.Expected) (hc : x.connect L hx = some (finished, client)) (toTimeval : Time → Tcp.Timeval)
    (arrivals : Tcp.Arrivals Time) :
    ∃ te, ∃ hsent : telexSendInitData cid te send = .ok (some d), ∀ old rest, ∃ l,
      recvInit (initRecord toTimeval cid te arrivals old d (telexSendInitData_some hsent).1 ++ rest) =
        some (l, rest) ∧
      leakedSsl L l = some client.mirror ∧
      ∀ ms : List Message, (∀ m ∈ ms, m.data.length ≤ 16384) →
        converse L client client.mirror ms = some (ms.map Message.data) := by
  obtain ⟨sf, o', r', send', blocker', te, hev, hh, h4, hsent⟩ := (run_held hr).sent hs hd
  cases hev
  obtain ⟨-, hm⟩ := hh.matches h4 hsent
  obtain ⟨hwhole, hsec, hds, hcr, hsr, hp, hpub, hci⟩ := hm.whole hseen hc hh
  rw [← recordFinished_keyInfo te false x.serverFinished o r] at hsec
  have hwhole' : Whole (recordFinished te false x.serverFinished o r) d :=
    ⟨by rw [hsec, x.secret.2], hwhole.2, hwhole.3, hwhole.4, hwhole.5⟩
  refine ⟨_, hsent, fun old rest => ⟨_, recvInit_initRecord old _ rest, ?_, converse_mirror client⟩⟩
  rw [leaked_fillInitData old _ hwhole' (by rw [hds, hsec])]
  exact leakedSsl_eq hc hsec (by rw [← hp]; rfl) (by rw [← hpub]; rfl) hcr hsr hci hm.serverIv

/-- The exclusive or of two blocks. -/
def mixBlocks (a b : Bytes 16) : Bytes 16 :=
  ⟨List.zipWith (· ^^^ ·) a.1 b.1, by rw [List.length_zipWith, a.2, b.2]; rfl⟩

theorem mixBlocks_mixBlocks (a b : Bytes 16) : mixBlocks (mixBlocks a b) b = a := by
  apply Subtype.ext
  have h : ∀ l m : Str, l.length = m.length →
      List.zipWith (· ^^^ ·) (List.zipWith (· ^^^ ·) l m) m = l := by
    intro l
    induction l with
    | nil => exact fun _ _ => rfl
    | cons u l ih =>
      rintro (_ | ⟨v, m⟩) hl
      · cases hl
      · rw [List.zipWith_cons_cons, List.zipWith_cons_cons, ih m (by simpa using hl), BitVec.xor_assoc,
          BitVec.xor_self, BitVec.xor_zero]
  exact h a.1 b.1 (a.2.trans b.2.symm)

/-- A stand-in for OpenSSL: the cipher mixes in half of its key, and a block holds one byte. -/
def sampleOpenssl : Openssl where
  hmac _ _ := ⟨List.replicate 32 5, rfl⟩
  dhComputeKey pub priv p := some [BitVec.ofNat 8 (pub ^ priv % p)]
  tls1GenerateMasterSecret secret clientRandom serverRandom := secret ++ clientRandom ++ serverRandom
  tls1SetupKeyBlock _ clientRandom serverRandom := Packed.take 136 (serverRandom ++ clientRandom)
  aes := ⟨mixBlocks, fun k b => mixBlocks b (Packed.take 16 k.1), fun k b => mixBlocks b (Packed.take 16 k.1),
    mixBlocks_mixBlocks, fun _ b => mixBlocks_mixBlocks b _⟩
  pack _ _ _ x := x.map (fun b => ⟨b :: List.replicate 15 0, rfl⟩) ++ [⟨List.replicate 16 0, rfl⟩]
  unpack _ _ _ bs := some (bs.dropLast.map fun b => b.1.headD 0)
  pack_ne_nil _ _ _ x := by simp
  unpack_pack _ _ _ x _ := by
    rw [List.dropLast_concat, List.map_map]
    exact congrArg some (List.map_id x)

def sampleHandshake : Handshake where
  cipherSuite := 0x0039
  compressionMethod := 0
  secret := ⟨List.replicate 16 7, rfl⟩
  port := 8080
  clientRandom := ⟨List.replicate 32 1, rfl⟩
  serverRandom := ⟨List.replicate 32 2, rfl⟩
  p := [23]
  g := [2]
  pubKey := [8]
  verifyData := [1, 2]
  serverFinished := List.replicate 48 4

theorem sampleHandshake_expected : sampleHandshake.Expected := ⟨rfl, rfl⟩

/-- The client's Finished record in it. -/
def sampleClientFinished : Str :=
  0 :: List.replicate 15 1 ++ 3 :: List.replicate 15 0 ++ 2 :: List.replicate 15 1

theorem station_takes_over_sample : ∃ client te d,
    sampleHandshake.connect sampleOpenssl sampleHandshake_expected = some (sampleClientFinished, client) ∧
      ∃ hsent : telexSendInitData sampleConn te true = .ok (some d), ∀ old rest, ∃ l,
        recvInit (initRecord (fun _ : Unit => ⟨0, 0⟩) sampleConn te ⟨none, none⟩ old d
          (telexSendInitData_some hsent).1 ++ rest) = some (l, rest) ∧
        leakedSsl sampleOpenssl l = some client.mirror := by
  obtain ⟨client, hc⟩ : ∃ client, sampleHandshake.connect sampleOpenssl sampleHandshake_expected =
      some (sampleClientFinished, client) := ⟨_, rfl⟩
  have hr : Run TracedStep .init (sampleEvents sampleClientFinished)
      (tracedAfter (sampleEvents sampleClientFinished)) := Run.of_foldlM (fun _ _ _ h => h) rfl
  have hs : TracedStep (tracedAfter (sampleEvents sampleClientFinished)) sampleFinished
      (tracedAfter (sampleEvents sampleClientFinished ++ [sampleFinished])) := rfl
  obtain ⟨d, hd⟩ : ∃ d,
      inits (tracedAfter (sampleEvents sampleClientFinished ++ [sampleFinished])).state.log =
        (sampleConn, d) :: inits (tracedAfter (sampleEvents sampleClientFinished)).state.log := ⟨_, rfl⟩
  have hseen : sampleHandshake.SeenIn sampleClientFinished
      ((tracedAfter (sampleEvents sampleClientFinished)).hist sampleConn) := ⟨rfl, rfl, rfl, rfl⟩
  obtain ⟨te, hsent, h⟩ :=
    station_takes_over (x := sampleHandshake) hr hs hd hseen sampleHandshake_expected hc
      (fun _ : Unit => ⟨0, 0⟩) ⟨none, none⟩
  refine ⟨client, te, d, hc, hsent, fun old rest => ?_⟩
  obtain ⟨l, hl, hssl, -⟩ := h old rest
  exact ⟨l, hl, hssl⟩

end Telex.Takeover
