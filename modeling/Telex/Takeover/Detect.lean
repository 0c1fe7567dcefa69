import Telex.KeyFile
import Telex.Ssl.Hello
import Telex.Takeover.Transcript

/-! From the client's hello to the table

    The client makes a tag for the server's address and the time, and sends the time and the tag as its
    random. The analyzer takes the random out of the hello, the policy makes the same context of it and
    of the address the hello went to, and the tag is tried with one private key after the other. -/

namespace Telex.Takeover
open Runs Bro
open Ptwist (Junk)
open Tag (Sha genTag checkTag genkeys Agrees)
open KeyFile (Lookup checkKeys telexTagGetKey)
open Keys (TelexPrivKeys)
open Tcp (le32 htonl)

/-- `ssl_new_telex`: the client's random and its secret, with the random bytes `gen_tag` drew. -/
def sslNewTelex (sha : Sha) (jtag jsec : Junk) (pub : Tag.Pubkey) (usetwist : Byte)
    (seckey : Fin 21 → Byte) (serverIp t : BitVec 32) : Option (Str × (Fin 16 → Byte)) :=
  (genTag sha jtag jsec pub usetwist seckey (Ssl.tagContext serverIp t)).map fun r =>
    (Ssl.telexClientRandom t (List.ofFn r.1), r.2)

def telexGetContext (serverIp : BitVec 32) (timestamp sessionId : Str) : Str :=
  le32 serverIp ++ timestamp.take 4 ++ sessionId.take 1

/-- The number in the first four bytes, in network order. -/
def getSslNonceTimestamp (nonce : Str) : BitVec 32 :=
  htonl (BitVec.ofNat 32 (LittleEndian.value (nonce.take 4)))

/-- What the station looks tags up with: the hash, the private keys, the unspecified memory of each
    multiplication and the last value of `telex_tag_key`. -/
structure Keyring where
  sha : Sha
  keys : List TelexPrivKeys
  junk : ℕ → Junk
  tagKey : Fin 16 → Byte

/-- The lookup of `ssl_conn_attempt`; `sub_bytes` counts from one. -/
def Keyring.lookup (ring : Keyring) (cid : ConnId) (rand clientRandom : Str) : Option Lookup :=
  telexTagGetKey ring.sha ring.junk ring.keys ring.tagKey rand
    (telexGetContext cid.respH (clientRandom.take 4) [0])

/-- The event of a hello after its lookup, at the time `now`. -/
def helloEvent (l : Lookup) (cid : ConnId) (clientRandom : Str) (now : ℕ) (connect : Connect)
    (blocker : Bool) : Event :=
  .sslConnAttempt cid l.found.isSome ((getSslNonceTimestamp clientRandom).toNat - now)
    (match l.found with
      | some (key, port) => ⟨List.ofFn key, port.toNat⟩
      | none => ⟨[], 0⟩)
    clientRandom now connect blocker

variable {sha : Sha} {tag : Fin 28 → Byte} {context : Str} {junk : ℕ → Junk} {k : TelexPrivKeys}
  {key secret : Fin 16 → Byte} {front back : List TelexPrivKeys}

/-- No private key of the list takes the tag. -/
def Refused (sha : Sha) (tag : Fin 28 → Byte) (context : Str) (keys : List TelexPrivKeys) : Prop :=
  ∀ k ∈ keys, ∀ junk key r, checkTag sha junk key k.key tag context = some r → r.1 ≠ 0

theorem checkTag_some (sha : Sha) (tag : Fin 28 → Byte) (hlen : context.length ≤ Tag.maxContextLen)
    (j : Junk) (key : Fin 16 → Byte) (privkey : Fin 21 → Byte) : ∃ r, checkTag sha j key privkey tag context = some r := by
  rw [checkTag, if_pos hlen]
  exact ⟨_, rfl⟩

/-- The loop passes over keys that refuse the tag and stops at one that takes it. -/
theorem checkKeys_found (hlen : context.length ≤ Tag.maxContextLen)
    (hfront : Refused sha tag context front)
    (hk : ∀ j key, checkTag sha j key k.key tag context = some (0, secret)) (i : ℕ)
    (key : Fin 16 → Byte) : checkKeys sha junk tag context i key (front ++ k :: back) =
      some ⟨front ++ [k], some (secret, k.port)⟩ := by
  induction front generalizing i key with
  | nil =>
    rw [List.nil_append, checkKeys, hk]
    rfl
  | cons k' front ih =>
    obtain ⟨⟨ret, key'⟩, hr⟩ := checkTag_some sha tag hlen (junk i) key k'.key
    obtain ⟨n, rfl⟩ := Nat.exists_eq_succ_of_ne_zero (hfront k' List.mem_cons_self _ _ _ hr)
    rw [List.cons_append, checkKeys, hr]
    dsimp only
    rw [ih (fun k hk => hfront k (List.mem_cons_of_mem _ hk)), Option.map_some, List.cons_append]

/-! ### The client's hello -/

variable {jmain jtwist jtag jsec : Junk} {usetwist : Byte} {s : Fin 21 → Byte} {cid : ConnId}
  {t : BitVec 32} {random : Str}

theorem value_le32 (x : BitVec 32) : LittleEndian.value (le32 x) = x.toNat := by
  have hx := x.isLt
  simp only [le32, LittleEndian.value_cons, LittleEndian.value_nil, BitVec.toNat_setWidth,
    BitVec.toNat_ushiftRight, Nat.shiftRight_eq_div_pow]
  omega

theorem htonl_htonl (x : BitVec 32) : htonl (htonl x) = x := by
  have hrev : ∀ y, le32 (htonl y) = (le32 y).reverse := fun y => by rw [Tcp.le32_htonl]; rfl
  apply BitVec.eq_of_toNat_eq
  rw [← value_le32, hrev, hrev, List.reverse_reverse, value_le32]

theorem sslNewTelex_some {pub : Tag.Pubkey}
    (hc : sslNewTelex sha jtag jsec pub usetwist s cid.respH t = some (random, secret)) :
    ∃ tag, genTag sha jtag jsec pub usetwist s (Ssl.tagContext cid.respH t) = some (tag, secret) ∧
      random = Ssl.telexClientRandom t (List.ofFn tag) := by
  obtain ⟨⟨tag, key⟩, hg, he⟩ := Option.map_eq_some_iff.mp hc
  obtain ⟨rfl, rfl⟩ := Prod.ext_iff.mp he
  exact ⟨tag, hg, rfl⟩

/-- The policy makes the client's context again. -/
theorem telexGetContext_eq (serverIp t : BitVec 32) (tag : Str) :
    telexGetContext serverIp ((Ssl.telexClientRandom t tag).take 4) [0] = Ssl.tagContext serverIp t := rfl

theorem getSslNonceTimestamp_eq (t : BitVec 32) (tag : Str) :
    getSslNonceTimestamp (Ssl.telexClientRandom t tag) = t := by
  have htake : (Ssl.telexClientRandom t tag).take 4 = le32 (htonl t) := rfl
  rw [getSslNonceTimestamp, htake, value_le32, BitVec.ofNat_toNat, BitVec.setWidth_eq, htonl_htonl]

theorem parse_client {msg : Str} {h : Ssl.Hello} (hp : Ssl.parse .client msg = some h) :
    ∃ m, h = .client m ∧ Ssl.Randomized msg m.gmtUnixTime m.randomBytes := by
  obtain ⟨⟨m, rest⟩, hparse, rfl⟩ := Option.map_eq_some_iff.mp hp
  exact ⟨m, rfl, Ssl.clientHello_spec hparse⟩

/-- The tag is the field of a hello with the client's random. -/
theorem field_eq {msg : Str} {h : Ssl.Hello} {tag : Fin 28 → Byte} (hp : Ssl.parse .client msg = some h)
    (hm : (msg.drop 2).take 32 = Ssl.telexClientRandom t (List.ofFn tag)) : h.field = List.ofFn tag := by
  obtain ⟨m, rfl, v, w, a, b, c, d, rest', rfl, -, hlen⟩ := parse_client hp
  have htake : (m.randomBytes ++ rest').take 28 = m.randomBytes := by
    rw [List.take_append_of_le_length hlen.ge, ← hlen, List.take_length]
  have hdrop : ([a, b, c, d] ++ (m.randomBytes ++ rest').take 28).drop 4 = List.ofFn tag := by
    have hdrop' := congrArg (List.drop 4) hm
    exact hdrop'
  rw [htake] at hdrop
  exact hdrop

theorem random_eq {msg : Str} {h : Ssl.Hello} (hp : Ssl.parse .client msg = some h) (beyond : ℕ → Byte)
    (a : Ssl.Analyzer) : (Ssl.process beyond a h).1.random = (msg.drop 2).take 32 := by
  obtain ⟨m, rfl, hrandom⟩ := parse_client hp
  exact hrandom.random beyond

theorem telexTagGetKey_ofFn (sha : Sha) (junk : ℕ → Junk) (keys : List TelexPrivKeys)
    (key : Fin 16 → Byte) (tag : Fin 28 → Byte) (context : Str) :
    telexTagGetKey sha junk keys key (List.ofFn tag) context = checkKeys sha junk tag context 0 key keys := by
  have htag : (fun i : Fin 28 => (List.ofFn tag).get (i.cast (List.length_ofFn).symm)) = tag := by
    funext i
    rw [List.get_ofFn]
    rfl
  rw [telexTagGetKey, dif_pos List.length_ofFn, htag]

/-- A fresh connection with a tagged hello is entered with the key of the lookup. -/
theorem traced_enter {w : Traced} {key : KeyInfo} {diff : ℤ} {now : ℕ} {connect : Connect}
    (hheld : w.Held) (hfree : w.state.table cid = none) (htime : diff ≤ 60 ∧ -60 ≤ diff)
    (hconn : connect ≠ .noSocket) :
    ∃ w', TracedStep w (.sslConnAttempt cid true diff key random now connect true) w' ∧
      enteredBy (w'.hist cid) = some (key, random) := by
  have hnil : w.hist cid = [] := by
    rcases hheld cid with ⟨-, hnil⟩ | ⟨te, ht, -⟩
    · exact hnil
    · rw [hfree] at ht
      cases ht
  have hcond : ¬(true = false ∨ 60 < diff ∨ diff < -60) := by
    rintro (h | h | h)
    · cases h
    · omega
    · omega
  obtain ⟨s', hs, te, hte⟩ : ∃ s', Bro.step w.state
      (.sslConnAttempt cid true diff key random now connect true) = .ok s' ∧
        ∃ te, s'.table cid = some te := by
    simp only [Bro.step, sslConnAttempt, hfree, if_neg hcond]
    cases connect with
    | noSocket => exact absurd rfl hconn
    | refused => exact ⟨_, rfl, _, Function.update_self ..⟩
    | connected => exact ⟨_, rfl, _, Function.update_self ..⟩
  obtain ⟨w', hw'⟩ : ∃ w', TracedStep w
      (.sslConnAttempt cid true diff key random now connect true) w' := by
    simp only [TracedStep, Traced.step, hs]
    exact ⟨_, rfl⟩
  obtain ⟨hs', hhist⟩ := traced_step hw'
  rw [hs] at hs'
  rw [← Except.ok.inj hs'] at hhist
  refine ⟨w', hw', ?_⟩
  have hcid : cid = (Event.sslConnAttempt cid true diff key random now connect true).cid := rfl
  rw [hhist cid, hte, hnil, if_neg (by simp), if_pos hcid]
  rfl

/-- The hello of a Telex client, made for the public key of one of the station's private keys, enters its
    connection with the client's secret, the port of that key and the client's random. The station has
    its socket to the flow blocker and can make one to bronnect; without them it exits. -/
theorem tagged_hello_entered {ring : Keyring} {evs : List Event} {w : Traced} {msg : Str}
    {h : Ssl.Hello} {now : ℕ} {connect : Connect} (beyond : ℕ → Byte) (a : Ssl.Analyzer)
    (hkeys : ring.keys = front ++ k :: back)
    (hc : sslNewTelex ring.sha jtag jsec (genkeys jmain jtwist k.key) usetwist s cid.respH t =
      some (random, secret)) (ha : Agrees usetwist k.key s)
    (hfront : ∀ tag, random = Ssl.telexClientRandom t (List.ofFn tag) →
      Refused ring.sha tag (Ssl.tagContext cid.respH t) front)
    (hp : Ssl.parse .client msg = some h) (hm : (msg.drop 2).take 32 = random)
    (hrun : Run TracedStep .init evs w) (hfree : w.state.table cid = none)
    (htime : (t.toNat : ℤ) - now ≤ 60 ∧ -60 ≤ (t.toNat : ℤ) - now) (hconn : connect ≠ .noSocket) :
    ∃ l w', ring.lookup cid h.field (Ssl.process beyond a h).1.random = some l ∧
      TracedStep w (helloEvent l cid (Ssl.process beyond a h).1.random now connect true) w' ∧
      enteredBy (w'.hist cid) = some (⟨List.ofFn secret, k.port.toNat⟩, random) := by
  obtain ⟨tag, hg, rfl⟩ := sslNewTelex_some hc
  have hctx : (Ssl.tagContext cid.respH t).length ≤ Tag.maxContextLen := le_refl 9
  have hcheck : ∀ j key, checkTag ring.sha j key k.key tag (Ssl.tagContext cid.respH t) =
      some (0, secret) := by
    intro j key
    obtain ⟨tag', key', hg', hcheck⟩ := ha ring.sha jmain jtwist jtag jsec j key _ hctx
    rw [hg] at hg'
    cases hg'
    exact hcheck
  have hrand : (Ssl.process beyond a h).1.random = Ssl.telexClientRandom t (List.ofFn tag) :=
    (random_eq hp beyond a).trans hm
  have hlookup : ring.lookup cid h.field (Ssl.process beyond a h).1.random =
      some ⟨front ++ [k], some (secret, k.port)⟩ := by
    rw [Keyring.lookup, field_eq hp hm, hrand, telexGetContext_eq, telexTagGetKey_ofFn, hkeys]
    exact checkKeys_found hctx (hfront tag rfl) hcheck 0 _
  have hts : getSslNonceTimestamp (Ssl.process beyond a h).1.random = t := by
    rw [hrand, getSslNonceTimestamp_eq]
  obtain ⟨w', hw', hent⟩ := traced_enter (run_held hrun) hfree htime hconn
  refine ⟨_, w', hlookup, ?_, hent⟩
  rw [helloEvent, hts, hrand]
  exact hw'

/-- A station with one key. -/
def sampleRing : Keyring where
  sha _ _ := 0
  keys := [⟨Ptwist.encode 21 1, 8080#16⟩]
  junk _ := ⟨0, Ptwist.three⟩
  tagKey _ := 0

theorem tagged_hello_entered_sample : ∃ random secret l w',
    sslNewTelex sampleRing.sha ⟨0, Ptwist.three⟩ ⟨0, Ptwist.three⟩
      (genkeys ⟨0, Ptwist.three⟩ ⟨0, Ptwist.three⟩ (Ptwist.encode 21 1)) 0 (Ptwist.encode 21 1)
      sampleConn.respH 100 = some (random, secret) ∧
    TracedStep .init (helloEvent l sampleConn random 100 .connected true) w' ∧
    enteredBy (w'.hist sampleConn) = some (⟨List.ofFn secret, 8080⟩, random) := by
  have hone : ¬Ptwist.mainOrder ∣ Ptwist.leNat (Ptwist.encode 21 1) := by
    have h1 : Ptwist.leNat (Ptwist.encode 21 1) = 1 := by decide
    rw [h1, Nat.dvd_one]
    decide
  have ha : Agrees 0 (Ptwist.encode 21 1) (Ptwist.encode 21 1) := Tag.agrees_main (by decide) hone hone
  obtain ⟨tag, secret, hg, -⟩ := ha sampleRing.sha ⟨0, Ptwist.three⟩ ⟨0, Ptwist.three⟩
    ⟨0, Ptwist.three⟩ ⟨0, Ptwist.three⟩ ⟨0, Ptwist.three⟩ (fun _ => 0)
    (Ssl.tagContext sampleConn.respH 100) (le_refl 9)
  have hc : sslNewTelex sampleRing.sha ⟨0, Ptwist.three⟩ ⟨0, Ptwist.three⟩
      (genkeys ⟨0, Ptwist.three⟩ ⟨0, Ptwist.three⟩ (Ptwist.encode 21 1)) 0 (Ptwist.encode 21 1)
      sampleConn.respH 100 = some (Ssl.telexClientRandom 100 (List.ofFn tag), secret) := by
    rw [sslNewTelex, hg]
    rfl
  obtain ⟨h, hp⟩ : ∃ h, Ssl.parse .client
      (3 :: 1 :: (Ssl.telexClientRandom 100 (List.ofFn tag) ++ [0, 0, 0, 0])) = some h := ⟨_, rfl⟩
  have hrand : (Ssl.process (fun _ => 0) ⟨true, .initial, .initial, false⟩ h).1.random =
      Ssl.telexClientRandom 100 (List.ofFn tag) := random_eq hp _ _
  have hkeys : sampleRing.keys = [] ++ ⟨Ptwist.encode 21 1, 8080#16⟩ :: [] := rfl
  have htime : ((100#32).toNat : ℤ) - (100 : ℕ) ≤ 60 ∧ -60 ≤ ((100#32).toNat : ℤ) - (100 : ℕ) := by decide
  have hconn : Connect.connected ≠ .noSocket := by decide
  obtain ⟨l, w', -, hs, hent⟩ := tagged_hello_entered (fun _ => 0) ⟨true, .initial, .initial, false⟩ hkeys
    hc ha (fun _ _ _ hk => by cases hk) hp rfl Run.nil rfl htime hconn
  exact ⟨_, secret, l, w', hc, hrand ▸ hs, hent⟩

end Telex.Takeover
