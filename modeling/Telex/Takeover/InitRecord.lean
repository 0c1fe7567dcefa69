import Telex.Lib.Packed
import Telex.Tcp.Fill

/-! The init record: `struct bro_init_data` from `telex_send_init_data` to `on_telex_read`

    Bro writes the record as it lies in its memory, a buffer from `malloc` that is filled field by field,
    and bronnect reads it into the same packed structure. The moduli come with their lengths; the randoms,
    the initialization vectors and the shared key do not, and the port is written only along with the
    key. What bronnect then computes with is what Bro put in, whatever the buffer held before, exactly
    when these fields are as long as their arrays. -/

namespace Telex.Takeover
open Bro (ConnId TelexInfo Str)
open Packed (Byte Bytes Layout uint bytes memcpy)

/-- `struct bro_record_hdr` -/
structure BroRecordHdr where
  type : BitVec 16
  len : BitVec 16
  deriving DecidableEq

/-- `struct dh_params` -/
structure DhParams where
  pLen : BitVec 16
  p : Bytes 128
  gLen : BitVec 16
  g : Bytes 128
  pubKeyLen : BitVec 16
  pubKey : Bytes 128
  clientRandom : Bytes 32
  serverRandom : Bytes 32
  clientIv : Bytes 16
  serverIv : Bytes 16
  compressionMethod : BitVec 8
  deriving DecidableEq

/-- `struct bro_init_data` -/
structure BroInitData where
  flowState : Tcp.Flow
  sharedSecret : Bytes 16
  port : BitVec 16
  dh : DhParams
  deriving DecidableEq

/-! ### Their bytes -/

def hdrLayout : Layout BroRecordHdr :=
  ((uint 2 rfl).pair (uint 2 rfl)).record (fun x => ⟨x.1, x.2⟩) (fun h => (h.type, h.len)) fun _ => rfl

def tsLayout : Layout Tcp.TcpTs :=
  ((uint 8 rfl).pair ((uint 8 rfl).pair ((uint 4 rfl).pair (uint 4 rfl)))).record
    (fun x => ⟨⟨x.1, x.2.1⟩, x.2.2.1, x.2.2.2⟩) (fun t => (t.tv.tvSec, t.tv.tvUsec, t.tsval, t.tsecr))
    fun _ => rfl

def tcpLayout : Layout Tcp.TcpInfo :=
  ((uint 4 rfl).pair ((uint 4 rfl).pair ((uint 2 rfl).pair ((uint 2 rfl).pair ((uint 2 rfl).pair
    ((uint 2 rfl).pair (tsLayout.pair (tsLayout.pair ((uint 1 rfl).pair ((uint 1 rfl).pair
      (uint 1 rfl))))))))))).record
    (fun x => ⟨x.1, x.2.1, x.2.2.1, x.2.2.2.1, x.2.2.2.2.1, x.2.2.2.2.2.1, x.2.2.2.2.2.2.1,
      x.2.2.2.2.2.2.2.1, x.2.2.2.2.2.2.2.2.1, x.2.2.2.2.2.2.2.2.2.1, x.2.2.2.2.2.2.2.2.2.2⟩)
    (fun t => (t.seq, t.ack, t.rcvWindow, t.rcvWindowScale, t.sndWindow, t.sndWindowScale, t.lastTs,
      t.curTs, t.optionTs, t.optionSack, t.flags))
    fun _ => rfl

def flowLayout : Layout Tcp.Flow :=
  ((uint 4 rfl).pair ((uint 4 rfl).pair ((uint 2 rfl).pair ((uint 2 rfl).pair ((uint 1 rfl).pair
    ((uint 2 rfl).pair tcpLayout)))))).record
    (fun x => ⟨x.1, x.2.1, x.2.2.1, x.2.2.2.1, x.2.2.2.2.1, x.2.2.2.2.2.1, x.2.2.2.2.2.2⟩)
    (fun f => (f.origH, f.respH, f.origP, f.respP, f.lastTtl, f.lastIpId, f.tcp))
    fun _ => rfl

def dhLayout : Layout DhParams :=
  ((uint 2 rfl).pair ((bytes 128).pair ((uint 2 rfl).pair ((bytes 128).pair ((uint 2 rfl).pair
    ((bytes 128).pair ((bytes 32).pair ((bytes 32).pair ((bytes 16).pair ((bytes 16).pair
      (uint 1 rfl))))))))))).record
    (fun x => ⟨x.1, x.2.1, x.2.2.1, x.2.2.2.1, x.2.2.2.2.1, x.2.2.2.2.2.1, x.2.2.2.2.2.2.1,
      x.2.2.2.2.2.2.2.1, x.2.2.2.2.2.2.2.2.1, x.2.2.2.2.2.2.2.2.2.1, x.2.2.2.2.2.2.2.2.2.2⟩)
    (fun d => (d.pLen, d.p, d.gLen, d.g, d.pubKeyLen, d.pubKey, d.clientRandom, d.serverRandom,
      d.clientIv, d.serverIv, d.compressionMethod))
    fun _ => rfl

def initLayout : Layout BroInitData :=
  (flowLayout.pair ((bytes 16).pair ((uint 2 rfl).pair dhLayout))).record
    (fun x => ⟨x.1, x.2.1, x.2.2.1, x.2.2.2⟩)
    (fun d => (d.flowState, d.sharedSecret, d.port, d.dh)) fun _ => rfl

example : initLayout.size = 587 := rfl

/-! ### What Bro writes -/

def recordTypeInit : BitVec 16 := 0x0000

/-- A `struct flow` after `memset`. -/
def zeroFlow : Tcp.Flow :=
  ⟨0, 0, 0, 0, 0, 0, ⟨0, 0, 0, 0, 0, 0, ⟨⟨0, 0⟩, 0, 0⟩, ⟨⟨0, 0⟩, 0, 0⟩, 0, 0, 0⟩⟩

/-- The lengths that `telex_send_init_data` checks. -/
structure Fits (d : Bro.InitData) : Prop where
  sharedSecret : d.sharedSecret.length = 16
  p : d.p.length ≤ 128
  pubKey : d.pubKey.length ≤ 128
  clientRandom : d.clientRandom.length ≤ 32
  serverRandom : d.serverRandom.length ≤ 32
  clientIv : d.clientIv.length ≤ 16
  serverIv : d.serverIv.length ≤ 16

variable {Time : Type}

/-- The buffer when it is sent; `old` is what it held before, and `d` are the values that
    `telex_send_init_data` puts in. The policy never sets `comp_method`. -/
def fillInitData (toTimeval : Time → Tcp.Timeval) (cid : ConnId) (te : TelexInfo)
    (arrivals : Tcp.Arrivals Time) (old : BroInitData) (d : Bro.InitData) (h : Fits d) : BroInitData :=
  let flow := Tcp.telexFillFlow toTimeval cid te arrivals zeroFlow true
  { flowState := { flow with lastTtl := flow.lastTtl + 1 }
    sharedSecret := ⟨d.sharedSecret, h.sharedSecret⟩
    port := if te.keyInfo.sharedKey.length = 16 then BitVec.ofNat 16 te.keyInfo.port else old.port
    dh :=
      { old.dh with
        p := memcpy old.dh.p d.p h.p
        pubKey := memcpy old.dh.pubKey d.pubKey h.pubKey
        clientRandom := memcpy old.dh.clientRandom d.clientRandom h.clientRandom
        serverRandom := memcpy old.dh.serverRandom d.serverRandom h.serverRandom
        clientIv := memcpy old.dh.clientIv d.clientIv h.clientIv
        serverIv := memcpy old.dh.serverIv d.serverIv h.serverIv
        pLen := BitVec.ofNat 16 d.p.length
        pubKeyLen := BitVec.ofNat 16 d.pubKey.length } }

/-- The bytes that `telex_send_init_data` sends. -/
def initRecord (toTimeval : Time → Tcp.Timeval) (cid : ConnId) (te : TelexInfo)
    (arrivals : Tcp.Arrivals Time) (old : BroInitData) (d : Bro.InitData) (h : Fits d) : List Byte :=
  hdrLayout.put ⟨recordTypeInit, BitVec.ofNat 16 initLayout.size⟩ ++
    initLayout.put (fillInitData toTimeval cid te arrivals old d h)

/-! ### What bronnect reads -/

/-- `BN_bin2bn` -/
def bnBin2bn (bs : List Byte) : ℕ := LittleEndian.value bs.reverse

/-- What the branch of `on_telex_read` for an init record computes with. -/
structure Leaked where
  flowState : Tcp.Flow
  keyPort : BitVec 16
  sharedSecret : Str
  dhP : ℕ
  srvrPubKey : ℕ
  clientRandom : Str
  serverRandom : Str
  clientIv : Str
  serverIv : Str
  deriving DecidableEq

def leaked (d : BroInitData) : Leaked where
  flowState := d.flowState
  keyPort := d.port
  sharedSecret := d.sharedSecret.1
  dhP := bnBin2bn (d.dh.p.1.take d.dh.pLen.toNat)
  srvrPubKey := bnBin2bn (d.dh.pubKey.1.take d.dh.pubKeyLen.toNat)
  clientRandom := d.dh.clientRandom.1
  serverRandom := d.dh.serverRandom.1
  clientIv := d.dh.clientIv.1
  serverIv := d.dh.serverIv.1

/-- `recv_msg_header` and `recv_init_data` on the bytes of the stream, with the check of the length. -/
def recvInit (stream : List Byte) : Option (Leaked × List Byte) :=
  let hdr := hdrLayout.get stream
  let body := stream.drop hdrLayout.size
  if hdrLayout.size + initLayout.size ≤ stream.length ∧ hdr.type = recordTypeInit ∧
      hdr.len = BitVec.ofNat 16 initLayout.size then
    some (leaked (initLayout.get body), body.drop initLayout.size)
  else none

variable {cid : ConnId} {te : TelexInfo} {d : Bro.InitData} {toTimeval : Time → Tcp.Timeval}
  {arrivals : Tcp.Arrivals Time} {send : Bool}

/-- What is known of the record where `telex_send_init_data` sent it. -/
theorem telexSendInitData_some (hs : Bro.telexSendInitData cid te send = .ok (some d)) :
    Fits d ∧ te.dh.p = some d.p ∧ te.dh.pubKey = some d.pubKey ∧
      te.dh.clientRandom = some d.clientRandom ∧ te.dh.serverRandom = some d.serverRandom ∧
      te.dh.clientIv = some d.clientIv ∧ te.dh.serverIv = some d.serverIv ∧
      (te.keyInfo.sharedKey.length = 16 → d.sharedSecret = te.keyInfo.sharedKey ∧
        d.port = BitVec.ofNat 16 te.keyInfo.port) := by
  unfold Bro.telexSendInitData at hs
  split at hs
  · cases hs
  · cases hs
  · next p _ hp =>
    split at hs
    · next g pubKey clientRandom serverRandom clientIv serverIv hg hk hcr hsr hci hsi =>
      split at hs
      · cases hs
      · next hlen =>
        cases send with
        | false => simp at hs
        | true =>
          simp only [if_true, Except.ok.injEq, Option.some.injEq] at hs
          subst hs
          refine ⟨⟨?_, ?_, ?_, ?_, ?_, ?_, ?_⟩, hp, hk, hcr, hsr, hci, hsi, ?_⟩
          · dsimp only
            split
            · assumption
            · exact List.length_replicate
          all_goals first | (dsimp only; omega) | skip
          intro h16
          exact ⟨if_pos h16, if_pos h16⟩
    · cases hs

/-- The record as it is read, in front of anything else. -/
theorem recvInit_initRecord (old : BroInitData) (h : Fits d) (rest : List Byte) :
    recvInit (initRecord toTimeval cid te arrivals old d h ++ rest) =
      some (leaked (fillInitData toTimeval cid te arrivals old d h), rest) := by
  have hdrop : (initRecord toTimeval cid te arrivals old d h ++ rest).drop hdrLayout.size =
      initLayout.put (fillInitData toTimeval cid te arrivals old d h) ++ rest := by
    rw [initRecord, List.append_assoc]
    exact List.drop_left' (hdrLayout.length_put _)
  have hhdr : hdrLayout.get (initRecord toTimeval cid te arrivals old d h ++ rest) =
      ⟨recordTypeInit, BitVec.ofNat 16 initLayout.size⟩ := by
    rw [initRecord, List.append_assoc, Layout.get_put]
  have hlen : hdrLayout.size + initLayout.size ≤
      (initRecord toTimeval cid te arrivals old d h ++ rest).length := by
    rw [initRecord, List.length_append, List.length_append, Layout.length_put, Layout.length_put]
    omega
  have hrest : (initLayout.put (fillInitData toTimeval cid te arrivals old d h) ++ rest).drop
      initLayout.size = rest := List.drop_left' (initLayout.length_put _)
  simp only [recvInit, hdrop, hhdr, hlen, Layout.get_put, hrest, true_and, if_true]

theorem bnBin2bn_memcpy {n : ℕ} (dst : Bytes n) {src : Str} (h : src.length ≤ n) (hn : n < 2 ^ 16) :
    bnBin2bn ((memcpy dst src h).1.take (BitVec.ofNat 16 src.length).toNat) = bnBin2bn src := by
  have hlen : (BitVec.ofNat 16 src.length).toNat = src.length := by
    rw [BitVec.toNat_ofNat, Nat.mod_eq_of_lt (h.trans_lt hn)]
  rw [hlen, Packed.take_memcpy]

/-- The values of the table entry, as bronnect would have them. -/
def entryValues (toTimeval : Time → Tcp.Timeval) (cid : ConnId) (te : TelexInfo)
    (arrivals : Tcp.Arrivals Time) (d : Bro.InitData) : Leaked where
  flowState :=
    let flow := Tcp.telexFillFlow toTimeval cid te arrivals zeroFlow true
    { flow with lastTtl := flow.lastTtl + 1 }
  keyPort := BitVec.ofNat 16 te.keyInfo.port
  sharedSecret := te.keyInfo.sharedKey
  dhP := bnBin2bn d.p
  srvrPubKey := bnBin2bn d.pubKey
  clientRandom := d.clientRandom
  serverRandom := d.serverRandom
  clientIv := d.clientIv
  serverIv := d.serverIv

/-- The fields without a length of their own fill their arrays. -/
structure Whole (te : TelexInfo) (d : Bro.InitData) : Prop where
  sharedKey : te.keyInfo.sharedKey.length = 16
  clientRandom : d.clientRandom.length = 32
  serverRandom : d.serverRandom.length = 32
  clientIv : d.clientIv.length = 16
  serverIv : d.serverIv.length = 16

theorem leaked_fillInitData (old : BroInitData) (h : Fits d) (hw : Whole te d)
    (hkey : d.sharedSecret = te.keyInfo.sharedKey) :
    leaked (fillInitData toTimeval cid te arrivals old d h) = entryValues toTimeval cid te arrivals d := by
  simp only [leaked, fillInitData, entryValues, hkey, hw.sharedKey, if_true,
    bnBin2bn_memcpy old.dh.p h.p (by decide), bnBin2bn_memcpy old.dh.pubKey h.pubKey (by decide),
    Packed.memcpy_whole old.dh.clientRandom h.clientRandom hw.clientRandom,
    Packed.memcpy_whole old.dh.serverRandom h.serverRandom hw.serverRandom,
    Packed.memcpy_whole old.dh.clientIv h.clientIv hw.clientIv,
    Packed.memcpy_whole old.dh.serverIv h.serverIv hw.serverIv]

/-- bronnect computes with the values of the table entry, whatever the buffer held before and whatever
    follows on the stream, exactly when the fields without a length fill their arrays. -/
theorem init_record_read_back_iff (hs : Bro.telexSendInitData cid te send = .ok (some d))
    (toTimeval : Time → Tcp.Timeval) (arrivals : Tcp.Arrivals Time) :
    (∀ old rest, recvInit (initRecord toTimeval cid te arrivals old d (telexSendInitData_some hs).1 ++
        rest) = some (entryValues toTimeval cid te arrivals d, rest)) ↔ Whole te d := by
  obtain ⟨hf, -, -, -, -, -, -, hkey⟩ := telexSendInitData_some hs
  constructor
  · intro h
    have hold := h ⟨zeroFlow, ⟨List.replicate 16 0, rfl⟩, 0, ⟨0, ⟨List.replicate 128 0, rfl⟩, 0,
      ⟨List.replicate 128 0, rfl⟩, 0, ⟨List.replicate 128 0, rfl⟩, ⟨List.replicate 32 0, rfl⟩,
      ⟨List.replicate 32 0, rfl⟩, ⟨List.replicate 16 0, rfl⟩, ⟨List.replicate 16 0, rfl⟩, 0⟩⟩ []
    rw [recvInit_initRecord] at hold
    have he := (Prod.ext_iff.mp (Option.some.inj hold)).1
    simp only [leaked, fillInitData, entryValues, Leaked.mk.injEq] at he
    -- an array has one length, whatever is copied into it
    obtain ⟨-, -, hk, -, -, hcr, hsr, hci, hsi⟩ := he
    exact ⟨by rw [← hk, hf.sharedSecret], by rw [← hcr, Packed.length_memcpy],
      by rw [← hsr, Packed.length_memcpy], by rw [← hci, Packed.length_memcpy],
      by rw [← hsi, Packed.length_memcpy]⟩
  · intro hw old rest
    rw [recvInit_initRecord, leaked_fillInitData old hf hw (hkey hw.sharedKey).1]

/-- An entry with everything in it. -/
def sampleEntry : TelexInfo :=
  { Bro.newTelexInfo ⟨List.replicate 16 7, 8080⟩ (List.replicate 32 1) 0 with
    sock := some 3
    dh := ⟨some [23], some [2], some [8], some (List.replicate 32 1), some (List.replicate 32 2),
      some (List.replicate 16 3), some (List.replicate 16 4)⟩ }

theorem init_record_read_back_iff_sample :
    ∃ d, ∃ hs : Bro.telexSendInitData ⟨1, 1, 2, 443⟩ sampleEntry true = .ok (some d),
      ∀ old rest, recvInit (initRecord (fun _ : Unit => ⟨0, 0⟩) ⟨1, 1, 2, 443⟩ sampleEntry ⟨none, none⟩
        old d (telexSendInitData_some hs).1 ++ rest) =
          some (entryValues (fun _ : Unit => ⟨0, 0⟩) ⟨1, 1, 2, 443⟩ sampleEntry ⟨none, none⟩ d, rest) := by
  obtain ⟨d, hs⟩ : ∃ d, Bro.telexSendInitData ⟨1, 1, 2, 443⟩ sampleEntry true = .ok (some d) := ⟨_, rfl⟩
  obtain ⟨-, -, -, hcr, hsr, hci, hsi, -⟩ := telexSendInitData_some hs
  refine ⟨d, hs, (init_record_read_back_iff hs _ _).mpr ⟨rfl, ?_, ?_, ?_, ?_⟩⟩
  · rw [← Option.some.inj hcr, List.length_replicate]
  · rw [← Option.some.inj hsr, List.length_replicate]
  · rw [← Option.some.inj hci, List.length_replicate]
  · rw [← Option.some.inj hsi, List.length_replicate]

end Telex.Takeover
