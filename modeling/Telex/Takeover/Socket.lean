import Telex.Bronnect.Model
import Telex.Takeover.Transcript

/-! The TCP connection that bronnect takes over

    `setup_fake_socket` copies the flow of the init record into a `struct sock_state`, and the kernel
    module makes a connected socket of it. The socket goes on in the server's place: it waits for what
    follows the client's Finished message and sends what follows the last data that Bro saw of the
    server. The windows do not fit so well. In the policy and in the forged packets the send window is
    the one that the server's segments offer; for a socket it is the one that the client offers. -/

namespace Telex.Takeover
open Runs Bro
open Bronnect (SockState sockState)

/-- The flow of the init record as a connection of bronnect has it. -/
def bareFlow (fl : Tcp.Flow) : Flow where
  origH := fl.origH
  respH := fl.respH
  origP := fl.origP
  respP := fl.respP
  lastTtl := fl.lastTtl
  lastIpId := fl.lastIpId
  seq := fl.tcp.seq
  ack := fl.tcp.ack
  rcvWindow := fl.tcp.rcvWindow
  rcvWindowScale := fl.tcp.rcvWindowScale
  sndWindow := fl.tcp.sndWindow
  sndWindowScale := fl.tcp.sndWindowScale
  curTs := (fl.tcp.curTs.tsval, fl.tcp.curTs.tsecr)
  lastTs := (fl.tcp.lastTs.tsval, fl.tcp.lastTs.tsecr)
  optionTs := decide (fl.tcp.optionTs ≠ 0)
  optionSack := decide (fl.tcp.optionSack ≠ 0)

/-- What the kernel module sets in the new socket, but for the window clamp and threshold, which
    `tcp_init_buffer_space` works out anew. -/
structure TcpSock where
  inetDport : BitVec 16
  inetNum : BitVec 16
  inetSport : BitVec 16
  inetDaddr : BitVec 32
  inetSaddr : BitVec 32
  rcvWup : BitVec 32
  copiedSeq : BitVec 32
  rcvNxt : BitVec 32
  sndSml : BitVec 32
  sndNxt : BitVec 32
  sndUp : BitVec 32
  sndUna : BitVec 32
  writeSeq : BitVec 32
  pushedSeq : BitVec 32
  tstampOk : Bool
  sackOk : Bool
  rcvWnd : BitVec 32
  wscaleOk : Bool
  sndWscale : BitVec 4
  rcvWscale : BitVec 4
  sndWnd : BitVec 32
  maxWindow : BitVec 32
  tsRecent : BitVec 32
  tsOffset : BitVec 32
  mssClamp : BitVec 32
  deriving DecidableEq

/-- `tcp_forge_openreq_child`, on a clone `sk` of the listening socket -/
def tcpForgeOpenreqChild (st : SockState) (tcpTimeStamp : BitVec 32) (sk : TcpSock) : TcpSock :=
  let sndWscale := if st.wscaleOk then st.sndWscale.setWidth 4 else 0
  let sndWnd := st.sndWnd <<< sndWscale
  { sk with
    inetDport := st.sport
    inetNum := ntohs st.dport
    inetSport := st.dport
    rcvWup := st.rcvNxt
    copiedSeq := st.rcvNxt
    rcvNxt := st.rcvNxt
    sndSml := st.sndNxt
    sndNxt := st.sndNxt
    sndUp := st.sndNxt
    writeSeq := st.sndNxt
    pushedSeq := st.sndNxt
    tstampOk := st.tstampOk
    sackOk := st.sackOk
    rcvWnd := st.rcvWnd <<< st.rcvWscale
    wscaleOk := st.wscaleOk
    sndWscale
    rcvWscale := if st.wscaleOk then st.rcvWscale.setWidth 4 else 0
    sndWnd
    maxWindow := sndWnd
    tsRecent := if st.tstampOk then st.tsRecent else sk.tsRecent
    tsOffset := if st.tstampOk then st.tsVal - tcpTimeStamp else 0
    mssClamp := st.mssClamp }

/-- `tcp_v4_forge_syn_recv_sock`, where it returns a socket -/
def tcpV4ForgeSynRecvSock (st : SockState) (tcpTimeStamp : BitVec 32) (sk : TcpSock) : TcpSock :=
  { tcpForgeOpenreqChild st tcpTimeStamp sk with inetDaddr := st.saddr, inetSaddr := st.daddr }

/-- `fake_recved_ack` -/
def fakeRecvedAck (sk : TcpSock) (st : SockState) : TcpSock :=
  { sk with copiedSeq := sk.rcvNxt, sndUna := st.sndUna, sndUp := st.sndUna }

/-- The socket of `fake_inet_csk_accept`, where it makes one. -/
def fakeInetCskAccept (st : SockState) (tcpTimeStamp : BitVec 32) (sk : TcpSock) : TcpSock :=
  fakeRecvedAck (tcpV4ForgeSynRecvSock st tcpTimeStamp sk) st

/-! ### What the policy saw of the connection -/

/-- Both ends when the client's last Finished message came. -/
def lastEnds : List Event → Option (Endpoint × Endpoint)
  | [] => none
  | .sslRecord _ isOrig typ _ orig resp .. :: h =>
    if typ = 22 ∧ changedCipher h = true ∧ isOrig = true then some (orig, resp) else lastEnds h
  | _ :: h => lastEnds h

variable {h : List Event} {ev : Event} {o r : Endpoint}

/-- The fields of `te$tcp` that both ends give. -/
structure FromEnds (tcp : TcpInfo) (o r : Endpoint) : Prop where
  ack : tcp.ack = o.lastSeq
  seq : tcp.seq = r.lastSeq
  rcvWindow : tcp.rcvWindow = o.lastWindow >>> o.lastWindowScale
  rcvWindowScale : tcp.rcvWindowScale = o.lastWindowScale
  sndWindow : tcp.sndWindow = r.lastWindow >>> r.lastWindowScale
  sndWindowScale : tcp.sndWindowScale = r.lastWindowScale

theorem FromEnds.option {tcp : TcpInfo} (hf : FromEnds tcp o r) {cid : ConnId} (isOrig : Bool) (opt : ℕ)
    (ts : TcpTsInfo) (changed : Bool) : FromEnds (tcpStep (.tcpOption cid isOrig opt ts) changed tcp) o r := by
  unfold tcpStep
  dsimp only
  split
  · split
    · exact ⟨hf.1, hf.2, hf.3, hf.4, hf.5, hf.6⟩
    · exact hf
  · split
    · split
      · exact ⟨hf.1, hf.2, hf.3, hf.4, hf.5, hf.6⟩
      · exact hf
    · exact hf

/-- Only a Finished message of the client changes them. -/
theorem tcpOf_ends (he : lastEnds h = some (o, r)) : FromEnds (tcpOf h) o r := by
  induction h with
  | nil => cases he
  | cons ev h ih =>
    rw [tcpOf]
    cases ev with
    | sslRecord cid isOrig typ data o' r' send blocker =>
      rw [lastEnds] at he
      unfold tcpStep
      dsimp only
      by_cases hc : typ = 22 ∧ changedCipher h = true ∧ isOrig = true
      · rw [if_pos hc] at he ⊢
        cases he
        exact ⟨rfl, rfl, rfl, rfl, rfl, rfl⟩
      · rw [if_neg hc] at he ⊢
        exact ih he
    | tcpOption cid isOrig opt ts => exact (ih he).option isOrig opt ts _
    | _ => exact ih he

theorem lastEnds_of_lastFinished {cf : Str} (hf : lastFinished h = some cf) :
    ∃ o r, lastEnds h = some (o, r) := by
  induction h with
  | nil => cases hf
  | cons ev h ih =>
    cases ev with
    | sslRecord cid isOrig typ data o r send blocker =>
      rw [lastEnds]
      split
      · exact ⟨o, r, rfl⟩
      · next hc =>
        have hsame : lastFinished (.sslRecord cid isOrig typ data o r send blocker :: h) =
            lastFinished h := by
          cases isOrig with
          | false => rfl
          | true =>
            by_cases h22 : typ = 22
            · subst h22
              exact if_neg fun hch => hc ⟨rfl, hch, rfl⟩
            · simp [lastFinished, h22]
        exact ih (hsame ▸ hf)
    | _ => exact ih hf

/-! ### The socket -/

/-- The window of an end as Bro keeps it, from the field of a segment and the scale of the handshake. -/
structure Offers (e : Endpoint) (win : BitVec 16) (scale : ℕ) : Prop where
  window : e.lastWindow = win.toNat <<< scale
  windowScale : e.lastWindowScale = scale
  le : scale ≤ 14

/-- The bytes that such a window lets the other end send. -/
def offered (win : BitVec 16) (scale : ℕ) : BitVec 32 := win.setWidth 32 <<< scale

theorem Offers.shiftRight {e : Endpoint} {win : BitVec 16} {scale : ℕ} (ho : Offers e win scale) :
    BitVec.ofNat 16 (e.lastWindow >>> e.lastWindowScale) = win := by
  rw [ho.window, ho.windowScale, Nat.shiftLeft_shiftRight, BitVec.ofNat_toNat, BitVec.setWidth_eq]

theorem scale_width {scale w : ℕ} (h : scale ≤ 14) (hw : 4 ≤ w) :
    ((BitVec.ofNat 16 scale).setWidth w).toNat = scale := by
  have hlt : 14 < 2 ^ w := lt_of_lt_of_le (by decide) (Nat.pow_le_pow_right (by decide) hw)
  rw [BitVec.toNat_setWidth, BitVec.toNat_ofNat, Nat.mod_eq_of_lt (a := scale) (by omega),
    Nat.mod_eq_of_lt (by omega)]

/-- The socket stands where the server stood, with both sequence numbers. -/
structure Stands (sk : TcpSock) (cid : ConnId) (o r : Endpoint) : Prop where
  peer : sk.inetDaddr = cid.origH ∧ sk.inetDport = ntohs cid.origP
  own : sk.inetSaddr = cid.respH ∧ sk.inetSport = ntohs cid.respP
  receives : sk.rcvNxt = BitVec.ofNat 32 o.lastSeq
  read : sk.copiedSeq = sk.rcvNxt
  sends : sk.sndNxt = BitVec.ofNat 32 r.lastSeq
  written : sk.writeSeq = sk.sndNxt

/-- The windows of a socket whose peer offers the one and that itself offers the other. -/
structure Windows (sk : TcpSock) (peerWin : BitVec 16) (peerScale : ℕ) (ownWin : BitVec 16)
    (ownScale : ℕ) : Prop where
  snd : sk.sndWnd = offered peerWin peerScale
  sndWscale : sk.sndWscale.toNat = peerScale
  rcv : sk.rcvWnd = offered ownWin ownScale
  rcvWscale : sk.rcvWscale.toNat = ownScale

variable {Time : Type} {toTimeval : Time → Tcp.Timeval} {arrivals : Tcp.Arrivals Time} {cid : ConnId}
  {te : TelexInfo} {fl : Tcp.Flow}

theorem leaked_flow (toTimeval : Time → Tcp.Timeval) (cid : ConnId) (te : TelexInfo)
    (arrivals : Tcp.Arrivals Time) (old : BroInitData) {d : InitData} (h : Fits d) :
    (leaked (fillInitData toTimeval cid te arrivals old d h)).flowState.tcp =
      (Tcp.telexFillFlow toTimeval cid te arrivals zeroFlow true).tcp := rfl

theorem stands_forged (hf : FromEnds te.tcp o r) (now : BitVec 32) (clone : TcpSock)
    (htcp : fl.tcp = (Tcp.telexFillFlow toTimeval cid te arrivals zeroFlow true).tcp)
    (horig : fl.origH = cid.origH ∧ fl.origP = ntohs cid.origP)
    (hresp : fl.respH = cid.respH ∧ fl.respP = ntohs cid.respP) :
    Stands (fakeInetCskAccept (sockState (bareFlow fl)) now clone) cid o r := by
  have hack : fl.tcp.ack = BitVec.ofNat 32 o.lastSeq := by rw [htcp, ← hf.ack]; rfl
  have hseq : fl.tcp.seq = BitVec.ofNat 32 r.lastSeq := by rw [htcp, ← hf.seq]; rfl
  exact ⟨horig, hresp, hack, rfl, hseq, rfl⟩

/-- The windows of both ends have changed places. -/
theorem windows_forged (hf : FromEnds te.tcp o r) (now : BitVec 32) (clone : TcpSock)
    (htcp : fl.tcp = (Tcp.telexFillFlow toTimeval cid te arrivals zeroFlow true).tcp)
    {cw sw : BitVec 16} {cs ss : ℕ} (ho : Offers o cw cs) (hr : Offers r sw ss) :
    Windows (fakeInetCskAccept (sockState (bareFlow fl)) now clone) sw ss cw cs := by
  have hrw : fl.tcp.rcvWindow = cw := by
    rw [htcp, ← ho.shiftRight, ← hf.rcvWindow]
    rfl
  have hsw : fl.tcp.sndWindow = sw := by
    rw [htcp, ← hr.shiftRight, ← hf.sndWindow]
    rfl
  have hrs : fl.tcp.rcvWindowScale = BitVec.ofNat 16 cs := by
    rw [htcp, ← ho.windowScale, ← hf.rcvWindowScale]
    rfl
  have hss : fl.tcp.sndWindowScale = BitVec.ofNat 16 ss := by
    rw [htcp, ← hr.windowScale, ← hf.sndWindowScale]
    rfl
  have h4 : ∀ {scale : ℕ}, scale ≤ 14 →
      (((BitVec.ofNat 16 scale).setWidth 8).setWidth 4).toNat = scale := fun h => by
    rw [BitVec.toNat_setWidth, scale_width h (by decide), Nat.mod_eq_of_lt (by omega)]
  constructor
  · change fl.tcp.sndWindow.setWidth 32 <<< ((fl.tcp.sndWindowScale.setWidth 8).setWidth 4) = _
    rw [hsw, hss, BitVec.shiftLeft_eq', h4 hr.le, offered]
  · change ((fl.tcp.sndWindowScale.setWidth 8).setWidth 4).toNat = ss
    rw [hss, h4 hr.le]
  · change fl.tcp.rcvWindow.setWidth 32 <<< (fl.tcp.rcvWindowScale.setWidth 8) = _
    rw [hrw, hrs, BitVec.shiftLeft_eq', scale_width ho.le (by decide), offered]
  · change ((fl.tcp.rcvWindowScale.setWidth 8).setWidth 4).toNat = cs
    rw [hrs, h4 ho.le]

/-- From every init record the kernel makes a socket with the addresses of the server and the client and
    with the sequence numbers that both had when the client's last Finished message came. Its windows
    are those of a server's socket exactly when both ends offer the same window on the same scale. -/
theorem socket_stands_iff {evs : List Event} {w w' : Traced} {d : InitData}
    (hrun : Run TracedStep .init evs w) (hs : TracedStep w ev w')
    (hd : inits w'.state.log = (cid, d) :: inits w.state.log) (toTimeval : Time → Tcp.Timeval)
    (arrivals : Tcp.Arrivals Time) :
    ∃ te send o r, ∃ hsent : telexSendInitData cid te send = .ok (some d),
      lastEnds (w.hist cid) = some (o, r) ∧ ∀ old rest now clone, ∃ l,
        recvInit (initRecord toTimeval cid te arrivals old d (telexSendInitData_some hsent).1 ++ rest) =
          some (l, rest) ∧
        Stands (fakeInetCskAccept (sockState (bareFlow l.flowState)) now clone) cid o r ∧
        ∀ cw cs sw ss, Offers o cw cs → Offers r sw ss →
          (Windows (fakeInetCskAccept (sockState (bareFlow l.flowState)) now clone) cw cs sw ss ↔
            offered cw cs = offered sw ss ∧ cs = ss) := by
  obtain ⟨sf, o', r', send, blocker, te, rfl, hh, h4, hsent⟩ := (run_held hrun).sent hs hd
  obtain ⟨cf, hcf, -⟩ := (hh.matches h4 hsent).2.clientIv
  obtain ⟨o, r, hends⟩ := lastEnds_of_lastFinished hcf
  have hf : FromEnds (recordFinished te false sf o' r').tcp o r := by
    rw [recordFinished_tcp cid te false sf o' r' send blocker, hh.tcp, tcpStep, if_neg (by simp)]
    exact tcpOf_ends hends
  refine ⟨_, send, o, r, hsent, hends, fun old rest now clone => ⟨_, recvInit_initRecord old _ rest,
    stands_forged hf now clone (leaked_flow ..) ⟨rfl, rfl⟩ ⟨rfl, rfl⟩, fun cw cs sw ss ho hr => ?_⟩⟩
  have hw := windows_forged hf now clone
    (leaked_flow toTimeval cid _ arrivals old (telexSendInitData_some hsent).1) ho hr
  constructor
  · intro hw'
    exact ⟨hw'.snd.symm.trans hw.snd, hw'.sndWscale.symm.trans hw.sndWscale⟩
  · rintro ⟨hoff, rfl⟩
    exact ⟨hw.snd.trans hoff.symm, hw.sndWscale, hw.rcv.trans hoff, hw.rcvWscale⟩

theorem socket_stands_iff_sample : ∃ d te send o r,
    ∃ hsent : telexSendInitData sampleConn te send = .ok (some d), ∀ old rest now clone, ∃ l,
      recvInit (initRecord (fun _ : Unit => ⟨0, 0⟩) sampleConn te ⟨none, none⟩ old d
        (telexSendInitData_some hsent).1 ++ rest) = some (l, rest) ∧
      Stands (fakeInetCskAccept (sockState (bareFlow l.flowState)) now clone) sampleConn o r := by
  have hr : Run TracedStep .init (sampleEvents (List.replicate 48 3))
      (tracedAfter (sampleEvents (List.replicate 48 3))) := Run.of_foldlM (fun _ _ _ h => h) rfl
  have hs : TracedStep (tracedAfter (sampleEvents (List.replicate 48 3))) sampleFinished
      (tracedAfter (sampleEvents (List.replicate 48 3) ++ [sampleFinished])) := rfl
  obtain ⟨d, hd⟩ : ∃ d,
      inits (tracedAfter (sampleEvents (List.replicate 48 3) ++ [sampleFinished])).state.log =
        (sampleConn, d) :: inits (tracedAfter (sampleEvents (List.replicate 48 3))).state.log :=
    ⟨_, rfl⟩
  obtain ⟨te, send, o, r, hsent, -, h⟩ :=
    socket_stands_iff hr hs hd (fun _ : Unit => ⟨0, 0⟩) ⟨none, none⟩
  refine ⟨d, te, send, o, r, hsent, fun old rest now clone => ?_⟩
  obtain ⟨l, hl, hst, -⟩ := h old rest now clone
  exact ⟨l, hl, hst⟩

end Telex.Takeover
