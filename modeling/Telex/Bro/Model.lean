import Mathlib.Data.Int.Basic
import Mathlib.Logic.Function.Basic

/-! The station's Bro policy: `brohome/site/telex-ssl.bro` and its builtins in `bro.bif`

    The policy follows the TLS handshakes of tagged connections. It blocks a flow when its client
    hello is tagged, opens a socket to bronnect, collects what bronnect needs to take the connection
    over and sends it: first an init record, then the last packet of the handshake as a raw record.
    Bro handles one event at a time, so an event is a step. The results of system calls are part of
    the event; a run that dereferences an unset field or calls `exit` ends in a `Fault`. -/

namespace Telex.Bro

abbrev Byte := BitVec 8

/-- `string` -/
abbrev Str := List Byte

/-- `conn_id`, addresses in network order and ports in host order. -/
structure ConnId where
  origH : BitVec 32
  origP : BitVec 16
  respH : BitVec 32
  respP : BitVec 16
  deriving DecidableEq

/-- `tcp_ts_info` without the time stamp's arrival. -/
structure TcpTsInfo where
  tsval : ℕ
  tsecr : ℕ
  deriving DecidableEq

/-- `tcp_info` -/
structure TcpInfo where
  seq : ℕ
  ack : ℕ
  rcvWindow : ℕ
  rcvWindowScale : ℕ
  sndWindow : ℕ
  sndWindowScale : ℕ
  curTs : TcpTsInfo
  lastTs : TcpTsInfo
  tsOption : Bool
  sackOption : Bool
  deriving DecidableEq

/-- `dh_params`; a field is unset until it is assigned. -/
structure DhParams where
  p : Option Str
  g : Option Str
  pubKey : Option Str
  clientRandom : Option Str
  serverRandom : Option Str
  clientIv : Option Str
  serverIv : Option Str
  deriving DecidableEq

/-- `telex_key_info` -/
structure KeyInfo where
  sharedKey : Str
  port : ℕ
  deriving DecidableEq

/-- `telex_info`; `sock` is unset where the source has `-1`, and a number that names the socket. -/
structure TelexInfo where
  keyInfo : KeyInfo
  lastTtl : ℕ
  tcp : TcpInfo
  lastIpId : ℕ
  doFwd : Bool
  fwdTime : ℕ
  sock : Option ℕ
  state : ℕ
  dh : DhParams
  deriving DecidableEq

/-- `struct flow`, as it is sent to bronnect. -/
structure Flow where
  origH : BitVec 32
  respH : BitVec 32
  origP : BitVec 16
  respP : BitVec 16
  lastTtl : BitVec 8
  lastIpId : BitVec 16
  seq : BitVec 32
  ack : BitVec 32
  rcvWindow : BitVec 16
  rcvWindowScale : BitVec 16
  sndWindow : BitVec 16
  sndWindowScale : BitVec 16
  curTs : BitVec 32 × BitVec 32
  lastTs : BitVec 32 × BitVec 32
  optionTs : Bool
  optionSack : Bool
  deriving DecidableEq

/-- `struct bro_init_data` -/
structure InitData where
  flowState : Flow
  sharedSecret : Str
  port : BitVec 16
  p : Str
  pubKey : Str
  clientRandom : Str
  serverRandom : Str
  clientIv : Str
  serverIv : Str
  deriving DecidableEq

/-- A record on the socket to bronnect. -/
inductive Record
  | init (data : InitData)
  | raw (pkt : Str)
  deriving DecidableEq

/-- What the policy does to the outside. -/
inductive Effect
  | modBlock (cid : ConnId) (block : Bool)
  | openSock (sock : ℕ)
  | send (cid : ConnId) (sock : ℕ) (rec : Record)
  | closeSock (sock : ℕ)
  | fwd (pkt : Str)
  | rst (cid : ConnId)
  | skip (cid : ConnId)
  deriving DecidableEq

/-- How Bro can end. -/
inductive Fault
  | nullDeref
  | exit
  deriving DecidableEq

/-- `telex_table`, the number of sockets opened so far and what was done, latest first. -/
structure State where
  table : ConnId → Option TelexInfo
  socks : ℕ
  log : List Effect

/-- Bro at its start. -/
def State.init : State := ⟨fun _ => none, 0, []⟩

/-- Assign or delete a table entry. -/
def State.set (s : State) (cid : ConnId) (te : Option TelexInfo) : State :=
  { s with table := Function.update s.table cid te }

/-- Append to the log. -/
def State.did (s : State) (e : Effect) : State := { s with log := e :: s.log }

/-! ### Builtins -/

/-- `telex_mod_block`: retries until the flow blocker took the message, or exits when it cannot
    reconnect (`blocker` is false). -/
def telexModBlock (s : State) (cid : ConnId) (block blocker : Bool) : Except Fault State :=
  if blocker then .ok (s.did (.modBlock cid block)) else .error .exit

/-- `cleanup_telex_obj`; closing descriptor `-1` does nothing. -/
def cleanupTelexObj (s : State) (te : TelexInfo) : State :=
  match te.sock with
  | some sock => s.did (.closeSock sock)
  | none => s

/-- What `socket` and `connect` of `telex_init_bronnect` return. -/
inductive Connect
  | noSocket
  | refused
  | connected
  deriving DecidableEq

/-- `telex_init_bronnect`; a refused connection leaves the entry without a socket. -/
def telexInitBronnect (s : State) (te : TelexInfo) : Connect → Except Fault (State × TelexInfo)
  | .noSocket => .error .exit
  | .refused => .ok (s, te)
  | .connected => .ok ({ s.did (.openSock s.socks) with socks := s.socks + 1 },
      { te with sock := some s.socks })

/-- `ntohs` on a little-endian machine. -/
def ntohs (x : BitVec 16) : BitVec 16 := (x <<< 8) ||| (x >>> 8)

/-- `telex_fill_flow` towards the client, into a zeroed flow. -/
def telexFillFlow (cid : ConnId) (te : TelexInfo) : Flow where
  origH := cid.origH
  respH := cid.respH
  origP := ntohs cid.origP
  respP := ntohs cid.respP
  lastTtl := BitVec.ofNat 8 te.lastTtl
  lastIpId := BitVec.ofNat 16 te.lastIpId
  seq := BitVec.ofNat 32 te.tcp.seq
  ack := BitVec.ofNat 32 te.tcp.ack
  rcvWindow := BitVec.ofNat 16 te.tcp.rcvWindow
  rcvWindowScale := BitVec.ofNat 16 te.tcp.rcvWindowScale
  sndWindow := BitVec.ofNat 16 te.tcp.sndWindow
  sndWindowScale := BitVec.ofNat 16 te.tcp.sndWindowScale
  curTs := if te.tcp.tsOption then (BitVec.ofNat 32 te.tcp.curTs.tsval,
    BitVec.ofNat 32 te.tcp.curTs.tsecr) else (0, 0)
  lastTs := if te.tcp.tsOption then (BitVec.ofNat 32 te.tcp.lastTs.tsval,
    BitVec.ofNat 32 te.tcp.lastTs.tsecr) else (0, 0)
  optionTs := te.tcp.tsOption
  optionSack := te.tcp.sackOption

/-- `telex_send_init_data`, built with `TELEX_LEAK_KEY` as `bronnect.h` defines it: the record it
    sent, or nothing where the source returns 1. Only `dh$p` is checked before it is used. -/
def telexSendInitData (cid : ConnId) (te : TelexInfo) (send : Bool) :
    Except Fault (Option InitData) :=
  match te.sock, te.dh.p with
  | none, _ => .ok none
  | some _, none => .ok none
  | some _, some p =>
      match te.dh.g, te.dh.pubKey, te.dh.clientRandom, te.dh.serverRandom, te.dh.clientIv,
        te.dh.serverIv with
      | some _, some pubKey, some clientRandom, some serverRandom, some clientIv, some serverIv =>
          if 128 < p.length ∨ 128 < pubKey.length ∨ 32 < clientRandom.length ∨
              32 < serverRandom.length ∨ 16 < clientIv.length ∨ 16 < serverIv.length then .ok none
          else if send then
            let flow := telexFillFlow cid te
            .ok (some
              { flowState := { flow with lastTtl := flow.lastTtl + 1 }
                sharedSecret := if te.keyInfo.sharedKey.length = 16 then te.keyInfo.sharedKey
                  else List.replicate 16 0
                port := if te.keyInfo.sharedKey.length = 16 then BitVec.ofNat 16 te.keyInfo.port
                  else 0
                p, pubKey, clientRandom, serverRandom, clientIv, serverIv })
          else .ok none
      | _, _, _, _, _, _ => .error .nullDeref

/-- `telex_send_bronnect_raw_pkt`; the policy ignores its return value. -/
def telexSendBronnectRawPkt (s : State) (cid : ConnId) (te : TelexInfo) (pkt : Str) (send : Bool) :
    State :=
  match te.sock, send with
  | some sock, true => s.did (.send cid sock (.raw pkt))
  | _, _ => s

/-! ### Functions of the policy -/

/-- `do_expire`, also `cleanup_and_unblock_connection`. -/
def doExpire (s : State) (cid : ConnId) (blocker : Bool) : Except Fault State :=
  match s.table cid with
  | none => .ok s
  | some te => do
      let s ← telexModBlock s cid false blocker
      return (cleanupTelexObj s te).set cid none

/-- `cleanup_connection`, on the entry `te` of `cid`. -/
def cleanupConnection (s : State) (cid : ConnId) (te : TelexInfo) : State :=
  (cleanupTelexObj s te).set cid none

/-- `ssl_app_data` -/
def sslAppData (s : State) (cid : ConnId) (blocker : Bool) : Except Fault State :=
  match s.table cid with
  | none => .ok s
  | some te => if te.sock = none then .ok s else doExpire s cid blocker

/-- `ssl_change_cipher` -/
def sslChangeCipher (s : State) (cid : ConnId) (isOrig blocker : Bool) : Except Fault State :=
  match s.table cid with
  | none => .ok s
  | some te =>
      if te.state = 1 then
        if isOrig then .ok (s.set cid (some { te with state := 2 })) else doExpire s cid blocker
      else if te.state = 2 ∧ isOrig = false then .ok (s.set cid (some { te with state := 4 }))
      else doExpire s cid blocker

/-- What `c$orig` and `c$resp` hold of an endpoint. -/
structure Endpoint where
  lastSeq : ℕ
  lastWindow : ℕ
  lastWindowScale : ℕ
  lastIpId : ℕ
  lastTtl : ℕ
  deriving DecidableEq

/-- `get_iv_from_handshake`: the last sixteen bytes; below fifteen the start wraps around and the
    result is empty. -/
def getIvFromHandshake (data : Str) : Str :=
  if data.length < 15 then [] else data.drop (data.length - 16)

/-- The part of `ssl_handshake` before the init record is sent. -/
def recordFinished (te : TelexInfo) (isOrig : Bool) (data : Str) (orig resp : Endpoint) :
    TelexInfo :=
  if 2 ≤ te.state ∧ isOrig = true then
    { te with
      dh := { te.dh with clientIv := some (getIvFromHandshake data) }
      tcp := { te.tcp with
        ack := orig.lastSeq
        seq := resp.lastSeq
        sndWindow := resp.lastWindow >>> resp.lastWindowScale
        sndWindowScale := resp.lastWindowScale
        rcvWindow := orig.lastWindow >>> orig.lastWindowScale
        rcvWindowScale := orig.lastWindowScale }
      lastIpId := resp.lastIpId
      lastTtl := resp.lastTtl }
  else if 3 ≤ te.state ∧ isOrig = false then
    { te with dh := { te.dh with serverIv := some (getIvFromHandshake data) } }
  else te

/-- `ssl_handshake` -/
def sslHandshake (s : State) (cid : ConnId) (isOrig : Bool) (data : Str) (orig resp : Endpoint)
    (send blocker : Bool) : Except Fault State :=
  match s.table cid with
  | none => .ok s
  | some te =>
      let te := recordFinished te isOrig data orig resp
      let s := s.set cid (some te)
      if te.state = 4 then do
        match ← telexSendInitData cid te send with
        | none => doExpire s cid blocker
        | some d =>
            let s := match te.sock with
              | some sock => s.did (.send cid sock (.init d))
              | none => s
            return s.set cid (some { te with state := 5 })
      else .ok s

/-! ### Events -/

/-- The events the policy handles, each with what the handler learns from outside. -/
inductive Event
  | sslConnAttempt (cid : ConnId) (isTagged : Bool) (diff : ℤ) (key : KeyInfo) (clientRandom : Str)
      (now : ℕ) (connect : Connect) (blocker : Bool)
  | sslConnServerReply (cid : ConnId) (serverRandom : Str)
  | sslServerKeyExchange (cid : ConnId) (p g pubKey : Str)
  | sslRecord (cid : ConnId) (isOrig : Bool) (typ : ℕ) (data : Str) (orig resp : Endpoint)
      (send blocker : Bool)
  | sslConnAlert (cid : ConnId) (isOrig : Bool)
  | newPacketFinal (cid : ConnId) (now : ℕ) (pkt : Str) (send blocker : Bool)
  | tcpOption (cid : ConnId) (isOrig : Bool) (opt : ℕ) (ts : TcpTsInfo)
  | expire (cid : ConnId) (blocker : Bool)
  | connectionStateRemove (cid : ConnId) (blocker : Bool)

/-- The entry of a newly tagged connection. -/
def newTelexInfo (key : KeyInfo) (clientRandom : Str) (now : ℕ) : TelexInfo where
  keyInfo := key
  lastTtl := 0
  tcp :=
    { seq := 0, ack := 0, rcvWindow := 0, rcvWindowScale := 0, sndWindow := 0, sndWindowScale := 0
      curTs := ⟨0, 0⟩, lastTs := ⟨0, 0⟩, tsOption := false, sackOption := false }
  lastIpId := 0
  doFwd := true
  fwdTime := now
  sock := none
  state := 1
  dh := ⟨none, none, none, some clientRandom, none, none, none⟩

/-- `ssl_conn_attempt` -/
def sslConnAttempt (s : State) (cid : ConnId) (isTagged : Bool) (diff : ℤ) (key : KeyInfo)
    (clientRandom : Str) (now : ℕ) (connect : Connect) (blocker : Bool) : Except Fault State :=
  match s.table cid with
  | some _ => .ok s
  | none =>
      if isTagged = false ∨ 60 < diff ∨ diff < -60 then .ok (s.did (.skip cid))
      else do
        let s ← telexModBlock s cid true blocker
        let (s, te) ← telexInitBronnect s (newTelexInfo key clientRandom now) connect
        return s.set cid (some te)

/-- `new_packet_final` -/
def newPacketFinal (s : State) (cid : ConnId) (now : ℕ) (pkt : Str) (send blocker : Bool) :
    Except Fault State :=
  match s.table cid with
  | none => .ok s
  | some te =>
      if te.doFwd then
        if te.fwdTime < now then
          if te.state = 5 then
            let te := { te with doFwd := false }
            let s := telexSendBronnectRawPkt s cid te pkt send
            let te := { te with state := 6 }
            let s := s.did (.rst cid)
            .ok (cleanupConnection s cid te)
          else .ok (s.did (.fwd pkt))
        else if te.state = 5 then
          doExpire (s.set cid (some { te with doFwd := false, state := 7 })) cid blocker
        else .ok s
      else .ok s

/-- `tcp_option` -/
def tcpOption (s : State) (cid : ConnId) (isOrig : Bool) (opt : ℕ) (ts : TcpTsInfo) : State :=
  match s.table cid with
  | none => s
  | some te =>
      if opt = 8 then
        if isOrig = false then
          s.set cid (some { te with tcp := { te.tcp with
            tsOption := true
            lastTs := if te.tcp.curTs.tsval ≠ ts.tsval then te.tcp.curTs else te.tcp.lastTs
            curTs := if te.tcp.curTs.tsval ≠ ts.tsval then ts else te.tcp.curTs } })
        else s
      else if opt = 4 then
        if isOrig then s.set cid (some { te with tcp := { te.tcp with sackOption := true } }) else s
      else s

/-- Handle one event. -/
def step (s : State) : Event → Except Fault State
  | .sslConnAttempt cid isTagged diff key clientRandom now connect blocker =>
      sslConnAttempt s cid isTagged diff key clientRandom now connect blocker
  | .sslConnServerReply cid serverRandom =>
      match s.table cid with
      | none => .ok s
      | some te =>
          .ok (s.set cid (some { te with dh := { te.dh with serverRandom := some serverRandom } }))
  | .sslServerKeyExchange cid p g pubKey =>
      match s.table cid with
      | none => .ok s
      | some te => .ok (s.set cid (some { te with
          dh := { te.dh with p := some p, g := some g, pubKey := some pubKey } }))
  | .sslRecord cid isOrig typ data orig resp send blocker =>
      if typ = 23 then sslAppData s cid blocker
      else if typ = 20 then sslChangeCipher s cid isOrig blocker
      else if typ = 22 then sslHandshake s cid isOrig data orig resp send blocker
      else .ok s
  | .sslConnAlert cid isOrig =>
      match s.table cid with
      | none => .ok s
      | some te => .ok (if isOrig then cleanupConnection s cid te else s)
  | .newPacketFinal cid now pkt send blocker => newPacketFinal s cid now pkt send blocker
  | .tcpOption cid isOrig opt ts => .ok (tcpOption s cid isOrig opt ts)
  | .expire cid blocker => doExpire s cid blocker
  | .connectionStateRemove cid blocker => doExpire s cid blocker

end Telex.Bro
