import Mathlib.Data.Finset.Card
import Telex.Bro.Protocol

/-! Bronnect, the station's end of a connection that was taken over: `net/bronnect.c`, `net/watchdog.c`

    Bronnect is one event loop. Bro connects to it once for each tagged flow and sends an init and a
    raw record; bronnect then opens a connection to the service, takes over the TCP connection of the
    client and relays between the two until one of them ends. A callback is a step; what the system,
    OpenSSL and the peers answer in it is an `Outcomes`, and a field whose call is not made is not
    read. A failed assertion or a call of `exit` ends the process, and the step is `none`.

    A callback may go on after it has freed its `ConnectionState`. The `Cell` it works on counts how
    often the record was freed and notes whether it was used after; a freed record reads as it was
    left until the callback returns.

    An event that is overwritten while it is registered is lost to the model. Only a second init
    record does that, and when such an event fires the assertion of `on_finish_connect` fails. -/

namespace Telex.Bronnect
open Bro (Flow InitData Str recordTypeInit recordTypeRawPkt)

/-- The values of `SSL_get_error`. -/
inductive SslError
  | none
  | ssl
  | wantRead
  | wantWrite
  | wantX509Lookup
  | syscall
  | zeroReturn
  | wantConnect
  | wantAccept
  deriving DecidableEq

/-- `struct event`: its descriptor, whether it stays registered when it fires, and whether it is
    registered. -/
structure Ev where
  fd : ℤ
  persist : Bool
  added : Bool
  deriving DecidableEq

/-- `struct sock_state`, as far as `setup_fake_socket` fills it. -/
structure SockState where
  sport : BitVec 16
  dport : BitVec 16
  saddr : BitVec 32
  daddr : BitVec 32
  rcvNxt : BitVec 32
  sndNxt : BitVec 32
  sndUna : BitVec 32
  tstampOk : Bool
  sackOk : Bool
  rcvWnd : BitVec 32
  sndWnd : BitVec 32
  wscaleOk : Bool
  rcvWscale : BitVec 8
  sndWscale : BitVec 8
  tsRecent : BitVec 32
  tsVal : BitVec 32
  mssClamp : BitVec 32
  ecnOk : Bool
  deriving DecidableEq

/-- The addresses and ports of a flow. -/
structure FlowKey where
  origH : BitVec 32
  origP : BitVec 16
  respH : BitVec 32
  respP : BitVec 16
  deriving DecidableEq

def FlowKey.of (f : Flow) : FlowKey := ⟨f.origH, f.origP, f.respH, f.respP⟩

/-- A record that `on_telex_read` does not expect. -/
inductive Odd
  | extraInit
  | wrongState
  | undefinedType
  deriving DecidableEq

/-- What a connection did so far: the types of the records whose header came in, the flow of the init
    record, the odd branches taken, the socket that was forged, whether the service refused the
    connection, the unblock messages sent and the bytes relayed. -/
structure Trace where
  records : List (BitVec 16)
  initFlow : Option Flow
  odd : List Odd
  forged : Option SockState
  connectFailed : Bool
  unblocks : List FlowKey
  fromService : Str
  toClient : Str
  fromClient : Str
  toService : Str
  deriving DecidableEq

/-- `struct ConnectionState`. A pointer to an event is an option, `evWatchdog` tells whether the timer
    is armed, `ssl` whether there is an SSL object and `tCleanup` whether the time is set. -/
structure ConnectionState where
  telexConn : ℤ
  serviceConn : ℤ
  clientConn : ℤ
  flowState : Flow
  evTelexRead : Option Ev
  evServiceRead : Option Ev
  evServiceWrite : Option Ev
  evClientRead : Option Ev
  evClientWrite : Option Ev
  evWatchdog : Option Bool
  ssl : Bool
  clientReadyRead : Bool
  clientReadyWrite : Bool
  serviceReadyRead : Bool
  serviceReadyWrite : Bool
  cleanupWaiting : SslError
  state : ℕ
  keyPort : ℤ
  tCleanup : Bool
  trace : Trace
  deriving DecidableEq

/-- `struct bro_record_hdr` -/
structure Hdr where
  type : BitVec 16
  len : BitVec 16
  deriving DecidableEq

/-- `sizeof(struct bro_init_data)` -/
def sizeofInitData : BitVec 16 := 587

/-- What `setup_fake_socket` gets: no socket, no address, or the answer of the forging `ioctl`. -/
inductive FakeSocket
  | noSocket
  | noBind
  | ioctl (fd : ℤ)
  deriving DecidableEq

/-- What `recv` from the service returns: an error, which may be that it would block, or bytes. -/
inductive Recv
  | error (again : Bool)
  | data (bytes : Str)
  deriving DecidableEq

/-- The answers to the calls of one callback. -/
structure Outcomes where
  /-- `recv_msg_header`, unset when it fails -/
  hdr : Option Hdr
  /-- `recv_init_data`, unset when it fails -/
  initData : Option InitData
  /-- `start_tcp_connect` with `need_finish`, unset when the host is not resolved -/
  connect : Option (ℤ × Bool)
  /-- `telex_get_shared_secret` -/
  leakedLen : ℤ
  /-- `get_live_ssl_obj`, false when it exits -/
  liveSsl : Bool
  /-- the length of the raw packet received -/
  raw : ℤ
  fake : FakeSocket
  /-- `SO_ERROR` of the service socket, unset when `getsockopt` fails -/
  soError : Option ℤ
  recvService : Recv
  sslWrite : SslError
  sslRead : SslError × Str
  /-- `sendall` to the service -/
  sendService : Bool
  /-- `SSL_shutdown` in `cleanup_connection_ssl` -/
  shutdown : ℤ
  /-- `SSL_shutdown` in `cleanup_connection_ssl_try_shutdown`, with its error -/
  retry : ℤ × SslError
  /-- `sendall` to the flow blocker -/
  unblock : Bool

/-- The record while a callback works on it. -/
structure Cell where
  st : ConnectionState
  freed : ℕ
  stale : Bool

/-- The callback uses the record. -/
def Cell.use (s : Cell) : Cell := { s with stale := s.stale || decide (0 < s.freed) }

/-- The callback writes the record. -/
def Cell.set (s : Cell) (st : ConnectionState) : Cell := { s.use with st := st }

def eventAdd (e : Option Ev) : Option Ev := e.map fun ev => { ev with added := true }

def eventDel (e : Option Ev) : Option Ev := e.map fun ev => { ev with added := false }

/-! ### Watchdog -/

/-- `pet_watchdog` -/
def petWatchdog (s : Cell) : Cell :=
  s.set { s.st with evWatchdog := s.st.evWatchdog.map fun _ => true }

/-- `initialize_watchdog` -/
def initializeWatchdog (s : Cell) : Cell := s.set { s.st with evWatchdog := some true }

/-! ### Cleanup -/

/-- `telex_remote_mod_flow` for the flow of the record; its result is not looked at. -/
def telexRemoteModFlow (o : Outcomes) (st : ConnectionState) : Trace :=
  if o.unblock then
    { st.trace with unblocks := st.trace.unblocks ++ [FlowKey.of st.flowState] }
  else st.trace

/-- The record as `cleanup_connection_after_ssl` leaves it. -/
def released (o : Outcomes) (unblock : Bool) (st : ConnectionState) : ConnectionState :=
  { st with
    state := 6
    ssl := false
    clientConn := if 0 ≤ st.clientConn then -1 else st.clientConn
    trace := if unblock then telexRemoteModFlow o st else st.trace
    evWatchdog := none
    evTelexRead := eventDel st.evTelexRead
    evServiceRead := if st.serviceReadyRead then st.evServiceRead else eventDel st.evServiceRead
    evServiceWrite := if st.serviceReadyWrite then st.evServiceWrite else eventDel st.evServiceWrite
    evClientRead := if st.clientReadyRead then st.evClientRead else eventDel st.evClientRead
    evClientWrite := if st.clientReadyWrite then st.evClientWrite else eventDel st.evClientWrite }

/-- `cleanup_connection_after_ssl` -/
def cleanupConnectionAfterSsl (o : Outcomes) (unblock : Bool) (s : Cell) : Cell :=
  { s.set (released o unblock s.st) with freed := s.freed + 1 }

/-- `cleanup_connection_ssl_try_shutdown` -/
def cleanupConnectionSslTryShutdown (o : Outcomes) (s : Cell) : Cell :=
  if s.st.ssl = false then cleanupConnectionAfterSsl o true s
  else
    let s := s.set { s.st with state := 5 }
    if 0 ≤ o.retry.1 then cleanupConnectionAfterSsl o true s
    else
      let s := s.set { s.st with cleanupWaiting := o.retry.2 }
      match o.retry.2 with
      | .wantRead | .wantWrite => s
      | _ => cleanupConnectionAfterSsl o true s

/-- `close_telex_connection` -/
def closeTelexConnection (s : Cell) : Cell :=
  s.set { s.st with
    telexConn := if 0 ≤ s.st.telexConn then -2 else s.st.telexConn
    evTelexRead := none }

/-- `cleanup_connection_ssl`, also `cleanup_connection` -/
def cleanupConnection (o : Outcomes) (s : Cell) : Cell :=
  let s := closeTelexConnection (s.set { s.st with tCleanup := true })
  if s.st.ssl then
    if o.shutdown = 0 then cleanupConnectionSslTryShutdown o s
    else cleanupConnectionAfterSsl o true (s.set { s.st with ssl := false })
  else cleanupConnectionAfterSsl o (decide (0 < s.st.state)) s

/-! ### Relay -/

/-- `log_data`, without the line it logs -/
def logData (s : Cell) : Cell := if s.st.state = 3 then s.use else s.set { s.st with state := 3 }

/-- `forward_client_to_service` -/
def forwardClientToService (o : Outcomes) (s : Cell) : Option (Bool × Cell) :=
  match o.sslRead with
  | (.none, bytes) =>
      if bytes = [] then none
      else
        let s := s.set { s.st with trace := { s.st.trace with
          fromClient := s.st.trace.fromClient ++ bytes
          toService := s.st.trace.toService ++ bytes } }
        let s := logData s
        if o.sendService then some (true, s) else some (false, cleanupConnection o s)
  | (.wantRead, _) | (.wantWrite, _) => some (true, s.use)
  | (.syscall, _) => some (false, cleanupConnectionAfterSsl o true s)
  | _ => some (false, cleanupConnection o s)

/-- `forward_service_to_client` -/
def forwardServiceToClient (o : Outcomes) (s : Cell) : Option (Bool × Cell) :=
  if s.st.clientConn < 0 then none
  else
    match o.recvService with
    | .error true => some (true, s.use)
    | .error false => some (false, cleanupConnection o s)
    | .data [] => some (false, cleanupConnection o s)
    | .data (b :: bytes) =>
        let s := s.set { s.st with trace := { s.st.trace with
          fromService := s.st.trace.fromService ++ b :: bytes } }
        match o.sslWrite with
        | .none => some (true, s.set { s.st with trace := { s.st.trace with
            toClient := s.st.trace.toClient ++ b :: bytes } })
        | .wantWrite | .wantRead => some (true, s)
        | _ => some (false, cleanupConnection o s)

/-- The first half of `try_to_forward`: false when the connection is cleaned up. -/
def tryDown (o : Outcomes) (s : Cell) : Option (Bool × Cell) :=
  if s.st.serviceReadyRead && s.st.clientReadyWrite then
    match forwardServiceToClient o s with
    | none => none
    | some (false, s) => some (false, s)
    | some (true, s) => some (true, s.set { s.st with
        serviceReadyRead := false
        clientReadyWrite := false
        evServiceRead := eventAdd s.st.evServiceRead
        evClientWrite := eventAdd s.st.evClientWrite })
  else some (true, s.use)

/-- The second half of `try_to_forward` -/
def tryUp (o : Outcomes) (s : Cell) : Option Cell :=
  if s.st.serviceReadyWrite && s.st.clientReadyRead then
    match forwardClientToService o s with
    | none => none
    | some (false, s) => some s
    | some (true, s) => some (s.set { s.st with
        serviceReadyWrite := false
        clientReadyRead := false
        evServiceWrite := eventAdd s.st.evServiceWrite
        evClientRead := eventAdd s.st.evClientRead })
  else some s.use

/-- `try_to_forward` -/
def tryToForward (o : Outcomes) (s : Cell) : Option Cell :=
  match tryDown o s with
  | none => none
  | some (false, s) => some s
  | some (true, s) => tryUp o s

/-- `on_read_ready` -/
def onReadReady (fd : ℤ) (o : Outcomes) (s : Cell) : Option Cell :=
  if s.st.clientConn = fd then
    let s := s.set { s.st with clientReadyRead := true, evClientRead := eventDel s.st.evClientRead }
    if s.st.cleanupWaiting = .wantRead then some (cleanupConnectionSslTryShutdown o s)
    else (tryToForward o s).map petWatchdog
  else if s.st.serviceConn = fd then
    (tryToForward o (s.set { s.st with
      serviceReadyRead := true, evServiceRead := eventDel s.st.evServiceRead })).map petWatchdog
  else some (cleanupConnection o s)

/-- `on_write_ready` -/
def onWriteReady (fd : ℤ) (o : Outcomes) (s : Cell) : Option Cell :=
  if s.st.clientConn = fd then
    if s.st.cleanupWaiting = .wantWrite then some (cleanupConnectionSslTryShutdown o s)
    else (tryToForward o (s.set { s.st with
      clientReadyWrite := true, evClientWrite := eventDel s.st.evClientWrite })).map petWatchdog
  else if s.st.serviceConn = fd then
    (tryToForward o (s.set { s.st with
      serviceReadyWrite := true, evServiceWrite := eventDel s.st.evServiceWrite })).map petWatchdog
  else some (cleanupConnection o s)

/-! ### Records from Bro -/

/-- What `setup_fake_socket` asks the kernel for. -/
def sockState (f : Flow) : SockState where
  dport := f.respP
  daddr := f.respH
  saddr := f.origH
  sport := f.origP
  rcvNxt := f.ack
  sndNxt := f.seq
  sndUna := f.seq + 1
  tstampOk := f.optionTs
  sackOk := f.optionSack
  rcvWnd := f.rcvWindow.setWidth 32
  sndWnd := f.sndWindow.setWidth 32
  wscaleOk := true
  rcvWscale := f.rcvWindowScale.setWidth 8
  sndWscale := f.sndWindowScale.setWidth 8
  tsRecent := f.curTs.2
  tsVal := f.curTs.1
  mssClamp := 1460
  ecnOk := false

/-- `setup_fake_socket`; it returns nothing, so its caller goes on when it has failed. -/
def setupFakeSocket (o : Outcomes) (s : Cell) : Option Cell :=
  match o.fake with
  | .noSocket | .noBind => some (cleanupConnection o s)
  | .ioctl fd =>
      let s := s.set { s.st with
        clientConn := fd
        trace := { s.st.trace with forged := some (sockState s.st.flowState) } }
      if fd < 0 then some (cleanupConnection o s)
      else if s.st.evClientRead.isSome || s.st.evClientWrite.isSome then none
      else some (s.set { s.st with
        evClientRead := some ⟨fd, true, true⟩
        evClientWrite := some ⟨fd, true, true⟩ })

/-- `init_service_connection` -/
def initServiceConnection (o : Outcomes) (s : Cell) : Option (ℤ × Cell) :=
  match o.connect with
  | none => none
  | some (fd, needFinish) =>
      if fd < 0 then some (fd, s)
      else some (fd, s.set { s.st with
        evServiceWrite := if needFinish then some ⟨fd, false, true⟩ else none })

/-- `on_telex_read` from an init header on -/
def onInit (o : Outcomes) (hdr : Hdr) (s : Cell) : Option Cell :=
  if hdr.len ≠ sizeofInitData then none
  else
    match o.initData with
    | none => some (cleanupConnection o s)
    | some d =>
        let s := initializeWatchdog (s.set { s.st with
          state := 1, trace := { s.st.trace with initFlow := some d.flowState } })
        if 0 ≤ s.st.clientConn then
          some (s.set { s.st with trace := { s.st.trace with odd := .extraInit :: s.st.trace.odd } })
        else
          let s := s.set { s.st with keyPort := d.port.toNat }
          if s.st.keyPort ≤ 0 then none
          else
            match initServiceConnection o s with
            | none => none
            | some (fd, s) =>
                let s := s.set { s.st with serviceConn := fd }
                if fd < 0 then some (cleanupConnection o s)
                else
                  let s := s.set { s.st with flowState := d.flowState }
                  if o.leakedLen < 0 then some (cleanupConnection o s)
                  else if o.liveSsl = false then none
                  else some (petWatchdog (s.set { s.st with ssl := true }))

/-- `on_telex_read` from a raw packet's header on -/
def onRawPkt (o : Outcomes) (hdr : Hdr) (s : Cell) : Option Cell :=
  if s.st.state ≠ 1 then
    some (cleanupConnection o (s.set { s.st with trace := { s.st.trace with
      odd := .wrongState :: s.st.trace.odd } }))
  else
    let s := s.set { s.st with state := 2 }
    if o.raw ≠ hdr.len.toNat then some (cleanupConnection o s)
    else
      match setupFakeSocket o s with
      | none => none
      -- the packet's data is sent to the client here, and only an error message depends on it
      | some s => some (petWatchdog (closeTelexConnection s.use))

/-- `on_telex_read` -/
def onTelexRead (o : Outcomes) (s : Cell) : Option Cell :=
  if 2 < s.st.state then some s
  else
    match o.hdr with
    | none => some (cleanupConnectionAfterSsl o true (s.set { s.st with ssl := false }))
    | some hdr =>
        let s := s.set { s.st with trace := { s.st.trace with
          records := s.st.trace.records ++ [hdr.type] } }
        if hdr.type = recordTypeInit then onInit o hdr s
        else if hdr.type = recordTypeRawPkt then onRawPkt o hdr s
        else some (s.set { s.st with trace := { s.st.trace with
          odd := .undefinedType :: s.st.trace.odd } })

/-! ### The other callbacks -/

/-- `setup_service_read` -/
def setupServiceRead (s : Cell) : Cell :=
  s.set { s.st with
    evServiceRead := some ⟨s.st.serviceConn, true, true⟩
    serviceReadyRead := false }

/-- `on_finish_connect` -/
def onFinishConnect (fd : ℤ) (o : Outcomes) (s : Cell) : Option Cell :=
  if fd ≠ s.st.serviceConn then none
  else
    match o.soError with
    | none => none
    | some optval =>
        if optval ≠ 0 then
          some (cleanupConnection o (s.set { s.st with trace := { s.st.trace with
            connectFailed := true } }))
        else
          let s := setupServiceRead s
          some (petWatchdog (s.set { s.st with
            evServiceWrite := s.st.evServiceWrite.map fun _ => ⟨s.st.serviceConn, true, true⟩ }))

/-- `on_watchdog` -/
def onWatchdog (o : Outcomes) (s : Cell) : Option Cell :=
  if 1 ≤ s.st.state then some (cleanupConnection o s)
  else some (cleanupConnectionAfterSsl o false s)

/-! ### The event loop -/

/-- The events of a connection. -/
inductive Slot
  | telexRead
  | serviceRead
  | serviceWrite
  | clientRead
  | clientWrite
  | watchdog
  deriving DecidableEq

/-- The record at the start of a callback. -/
def Cell.start (st : ConnectionState) : Cell := ⟨st, 0, false⟩

/-- Run the callback of a registered event; one that does not persist is removed first. -/
def fire (slot : Slot) (o : Outcomes) (st : ConnectionState) : Option Cell :=
  match slot with
  | .telexRead =>
      match st.evTelexRead with
      | some ⟨_, _, true⟩ => onTelexRead o (.start st)
      | _ => none
  | .serviceRead =>
      match st.evServiceRead with
      | some ⟨fd, _, true⟩ => onReadReady fd o (.start st)
      | _ => none
  | .serviceWrite =>
      match st.evServiceWrite with
      | some ⟨fd, true, true⟩ => onWriteReady fd o (.start st)
      | some ⟨fd, false, true⟩ =>
          onFinishConnect fd o (.start { st with evServiceWrite := some ⟨fd, false, false⟩ })
      | _ => none
  | .clientRead =>
      match st.evClientRead with
      | some ⟨fd, _, true⟩ => onReadReady fd o (.start st)
      | _ => none
  | .clientWrite =>
      match st.evClientWrite with
      | some ⟨fd, _, true⟩ => onWriteReady fd o (.start st)
      | _ => none
  | .watchdog =>
      match st.evWatchdog with
      | some true => onWatchdog o (.start { st with evWatchdog := some false })
      | _ => none

/-- A zeroed flow. -/
def noFlow : Flow := ⟨0, 0, 0, 0, 0, 0, 0, 0, 0, 0, 0, 0, (0, 0), (0, 0), false, false⟩

/-- The record `handle_bro_connection` makes. -/
def handleBroConnection (conn : ℤ) : ConnectionState where
  telexConn := conn
  serviceConn := -1
  clientConn := -1
  flowState := noFlow
  evTelexRead := some ⟨conn, true, true⟩
  evServiceRead := none
  evServiceWrite := none
  evClientRead := none
  evClientWrite := none
  evWatchdog := some true
  ssl := false
  clientReadyRead := false
  clientReadyWrite := false
  serviceReadyRead := false
  serviceReadyWrite := false
  cleanupWaiting := .none
  state := 0
  keyPort := -1
  tCleanup := false
  trace := ⟨[], none, [], none, false, [], [], [], [], []⟩

/-- The process: the records by number, with those that were freed, the `connections` table,
    `nclients` and `stats.active_connections`. -/
structure World where
  mem : ℕ → ConnectionState
  connections : Finset ℕ
  nclients : ℕ
  activeConnections : ℤ

/-- Bronnect at its start. -/
def World.init : World := ⟨fun _ => handleBroConnection (-1), ∅, 0, 0⟩

/-- Bro connects, or an event of a connection fires. -/
inductive Label
  | accept (conn : ℤ)
  | fire (n : ℕ) (slot : Slot) (o : Outcomes)

/-- One turn of the event loop. -/
def World.step (w : World) : Label → Option World
  | .accept conn =>
      if conn < 0 then none
      else some ⟨Function.update w.mem w.nclients (handleBroConnection conn),
        insert w.nclients w.connections, w.nclients + 1, w.activeConnections + 1⟩
  | .fire n slot o =>
      if n ∈ w.connections then
        match fire slot o (w.mem n) with
        | none => none
        | some s => some ⟨Function.update w.mem n s.st,
            if s.freed = 0 then w.connections else w.connections.erase n,
            w.nclients, w.activeConnections - s.freed⟩
      else none

/-- A condition on the connection, the event and the answers of a callback. -/
def At (P : ConnectionState → Slot → Outcomes → Prop) (w : World) : Label → Prop
  | .accept _ => True
  | .fire n slot o => P (w.mem n) slot o

/-- The kernel does not give the client's socket the number of the open service socket. -/
def Fresh (st : ConnectionState) (slot : Slot) (o : Outcomes) : Prop :=
  slot = .telexRead → ∀ fd, o.fake = .ioctl fd → 0 ≤ fd → fd ≠ st.serviceConn

/-- A step of bronnect. -/
def Step (w : World) (l : Label) (w' : World) : Prop := w.step l = some w' ∧ At Fresh w l

end Telex.Bronnect
