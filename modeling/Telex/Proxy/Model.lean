import Telex.Lib.Runs
import Mathlib.Logic.Function.Basic
import Mathlib.Data.Nat.Basic

/-! The client's proxy: `telex-client/proxy.c`

    A tunnel relays between a local socket and a TLS connection, each a bufferevent; the TLS one is a
    filter over a third bufferevent, whose output carries the ciphertext. Bytes move from the input of
    one party to the output of the other in `read_cb`, and libevent moves them on to the network. A step
    is a callback or something libevent does in between; what libevent may do when is `Enabled`. -/

namespace Telex.Proxy
open Runs

abbrev Byte := BitVec 8

def maxOutputBuffer : ℕ := 512 * 1024

/-- `PARTY` -/
inductive Party
  | loc
  | remote
  deriving DecidableEq

def Party.other : Party → Party
  | .loc => .remote
  | .remote => .loc

/-- The functions that are set as write callbacks. -/
inductive WriteCb
  | drained
  | closeOnFinished
  deriving DecidableEq

/-- `struct bufferevent`. `readcb` and `eventcb` tell whether `read_cb` and `event_cb` are set, and
    `writePending` whether a write has brought the output down to the low mark and the write callback
    has not run since. `paused` records that `read_cb` has disabled `EV_READ` and nothing has enabled
    it since. -/
structure Bufferevent where
  input : List Byte
  output : List Byte
  readcb : Bool
  writecb : Option WriteCb
  eventcb : Bool
  low : ℕ
  high : ℕ
  evRead : Bool
  evWrite : Bool
  writePending : Bool
  paused : Bool
  deriving DecidableEq

/-- A new bufferevent; libevent enables writing only. -/
def Bufferevent.new : Bufferevent := ⟨[], [], false, none, false, 0, 0, false, true, false, false⟩

/-- `bufferevent_setcb` with `event_cb` -/
def Bufferevent.setcb (readcb : Bool) (writecb : Option WriteCb) (b : Bufferevent) : Bufferevent :=
  { b with readcb, writecb, eventcb := true }

/-- `bufferevent_setwatermark` for `EV_WRITE` -/
def Bufferevent.setwatermark (low high : ℕ) (b : Bufferevent) : Bufferevent := { b with low, high }

/-- `bufferevent_enable` with `EV_READ`, and with `EV_WRITE` when `write` is set. -/
def Bufferevent.enable (write : Bool) (b : Bufferevent) : Bufferevent :=
  { b with evRead := true, evWrite := b.evWrite || write, paused := false }

/-- `bufferevent_disable` with `EV_READ` -/
def Bufferevent.disable (b : Bufferevent) : Bufferevent := { b with evRead := false }

/-- libevent is about to run the write callback. -/
def Bufferevent.runWrite (b : Bufferevent) : Bufferevent := { b with writePending := false }

/-- `struct telex_state`. `hasRemote` tells whether `remote` is set, and `remotetcp` is the output of the
    bufferevent under it: the bytes whose ciphertext is still there. The rest is a record of the run:
    `received` is what a party has sent so far, `delivered` what has gone out to it, and `eof` whether
    the end of its stream has been reported. -/
structure TelexState where
  bev : Party → Bufferevent
  hasRemote : Bool
  remotetcp : List Byte
  inBytes : Party → ℕ
  live : Bool
  eof : Party → Bool
  received : Party → List Byte
  delivered : Party → List Byte

/-- The state after `proxy_accept_cb`. -/
def TelexState.init : TelexState :=
  ⟨fun _ => .new, false, [], fun _ => 0, true, fun _ => false, fun _ => [], fun _ => []⟩

def TelexState.present (st : TelexState) (p : Party) : Bool := p = .loc || st.hasRemote

def TelexState.upd (p : Party) (f : Bufferevent → Bufferevent) (st : TelexState) : TelexState :=
  { st with bev := Function.update st.bev p (f (st.bev p)) }

/-- `StateCleanup`: freeing a bufferevent discards its buffers. -/
def stateCleanup (st : TelexState) : TelexState :=
  { st with bev := fun _ => .new, hasRemote := false, remotetcp := [], live := false }

/-- `proxy_notblocked_getaddrinfo_cb`; `ok` is false when the name, the SSL object or the filter is not
    to be had. -/
def proxyNotblockedGetaddrinfoCb (ok : Bool) (st : TelexState) : TelexState :=
  if ok then
    (({ st with hasRemote := true }.upd .remote fun _ => .new).upd .remote (.setcb true none)).upd .loc
      (.setcb true none)
  else stateCleanup st

/-- `evbuffer_add_buffer` in `read_cb`: the input of a party goes to the end of the other's output. -/
def move (p : Party) (st : TelexState) : TelexState :=
  (st.upd p ({ · with input := [] })).upd p.other
    fun b => { b with output := b.output ++ (st.bev p).input }

/-- The part of `read_cb` that pauses the side it reads from. -/
def pause (p : Party) (st : TelexState) : TelexState :=
  ((st.upd p.other (.setcb true (some .drained))).upd p.other
    (.setwatermark (maxOutputBuffer / 2) maxOutputBuffer)).upd p
    fun b => { b.disable with paused := true }

def readCb (p : Party) (st : TelexState) : TelexState :=
  let len := (st.bev p).input.length
  let st := { st with inBytes := Function.update st.inBytes p (st.inBytes p + len) }
  -- partner missing: the data is discarded
  if st.present p.other = false then st.upd p ({ · with input := [] })
  else if maxOutputBuffer ≤ ((move p st).bev p.other).output.length then pause p (move p st)
  else move p st

def drainedWriteCb (p : Party) (st : TelexState) : TelexState :=
  let st := (st.upd p (.setcb true none)).upd p (.setwatermark 0 0)
  if st.present p.other then st.upd p.other (.enable false) else st

def closeOnFinishedWriteCb (p : Party) (st : TelexState) : TelexState :=
  if (st.bev p).output.length = 0 then stateCleanup st else st

/-- The write callback that is set. -/
def writeCb (p : Party) (st : TelexState) : TelexState :=
  match (st.bev p).writecb with
  | none => st
  | some .drained => drainedWriteCb p st
  | some .closeOnFinished => closeOnFinishedWriteCb p st

/-- The events that libevent reports, one at a time. -/
inductive Event
  | connected
  | eof
  | error
  deriving DecidableEq

/-- What `event_cb` does first at the end of a stream: flush pending data. -/
def flush (p : Party) (st : TelexState) : TelexState :=
  if (st.bev p).input.length ≠ 0 then readCb p st else st

def eventCb (p : Party) (st : TelexState) : Event → TelexState
  | .connected => (st.upd .loc (.enable true)).upd .remote (.enable true)
  | .eof =>
    if st.present p.other then
      if ((flush p st).bev p.other).output.length ≠ 0 then
        -- output still pending
        ((flush p st).upd p.other (.setcb false (some .closeOnFinished))).upd p.other .disable
      else stateCleanup (flush p st)
    else stateCleanup st
  | .error => stateCleanup st

inductive Label
  | resolved (ok : Bool)
  | arrive (p : Party) (bytes : List Byte)
  | readCb (p : Party)
  | drain (p : Party) (k : ℕ)
  | drainTcp (k : ℕ)
  | writeCb (p : Party)
  | event (p : Party) (ev : Event)
  deriving DecidableEq

/-- What can happen next. Callbacks are deferred, so a read callback may find its input moved already;
    nothing arrives from a party after the end of its stream. -/
def Enabled (st : TelexState) : Label → Prop
  | .resolved _ => st.live = true ∧ st.hasRemote = false
  | .arrive p bytes => st.live = true ∧ st.present p = true ∧ (st.bev p).evRead = true ∧
      st.eof p = false ∧ bytes ≠ []
  | .readCb p => st.live = true ∧ st.present p = true ∧ (st.bev p).readcb = true
  | .drain p k => st.live = true ∧ st.present p = true ∧ (st.bev p).evWrite = true ∧ 1 ≤ k ∧
      k ≤ (st.bev p).output.length
  | .drainTcp k => st.live = true ∧ 1 ≤ k ∧ k ≤ st.remotetcp.length
  | .writeCb p => st.live = true ∧ st.present p = true ∧ (st.bev p).writePending = true ∧
      (st.bev p).writecb.isSome = true
  | .event p _ => st.live = true ∧ st.present p = true ∧ (st.bev p).eventcb = true

instance (st : TelexState) : (l : Label) → Decidable (Enabled st l)
  | .resolved _ => inferInstanceAs (Decidable (_ ∧ _))
  | .arrive _ _ => inferInstanceAs (Decidable (_ ∧ _ ∧ _ ∧ _ ∧ _))
  | .readCb _ => inferInstanceAs (Decidable (_ ∧ _ ∧ _))
  | .drain _ _ => inferInstanceAs (Decidable (_ ∧ _ ∧ _ ∧ _ ∧ _))
  | .drainTcp _ => inferInstanceAs (Decidable (_ ∧ _ ∧ _))
  | .writeCb _ => inferInstanceAs (Decidable (_ ∧ _ ∧ _ ∧ _))
  | .event _ _ => inferInstanceAs (Decidable (_ ∧ _ ∧ _))

/-- libevent writes `k` bytes of the output: to the socket, or for the filter, encrypted, to the
    bufferevent under it. -/
def drain (p : Party) (k : ℕ) (st : TelexState) : TelexState :=
  let out := (st.bev p).output
  let st := st.upd p fun b =>
    { b with
      output := out.drop k
      writePending := b.writePending || (b.writecb.isSome && out.length - k ≤ b.low) }
  match p with
  | .loc => { st with delivered := Function.update st.delivered .loc (st.delivered .loc ++ out.take k) }
  | .remote => { st with remotetcp := st.remotetcp ++ out.take k }

def next (st : TelexState) : Label → TelexState
  | .resolved ok => proxyNotblockedGetaddrinfoCb ok st
  | .arrive p bytes =>
    { st.upd p ({ · with input := (st.bev p).input ++ bytes }) with
      received := Function.update st.received p (st.received p ++ bytes) }
  | .readCb p => readCb p st
  | .drain p k => drain p k st
  | .drainTcp k =>
    { st with
      remotetcp := st.remotetcp.drop k
      delivered := Function.update st.delivered .remote (st.delivered .remote ++ st.remotetcp.take k) }
  | .writeCb p => writeCb p (st.upd p .runWrite)
  | .event p .eof => eventCb p { st.upd p .disable with eof := Function.update st.eof p true } .eof
  | .event p ev => eventCb p st ev

def Step (st : TelexState) (l : Label) (st' : TelexState) : Prop := Enabled st l ∧ st' = next st l

variable {st : TelexState} {p q : Party}

theorem Party.other_ne (p : Party) : p.other ≠ p := by cases p <;> decide

@[simp] theorem Party.other_other (p : Party) : p.other.other = p := by cases p <;> rfl

theorem Party.eq_or_other (p q : Party) : q = p ∨ q = p.other := by cases p <;> cases q <;> simp [other]

@[simp] theorem upd_bev_self (f : Bufferevent → Bufferevent) : (st.upd p f).bev p = f (st.bev p) :=
  Function.update_self ..

@[simp] theorem upd_bev_other (f : Bufferevent → Bufferevent) :
    (st.upd p f).bev p.other = st.bev p.other :=
  Function.update_of_ne p.other_ne ..

@[simp] theorem upd_other_bev (f : Bufferevent → Bufferevent) :
    (st.upd p.other f).bev p = st.bev p :=
  Function.update_of_ne p.other_ne.symm ..

/-- Everything but the bufferevents. -/
structure Frame (st st' : TelexState) : Prop where
  hasRemote : st'.hasRemote = st.hasRemote
  remotetcp : st'.remotetcp = st.remotetcp
  live : st'.live = st.live
  eof : st'.eof = st.eof
  received : st'.received = st.received
  delivered : st'.delivered = st.delivered

theorem frame_upd (f : Bufferevent → Bufferevent) : Frame st (st.upd p f) := ⟨rfl, rfl, rfl, rfl, rfl, rfl⟩

theorem frame_move : Frame st (move p st) := ⟨rfl, rfl, rfl, rfl, rfl, rfl⟩

theorem frame_drainedWriteCb : Frame st (drainedWriteCb p st) := by
  simp only [drainedWriteCb]
  split <;> exact ⟨rfl, rfl, rfl, rfl, rfl, rfl⟩

@[simp] theorem move_bev_self : (move p st).bev p = { st.bev p with input := [] } := by simp [move]

@[simp] theorem move_bev_other : (move p st).bev p.other =
    { st.bev p.other with output := (st.bev p.other).output ++ (st.bev p).input } := by simp [move]

@[simp] theorem pause_bev_self : (pause p st).bev p = { st.bev p with evRead := false, paused := true } := by
  simp [pause, Bufferevent.disable]

@[simp] theorem pause_bev_other : (pause p st).bev p.other =
    { st.bev p.other with
      readcb := true, writecb := some .drained, eventcb := true
      low := maxOutputBuffer / 2, high := maxOutputBuffer } := by
  simp [pause, Bufferevent.setcb, Bufferevent.setwatermark]

/-- `read_cb` when both parties are there. -/
inductive Relays (p : Party) (st : TelexState) : TelexState → Prop
  | below {n} : ((st.bev p.other).output ++ (st.bev p).input).length < maxOutputBuffer →
      Relays p st (move p { st with inBytes := n })
  | above {n} : maxOutputBuffer ≤ ((st.bev p.other).output ++ (st.bev p).input).length →
      Relays p st (pause p (move p { st with inBytes := n }))

theorem readCb_relays (h : st.present p.other = true) : Relays p st (readCb p st) := by
  have hp : ∀ n, ({ st with inBytes := n } : TelexState).present p.other = true := fun _ => h
  simp only [readCb, hp, Bool.true_eq_false, if_false]
  split
  · next hm => exact .above (by simpa using hm)
  · next hm => exact .below (by simpa using hm)

theorem run_next {C : TelexState → Label → Prop} {st₀ : TelexState} {ls : List Label} {l : Label}
    (h : Run (When Step C) st₀ ls st) (he : Enabled st l) (hc : C st l) :
    Run (When Step C) st₀ (ls ++ [l]) (next st l) :=
  h.snoc ⟨⟨he, rfl⟩, hc⟩

end Telex.Proxy
