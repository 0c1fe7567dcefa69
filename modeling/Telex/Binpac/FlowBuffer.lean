import Telex.Bro.Model
import Telex.Lib.Framing

/-! The flow buffer of the generated parsers: `binpac_buffer.cc`, `pac_flow.cc`, `pac_type.cc`

    A flow keeps no copy of its input where it can: while a frame lies in one segment the buffer only
    points into that segment, and it copies what it has once a frame is cut. A unit of the flow is
    parsed in three calls: one asks for the header, one asks for the length the header gives, one
    parses the frame. The buffer's own variables say which bytes of the segment are still to come, and
    nearly every function asserts something about them.

    A `none` below is an assertion that fails or a loop that has not ended after the rounds it is
    given: three for the calls on a unit, one more than there are bytes for the units of a segment. The
    memory for a copy is taken to be there; `ExpandBuffer` asserts that it is. The buffer's line mode
    and its chunked frames are not modelled: the flows of the SSL analyzer ask for neither. -/

namespace Telex.Binpac
open Bro (Byte)
open Framing (Format)

inductive Mode
  | unknown
  | frame
  deriving DecidableEq

structure FlowBuffer where
  /-- `buffer_`, its first `buffer_n_` bytes. -/
  buffer : List Byte
  /-- What lies between `orig_data_begin_` and `orig_data_end_`. -/
  orig : List Byte
  messageComplete : Bool
  frameLength : ℤ
  mode : Mode
  havePendingRequest : Bool
  deriving DecidableEq

namespace FlowBuffer

def init : FlowBuffer where
  buffer := []
  orig := []
  messageComplete := false
  frameLength := 0
  mode := .unknown
  havePendingRequest := false

variable (b : FlowBuffer)

def ready : Bool := b.messageComplete || b.mode = .unknown

def dataAvailable : Bool := b.buffer ≠ [] || b.orig ≠ []

/-- `begin` and `end`: the bytes between the pointers they return. -/
def frame : Option (List Byte) :=
  if b.ready then
    if b.buffer = [] then
      if 0 ≤ b.frameLength ∧ b.frameLength ≤ b.orig.length then some (b.orig.take b.frameLength.toNat)
      else none
    else some b.buffer
  else none

def bytesToAdvance : ℤ :=
  if b.buffer = [] then
    match b.mode with
    | .frame => b.frameLength
    | .unknown => 0
  else 0

def newMessage : Option FlowBuffer :=
  if 0 ≤ b.frameLength ∧ b.bytesToAdvance ≤ b.orig.length then
    some { b with orig := b.orig.drop b.bytesToAdvance.toNat, buffer := [], messageComplete := false }
  else none

def appendToBuffer (len : ℤ) : Option FlowBuffer :=
  if len ≤ 0 then some b
  else if len ≤ b.orig.length then
    some { b with buffer := b.buffer ++ b.orig.take len.toNat, orig := b.orig.drop len.toNat }
  else none

def markOrCopyFrame : Option FlowBuffer :=
  if b.buffer = [] then
    if 0 ≤ b.frameLength ∧ b.frameLength ≤ b.orig.length then some { b with messageComplete := true }
    else do
      let b ← b.appendToBuffer b.orig.length
      return { b with messageComplete := false }
  else if 0 ≤ b.frameLength ∧ b.frameLength ≤ b.buffer.length + b.orig.length then
    { b with messageComplete := true }.appendToBuffer (b.frameLength - b.buffer.length)
  else { b with messageComplete := false }.appendToBuffer b.orig.length

def markOrCopy : Option FlowBuffer :=
  if b.messageComplete then some b
  else
    match b.mode with
    | .frame => b.markOrCopyFrame
    | .unknown => some b

def newFrame (frameLength : ℤ) : Option FlowBuffer := do
  let b ← b.newMessage
  { b with mode := .frame, frameLength, havePendingRequest := true }.markOrCopyFrame

def growFrame (length : ℤ) : Option FlowBuffer :=
  if 0 ≤ b.frameLength then
    if length ≤ b.frameLength then some b
    else { b with mode := .frame, frameLength := length }.markOrCopyFrame
  else none

def discardData (_ : FlowBuffer) : FlowBuffer where
  buffer := []
  orig := []
  messageComplete := false
  frameLength := 0
  mode := .unknown
  havePendingRequest := false

def setEof : FlowBuffer :=
  { b with frameLength := if b.frameLength < 0 then 0 else b.frameLength }

/-- `ClearPreviousData`, which only asserts when no frame is chunked. -/
def clearPreviousData : Option FlowBuffer := if b.orig ≠ [] ∧ b.buffer ≠ [] then none else some b

def newData (data : List Byte) : Option FlowBuffer := do
  let b ← b.clearPreviousData
  if (b.buffer = [] ∧ b.messageComplete) ∨ b.orig = [] then
    FlowBuffer.markOrCopy { b with orig := data }
  else none

/-- The length of the gap matters to chunked frames only. -/
def newGap : Option FlowBuffer := do
  let b ← b.clearPreviousData
  FlowBuffer.markOrCopy { b with orig := [] }

/-- How many bytes there are. -/
def held : ℕ := b.buffer.length + b.orig.length

/-- The condition of the loop over the units of a flow. -/
def again : Bool := b.dataAvailable && (!b.havePendingRequest || b.ready)

end FlowBuffer

/-! ### A flow of units -/

inductive BufferingState
  | start
  | header
  | frame
  deriving DecidableEq

/-- What the code that parses a whole frame did: it ended, it had the flow's data discarded before it
    ended, or it threw an exception. -/
inductive Parsed
  | done
  | discarded
  | thrown
  deriving DecidableEq

/-- A record whose `&length` needs the first bytes of it, parsed in the analyzer state `σ`. -/
structure UnitType (σ : Type) where
  initialBufferLength : ℕ
  pos : 0 < initialBufferLength
  length : List Byte → ℤ
  parse : σ → List Byte → σ × Parsed

structure Flow (σ : Type) where
  flowBuffer : FlowBuffer
  /-- `dataunit_`, of which the buffering state matters here. -/
  dataunit : Option BufferingState
  analyzer : σ

/-- What `ParseBuffer` returns: that parsing is complete or not, or an exception. -/
inductive Progress
  | complete
  | incomplete
  | thrown
  deriving DecidableEq

variable {σ : Type} (U : UnitType σ)

structure Call (σ : Type) where
  unit : BufferingState
  flowBuffer : FlowBuffer
  analyzer : σ
  progress : Progress

def parseBuffer (u : BufferingState) (b : FlowBuffer) (s : σ) : Option (Call σ) := do
  let data ← b.frame
  match u with
  | .start =>
    let b ← b.newFrame U.initialBufferLength
    return ⟨.header, b, s, .incomplete⟩
  | .header =>
    let b ← b.growFrame (U.length data)
    return ⟨.frame, b, s, .incomplete⟩
  | .frame =>
    let r := U.parse s data
    match r.2 with
    | .done => return ⟨.start, b, r.1, .complete⟩
    | .discarded => return ⟨.start, b.discardData, r.1, .complete⟩
    | .thrown => return ⟨.frame, b, r.1, .thrown⟩

/-- `while ( ! parsing_complete && ready() )` -/
def bufferingLoop : ℕ → BufferingState → FlowBuffer → σ → Option (Call σ)
  | 0, _, _, _ => none
  | rounds + 1, u, b, s => do
    if b.ready then
      let r ← parseBuffer U u b s
      match r.progress with
      | .incomplete => bufferingLoop rounds r.unit r.flowBuffer r.analyzer
      | _ => return r
    else return ⟨u, b, s, .incomplete⟩

/-- The unit to parse, and the buffer after a new one was made. -/
def newDataUnit (unit : Option BufferingState) (b : FlowBuffer) : Option (BufferingState × FlowBuffer) :=
  match unit with
  | some u => some (u, b)
  | none => do
    let b ← b.newFrame 0
    return (.start, b)

/-- The loop of the flow's `NewData`. An exception leaves it after the flow was cleaned up. -/
def flowLoop : ℕ → Flow σ → Option (Flow σ)
  | 0, _ => none
  | rounds + 1, fl => do
    if fl.flowBuffer.again then
      let p ← newDataUnit fl.dataunit fl.flowBuffer
      let r ← bufferingLoop U 3 p.1 p.2 fl.analyzer
      match r.progress with
      | .complete => flowLoop rounds ⟨r.flowBuffer, none, r.analyzer⟩
      | .thrown => return ⟨r.flowBuffer.discardData, none, r.analyzer⟩
      | .incomplete =>
        if r.flowBuffer.ready then none else return ⟨r.flowBuffer, some r.unit, r.analyzer⟩
    else return fl

/-- What reaches a flow. -/
inductive Delivery
  | data (bytes : List Byte)
  | gap
  | eof

def Delivery.bytes : Delivery → List Byte
  | .data bytes => bytes
  | .gap => []
  | .eof => []

/-- `NewData`, `NewGap` and `FlowEOF` of a flow. -/
def Flow.receive (fl : Flow σ) : Delivery → Option (Flow σ)
  | .data bytes => do
    let b ← fl.flowBuffer.newData bytes
    flowLoop U (b.held + 1) { fl with flowBuffer := b }
  | .gap => do
    let b ← fl.flowBuffer.newGap
    return { fl with flowBuffer := b }
  | .eof => do
    let b ← fl.flowBuffer.setEof.newData []
    flowLoop U (b.held + 1) { fl with flowBuffer := b }

end Telex.Binpac
