import Telex.FlowBlocker.Ipset

/-! The flow blocker: `router/flow-blocker/flow_blocker.c` and its client `station/net/telex_block_flow.c`

    The station writes one message of thirteen bytes for each command on a stream socket. The flow
    blocker on the router reads a message at a time, carries the command out at once, and arms a timer
    that unblocks the flow again. Each callback of its event loop is a step; `now` is the loop's time
    in seconds. -/

namespace Telex.FlowBlocker

/-- `struct flow` without its event. -/
structure Flow where
  addr1 : InAddr
  port1 : NetPort
  addr2 : InAddr
  port2 : NetPort
  deriving DecidableEq

structure Command where
  block : Bool
  flow : Flow
  deriving DecidableEq

def blockFlowMsgLength : ℕ := 1 + 4 + 2 + 4 + 2

def flowTimeout : ℕ := 30 * 60 * 60

/-- `sendall`: `sent` are the results of its calls of `send`, and the value is what they wrote and the
    result it returns. Nothing where it is not done after these calls. -/
def sendall : List ℤ → List Byte → Option (List Byte × ℤ)
  | _, [] => some ([], 0)
  | [], _ :: _ => none
  | r :: rs, b :: bs =>
    if r < 0 then some ([], -1)
    else (sendall rs ((b :: bs).drop r.toNat)).map fun w => ((b :: bs).take r.toNat ++ w.1, w.2)

/-- The message of `telex_remote_mod_flow`. -/
def msg (c : Command) : List Byte :=
  let f := c.flow
  [if c.block then 1 else 0, f.addr1.b0, f.addr1.b1, f.addr1.b2, f.addr1.b3, f.port1.b0, f.port1.b1,
    f.addr2.b0, f.addr2.b1, f.addr2.b2, f.addr2.b3, f.port2.b0, f.port2.b1]

def telexRemoteModFlow (sent : List ℤ) (c : Command) : Option (List Byte × ℤ) := sendall sent (msg c)

/-- What calls of `telex_remote_mod_flow` have written on a connection when each of them has returned
    zero; after another result the caller opens a new connection. -/
def written : List (Command × List ℤ) → Option (List Byte)
  | [] => some []
  | (c, sent) :: calls => do
    let (w, r) ← telexRemoteModFlow sent c
    if r = 0 then (written calls).map (w ++ ·) else none

/-- An armed timer. -/
structure Timer where
  flow : Flow
  due : ℕ
  deriving DecidableEq

/-- The flow blocker and the router's set; `executed` are the commands that `on_read_ready` has carried
    out so far, with their times. -/
structure Router where
  ourset : OurSet
  timers : List Timer
  now : ℕ
  executed : List (ℕ × Command)
  deriving DecidableEq

def Router.init (maxelem : Option ℕ) : Router := ⟨⟨maxelem, ∅⟩, [], 0, []⟩

/-- The fields of a whole message. -/
def fields : List Byte → Option Command
  | [b, a0, a1, a2, a3, p0, p1, c0, c1, c2, c3, q0, q1] =>
    some ⟨b ≠ 0, ⟨⟨a0, a1, a2, a3⟩, ⟨p0, p1⟩, ⟨c0, c1, c2, c3⟩, ⟨q0, q1⟩⟩⟩
  | _ => none

/-- `on_read_ready` at the time `now`; `recvd` is what `recv` read, at most a message, or nothing at an
    error or the end of the stream. The second value tells whether the connection stays open. -/
def onReadReady (names : Names) (now : ℕ) (r : Router) (recvd : List Byte) : Router × Bool :=
  match fields recvd with
  | none => (r, recvd ≠ [])
  | some c =>
    let ourset := telexLocalModFlow names r.ourset c.flow.addr1 c.flow.port1 c.flow.addr2 c.flow.port2
      c.block
    ({ r with
        ourset
        timers := r.timers ++ [⟨c.flow, now + flowTimeout⟩]
        executed := r.executed ++ [(now, c)] }, true)

/-- `unblock_flow`, the callback of the `i`-th timer. -/
def unblockFlow (names : Names) (r : Router) (i : ℕ) (timer : Timer) : Router :=
  let f := timer.flow
  { r with
    ourset := telexLocalModFlow names r.ourset f.addr1 f.port1 f.addr2 f.port2 false
    timers := r.timers.eraseIdx i }

inductive Label
  | recv (now : ℕ) (recvd : List Byte)
  | timer (now i : ℕ)
  deriving DecidableEq

/-- A callback. Time does not go back, and a timer does not fire before it is due. -/
inductive Step (names : Names) : Router → Label → Router → Prop
  | recv {r now recvd} : r.now ≤ now → recvd.length ≤ blockFlowMsgLength →
      Step names r (.recv now recvd) { (onReadReady names now r recvd).1 with now }
  | timer {r now i timer} : r.now ≤ now → r.timers[i]? = some timer → timer.due ≤ now →
      Step names r (.timer now i) { unblockFlow names r i timer with now }

/-- The element that the firewall's `--match-set` looks up for a packet of the flow, in either
    direction: the server's address, the client's port and the client's address. -/
def Flow.elem (f : Flow) : Elem := ⟨f.addr2, f.addr1, ntohs f.port1, ipprotoTcp⟩

def Router.Blocked (r : Router) (f : Flow) : Prop := f.elem ∈ r.ourset.elems

instance (r : Router) (f : Flow) : Decidable (r.Blocked f) :=
  inferInstanceAs (Decidable (_ ∈ _))

/-- The same connection up to the destination port. -/
def Flow.Same (f g : Flow) : Prop := f.addr1 = g.addr1 ∧ f.port1 = g.port1 ∧ f.addr2 = g.addr2

instance (f g : Flow) : Decidable (f.Same g) := inferInstanceAs (Decidable (_ ∧ _))

theorem Flow.elem_eq_iff {f g : Flow} : f.elem = g.elem ↔ f.Same g := by
  simp only [Flow.elem, Elem.mk.injEq, and_true, Flow.Same, ntohs_injective.eq_iff]
  constructor
  · rintro ⟨h2, h1, hp⟩
    exact ⟨h1, hp, h2⟩
  · rintro ⟨h1, hp, h2⟩
    exact ⟨h2, h1, hp⟩

theorem fields_msg (c : Command) : fields (msg c) = some c := by
  obtain ⟨block, f⟩ := c
  cases block <;> rfl

theorem length_msg (c : Command) : (msg c).length = blockFlowMsgLength := rfl

theorem length_of_fields {recvd : List Byte} {c : Command} (h : fields recvd = some c) :
    recvd.length = blockFlowMsgLength := by
  unfold fields at h
  split at h
  · rfl
  · cases h

theorem onReadReady_none {names : Names} {now : ℕ} {r : Router} {recvd : List Byte}
    (h : fields recvd = none) : (onReadReady names now r recvd).1 = r := by
  simp [onReadReady, h]

theorem onReadReady_some {names : Names} {now : ℕ} {r : Router} {recvd : List Byte} {c : Command}
    (h : fields recvd = some c) :
    (onReadReady names now r recvd).1 =
      { r with
        ourset := r.ourset.mod c.flow.elem c.block
        timers := r.timers ++ [⟨c.flow, now + flowTimeout⟩]
        executed := r.executed ++ [(now, c)] } := by
  simp [onReadReady, h, telexLocalModFlow_eq, Flow.elem]

theorem unblockFlow_eq (names : Names) (r : Router) (i : ℕ) (timer : Timer) :
    unblockFlow names r i timer =
      { r with ourset := r.ourset.mod timer.flow.elem false, timers := r.timers.eraseIdx i } := by
  simp [unblockFlow, telexLocalModFlow_eq, Flow.elem]

theorem sendall_zero {sent : List ℤ} {buf w : List Byte} (h : sendall sent buf = some (w, 0)) :
    w = buf := by
  induction sent generalizing buf w with
  | nil =>
    cases buf with
    | nil => simpa [sendall] using h.symm
    | cons b bs => simp [sendall] at h
  | cons r rs ih =>
    cases buf with
    | nil => simpa [sendall] using h.symm
    | cons b bs =>
      simp only [sendall] at h
      split at h
      · simp at h
      · obtain ⟨⟨w', e⟩, hw', he⟩ := Option.map_eq_some_iff.mp h
        simp only [Prod.mk.injEq] at he
        obtain ⟨rfl, rfl⟩ := he
        rw [ih hw']
        exact List.take_append_drop _ _

/-- Whatever `send` takes at a time, the messages stand one after the other on the stream. -/
theorem written_eq {calls : List (Command × List ℤ)} {stream : List Byte}
    (h : written calls = some stream) : stream = (calls.map Prod.fst).flatMap msg := by
  induction calls generalizing stream with
  | nil => simpa [written] using h.symm
  | cons call calls ih =>
    obtain ⟨c, sent⟩ := call
    simp only [written, telexRemoteModFlow, Option.bind_eq_bind, Option.bind_eq_some_iff] at h
    obtain ⟨⟨w, e⟩, hw, h⟩ := h
    simp only at h
    split at h
    · next he =>
      subst he
      obtain ⟨w', hw', rfl⟩ := Option.map_eq_some_iff.mp h
      rw [sendall_zero hw, ih hw']
      simp
    · cases h

/-- A resolver that knows no names. -/
def noNames : Names := ⟨fun _ => none, fun _ => none⟩

/-- A connection from 10.2.0.1 to port 443 of 10.3.0.2. -/
def sampleFlow (port1 : NetPort) : Flow := ⟨⟨10, 2, 0, 1⟩, port1, ⟨10, 3, 0, 2⟩, ⟨1, 187⟩⟩

end Telex.FlowBlocker
