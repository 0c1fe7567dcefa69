import Telex.Bro.Handshake
import Telex.Bronnect.Registration

/-! Bro and bronnect together

    Bro writes records on its sockets, and bronnect accepts the sockets and reads the records, each
    taking its steps in any order. A header that bronnect receives is the one of the next record on its
    socket; it may also fail to receive one at any time. What bronnect does here it does in a run in
    which no record comes twice (`run_net`), so what is proved of those runs holds here. -/

namespace Telex.Station
open Bro (recordTypeInit recordTypeRawPkt written)
open Bronnect
open Runs

/-- Both processes, and the socket each of bronnect's connections was accepted from. -/
structure State where
  bro : Bro.State
  net : World
  peer : ℕ → ℕ

/-- The station at its start. -/
def State.init : State := ⟨Bro.State.init, World.init, fun _ => 0⟩

/-- What can happen: an event in Bro, a connection that is accepted, or a callback of bronnect. -/
inductive Label
  | bro (ev : Bro.Event)
  | accept (sock : ℕ) (conn : ℤ)
  | fire (n : ℕ) (slot : Slot) (o : Outcomes)

/-- The header and the init data that `recv` returns are those of the next record on the socket. -/
def Reads (records : List Bro.Record) (st : ConnectionState) (slot : Slot) (o : Outcomes) : Prop :=
  slot = .telexRead → ∀ hdr, o.hdr = some hdr →
    ∃ r, records[st.trace.records.length]? = some r ∧ hdr.type = r.type ∧
      ∀ d, o.initData = some d → hdr.type = recordTypeInit → r = .init d

/-- One step of either process. -/
inductive Step : State → Label → State → Prop
  | bro (s : State) (ev : Bro.Event) (b : Bro.State) : Bro.step s.bro ev = .ok b →
      Step s (.bro ev) { s with bro := b }
  | accept (s : State) (sock : ℕ) (conn : ℤ) (w : World) : sock < s.bro.socks →
      (∀ n < s.net.nclients, s.peer n ≠ sock) → Bronnect.Step s.net (.accept conn) w →
      Step s (.accept sock conn)
        { s with net := w, peer := Function.update s.peer s.net.nclients sock }
  | fire (s : State) (n : ℕ) (slot : Slot) (o : Outcomes) (w : World) :
      Reads (written (s.peer n) s.bro.log) (s.net.mem n) slot o →
      Bronnect.Step s.net (.fire n slot o) w → Step s (.fire n slot o) { s with net := w }

/-- The records that came in and the odd branches taken are as before. -/
def Same (st st' : ConnectionState) : Prop :=
  st'.trace.records = st.trace.records ∧ st'.trace.odd = st.trace.odd

/-- The header asks for an odd branch. -/
def IsOdd (st : ConnectionState) (hdr : Hdr) : Prop :=
  hdr.type ≠ recordTypeInit ∧ hdr.type ≠ recordTypeRawPkt ∨
  hdr.type = recordTypeInit ∧ 0 ≤ st.clientConn ∨ hdr.type = recordTypeRawPkt ∧ st.state ≠ 1

variable {o : Outcomes} {st st' : ConnectionState} {s : Cell}

theorem same_released (unblock : Bool) (w : SslError) :
    Same st { released o unblock st with cleanupWaiting := w } := by
  cases unblock <;> cases hu : o.unblock <;> simp [Same, released, telexRemoteModFlow, hu]

theorem Ending.same {u : Bool} {P : Prop} (h : Ending o u P st s) : Same st s.st := by
  cases h with
  | wait _ _ => exact ⟨rfl, rfl⟩
  | free w _ => exact same_released u w

theorem Cleanup.same (h : Cleanup o st s) : Same st s.st :=
  have hs := Ending.same h
  hs

theorem DownOk.same (h : DownOk o st st') : Same st st' := by
  cases h <;> exact ⟨rfl, rfl⟩

theorem UpOk.same (h : UpOk o st st') : Same st st' := by
  cases h <;> exact ⟨rfl, rfl⟩

theorem UpFail.same (h : UpFail o st s) : Same st s.st := by
  cases h with
  | cleanup _ _ _ _ _ _ _ hc => have hs := Cleanup.same hc; exact hs
  | gone _ _ _ _ he => exact Ending.same he

theorem Same.trans {st'' : ConnectionState} (h : Same st st') (h' : Same st' st'') : Same st st'' :=
  ⟨h'.1.trans h.1, h'.2.trans h.2⟩

theorem Relay.same (h : Relay o st s) : Same st s.st := by
  cases h with
  | downFail s hd =>
    cases hd with
    | cleanup _ _ _ _ hc => have hs := Cleanup.same hc; exact hs
  | upFail st' s hd hu => have hs := (DownOk.same hd).trans (UpFail.same hu); exact hs
  | ok st' st'' hd hu => have hs := (DownOk.same hd).trans (UpOk.same hu); exact hs

/-- What `on_telex_read` adds to the records and the odd branches. -/
theorem FromBro.adds (h : FromBro o st s) : Same st s.st ∨ ∃ hdr, o.hdr = some hdr ∧
    s.st.trace.records = st.trace.records ++ [hdr.type] ∧
      (s.st.trace.odd = st.trace.odd ∨ IsOdd st hdr) := by
  cases h with
  | ignore _ => exact .inl ⟨rfl, rfl⟩
  | eof s _ _ he => have hs := Ending.same he; exact .inl hs
  | undefined hdr hh hi hr => exact .inr ⟨hdr, hh, rfl, .inr (.inl ⟨hi, hr⟩)⟩
  | initShort hdr s hh _ _ hc =>
    exact .inr ⟨hdr, hh, (Cleanup.same hc).1, .inl (Cleanup.same hc).2⟩
  | extraInit hdr d hh ht hc => exact .inr ⟨hdr, hh, rfl, .inr (.inr (.inl ⟨ht, hc⟩))⟩
  | noService hdr d fd needFinish s hh _ _ _ _ hc =>
    exact .inr ⟨hdr, hh, (Cleanup.same hc).1, .inl (Cleanup.same hc).2⟩
  | noSecret hdr d fd needFinish s hh _ _ _ hc =>
    exact .inr ⟨hdr, hh, (Cleanup.same hc).1, .inl (Cleanup.same hc).2⟩
  | joined hdr d fd needFinish hh => exact .inr ⟨hdr, hh, rfl, .inl rfl⟩
  | wrongState hdr s hh ht h1 hc =>
    exact .inr ⟨hdr, hh, (Cleanup.same hc).1, .inr (.inr (.inr ⟨ht, h1⟩))⟩
  | rawShort hdr s hh _ _ _ hc =>
    exact .inr ⟨hdr, hh, (Cleanup.same hc).1, .inl (Cleanup.same hc).2⟩
  | noClient hdr st' s hh _ _ _ hn hc =>
    have h := Cleanup.same hc
    cases hn <;> exact .inr ⟨hdr, hh, h.1, .inl h.2⟩
  | taken hdr fd hh => exact .inr ⟨hdr, hh, rfl, .inl rfl⟩

theorem Call.adds {slot : Slot} (h : Call o st slot s) : Same st s.st ∨
    slot = .telexRead ∧ registered st.evTelexRead = true ∧ ∃ hdr, o.hdr = some hdr ∧
      s.st.trace.records = st.trace.records ++ [hdr.type] ∧
        (s.st.trace.odd = st.trace.odd ∨ IsOdd st hdr) := by
  cases h with
  | telexRead s ht hb => exact (FromBro.adds hb).imp_right fun h => ⟨rfl, ht, h⟩
  | connected fd he => exact .inl ⟨rfl, rfl⟩
  | refused fd s he hc => have hs := Cleanup.same hc; exact .inl hs
  | serviceRead s _ hr => have hs := Relay.same hr; exact .inl hs
  | serviceWrite fd s _ hr => have hs := Relay.same hr; exact .inl hs
  | clientRead s _ _ hr => have hs := Relay.same hr; exact .inl hs
  | clientWrite s _ _ hr => have hs := Relay.same hr; exact .inl hs
  | retryRead s _ _ he => have hs := Ending.same he; exact .inl hs
  | retryWrite s _ _ he => have hs := Ending.same he; exact .inl hs
  | expired s _ _ hc => have hs := Cleanup.same hc; exact .inl hs
  | unheard s _ _ he => have hs := Ending.same he; exact .inl hs

/-- The next of two records, of which some were read. -/
theorem next_of_two {α : Type*} {rs ws : List α} {a b x : α} (hr : rs <+: ws) (hw : ws <+: [a, b])
    (hx : ws[rs.length]? = some x) : rs = [] ∧ x = a ∨ rs = [a] ∧ x = b := by
  have hx' : [a, b][rs.length]? = some x := by
    obtain ⟨t, ht⟩ := hw
    obtain ⟨hlt, -⟩ := List.getElem?_eq_some_iff.mp hx
    rw [← ht, List.getElem?_append_left hlt, hx]
  have htake : rs = [a, b].take rs.length := List.prefix_iff_eq_take.mp (hr.trans hw)
  match hn : rs.length with
  | 0 =>
    rw [hn] at htake hx'
    exact .inl ⟨by simpa using htake, by simpa using hx'.symm⟩
  | 1 =>
    rw [hn] at htake hx'
    exact .inr ⟨by simpa using htake, by simpa using hx'.symm⟩
  | n + 2 => simp [hn] at hx'

/-- What holds of the station in every state. -/
structure Inv (s : State) : Prop where
  sockets : Bro.Sockets s.bro
  net : Holds Known Released s.net
  records : ∀ n < s.net.nclients,
    (s.net.mem n).trace.records <+: (written (s.peer n) s.bro.log).map Bro.Record.type
  odd : ∀ n < s.net.nclients, (s.net.mem n).trace.odd = []

theorem Inv.init : Inv State.init := by
  refine ⟨Bro.Run.sockets .nil, .init, ?_, ?_⟩
  · intro n hn; simp [State.init, World.init] at hn
  · intro n hn; simp [State.init, World.init] at hn

/-- The header bronnect receives is that of the init record, on which nothing was read, or of the raw
    record after it. -/
theorem Inv.next {s : State} {n : ℕ} {slot : Slot} {hdr : Hdr} (h : Inv s)
    (hn : n < s.net.nclients) (hr : Reads (written (s.peer n) s.bro.log) (s.net.mem n) slot o)
    (hslot : slot = .telexRead) (ho : o.hdr = some hdr) :
    ((s.net.mem n).trace.records = [] ∧ hdr.type = recordTypeInit ∨
      (s.net.mem n).trace.records = [recordTypeInit] ∧ hdr.type = recordTypeRawPkt) ∧
    (s.net.mem n).trace.records ++ [hdr.type] <+:
      (written (s.peer n) s.bro.log).map Bro.Record.type := by
  obtain ⟨r, hget, ht, -⟩ := hr hslot hdr ho
  have hx : ((written (s.peer n) s.bro.log).map Bro.Record.type)[
      (s.net.mem n).trace.records.length]? = some hdr.type := by
    rw [List.getElem?_map, hget, ht, Option.map_some]
  refine ⟨next_of_two (h.records n hn) (h.sockets.follows _) hx, ?_⟩
  obtain ⟨t, hcat⟩ := h.records n hn
  rw [← hcat, List.getElem?_append_right (Nat.le_refl _), Nat.sub_self] at hx
  cases t with
  | nil => simp at hx
  | cons x t =>
    obtain rfl : x = hdr.type := by simpa using hx
    rw [← hcat]
    exact ⟨t, by simp⟩

theorem Inv.once {s : State} {n : ℕ} {slot : Slot} (h : Inv s) (hn : n < s.net.nclients)
    (hr : Reads (written (s.peer n) s.bro.log) (s.net.mem n) slot o) :
    Once (s.net.mem n) slot o := by
  intro hslot hdr ho _
  rcases (h.next hn hr hslot ho).1 with ⟨hrec, -⟩ | ⟨hrec, ht⟩
  · simp [hrec]
  · rw [hrec, ht]; decide

/-- The next record never takes an odd branch. -/
theorem Inv.not_odd {s : State} {n : ℕ} {slot : Slot} {hdr : Hdr} (h : Inv s)
    (hn : n ∈ s.net.connections) (hr : Reads (written (s.peer n) s.bro.log) (s.net.mem n) slot o)
    (hslot : slot = .telexRead) (hreg : registered (s.net.mem n).evTelexRead = true)
    (ho : o.hdr = some hdr) : ¬IsOdd (s.net.mem n) hdr := by
  have hne : recordTypeRawPkt ≠ recordTypeInit := by decide
  rcases (h.next (h.net.bound n hn) hr hslot ho).1 with ⟨hrec, ht⟩ | ⟨hrec, ht⟩
  · -- nothing was read, so the connection is untouched
    rcases h.net.live n hn with hu | hj
    · obtain ⟨conn, records, odd, -, he⟩ := hu
      simp [IsOdd, ht, hne.symm, he, handleBroConnection]
    · have hi := hj.init
      simp [hrec] at hi
  · rcases h.net.live n hn with hu | hj
    · obtain ⟨conn, records, odd, hni, he⟩ := hu
      have hi : records = [recordTypeInit] := by simpa [he] using hrec
      simp [hi] at hni
    · simp [IsOdd, ht, hne, hj.telex hreg]

theorem Inv.step {s s' : State} {l : Label} (h : Inv s) (hs : Step s l s') : Inv s' := by
  cases hs with
  | bro ev b hb =>
    have hm := Bro.step_move hb
    refine ⟨hm.sockets h.sockets, h.net, fun n hn => ?_, h.odd⟩
    exact (h.records n hn).trans (hm.written_mono.map _)
  | accept sock conn w _ _ hw =>
    have hnet := h.net.accept (.inl (untouched_handleBroConnection conn)) hw.1
    obtain ⟨-, rfl⟩ := World.step_accept hw.1
    refine ⟨h.sockets, hnet, fun n hn => ?_, fun n hn => ?_⟩
    · by_cases hne : n = s.net.nclients
      · subst hne; simp [handleBroConnection]
      · simpa [hne] using h.records n (by simp at hn; omega)
    · by_cases hne : n = s.net.nclients
      · subst hne; simp [handleBroConnection]
      · simpa [hne] using h.odd n (by simp at hn; omega)
  | fire n slot o w hr hw =>
    have hnet := h.net.fire (fun u hn hf => (h.net.live n hn).fate hw.2
      (h.once (h.net.bound n hn) hr) hf) hw.1
    obtain ⟨hn, u, hf, rfl⟩ := World.step_fire hw.1
    have hlt := h.net.bound n hn
    have hadds := Call.adds (fire_call (h.net.live n hn).fds hf)
    refine ⟨h.sockets, hnet, fun m hm => ?_, fun m hm => ?_⟩
    · by_cases hmn : m = n
      · subst hmn
        rcases hadds with hsame | ⟨hslot, -, hdr, ho, hrec, -⟩
        · simpa [hsame.1] using h.records m hlt
        · simpa [hrec] using (h.next hlt hr hslot ho).2
      · simpa [hmn] using h.records m hm
    · by_cases hmn : m = n
      · subst hmn
        rcases hadds with hsame | ⟨hslot, hreg, hdr, ho, -, hodd⟩
        · simpa [hsame.2] using h.odd m hlt
        · simpa [hodd.resolve_right (h.not_odd hn hr hslot hreg ho)] using h.odd m hlt
      · simpa [hmn] using h.odd m hm

/-- In every run of the station, what Bro writes on a socket is a part of an init and a raw record, and
    bronnect never takes one of the odd branches of `on_telex_read`. -/
theorem records_in_step {ls : List Label} {s : State} (h : Run Step State.init ls s) :
    (∀ sock, (written sock s.bro.log).map Bro.Record.type <+: [recordTypeInit, recordTypeRawPkt]) ∧
    ∀ n < s.net.nclients, (s.net.mem n).trace.odd = [] := by
  have hi : Inv s := h.inv Inv .init fun _ _ _ hi hs => hi.step hs
  exact ⟨hi.sockets.follows, hi.odd⟩

/-- A step of bronnect alone. -/
def Label.net : Label → Option Bronnect.Label
  | .bro _ => none
  | .accept _ conn => some (.accept conn)
  | .fire n slot o => some (.fire n slot o)

/-- In the station bronnect runs as Bro's records allow. -/
theorem run_net {ls : List Label} {s : State} (h : Run Step State.init ls s) :
    Run (When Bronnect.Step (At Once)) World.init (ls.filterMap Label.net) s.net := by
  induction h with
  | nil => exact .nil
  | @snoc ls s l s' hr hs ih =>
    have hi : Inv s := hr.inv Inv .init fun _ _ _ hi hs => hi.step hs
    rw [List.filterMap_append]
    cases hs with
    | bro ev b _ =>
      have hnone : [Label.bro ev].filterMap Label.net = [] := rfl
      rw [hnone, List.append_nil]
      exact ih
    | accept sock conn w _ _ hw => exact ih.snoc ⟨hw, trivial⟩
    | fire n slot o w hreads hw =>
      obtain ⟨hn, -⟩ := World.step_fire hw.1
      exact ih.snoc ⟨hw, hi.once (hi.net.bound n hn) hreads⟩

/-- The steps of Bro are steps of the station. -/
theorem run_bro {evs : List Bro.Event} {b : Bro.State} (h : Run Bro.Step Bro.State.init evs b) :
    Run Step State.init (evs.map .bro) ⟨b, World.init, fun _ => 0⟩ := by
  induction h with
  | nil => exact .nil
  | snoc _ hs ih =>
    rw [List.map_append]
    exact ih.snoc (.bro _ _ _ hs)

/-- A tagged handshake up to the server's finished record, on which Bro sends the init record. -/
def sampleEvents : List Bro.Event :=
  [.sslConnAttempt Bro.sampleConn true 0 ⟨List.replicate 16 0, 80⟩ [] 0 .connected true,
    .sslConnServerReply Bro.sampleConn [], .sslServerKeyExchange Bro.sampleConn [] [] [],
    Bro.sampleRecord true 20, Bro.sampleRecord true 22, Bro.sampleRecord false 20,
    Bro.sampleRecord false 22]

/-- Bro after it. -/
def sampleBro : Bro.State :=
  match sampleEvents.foldlM Bro.step Bro.State.init with
  | .ok b => b
  | .error _ => Bro.State.init

/-- The init record is read. -/
def sampleAnswers : Outcomes :=
  { noAnswers with
    hdr := some ⟨recordTypeInit, sizeofInitData⟩
    initData := match written 0 sampleBro.log with
      | [.init d] => some d
      | _ => none
    connect := some (6, true) }

/-- The station once Bro's socket is accepted. -/
def sampleAccepted : State :=
  ⟨sampleBro, (World.init.step (.accept 5)).getD World.init, Function.update (fun _ => 0) 0 0⟩

/-- Bro sends the init record and bronnect reads it. -/
theorem records_in_step_init : ∃ s, Run Step State.init
      (sampleEvents.map .bro ++ [.accept 0 5] ++ [.fire 0 .telexRead sampleAnswers]) s ∧
    (s.net.mem 0).trace.records = [recordTypeInit] ∧ (s.net.mem 0).trace.odd = [] := by
  have hb : Run Bro.Step Bro.State.init sampleEvents sampleBro := Run.of_foldlM (fun _ _ _ h => h) rfl
  have ha : Step ⟨sampleBro, World.init, fun _ => 0⟩ (.accept 0 5) sampleAccepted :=
    .accept _ 0 5 _ (by decide) (by simp [World.init]) ⟨rfl, trivial⟩
  have hreads : Reads (written (sampleAccepted.peer 0) sampleAccepted.bro.log)
      (sampleAccepted.net.mem 0) .telexRead sampleAnswers := by
    intro _ hdr hh
    obtain rfl := Option.some.inj hh
    refine ⟨_, rfl, rfl, fun d hd _ => ?_⟩
    rw [← Option.some.inj hd]
  have hf : Step sampleAccepted (.fire 0 .telexRead sampleAnswers) { sampleAccepted with
      net := (sampleAccepted.net.step (.fire 0 .telexRead sampleAnswers)).getD World.init } := by
    refine .fire _ 0 .telexRead sampleAnswers _ hreads ⟨rfl, ?_⟩
    intro _ fd hk
    simp [sampleAnswers, noAnswers] at hk
  have hr := ((run_bro hb).snoc ha).snoc hf
  exact ⟨_, hr, rfl, (records_in_step hr).2 0 (by decide)⟩

end Telex.Station
