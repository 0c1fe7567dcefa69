import Telex.Proxy.Model

/-! Back-pressure

    `read_cb` stops reading from a party when the other's output is too full, and leaves
    `drained_write_cb` on the other to start it again. Each party's write callback belongs to the
    direction towards it, so the two directions do not disturb each other, and no byte is lost on the
    way. -/

namespace Telex.Proxy
open Runs

/-- The bytes between a party's output and the network. -/
def TelexState.wire (st : TelexState) : Party → List Byte
  | .loc => []
  | .remote => st.remotetcp

/-- What a party has sent has gone out to the other, or is on its way in order. -/
def Conserved (st : TelexState) (p : Party) : Prop :=
  st.received p =
    st.delivered p.other ++ st.wire p.other ++ (st.bev p.other).output ++ (st.bev p).input

/-- Until the name is resolved both bufferevents are as new. -/
structure Kept (st : TelexState) : Prop where
  fresh : st.hasRemote = false → ∀ p, st.bev p = .new
  conserved : st.live = true → ∀ p, Conserved st p

variable {st st' : TelexState} {p q : Party} {l : Label}

theorem kept_init : Kept .init := ⟨fun _ _ => rfl, fun _ p => by cases p <;> rfl⟩

theorem kept_stateCleanup (st : TelexState) : Kept (stateCleanup st) :=
  ⟨fun _ _ => rfl, fun h => absurd h (by simp [stateCleanup])⟩

theorem Kept.hasRemote (h : Kept st) (hb : st.bev p ≠ .new) : st.hasRemote = true := by
  by_contra hr
  exact hb (h.fresh (by simpa using hr) p)

theorem present_of_hasRemote (h : st.hasRemote = true) (p : Party) : st.present p = true := by
  simp [TelexState.present, h]

theorem Frame.wire (h : Frame st st') (p : Party) : st'.wire p = st.wire p := by
  cases p
  · rfl
  · exact h.remotetcp

/-- A step that leaves all buffers alone. -/
theorem Kept.same (h : Kept st) (hf : Frame st st') (hr : st.hasRemote = true)
    (hb : ∀ q, (st'.bev q).input = (st.bev q).input ∧ (st'.bev q).output = (st.bev q).output) :
    Kept st' := by
  refine ⟨fun hn => ?_, fun hl q => ?_⟩
  · rw [hf.hasRemote, hr] at hn; cases hn
  · have hc := h.conserved (hf.live ▸ hl) q
    rw [Conserved, hf.received, hf.delivered, hf.wire, (hb _).1, (hb _).2]
    exact hc

/-- A change of a bufferevent that does not touch its buffers. -/
def Quiet (f : Bufferevent → Bufferevent) : Prop :=
  ∀ b, (f b).input = b.input ∧ (f b).output = b.output

theorem quiet_setcb (r : Bool) (w : Option WriteCb) : Quiet (.setcb r w) := fun _ => ⟨rfl, rfl⟩

theorem quiet_setwatermark (low high : ℕ) : Quiet (.setwatermark low high) := fun _ => ⟨rfl, rfl⟩

theorem quiet_enable (w : Bool) : Quiet (.enable w) := fun _ => ⟨rfl, rfl⟩

theorem quiet_disable : Quiet .disable := fun _ => ⟨rfl, rfl⟩

theorem quiet_runWrite : Quiet .runWrite := fun _ => ⟨rfl, rfl⟩

theorem Kept.upd {f : Bufferevent → Bufferevent} (h : Kept st) (hr : st.hasRemote = true)
    (hb : Quiet f) : Kept (st.upd p f) := by
  refine h.same (frame_upd f) hr fun q => ?_
  rcases p.eq_or_other q with rfl | rfl
  · rw [upd_bev_self]; exact hb _
  · rw [upd_bev_other]; exact ⟨rfl, rfl⟩

theorem Kept.move (h : Kept st) (hr : st.hasRemote = true) : Kept (move p st) := by
  refine ⟨fun hn => absurd (hr.symm.trans hn) (by simp), fun hl q => ?_⟩
  have hc := h.conserved hl q
  have hw : ∀ q, (Proxy.move p st).wire q = st.wire q := frame_move.wire
  rw [Conserved, frame_move.received, frame_move.delivered, hw]
  rcases p.eq_or_other q with rfl | rfl
  · rw [Conserved] at hc
    simp [hc]
  · rw [Party.other_other]
    rw [Conserved, Party.other_other] at hc
    simp [hc]

theorem Kept.pause (h : Kept st) (hr : st.hasRemote = true) : Kept (pause p st) := by
  have h1 : Kept ((st.upd p.other (.setcb true (some .drained))).upd p.other
      (.setwatermark (maxOutputBuffer / 2) maxOutputBuffer)) :=
    (h.upd hr (quiet_setcb _ _)).upd hr (quiet_setwatermark _ _)
  have hq : Quiet fun b => { b.disable with paused := true } := fun _ => ⟨rfl, rfl⟩
  exact h1.upd hr hq

theorem Kept.relays (h : Kept st) (hr : st.hasRemote = true) (hm : Relays p st st') : Kept st' := by
  have hn : ∀ n, Kept (Proxy.move p { st with inBytes := n }) := fun n =>
    have hk : Kept { st with inBytes := n } := ⟨h.fresh, h.conserved⟩
    hk.move hr
  cases hm with
  | below _ => exact hn _
  | above _ => exact (hn _).pause hr

theorem Relays.frame (h : Relays p st st') : Frame st st' := by
  cases h <;> exact ⟨rfl, rfl, rfl, rfl, rfl, rfl⟩

theorem Kept.drainedWriteCb (h : Kept st) (hr : st.hasRemote = true) : Kept (drainedWriteCb p st) := by
  have h1 : Kept ((st.upd p (.setcb true none)).upd p (.setwatermark 0 0)) :=
    (h.upd hr (quiet_setcb _ _)).upd hr (quiet_setwatermark _ _)
  rw [Proxy.drainedWriteCb]
  split
  · exact h1.upd hr (quiet_enable _)
  · exact h1

theorem Kept.writeCb (h : Kept st) (hr : st.hasRemote = true) : Kept (writeCb p st) := by
  rw [Proxy.writeCb]
  split
  · exact h
  · exact h.drainedWriteCb hr
  · rw [closeOnFinishedWriteCb]
    split
    · exact kept_stateCleanup st
    · exact h

theorem Kept.flush (h : Kept st) (hr : st.hasRemote = true) :
    Kept (flush p st) ∧ Frame st (flush p st) := by
  rw [Proxy.flush]
  split
  · have hm := readCb_relays (present_of_hasRemote hr p.other)
    exact ⟨h.relays hr hm, hm.frame⟩
  · exact ⟨h, ⟨rfl, rfl, rfl, rfl, rfl, rfl⟩⟩

theorem Kept.eventCb (h : Kept st) (hr : st.hasRemote = true) (ev : Event) : Kept (eventCb p st ev) := by
  cases ev with
  | connected => exact (h.upd hr (quiet_enable _)).upd hr (quiet_enable _)
  | error => exact kept_stateCleanup st
  | eof =>
    obtain ⟨hk, hf⟩ := h.flush (p := p) hr
    have hr' := hf.hasRemote.trans hr
    rw [Proxy.eventCb, if_pos (present_of_hasRemote hr _)]
    split
    · exact (hk.upd hr' (quiet_setcb _ _)).upd hr' quiet_disable
    · exact kept_stateCleanup _

theorem Kept.resolved (h : Kept st) (hr : st.hasRemote = false) (ok : Bool) :
    Kept (proxyNotblockedGetaddrinfoCb ok st) := by
  cases ok with
  | false => exact kept_stateCleanup st
  | true =>
    have h1 : Kept ({ st with hasRemote := true }.upd .remote fun _ => .new) := by
      refine ⟨fun hn => absurd hn (by simp [TelexState.upd]), fun hl q => ?_⟩
      have hc := h.conserved hl q
      have hnew : ∀ q, (({ st with hasRemote := true } : TelexState).upd .remote fun _ => .new).bev q =
          st.bev q := by
        intro q
        cases q
        · rfl
        · exact (h.fresh hr .remote).symm
      rw [Conserved, hnew, hnew]
      cases q <;> exact hc
    exact (h1.upd rfl (quiet_setcb _ _)).upd rfl (quiet_setcb _ _)

theorem Kept.arrive (h : Kept st) (hr : st.hasRemote = true) (bytes : List Byte) :
    Kept (next st (.arrive p bytes)) := by
  refine ⟨fun hn => absurd (hr.symm.trans hn) (by simp), fun hl q => ?_⟩
  have hc := h.conserved hl q
  have hw : ∀ q, (next st (.arrive p bytes)).wire q = st.wire q := fun q => by cases q <;> rfl
  rw [Conserved] at hc
  rw [Conserved, hw]
  rcases p.eq_or_other q with rfl | rfl
  · simp [next, hc, TelexState.upd, Function.update_of_ne q.other_ne]
  · simp only [Party.other_other] at hc ⊢
    simp [next, hc, TelexState.upd, Function.update_of_ne p.other_ne]

theorem Kept.drain (h : Kept st) (hr : st.hasRemote = true) (k : ℕ) : Kept (drain p k st) := by
  have hn : ∀ st' : TelexState, st'.hasRemote = st.hasRemote → st'.hasRemote = false → ∀ p, st'.bev p = .new :=
    fun _ he hf => absurd (hr.symm.trans (he.symm.trans hf)) (by simp)
  cases p with
  | loc =>
    refine ⟨hn _ rfl, fun hl q => ?_⟩
    have hc := h.conserved hl q
    cases q with
    | loc => exact hc
    | remote =>
      rw [Conserved] at hc ⊢
      simp [Proxy.drain, Party.other, TelexState.upd, TelexState.wire] at hc ⊢
      rw [hc]
  | remote =>
    refine ⟨hn _ rfl, fun hl q => ?_⟩
    have hc := h.conserved hl q
    cases q with
    | loc =>
      rw [Conserved] at hc ⊢
      simp [Proxy.drain, Party.other, TelexState.upd, TelexState.wire] at hc ⊢
      rw [hc]
    | remote => exact hc

theorem Kept.drainTcp (h : Kept st) (k : ℕ) : Kept (next st (.drainTcp k)) := by
  refine ⟨h.fresh, fun hl q => ?_⟩
  have hc := h.conserved hl q
  cases q with
  | loc =>
    rw [Conserved] at hc ⊢
    simp [next, Party.other, TelexState.wire] at hc ⊢
    rw [hc]
  | remote => exact hc

theorem Kept.step (h : Kept st) (hs : Step st l st') : Kept st' := by
  obtain ⟨he, rfl⟩ := hs
  cases l with
  | resolved ok => exact h.resolved he.2 ok
  | arrive p bytes =>
    have hr := h.hasRemote (p := p) fun hb => by simp [Enabled, hb, Bufferevent.new] at he
    exact h.arrive hr bytes
  | readCb p =>
    have hr := h.hasRemote (p := p) fun hb => by simp [Enabled, hb, Bufferevent.new] at he
    exact h.relays hr (readCb_relays (present_of_hasRemote hr _))
  | drain p k =>
    have hr := h.hasRemote (p := p) fun hb => by simp [Enabled, hb, Bufferevent.new] at he; omega
    exact h.drain hr k
  | drainTcp k => exact h.drainTcp k
  | writeCb p =>
    have hr := h.hasRemote (p := p) fun hb => by simp [Enabled, hb, Bufferevent.new] at he
    exact (h.upd hr quiet_runWrite).writeCb hr
  | event p ev =>
    have hr := h.hasRemote (p := p) fun hb => by simp [Enabled, hb, Bufferevent.new] at he
    cases ev with
    | connected => exact h.eventCb (p := p) hr .connected
    | error => exact h.eventCb (p := p) hr .error
    | eof =>
      have hd := h.upd (p := p) hr quiet_disable
      have he : Kept { st.upd p .disable with eof := Function.update st.eof p true } :=
        ⟨hd.fresh, hd.conserved⟩
      exact he.eventCb hr .eof

/-- A bufferevent whose draining starts the other party again: it is still above the low mark, or its
    write callback is about to run. -/
structure Held (b : Bufferevent) : Prop where
  writecb : b.writecb = some .drained
  low : b.low = maxOutputBuffer / 2
  full : maxOutputBuffer / 2 < b.output.length ∨ b.writePending = true

def Pressed (st : TelexState) : Prop := ∀ p, (st.bev p).paused = true → Held (st.bev p.other)

/-- No stream has ended and nothing has failed. -/
def Label.Calm : Label → Prop
  | .event _ .eof => False
  | .event _ .error => False
  | _ => True

theorem pressed_of_new (h : ∀ p, (st.bev p).paused = false) : Pressed st := fun p hp => by simp [h p] at hp

theorem pressed_stateCleanup (st : TelexState) : Pressed (stateCleanup st) := pressed_of_new fun _ => rfl

theorem Pressed.move (h : Pressed st) : Pressed (move p st) := by
  intro q hq
  rcases p.eq_or_other q with rfl | rfl
  · have hh := h q (by simpa using hq)
    rw [move_bev_other]
    refine ⟨hh.writecb, hh.low, hh.full.imp_left fun hl => ?_⟩
    simp only [List.length_append]
    omega
  · have hh := h p.other (by simpa using hq)
    rw [Party.other_other] at hh ⊢
    rw [move_bev_self]
    exact ⟨hh.writecb, hh.low, hh.full⟩

theorem Pressed.pause (h : Pressed st) (hf : maxOutputBuffer ≤ (st.bev p.other).output.length) :
    Pressed (pause p st) := by
  intro q hq
  rcases p.eq_or_other q with rfl | rfl
  · rw [pause_bev_other]
    refine ⟨rfl, rfl, .inl (lt_of_lt_of_le ?_ hf)⟩
    decide
  · have hh := h p.other (by simpa using hq)
    rw [Party.other_other] at hh ⊢
    rw [pause_bev_self]
    exact ⟨hh.writecb, hh.low, hh.full⟩

theorem Pressed.relays (h : Pressed st) (hm : Relays p st st') : Pressed st' := by
  have hn : ∀ n, Pressed (Proxy.move p { st with inBytes := n }) := fun n =>
    have hp : Pressed { st with inBytes := n } := h
    hp.move
  cases hm with
  | below _ => exact hn _
  | above hf => exact (hn _).pause (by simpa using hf)

/-- `drained_write_cb` of a party ends the pause of the other. -/
theorem drainedWriteCb_bev_other (hr : st.hasRemote = true) :
    (drainedWriteCb p st).bev p.other = (st.bev p.other).enable false := by
  have hp : ((st.upd p (.setcb true none)).upd p (.setwatermark 0 0)).present p.other = true :=
    present_of_hasRemote hr _
  simp [drainedWriteCb, hp]

theorem drainedWriteCb_bev_self (st : TelexState) (p : Party) :
    (drainedWriteCb p st).bev p = ((st.bev p).setcb true none).setwatermark 0 0 := by
  simp only [drainedWriteCb]
  split <;> simp

theorem Pressed.drainedWriteCb (h : ∀ q, q ≠ p.other → (st.bev q).paused = true → Held (st.bev q.other))
    (hr : st.hasRemote = true) : Pressed (drainedWriteCb p st) := by
  intro q hq
  rcases p.eq_or_other q with rfl | rfl
  · have hh := h q q.other_ne.symm (by simpa [drainedWriteCb_bev_self, Bufferevent.setcb,
      Bufferevent.setwatermark] using hq)
    rw [drainedWriteCb_bev_other hr]
    exact ⟨hh.writecb, hh.low, hh.full⟩
  · simp [drainedWriteCb_bev_other hr, Bufferevent.enable] at hq

theorem Pressed.drain (h : Pressed st) (k : ℕ) : Pressed (drain p k st) := by
  have hd : ∀ q, (Proxy.drain p k st).bev q = (st.upd p fun b =>
      { b with
        output := (st.bev p).output.drop k
        writePending :=
          b.writePending || (b.writecb.isSome && (st.bev p).output.length - k ≤ b.low) }).bev q := by
    intro q; cases p <;> rfl
  intro q hq
  rw [hd] at hq ⊢
  rcases p.eq_or_other q with rfl | rfl
  · rw [upd_bev_other]
    exact h q (by simpa using hq)
  · have hh := h p.other (by simpa using hq)
    rw [Party.other_other] at hh ⊢
    rw [upd_bev_self]
    refine ⟨hh.writecb, hh.low, ?_⟩
    simp only [hh.writecb, hh.low, Option.isSome_some, Bool.true_and, Bool.or_eq_true,
      decide_eq_true_eq, List.length_drop]
    omega

theorem Pressed.writeCb (h : Pressed st) (hr : st.hasRemote = true) :
    Pressed (next st (.writeCb p)) := by
  have hself : ∀ q, q ≠ p.other → ((st.upd p .runWrite).bev q).paused = true →
      Held ((st.upd p .runWrite).bev q.other) := by
    intro q hne hq
    rcases p.eq_or_other q with rfl | rfl
    · rw [upd_bev_other]
      exact h q (by simpa [Bufferevent.runWrite] using hq)
    · exact absurd rfl hne
  -- a party that waits for `p` has left `drained_write_cb` on it
  have hcleared : (st.bev p).writecb ≠ some .drained →
      Pressed (st.upd p .runWrite) := by
    intro hw q hq
    by_cases hne : q = p.other
    · subst hne
      have hh := (h p.other (by simpa using hq)).writecb
      rw [Party.other_other] at hh
      exact absurd hh hw
    · exact hself q hne hq
  rw [next, Proxy.writeCb, upd_bev_self]
  split
  · next hw => exact hcleared fun hd => absurd (hw.symm.trans hd) (by simp)
  · exact .drainedWriteCb hself hr
  · next hw =>
    rw [closeOnFinishedWriteCb]
    split
    · exact pressed_stateCleanup _
    · exact hcleared fun hd => absurd (hw.symm.trans hd) (by simp)

theorem Pressed.step (h : Pressed st) (hk : Kept st) (hs : Step st l st') (hc : l.Calm) :
    Pressed st' := by
  obtain ⟨he, rfl⟩ := hs
  cases l with
  | resolved ok =>
    cases ok with
    | false => exact pressed_stateCleanup st
    | true =>
      refine pressed_of_new fun p => ?_
      cases p with
      | loc => exact congrArg Bufferevent.paused (hk.fresh he.2 .loc)
      | remote => rfl
  | arrive p bytes =>
    intro q hq
    rcases p.eq_or_other q with rfl | rfl
    · have hh := h q (by simpa [next] using hq)
      simpa [next] using hh
    · have hh := h p.other (by simpa [next] using hq)
      rw [Party.other_other] at hh ⊢
      exact ⟨by simpa [next] using hh.writecb, by simpa [next] using hh.low, by simpa [next] using hh.full⟩
  | readCb p =>
    have hr := hk.hasRemote (p := p) fun hb => by simp [Enabled, hb, Bufferevent.new] at he
    exact h.relays (readCb_relays (present_of_hasRemote hr _))
  | drain p k => exact h.drain k
  | drainTcp k => exact h
  | writeCb p =>
    have hr := hk.hasRemote (p := p) fun hb => by simp [Enabled, hb, Bufferevent.new] at he
    exact h.writeCb hr
  | event p ev =>
    cases ev with
    | connected =>
      refine pressed_of_new fun q => ?_
      cases q <;> rfl
    | eof => exact hc.elim
    | error => exact hc.elim

/-- In every run before the end of a stream and without errors, a party that `read_cb` has paused is
    waiting for the other: the other has `drained_write_cb` and its low mark set, has not drained below
    the mark without the callback being due, and the callback starts the party again. In both
    directions every byte is delivered or on its way, once and in order. -/
theorem pressure_relieved {ls : List Label}
    (h : Run (When Step fun _ l => l.Calm) .init ls st) (p : Party) :
    ((st.bev p).paused = true →
      (st.bev p.other).writecb = some .drained ∧ (st.bev p.other).low = maxOutputBuffer / 2 ∧
      (maxOutputBuffer / 2 < (st.bev p.other).output.length ∨
        (st.bev p.other).writePending = true) ∧
      ((writeCb p.other st).bev p).evRead = true) ∧
    (st.live = true → st.received p =
      st.delivered p.other ++ st.wire p.other ++ (st.bev p.other).output ++ (st.bev p).input) := by
  have hkp : Kept st ∧ Pressed st :=
    h.inv (fun st => Kept st ∧ Pressed st) ⟨kept_init, pressed_of_new fun _ => rfl⟩
      fun _ _ _ hkp hs => ⟨hkp.1.step hs.1, hkp.2.step hkp.1 hs.1 hs.2⟩
  obtain ⟨hk, hp⟩ := hkp
  refine ⟨fun hpaused => ?_, fun hl => hk.conserved hl p⟩
  have hh := hp p hpaused
  have hr := hk.hasRemote (p := p) fun hb => by simp [hb, Bufferevent.new] at hpaused
  have hback := drainedWriteCb_bev_other (p := p.other) hr
  rw [Party.other_other] at hback
  refine ⟨hh.writecb, hh.low, hh.full, ?_⟩
  rw [writeCb, hh.writecb]
  simp only [hback, Bufferevent.enable]

/-- The tunnel is up and the local party sends `bytes`. -/
def sampleUp (bytes : List Byte) : TelexState :=
  next (next (next .init (.resolved true)) (.event .remote .connected)) (.arrive .loc bytes)

theorem sampleUp_run {bytes : List Byte} (h : bytes ≠ []) :
    Run (When Step fun _ l => l.Calm) .init
      [.resolved true, .event .remote .connected, .arrive .loc bytes] (sampleUp bytes) := by
  have h0 : Run (When Step fun _ l => l.Calm) TelexState.init [] .init := .nil
  have h1 := run_next (l := .resolved true) h0 ⟨rfl, rfl⟩ trivial
  have h2 := run_next (l := .event .remote .connected) h1 ⟨rfl, rfl, rfl⟩ trivial
  exact run_next h2 ⟨rfl, rfl, rfl, rfl, h⟩ trivial

theorem sampleUp_pauses {bytes : List Byte} (h : maxOutputBuffer ≤ bytes.length) :
    ((readCb .loc (sampleUp bytes)).bev .loc).paused = true := by
  have hin : ((sampleUp bytes).bev .loc).input = bytes := rfl
  generalize hst : readCb .loc (sampleUp bytes) = st
  have hm : Relays .loc (sampleUp bytes) st := hst ▸ readCb_relays rfl
  cases hm with
  | below hlt =>
    rw [List.length_append, hin] at hlt
    omega
  | above _ => rw [pause_bev_self]

/-- A local party that sends too much at once is paused. -/
theorem pressure_relieved_full : ∃ ls st, Run (When Step fun _ l => l.Calm) .init ls st ∧
    (st.bev .loc).paused = true ∧ (st.bev .remote).writecb = some .drained ∧
    ((writeCb .remote st).bev .loc).evRead = true := by
  obtain ⟨bytes, hlen⟩ : ∃ bytes : List Byte, maxOutputBuffer ≤ bytes.length :=
    ⟨List.replicate maxOutputBuffer 0, by rw [List.length_replicate]⟩
  have hne : bytes ≠ [] := List.ne_nil_of_length_pos (lt_of_lt_of_le (by decide) hlen)
  have hr := run_next (l := .readCb .loc) (sampleUp_run hne) ⟨rfl, rfl, rfl⟩ trivial
  have hp := (pressure_relieved hr .loc).1 (sampleUp_pauses hlen)
  exact ⟨_, _, hr, sampleUp_pauses hlen, hp.1, hp.2.2.2⟩

end Telex.Proxy
