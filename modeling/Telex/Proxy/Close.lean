import Telex.Proxy.Pressure

/-! Closing a tunnel

    At the end of one party's stream the tunnel is cleaned up as soon as the other party's output is
    empty. Two things are not looked at: the output of the bufferevent under the TLS filter, which
    still has to carry the last ciphertext, and what is left for the first party when the second one
    reaches its end too. Where neither matters, all that a party sent before its end is delivered. -/

namespace Telex.Proxy
open Runs

/-- What holds of a tunnel that is still open. -/
structure Open (st : TelexState) : Prop where
  early : st.hasRemote = false → ∀ p, st.eof p = false
  ended : ∀ p, st.eof p = true → (st.bev p).input = []
  closing : ∀ p, (st.bev p).writecb = some .closeOnFinished → st.eof p.other = true
  one : ∀ p, st.eof p = true → st.eof p.other = false

/-- All that a party sent before its end has gone out to the other. -/
def Lossless (st : TelexState) : Prop := ∀ p, st.eof p = true → st.delivered p.other = st.received p

structure Closes (st : TelexState) : Prop where
  kept : Kept st
  open' : st.live = true → Open st
  closed : st.live = false → Lossless st

/-- No `BEV_EVENT_ERROR`. -/
def Label.NoError : Label → Prop
  | .event _ .error => False
  | _ => True

/-- Nothing is on its way when the second stream ends, and the ciphertext is out when the tunnel is
    about to be cleaned up. -/
def Settled (st : TelexState) : Label → Prop
  | .event p .eof =>
    (st.eof p.other = true → (st.bev p).input = [] ∧ (st.bev p).output = [] ∧
      (st.bev p.other).output = [] ∧ st.remotetcp = []) ∧
    ((st.bev p).input = [] → (st.bev p.other).output = [] → st.wire p.other = [])
  | .writeCb p => (st.bev p).writecb = some .closeOnFinished → (st.bev p).output = [] → st.wire p = []
  | _ => True

variable {st st' : TelexState} {p q : Party} {l : Label}

theorem open_init : Open .init :=
  ⟨fun _ _ => rfl, fun _ _ => rfl, fun _ h => absurd h (by simp [TelexState.init, Bufferevent.new]),
    fun _ _ => rfl⟩

/-- A step that ends no stream, takes no input back and sets no close callback. -/
theorem Open.mono (h : Open st) (he : st'.eof = st.eof)
    (hr : st'.hasRemote = false → st.hasRemote = false)
    (hi : ∀ q, st.eof q = true → (st.bev q).input = [] → (st'.bev q).input = [])
    (hw : ∀ q, (st'.bev q).writecb = some .closeOnFinished →
      (st.bev q).writecb = some .closeOnFinished) : Open st' := by
  refine ⟨fun hf => ?_, fun p hp => ?_, fun p hp => ?_, ?_⟩
  · rw [he]; exact h.early (hr hf)
  · rw [he] at hp; exact hi p hp (h.ended p hp)
  · rw [he]; exact h.closing p (hw p hp)
  · rw [he]; exact h.one

/-- A change of a bufferevent that keeps its input and sets no close callback. -/
def Mild (f : Bufferevent → Bufferevent) : Prop :=
  ∀ b, (f b).input = b.input ∧
    ((f b).writecb = some .closeOnFinished → b.writecb = some .closeOnFinished)

theorem mild_setcb (r : Bool) : Mild (.setcb r none) := fun _ => ⟨rfl, nofun⟩

theorem mild_setwatermark (low high : ℕ) : Mild (.setwatermark low high) := fun _ => ⟨rfl, id⟩

theorem mild_enable (w : Bool) : Mild (.enable w) := fun _ => ⟨rfl, id⟩

theorem mild_runWrite : Mild .runWrite := fun _ => ⟨rfl, id⟩

theorem Open.upd {f : Bufferevent → Bufferevent} (h : Open st) (hf : Mild f) : Open (st.upd p f) := by
  refine h.mono rfl id (fun q _ hq => ?_) fun q hq => ?_
  · rcases p.eq_or_other q with rfl | rfl
    · rw [upd_bev_self, (hf _).1]; exact hq
    · rw [upd_bev_other]; exact hq
  · rcases p.eq_or_other q with rfl | rfl
    · rw [upd_bev_self] at hq; exact (hf _).2 hq
    · rw [upd_bev_other] at hq; exact hq

theorem Relays.input_nil (h : Relays p st st') : (st'.bev p).input = [] := by
  cases h <;> simp

theorem Relays.input_other (h : Relays p st st') : (st'.bev p.other).input = (st.bev p.other).input := by
  cases h <;> simp

theorem Relays.output_other (h : Relays p st st') :
    (st'.bev p.other).output = (st.bev p.other).output ++ (st.bev p).input := by
  cases h <;> simp

theorem Relays.writecb_self (h : Relays p st st') : (st'.bev p).writecb = (st.bev p).writecb := by
  cases h <;> simp

theorem Relays.writecb_other (h : Relays p st st')
    (hw : (st'.bev p.other).writecb = some .closeOnFinished) :
    (st.bev p.other).writecb = some .closeOnFinished := by
  cases h with
  | below _ => simpa using hw
  | above _ => simp at hw

theorem Open.relays (h : Open st) (hm : Relays p st st') : Open st' := by
  refine h.mono hm.frame.eof (fun hf => hm.frame.hasRemote ▸ hf) (fun q _ hq => ?_) fun q hq => ?_
  · rcases p.eq_or_other q with rfl | rfl
    · exact hm.input_nil
    · rw [hm.input_other]; exact hq
  · rcases p.eq_or_other q with rfl | rfl
    · rw [← hm.writecb_self]; exact hq
    · exact hm.writecb_other hq

theorem Open.drainedWriteCb (h : Open st) : Open (drainedWriteCb p st) := by
  have h1 : Open ((st.upd p (.setcb true none)).upd p (.setwatermark 0 0)) :=
    (h.upd (mild_setcb _)).upd (mild_setwatermark _ _)
  simp only [Proxy.drainedWriteCb]
  split
  · exact h1.upd (mild_enable _)
  · exact h1

/-- Cleaning up when nothing is left for the parties whose streams have ended. -/
theorem closes_stateCleanup (h : ∀ p, st.eof p = true → st.delivered p.other = st.received p) :
    Closes (stateCleanup st) :=
  ⟨kept_stateCleanup st, fun hl => absurd hl (by simp [stateCleanup]), fun _ p hp => h p hp⟩

/-- A party all of whose bytes have left the buffers has been served. -/
theorem Kept.served (h : Kept st) (hl : st.live = true) (hi : (st.bev p).input = [])
    (ho : (st.bev p.other).output = []) (hw : st.wire p.other = []) :
    st.delivered p.other = st.received p := by
  have hc := h.conserved hl p
  rw [Conserved, hi, ho, hw] at hc
  simpa using hc.symm

theorem Closes.writeCb (h : Closes st) (hl : st.live = true) (hr : st.hasRemote = true)
    (hs : Settled st (.writeCb p)) : Closes (next st (.writeCb p)) := by
  have hk := h.kept.upd (p := p) hr quiet_runWrite
  have ho := (h.open' hl).upd (p := p) mild_runWrite
  rw [next, Proxy.writeCb, upd_bev_self]
  split
  · exact ⟨hk, fun _ => ho, fun hf => absurd (hl.symm.trans hf) (by simp)⟩
  · have hd := hk.drainedWriteCb (p := p) hr
    refine ⟨hd, fun _ => ho.drainedWriteCb, fun hf => ?_⟩
    rw [frame_drainedWriteCb.live] at hf
    exact absurd (hl.symm.trans hf) (by simp)
  · next hw =>
    rw [closeOnFinishedWriteCb]
    split
    · next hempty =>
      have hout : (st.bev p).output = [] := by simpa [Bufferevent.runWrite] using hempty
      have hother : st.eof p.other = true := (h.open' hl).closing p hw
      refine closes_stateCleanup fun q hq => ?_
      -- only the other party's stream has ended, and it has been served
      rcases p.eq_or_other q with rfl | rfl
      · have hone := (h.open' hl).one q hq
        rw [hother] at hone
        cases hone
      · have hserved := h.kept.served (p := p.other) hl ((h.open' hl).ended _ hother)
          (by rw [Party.other_other]; exact hout) (by rw [Party.other_other]; exact hs hw hout)
        exact hserved
    · exact ⟨hk, fun _ => ho, fun hf => absurd (hl.symm.trans hf) (by simp)⟩

/-- What `flush` leaves behind. -/
structure Flushed (p : Party) (st st' : TelexState) : Prop where
  input : (st'.bev p).input = []
  input_other : (st'.bev p.other).input = (st.bev p.other).input
  output_other : (st'.bev p.other).output = (st.bev p.other).output ++ (st.bev p).input
  writecb : (st'.bev p).writecb = (st.bev p).writecb

theorem flush_flushed (hr : st.hasRemote = true) : Flushed p st (flush p st) := by
  rw [flush]
  split
  · have hm := readCb_relays (present_of_hasRemote hr p.other)
    exact ⟨hm.input_nil, hm.input_other, hm.output_other, hm.writecb_self⟩
  · next h =>
    have hi : (st.bev p).input = [] := by simpa using h
    exact ⟨hi, rfl, by simp [hi], rfl⟩

/-- The state when `event_cb` is called at the end of a stream. -/
def ending (p : Party) (st : TelexState) : TelexState :=
  { st.upd p .disable with eof := Function.update st.eof p true }

theorem ending_eof_self : (ending p st).eof p = true := by simp [ending]

theorem ending_eof_other : (ending p st).eof p.other = st.eof p.other := by
  simp [ending, Function.update_of_ne p.other_ne]

theorem Kept.ending (h : Kept st) (hr : st.hasRemote = true) : Kept (ending p st) := by
  have hd := h.upd (p := p) hr quiet_disable
  exact ⟨hd.fresh, hd.conserved⟩

/-- A tunnel that waits for the other party's output is still open. -/
theorem Open.wait (h : Open st) (hr : st'.hasRemote = true) (hother : st.eof p.other = false)
    (hfl : Flushed p (Proxy.ending p st) st') (heof : st'.eof = (Proxy.ending p st).eof) :
    Open ((st'.upd p.other (.setcb false (some .closeOnFinished))).upd p.other .disable) := by
  have hself : st'.eof p = true := by rw [heof, ending_eof_self]
  have hoth : st'.eof p.other = false := by rw [heof, ending_eof_other, hother]
  refine ⟨fun hf => absurd (hr.symm.trans hf) (by simp), fun q hq => ?_, fun q hq => ?_, fun q hq => ?_⟩
  · rcases p.eq_or_other q with rfl | rfl
    · simpa using hfl.input
    · exact absurd (hq.symm.trans hoth) (by simp)
  · rcases p.eq_or_other q with rfl | rfl
    · have hw : (st.bev q).writecb = some .closeOnFinished := by
        have hw := hfl.writecb
        simp only [upd_other_bev] at hq
        rw [hq] at hw
        simpa [Proxy.ending, Bufferevent.disable] using hw.symm
      exact absurd ((h.closing q hw).symm.trans hother) (by simp)
    · rw [Party.other_other]; exact hself
  · rcases p.eq_or_other q with rfl | rfl
    · exact hoth
    · exact absurd (hq.symm.trans hoth) (by simp)

theorem Closes.eof (h : Closes st) (hl : st.live = true) (hr : st.hasRemote = true)
    (hs : Settled st (.event p .eof)) : Closes (next st (.event p .eof)) := by
  obtain ⟨hsecond, hwire⟩ := hs
  have hr' : (Proxy.ending p st).hasRemote = true := hr
  have hk : Kept (Proxy.ending p st) := h.kept.ending hr
  obtain ⟨hkf, hff⟩ := hk.flush (p := p) hr
  have hfl : Flushed p (Proxy.ending p st) (flush p (Proxy.ending p st)) := flush_flushed hr
  have hin : ((Proxy.ending p st).bev p).input = (st.bev p).input := by
    simp [Proxy.ending, Bufferevent.disable]
  have hbev : (Proxy.ending p st).bev p.other = st.bev p.other := by simp [Proxy.ending]
  have hout := hfl.output_other
  rw [hbev, hin] at hout
  have hnext : next st (.event p .eof) = eventCb p (Proxy.ending p st) .eof := rfl
  rw [hnext, eventCb, if_pos (present_of_hasRemote hr' _)]
  split
  · next hpending =>
    have hother : st.eof p.other = false := by
      by_contra hne
      obtain ⟨hi, -, ho, -⟩ := hsecond (by simpa using hne)
      rw [hout, ho, hi] at hpending
      exact hpending rfl
    have hkeep : Kept (((flush p (Proxy.ending p st)).upd p.other
        (.setcb false (some .closeOnFinished))).upd p.other .disable) :=
      (hkf.upd (hff.hasRemote.trans hr) (quiet_setcb _ _)).upd (hff.hasRemote.trans hr) quiet_disable
    refine ⟨hkeep, fun _ => ?_, fun hf => ?_⟩
    · exact (h.open' hl).wait (hff.hasRemote.trans hr) hother hfl hff.eof
    · rw [(frame_upd _).live, (frame_upd _).live, hff.live] at hf
      exact absurd (hl.symm.trans hf) (by simp)
  · next hempty =>
    have hnil : (st.bev p.other).output = [] ∧ (st.bev p).input = [] := by
      rw [hout] at hempty
      simpa using hempty
    refine closes_stateCleanup fun q hq => ?_
    rw [hff.delivered, hff.received]
    rcases p.eq_or_other q with rfl | rfl
    · exact h.kept.served hl hnil.2 hnil.1 (hwire hnil.2 hnil.1)
    · rw [hff.eof, ending_eof_other] at hq
      obtain ⟨hi, ho, -, ht⟩ := hsecond hq
      refine h.kept.served hl ((h.open' hl).ended _ hq) (by rw [Party.other_other]; exact ho) ?_
      rw [Party.other_other]
      cases p
      · rfl
      · exact ht

theorem Enabled.live (h : Enabled st l) : st.live = true := by
  cases l <;> exact h.1

/-- A step that leaves the tunnel open. -/
theorem Closes.opened (h : Closes st) (hs : Step st l st') (hl : st'.live = st.live) (ho : Open st') :
    Closes st' :=
  ⟨h.kept.step hs, fun _ => ho, fun hf => absurd (hs.1.live.symm.trans (hl.symm.trans hf)) (by simp)⟩

theorem Closes.step (h : Closes st) (hs : Step st l st') (hn : l.NoError) (hc : Settled st l) :
    Closes st' := by
  have hl := hs.1.live
  have ho := h.open' hl
  obtain ⟨he, rfl⟩ := id hs
  cases l with
  | resolved ok =>
    cases ok with
    | false =>
      refine closes_stateCleanup fun p hp => ?_
      exact absurd (hp.symm.trans (ho.early he.2 p)) (by simp)
    | true =>
      have hnew := h.kept.fresh he.2
      refine h.opened hs rfl (ho.mono rfl nofun (fun q _ _ => ?_) fun q hq => ?_)
      · cases q
        · exact congrArg Bufferevent.input (hnew .loc)
        · rfl
      · cases q <;> exact absurd hq nofun
  | arrive p bytes =>
    refine h.opened hs rfl (ho.mono rfl id (fun q hq hi => ?_) fun q hq => ?_)
    · rcases p.eq_or_other q with rfl | rfl
      · exact absurd (hq.symm.trans he.2.2.2.1) (by simp)
      · simpa [next] using hi
    · rcases p.eq_or_other q with rfl | rfl <;> simpa [next] using hq
  | readCb p =>
    have hr := h.kept.hasRemote (p := p) fun hb => by simp [Enabled, hb, Bufferevent.new] at he
    have hm := readCb_relays (present_of_hasRemote hr p.other)
    exact h.opened hs hm.frame.live (ho.relays hm)
  | drain p k =>
    have hd : ∀ q, ((drain p k st).bev q).input = (st.bev q).input ∧
        ((drain p k st).bev q).writecb = (st.bev q).writecb := by
      intro q; cases p <;> cases q <;> exact ⟨rfl, rfl⟩
    have hf : (drain p k st).eof = st.eof ∧ (drain p k st).hasRemote = st.hasRemote ∧
        (drain p k st).live = st.live := by
      cases p <;> exact ⟨rfl, rfl, rfl⟩
    refine h.opened hs hf.2.2 (ho.mono hf.1 (fun hr => hf.2.1 ▸ hr) (fun q _ hi => ?_) fun q hq => ?_)
    · exact (hd q).1.trans hi
    · exact (hd q).2.symm.trans hq
  | drainTcp k => exact h.opened hs rfl (ho.mono rfl id (fun _ _ hi => hi) fun _ hq => hq)
  | writeCb p =>
    have hr := h.kept.hasRemote (p := p) fun hb => by simp [Enabled, hb, Bufferevent.new] at he
    exact h.writeCb hl hr hc
  | event p ev =>
    have hr := h.kept.hasRemote (p := p) fun hb => by simp [Enabled, hb, Bufferevent.new] at he
    cases ev with
    | connected => exact h.opened hs rfl ((ho.upd (mild_enable _)).upd (mild_enable _))
    | eof => exact h.eof hl hr hc
    | error => exact hn.elim

/-- In every run without errors whose steps are settled, a tunnel that has been cleaned up has delivered
    all that a party sent before the end of its stream. -/
theorem close_lossless {ls : List Label}
    (h : Run (When Step fun st l => l.NoError ∧ Settled st l) .init ls st) (hl : st.live = false)
    (hp : st.eof p = true) : st.delivered p.other = st.received p := by
  have hc : Closes st :=
    h.inv Closes ⟨kept_init, fun _ => open_init, fun hf => absurd hf (by simp [TelexState.init])⟩
      fun _ _ _ hc hs => hc.step hs.1 hs.2.1 hs.2.2
  exact hc.closed hl p hp

/-- The local party has sent a byte, which has been passed on to the bufferevent under the filter. -/
def sampleSent : TelexState := next (next (sampleUp [1]) (.readCb .loc)) (.drain .remote 1)

theorem sampleSent_run : Run (When Step fun st l => l.NoError ∧ Settled st l) .init
    [.resolved true, .event .remote .connected, .arrive .loc [1], .readCb .loc, .drain .remote 1]
    sampleSent := by
  have h0 : Run (When Step fun st l => l.NoError ∧ Settled st l) TelexState.init [] .init := .nil
  have h1 := run_next (l := .resolved true) h0 ⟨rfl, rfl⟩ ⟨trivial, trivial⟩
  have h2 := run_next (l := .event .remote .connected) h1 ⟨rfl, rfl, rfl⟩ ⟨trivial, trivial⟩
  have h3 := run_next (l := .arrive .loc [1]) h2 ⟨rfl, rfl, rfl, rfl, by simp⟩ ⟨trivial, trivial⟩
  have h4 := run_next (l := .readCb .loc) h3 ⟨rfl, rfl, rfl⟩ ⟨trivial, trivial⟩
  exact run_next (l := .drain .remote 1) h4 ⟨rfl, rfl, rfl, le_refl _, le_refl _⟩ ⟨trivial, trivial⟩

/-- The ciphertext goes out before the local party closes. -/
theorem close_lossless_sent : ∃ ls st,
    Run (When Step fun st l => l.NoError ∧ Settled st l) .init ls st ∧ st.live = false ∧
    st.eof .loc = true ∧ st.delivered .remote = [1] := by
  have h1 := run_next (l := .drainTcp 1) sampleSent_run ⟨rfl, le_refl _, le_refl _⟩ ⟨trivial, trivial⟩
  have h2 := run_next (l := .event .loc .eof) h1 ⟨rfl, rfl, rfl⟩
    ⟨trivial, fun hf => absurd hf (by decide), fun _ _ => rfl⟩
  exact ⟨_, _, h2, rfl, rfl, close_lossless (p := .loc) h2 rfl rfl⟩

/-- The local party closes when the filter's output is empty: the ciphertext of its byte is freed. -/
theorem close_drops_ciphertext : ∃ ls st,
    Run (When Step fun _ l => l.NoError) .init ls st ∧ st.live = false ∧ st.eof .loc = true ∧
    st.received .loc = [1] ∧ st.delivered .remote = [] := by
  have h1 : Run (When Step fun _ l => l.NoError) .init _ sampleSent :=
    sampleSent_run.mono fun _ _ _ hs => ⟨hs.1, hs.2.1⟩
  exact ⟨_, _, run_next (l := .event .loc .eof) h1 ⟨rfl, rfl, rfl⟩ trivial, rfl, rfl, rfl, rfl⟩

end Telex.Proxy
