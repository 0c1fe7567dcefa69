import Telex.Bronnect.Registration

/-! Which cleanups are never finished

    A connection that waits for its SSL shutdown is left to the event it waits for. The cleanup does
    not register that event: the connection is retried only where the event was registered already. A
    shutdown that begins in the watchdog's own callback leaves no watchdog behind either. -/

namespace Telex.Bronnect
open Bro (recordTypeInit recordTypeRawPkt)
open Runs

/-- The event a connection waits for is registered, and so is its watchdog. -/
structure Armed (st : ConnectionState) : Prop where
  read : st.cleanupWaiting = .wantRead → registered st.evClientRead = true
  write : st.cleanupWaiting = .wantWrite → registered st.evClientWrite = true
  watchdog : st.evWatchdog = some true

/-- The callback of the event gets to `try_to_forward`. -/
def relays (st : ConnectionState) (slot : Slot) : Bool :=
  match slot with
  | .serviceRead => true
  | .serviceWrite => st.evServiceWrite.any Ev.persist
  | .clientRead => st.cleanupWaiting ≠ .wantRead
  | .clientWrite => st.cleanupWaiting ≠ .wantWrite
  | _ => false

/-- An SSL shutdown that has to be tried again did not begin in the watchdog's callback. Where it wants
    to read, the client's read event was registered and is not the one that fired. Where it wants to
    write, the client's write event was registered and did not fire, or the connection was waiting for
    it, or the event was registered again in this callback by a relay to the client. -/
structure Retried (st : ConnectionState) (slot : Slot) (o : Outcomes) : Prop where
  watchdog : Wants o → slot ≠ .watchdog
  read : Wants o → o.retry.2 = .wantRead → slot ≠ .clientRead ∧ registered st.evClientRead = true
  write : Wants o → o.retry.2 = .wantWrite →
    registered st.evClientWrite = true ∧ (slot = .clientWrite → st.cleanupWaiting = .wantWrite) ∨
    relays st slot = true ∧ (readied slot st).canDown = true ∧ downFails o = false

variable {o : Outcomes} {st st' : ConnectionState} {s : Cell} {e : Option Ev}

theorem registered_eventAdd_of (h : registered e = true) : registered (eventAdd e) = true := by
  cases e with
  | none => simp [registered] at h
  | some ev => rfl

theorem Armed.idle (hw : st.cleanupWaiting = .none) (hd : st.evWatchdog = some true) : Armed st :=
  ⟨by simp [hw], by simp [hw], hd⟩

theorem Armed.petted (h : Armed st) : Armed (petted st) :=
  { h with watchdog := by simp [Bronnect.petted, h.watchdog] }

/-- A connection that begins to wait is armed where the event it waits for is registered. -/
theorem Ending.armed {u : Bool} {P : Prop} (he : Ending o u P st s)
    (hr : Wants o → o.retry.2 = .wantRead → registered st.evClientRead = true)
    (hw : Wants o → o.retry.2 = .wantWrite → registered st.evClientWrite = true)
    (hd : Wants o → st.evWatchdog = some true) : Fate Armed (fun _ => True) s :=
  he.fate (fun _ hwant => ⟨hr hwant, hw hwant, hd hwant⟩) fun _ _ => trivial

theorem Cleanup.armed (hc : Cleanup o st s)
    (hr : Wants o → o.retry.2 = .wantRead → registered st.evClientRead = true)
    (hw : Wants o → o.retry.2 = .wantWrite → registered st.evClientWrite = true)
    (hd : Wants o → st.evWatchdog = some true) : Fate Armed (fun _ => True) s :=
  Ending.armed hc hr hw hd

theorem DownOk.armed (h : DownOk o st st') (ha : Armed st) : Armed st' := by
  cases h with
  | skip _ => exact ha
  | relay got put _ _ _ =>
    exact ⟨ha.read, fun hw => registered_eventAdd_of (ha.write hw), ha.watchdog⟩

theorem UpOk.armed (h : UpOk o st st') (ha : Armed st) : Armed st' := by
  cases h with
  | skip _ => exact ha
  | relay bytes k _ _ _ =>
    exact ⟨fun hr => registered_eventAdd_of (ha.read hr), ha.write, ha.watchdog⟩

theorem DownOk.evClientRead (h : DownOk o st st') : st'.evClientRead = st.evClientRead := by
  cases h <;> rfl

/-- The client's write event is registered after a relay to the client. -/
theorem DownOk.evClientWrite (h : DownOk o st st') (hj : Joined st)
    (hw : registered st.evClientWrite = true ∨ st.canDown = true ∧ downFails o = false) :
    registered st'.evClientWrite = true := by
  cases h with
  | skip hc => exact hw.resolve_right fun h => by simp [h.1] at hc
  | relay got put hc _ _ =>
    have hready : st.clientReadyWrite = true := by
      simp only [ConnectionState.canDown, Bool.and_eq_true] at hc
      exact hc.2
    have hsome : st.evClientWrite.isSome = true := by
      rw [Option.isSome_iff_ne_none]; exact hj.ready hready
    simpa [rearmDown] using hsome

theorem Fate.petArmed (h : Fate Armed (fun _ => True) s) :
    Fate Armed (fun _ => True) (petWatchdog s) :=
  h.pet (fun _ => Armed.petted) fun _ _ => trivial

theorem Relay.armed (h : Relay o st s) (hj : Joined st) (ha : Armed st)
    (hr : Wants o → o.retry.2 = .wantRead → registered st.evClientRead = true)
    (hw : Wants o → o.retry.2 = .wantWrite → registered st.evClientWrite = true ∨
      st.canDown = true ∧ downFails o = false) : Fate Armed (fun _ => True) s := by
  cases h with
  | downFail s hd =>
    cases hd with
    | cleanup got s _ hf hc =>
      have hw' : Wants o → o.retry.2 = .wantWrite → registered st.evClientWrite = true :=
        fun hwant he => (hw hwant he).resolve_right fun h => by simp [hf] at h
      exact (hc.armed hr hw' fun _ => ha.watchdog).petArmed
  | upFail st' s hd hu =>
    have ha' := hd.armed ha
    have hr' : Wants o → o.retry.2 = .wantRead → registered st'.evClientRead = true :=
      fun hwant he => hd.evClientRead ▸ hr hwant he
    have hw' : Wants o → o.retry.2 = .wantWrite → registered st'.evClientWrite = true :=
      fun hwant he => hd.evClientWrite hj (hw hwant he)
    cases hu with
    | cleanup bytes k s _ _ _ _ hc => exact (hc.armed hr' hw' fun _ => ha'.watchdog).petArmed
    | gone s _ _ _ he => exact (he.armed hr' hw' fun _ => ha'.watchdog).petArmed
  | ok st' st'' hd hu => exact .petArmed (.start (hu.armed (hd.armed ha)))

theorem FromBro.armed_joined (h : FromBro o st s) (hj : Joined st) (ha : Armed st)
    (ht : registered st.evTelexRead = true) (ho : Once st .telexRead o)
    (hc : Retried st .telexRead o) : Fate Armed (fun _ => True) s := by
  obtain ⟨-, hr, hw, -, -, hwait⟩ := hj.early (hj.telex ht)
  have noRead : Wants o → o.retry.2 ≠ .wantRead := fun hwant he => by
    have := (hc.read hwant he).2
    simp [hr, registered] at this
  have noWrite : Wants o → o.retry.2 ≠ .wantWrite := fun hwant he => by
    rcases hc.write hwant he with ⟨h, -⟩ | ⟨h, -⟩
    · simp [hw, registered] at h
    · simp [relays] at h
  have noInit : ∀ {hdr : Hdr}, o.hdr = some hdr → hdr.type = recordTypeInit → False :=
    fun hh hi => ho rfl _ hh (.inl hi) (hi ▸ hj.init)
  have noWait : ∀ {st' : ConnectionState} {s : Cell}, Cleanup o st' s →
      Fate Armed (fun _ => True) s := fun hcl =>
     Ending.fate hcl (fun _ hwant => (hwant.2.elim (noRead hwant) (noWrite hwant)).elim)
      fun _ _ => trivial
  cases h with
  | ignore _ => exact .start ha
  | eof s _ _ he => exact he.fate (fun hf => hf.elim) fun _ _ => trivial
  | undefined hdr => exact .start ⟨ha.read, ha.write, ha.watchdog⟩
  | initShort hdr s hh hi => exact (noInit hh hi).elim
  | extraInit hdr d hh hi => exact (noInit hh hi).elim
  | noService hdr d fd needFinish s hh hi => exact (noInit hh hi).elim
  | noSecret hdr d fd needFinish s hh hi => exact (noInit hh hi).elim
  | joined hdr d fd needFinish hh hi => exact (noInit hh hi).elim
  | wrongState hdr s _ _ _ hcl => exact noWait hcl
  | rawShort hdr s _ _ _ _ hcl => exact noWait hcl
  | noClient hdr st' s _ _ _ _ _ hcl =>
    have hf := noWait hcl
    have hf' : Fate Armed (fun _ => True) (closeTelexConnection s.use) :=
      ⟨hf.once, fun h0 => ⟨(hf.live h0).read, (hf.live h0).write, (hf.live h0).watchdog⟩,
        fun _ => trivial⟩
    exact hf'.petArmed
  | taken hdr fd => exact .petArmed (.start (.idle hwait ha.watchdog))

theorem FromBro.armed_untouched (h : FromBro o st s) (hu : Untouched st) :
    Fate Armed (fun _ => True) s := by
  obtain ⟨conn, records, odd, -, rfl⟩ := hu
  cases h with
  | ignore h2 => simp [handleBroConnection] at h2
  | eof s _ _ he => exact he.fate (fun hf => hf.elim) fun _ _ => trivial
  | undefined hdr => exact .start (.idle rfl rfl)
  | initShort hdr s _ _ _ hcl => exact hcl.fate_of_ssl rfl fun _ => trivial
  | extraInit hdr d => exact .start (.idle rfl rfl)
  | noService hdr d fd needFinish s _ _ _ _ _ hcl => exact hcl.fate_of_ssl rfl fun _ => trivial
  | noSecret hdr d fd needFinish s _ _ _ _ hcl => exact hcl.fate_of_ssl rfl fun _ => trivial
  | joined hdr d fd needFinish => exact .start (.idle rfl rfl)
  | wrongState hdr s _ _ _ hcl => exact hcl.fate_of_ssl rfl fun _ => trivial
  | rawShort hdr s _ _ h1 => simp [handleBroConnection] at h1
  | noClient hdr st' s _ _ h1 => simp [handleBroConnection] at h1
  | taken hdr fd _ _ h1 => simp [handleBroConnection] at h1

theorem Call.armed_joined {slot : Slot} (h : Call o st slot s) (hj : Joined st) (ha : Armed st)
    (ho : Once st slot o) (hc : Retried st slot o) : Fate Armed (fun _ => True) s := by
  -- what the condition says of an event other than the client's
  have hr : Wants o → o.retry.2 = .wantRead → registered st.evClientRead = true :=
    fun hwant he => (hc.read hwant he).2
  cases h with
  | telexRead s ht hb => exact hb.armed_joined hj ha ht ho hc
  | connected fd he => exact .petArmed (.start ⟨ha.read, ha.write, ha.watchdog⟩)
  | refused fd s he hcl =>
    refine hcl.armed hr (fun hwant hww => ?_) fun _ => ha.watchdog
    rcases hc.write hwant hww with ⟨h, -⟩ | ⟨h, -⟩
    · exact h
    · simp [relays, he] at h
  | serviceRead s hreg hrel =>
    refine hrel.armed (hj.readied_serviceRead hreg) ⟨ha.read, ha.write, ha.watchdog⟩ hr
      fun hwant hww => ?_
    exact (hc.write hwant hww).imp (fun h => h.1) fun h => h.2
  | serviceWrite fd s he hrel =>
    refine hrel.armed (hj.readied_serviceWrite he) ⟨ha.read, ha.write, ha.watchdog⟩ hr
      fun hwant hww => ?_
    exact (hc.write hwant hww).imp (fun h => h.1) fun h => h.2
  | clientRead s hreg hne hrel =>
    refine hrel.armed (hj.readied_clientRead hreg)
      ⟨fun he => absurd he hne, ha.write, ha.watchdog⟩ ?_ fun hwant hww => ?_
    · intro hwant he
      exact absurd rfl (hc.read hwant he).1
    · exact (hc.write hwant hww).imp (fun h => h.1) fun h => h.2
  | clientWrite s hreg hne hrel =>
    refine hrel.armed (hj.readied_clientWrite hreg)
      ⟨ha.read, fun he => absurd he hne, ha.watchdog⟩ hr fun hwant hww => ?_
    exact (hc.write hwant hww).imp (fun h => absurd (h.2 rfl) hne) fun h => h.2
  | retryRead s hreg hwait he =>
    refine he.armed ?_ (fun hwant hww => ?_) fun _ => ha.watchdog
    · intro hwant he
      exact absurd rfl (hc.read hwant he).1
    · rcases hc.write hwant hww with ⟨h, -⟩ | ⟨h, -⟩
      · exact h
      · simp [relays, hwait] at h
  | retryWrite s hreg hwait he =>
    exact he.armed hr (fun _ _ => hreg) fun _ => ha.watchdog
  | expired s _ _ hcl =>
    exact Ending.fate hcl (fun _ hwant => absurd rfl (hc.watchdog hwant)) fun _ _ => trivial
  | unheard s _ _ he => exact he.fate (fun hf => hf.elim) fun _ _ => trivial

/-- In every run in which a shutdown that has to be tried again meets the condition, no connection is
    orphaned: the event it waits for is registered and its watchdog is armed. -/
theorem no_orphans {ls : List Label} {w : World}
    (h : Run (When Step (At fun st slot o => Once st slot o ∧ Retried st slot o)) World.init ls w) :
    ∀ n ∈ w.connections,
      ((w.mem n).cleanupWaiting = .wantRead → registered (w.mem n).evClientRead = true) ∧
      ((w.mem n).cleanupWaiting = .wantWrite → registered (w.mem n).evClientWrite = true) ∧
      (w.mem n).evWatchdog = some true := by
  have hk : Holds (fun st => Known st ∧ Armed st) (fun _ => True) w := by
    refine Run.holds (fun conn _ => ⟨.inl (untouched_handleBroConnection conn), .idle rfl rfl⟩) ?_ h
    rintro st slot o s ⟨hk, ha⟩ hfresh ⟨ho, hc⟩ hf
    have h1 := hk.fate hfresh ho hf
    have hcall := fire_call hk.fds hf
    have h2 : Fate Armed (fun _ => True) s := by
      rcases hk with hu | hj
      · rcases hcall.untouched hu with ⟨-, hb⟩ | ⟨-, he⟩
        · exact hb.armed_untouched hu
        · exact he.fate (fun hf => hf.elim) fun _ _ => trivial
      · exact hcall.armed_joined hj ha ho hc
    exact ⟨h1.once, fun h0 => ⟨h1.live h0, h2.live h0⟩, fun _ => trivial⟩
  exact fun n hn => ⟨(hk.live n hn).2.read, (hk.live n hn).2.write, (hk.live n hn).2.watchdog⟩

instance (st : ConnectionState) (slot : Slot) (o : Outcomes) : Decidable (Retried st slot o) :=
  decidable_of_iff ((Wants o → slot ≠ .watchdog) ∧
      (Wants o → o.retry.2 = .wantRead →
        slot ≠ .clientRead ∧ registered st.evClientRead = true) ∧
      (Wants o → o.retry.2 = .wantWrite →
        registered st.evClientWrite = true ∧
          (slot = .clientWrite → st.cleanupWaiting = .wantWrite) ∨
        relays st slot = true ∧ (readied slot st).canDown = true ∧ downFails o = false))
    ⟨fun h => ⟨h.1, h.2.1, h.2.2⟩, fun h => ⟨h.watchdog, h.read, h.write⟩⟩

/-- A refused connection waits for the client, whose read event is registered. -/
theorem no_orphans_refused : ∃ w,
    Run (When Step (At fun st slot o => Once st slot o ∧ Retried st slot o)) World.init
      sampleRefused w ∧ (w.mem 0).cleanupWaiting = .wantRead ∧
      registered (w.mem 0).evClientRead = true := by
  have hr : Run (When Step (At fun st slot o => Once st slot o ∧ Retried st slot o)) World.init
      sampleRefused (World.after (fun st slot o => Once st slot o ∧ Retried st slot o)
        sampleRefused) := Run.of_foldlM World.check_step rfl
  exact ⟨_, hr, rfl, (no_orphans hr 0 (by decide)).1 rfl⟩

/-- The client sends a block which the service does not take, and the SSL shutdown that follows wants
    to read from the client. -/
def sampleOrphan : List Label :=
  sampleJoin ++ [.fire 0 .serviceWrite noAnswers, .fire 0 .serviceWrite noAnswers,
    .fire 0 .clientRead { noAnswers with
      sslRead := (.none, [1]), sendService := false, shutdown := 0, retry := (-1, .wantRead) }]

/-- The connection waits for an event that is not registered. -/
theorem client_read_orphans :
    Run (When Step (At Once)) World.init sampleOrphan (World.after Once sampleOrphan) ∧
    0 ∈ (World.after Once sampleOrphan).connections ∧
    ((World.after Once sampleOrphan).mem 0).cleanupWaiting = .wantRead ∧
    registered ((World.after Once sampleOrphan).mem 0).evClientRead = false :=
  ⟨Run.of_foldlM World.check_step rfl, by decide, by decide, by decide⟩

end Telex.Bronnect
