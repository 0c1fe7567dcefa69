import Telex.Bronnect.Fate

/-! Which events of a connection are registered

    `cleanup_connection_after_ssl` deletes an event only where the matching ready flag is not set, so
    what is registered has to be read off the flags. A connection is untouched until its init record
    is in and joined from then on; both hold between the callbacks and at every point of a callback
    where a cleanup can begin. -/

namespace Telex.Bronnect
open Bro (Flow InitData Str recordTypeInit recordTypeRawPkt)
open Runs

/-- Bro sends at most one init and one raw record. -/
def Once (st : ConnectionState) (slot : Slot) (o : Outcomes) : Prop :=
  slot = .telexRead → ∀ hdr, o.hdr = some hdr →
    hdr.type = recordTypeInit ∨ hdr.type = recordTypeRawPkt → hdr.type ∉ st.trace.records

/-- A record no init record has come in for. -/
def Untouched (st : ConnectionState) : Prop :=
  ∃ conn records odd, recordTypeInit ∉ records ∧ st = { handleBroConnection conn with
    trace := { (handleBroConnection conn).trace with records := records, odd := odd } }

/-- A record whose init record is in. -/
structure Joined (st : ConnectionState) : Prop where
  ssl : st.ssl = true
  state : 1 ≤ st.state
  flow : st.trace.initFlow = some st.flowState
  unblocks : st.trace.unblocks = []
  init : recordTypeInit ∈ st.trace.records
  fdServiceRead : ∀ ev, st.evServiceRead = some ev → ev.fd = st.serviceConn
  fdServiceWrite : ∀ ev, st.evServiceWrite = some ev → ev.fd = st.serviceConn
  fdClientRead : ∀ ev, st.evClientRead = some ev → ev.fd = st.clientConn
  fdClientWrite : ∀ ev, st.evClientWrite = some ev → ev.fd = st.clientConn
  serviceConn : 0 ≤ st.serviceConn
  apart : st.clientConn ≠ st.serviceConn
  serviceRead : registered st.evServiceRead = (st.evServiceRead.isSome && !st.serviceReadyRead)
  serviceWrite : registered st.evServiceWrite =
    (st.evServiceWrite.isSome && !st.serviceReadyWrite && !st.trace.connectFailed)
  clientRead : registered st.evClientRead = (st.evClientRead.isSome && !st.clientReadyRead)
  clientWrite : registered st.evClientWrite = (st.evClientWrite.isSome && !st.clientReadyWrite)
  ready : st.clientReadyWrite = true → st.evClientWrite ≠ none
  connecting : ∀ ev, st.evServiceWrite = some ev → ev.persist = false →
    st.evServiceRead = none ∧ st.serviceReadyRead = false ∧ st.serviceReadyWrite = false
  failed : st.trace.connectFailed = true → ∃ fd, st.evServiceWrite = some ⟨fd, false, false⟩
  telex : registered st.evTelexRead = true → st.state = 1
  early : st.state = 1 → st.clientConn < 0 ∧ st.evClientRead = none ∧ st.evClientWrite = none ∧
    st.clientReadyRead = false ∧ st.clientReadyWrite = false ∧ st.cleanupWaiting = .none

/-- A freed record has left no event behind. -/
structure Released (st : ConnectionState) : Prop where
  telexRead : registered st.evTelexRead = false
  serviceRead : registered st.evServiceRead = false
  serviceWrite : registered st.evServiceWrite = false
  clientRead : registered st.evClientRead = false
  clientWrite : registered st.evClientWrite = false
  watchdog : st.evWatchdog = none

instance (st : ConnectionState) (slot : Slot) (o : Outcomes) : Decidable (Once st slot o) :=
  match h : o.hdr with
  | none => isTrue (by simp [Once, h])
  | some hdr => decidable_of_iff (slot = .telexRead →
      hdr.type = recordTypeInit ∨ hdr.type = recordTypeRawPkt → hdr.type ∉ st.trace.records)
      (by simp [Once, h])

variable {o : Outcomes} {st st' : ConnectionState} {s : Cell} {e : Option Ev}

@[simp]
theorem registered_eventDel : registered (eventDel e) = false := by
  cases e <;> rfl

@[simp]
theorem registered_eventAdd : registered (eventAdd e) = e.isSome := by
  cases e <;> rfl

@[simp]
theorem isSome_eventDel : (eventDel e).isSome = e.isSome := by
  cases e <;> rfl

@[simp]
theorem isSome_eventAdd : (eventAdd e).isSome = e.isSome := by
  cases e <;> rfl

/-- Where a ready flag is set the event is not registered. -/
def Quiet (st : ConnectionState) : Prop :=
  (st.serviceReadyRead = true → registered st.evServiceRead = false) ∧
  (st.serviceReadyWrite = true → registered st.evServiceWrite = false) ∧
  (st.clientReadyRead = true → registered st.evClientRead = false) ∧
  (st.clientReadyWrite = true → registered st.evClientWrite = false)

theorem Joined.quiet (h : Joined st) : Quiet st := by
  refine ⟨?_, ?_, ?_, ?_⟩ <;> intro hf
  · simp [h.serviceRead, hf]
  · simp [h.serviceWrite, hf]
  · simp [h.clientRead, hf]
  · simp [h.clientWrite, hf]

theorem Quiet.free (h : Quiet st) (unblock : Bool) (w : SslError) :
    Released { released o unblock st with cleanupWaiting := w } := by
  obtain ⟨h1, h2, h3, h4⟩ := h
  refine ⟨by simp [released], ?_, ?_, ?_, ?_, rfl⟩
  · cases hf : st.serviceReadyRead <;> simp [released, hf, h1]
  · cases hf : st.serviceReadyWrite <;> simp [released, hf, h2]
  · cases hf : st.clientReadyRead <;> simp [released, hf, h3]
  · cases hf : st.clientReadyWrite <;> simp [released, hf, h4]

theorem Joined.fds (h : Joined st) : Fds st :=
  ⟨h.fdServiceRead, h.fdServiceWrite, h.fdClientRead, h.fdClientWrite, fun _ => h.apart⟩

theorem Joined.closed (h : Joined st) : Joined (closing st) :=
  { h with telex := by simp [closing, registered] }

theorem Joined.wait (h : Joined st) (ht : registered st.evTelexRead = false) :
    Joined (waiting o st) :=
  { h with
    state := by simp [waiting]
    telex := by simp [waiting, ht]
    early := by simp [waiting] }

theorem eventDel_eq_some {ev : Ev} (h : eventDel e = some ev) :
    ∃ ev', e = some ev' ∧ ev.fd = ev'.fd ∧ ev.persist = ev'.persist := by
  obtain ⟨ev', he, rfl⟩ := Option.map_eq_some_iff.mp h
  exact ⟨ev', he, rfl, rfl⟩

theorem eventAdd_eq_some {ev : Ev} (h : eventAdd e = some ev) :
    ∃ ev', e = some ev' ∧ ev.fd = ev'.fd ∧ ev.persist = ev'.persist := by
  obtain ⟨ev', he, rfl⟩ := Option.map_eq_some_iff.mp h
  exact ⟨ev', he, rfl, rfl⟩

/-- `D` holds of a joined record when it is freed, and what a callback does then keeps it. -/
structure Frees (o : Outcomes) (D : ConnectionState → Prop) : Prop where
  joined : ∀ st w, Joined st → D { released o true st with cleanupWaiting := w }
  petted : ∀ st, D st → D (petted st)
  closed : ∀ s : Cell, D s.st → D (closeTelexConnection s.use).st

theorem frees_released : Frees o Released where
  joined _ w h := h.quiet.free true w
  petted _ h := { h with watchdog := by simp [Bronnect.petted, h.watchdog] }
  closed _ h := { h with telexRead := rfl }

variable {D : ConnectionState → Prop}

/-- A cleanup of a joined record leaves it joined or frees it. -/
theorem Joined.ending {P : Prop} (h : Joined st) (hD : Frees o D)
    (ht : registered st.evTelexRead = false) (he : Ending o true P st s) : Fate Joined D s :=
  he.fate (fun _ _ => h.wait ht) fun w _ => hD.joined st w h

theorem Joined.cleanup_closing (h : Joined (closing st)) (hD : Frees o D) (hc : Cleanup o st s) :
    Fate Joined D s := by
  have hs : st.ssl = true := h.ssl
  rw [Cleanup, hs, Bool.true_or] at hc
  exact h.ending hD rfl hc

theorem Joined.cleanup (h : Joined st) (hD : Frees o D) (hc : Cleanup o st s) : Fate Joined D s :=
  h.closed.cleanup_closing hD hc

theorem Joined.readied_serviceRead (h : Joined st) (hr : registered st.evServiceRead = true) :
    Joined (readied .serviceRead st) := by
  have hs : st.evServiceRead ≠ none := by
    rintro hn; simp [registered, hn] at hr
  refine { h with fdServiceRead := ?_, serviceRead := ?_, connecting := ?_ }
  · intro ev hev
    obtain ⟨ev', he, hfd, -⟩ := eventDel_eq_some hev
    exact hfd ▸ h.fdServiceRead ev' he
  · simp [readied]
  · intro ev hev hp
    exact absurd (h.connecting ev hev hp).1 hs

theorem Joined.readied_serviceWrite {fd : ℤ} (h : Joined st)
    (hr : st.evServiceWrite = some ⟨fd, true, true⟩) : Joined (readied .serviceWrite st) := by
  have hn : st.trace.connectFailed ≠ true := by
    intro hf
    obtain ⟨fd', he⟩ := h.failed hf
    simp [hr] at he
  refine { h with fdServiceWrite := ?_, serviceWrite := ?_, connecting := ?_, failed := ?_ }
  · intro ev hev
    obtain ⟨ev', he, hfd, -⟩ := eventDel_eq_some hev
    exact hfd ▸ h.fdServiceWrite ev' he
  · simp [readied]
  · intro ev hev hp
    obtain ⟨ev', he, -, hper⟩ := eventDel_eq_some hev
    obtain rfl := Option.some.inj (hr.symm.trans he)
    simp [hper] at hp
  · intro hf
    exact absurd hf hn

theorem Joined.readied_clientRead (h : Joined st) (hr : registered st.evClientRead = true) :
    Joined (readied .clientRead st) := by
  refine { h with fdClientRead := ?_, clientRead := ?_, early := ?_ }
  · intro ev hev
    obtain ⟨ev', he, hfd, -⟩ := eventDel_eq_some hev
    exact hfd ▸ h.fdClientRead ev' he
  · simp [readied]
  · intro h1
    simp [(h.early h1).2.1, registered] at hr

theorem Joined.readied_clientWrite (h : Joined st) (hr : registered st.evClientWrite = true) :
    Joined (readied .clientWrite st) := by
  refine { h with fdClientWrite := ?_, clientWrite := ?_, ready := ?_, early := ?_ }
  · intro ev hev
    obtain ⟨ev', he, hfd, -⟩ := eventDel_eq_some hev
    exact hfd ▸ h.fdClientWrite ev' he
  · simp [readied]
  · intro _ hn
    have hn' : st.evClientWrite = none := by simpa [readied, eventDel] using hn
    simp [hn', registered] at hr
  · intro h1
    simp [(h.early h1).2.2.1, registered] at hr

theorem Joined.rearmDown (h : Joined st) : Joined (rearmDown st) := by
  refine { h with
    fdServiceRead := ?_, fdClientWrite := ?_, serviceRead := ?_, clientWrite := ?_
    ready := by simp [Bronnect.rearmDown], connecting := ?_, early := ?_ }
  · intro ev hev
    obtain ⟨ev', he, hfd, -⟩ := eventAdd_eq_some hev
    exact hfd ▸ h.fdServiceRead ev' he
  · intro ev hev
    obtain ⟨ev', he, hfd, -⟩ := eventAdd_eq_some hev
    exact hfd ▸ h.fdClientWrite ev' he
  · simp [Bronnect.rearmDown]
  · simp [Bronnect.rearmDown]
  · intro ev hev hp
    obtain ⟨hn, -, hw⟩ := h.connecting ev hev hp
    exact ⟨by simp [Bronnect.rearmDown, hn, eventAdd], rfl, hw⟩
  · intro h1
    obtain ⟨hc, hr, hw, hfr, -, hcw⟩ := h.early h1
    exact ⟨hc, hr, by simp [Bronnect.rearmDown, hw, eventAdd], hfr, rfl, hcw⟩

theorem Joined.rearmUp (h : Joined st) (hf : st.trace.connectFailed = false) :
    Joined (rearmUp st) := by
  refine { h with
    fdServiceWrite := ?_, fdClientRead := ?_, serviceWrite := ?_, clientRead := ?_
    connecting := ?_, failed := ?_, early := ?_ }
  · intro ev hev
    obtain ⟨ev', he, hfd, -⟩ := eventAdd_eq_some hev
    exact hfd ▸ h.fdServiceWrite ev' he
  · intro ev hev
    obtain ⟨ev', he, hfd, -⟩ := eventAdd_eq_some hev
    exact hfd ▸ h.fdClientRead ev' he
  · simp [Bronnect.rearmUp, hf]
  · simp [Bronnect.rearmUp]
  · intro ev hev hp
    obtain ⟨ev', he, -, hper⟩ := eventAdd_eq_some hev
    obtain ⟨hn, hr, -⟩ := h.connecting ev' he (hper ▸ hp)
    exact ⟨hn, hr, rfl⟩
  · intro hf'
    exact absurd (hf.symm.trans hf') (by simp)
  · intro h1
    obtain ⟨hc, hr, hw, -, hfw, hcw⟩ := h.early h1
    exact ⟨hc, by simp [Bronnect.rearmUp, hr, eventAdd], hw, rfl, hfw, hcw⟩

theorem Joined.down (h : Joined st) (got put : Str) :
    Joined { st with trace := st.trace.down got put } := { h with ssl := h.ssl }

/-- The record is past its raw packet when the client's descriptor is ready. -/
theorem Joined.late (h : Joined st) (hr : st.clientReadyRead = true) :
    registered st.evTelexRead = false := by
  rw [← Bool.not_eq_true]
  intro ht
  simp [(h.early (h.telex ht)).2.2.2.1] at hr

theorem Joined.up {k : ℕ} (h : Joined st) (bytes : Str) (hk : k = st.state ∨ k = 3)
    (hr : st.clientReadyRead = true) :
    Joined { st with trace := st.trace.up bytes, state := k } := by
  have ht := h.late hr
  refine { h with state := ?_, telex := ?_, early := ?_ }
  · have := h.state
    change 1 ≤ k
    omega
  · intro ht'
    exact absurd (ht.symm.trans ht') (by simp)
  · intro h1
    rcases hk with rfl | rfl
    · exact h.early h1
    · simp at h1

theorem Joined.petted (h : Joined st) : Joined (petted st) := { h with ssl := h.ssl }

theorem Fate.petJoined (h : Fate Joined D s) (hD : Frees o D) : Fate Joined D (petWatchdog s) :=
  h.pet (fun _ => Joined.petted) hD.petted

theorem DownOk.joined (h : DownOk o st st') (hj : Joined st) : Joined st' := by
  cases h with
  | skip _ => exact hj
  | relay got put _ _ _ => exact (hj.down got put).rearmDown

theorem DownFail.fate (h : DownFail o st s) (hj : Joined st) (hD : Frees o D) :
    Fate Joined D s := by
  cases h with
  | cleanup got s _ _ hc => exact (hj.down got []).cleanup hD hc

/-- A service socket that was refused never gets ready. -/
theorem Joined.not_failed (h : Joined st) (hw : st.serviceReadyWrite = true) :
    st.trace.connectFailed = false := by
  rw [← Bool.not_eq_true]
  intro hf
  obtain ⟨fd, he⟩ := h.failed hf
  simp [(h.connecting _ he rfl).2.2] at hw

theorem canUp_iff : st.canUp = true ↔ st.serviceReadyWrite = true ∧ st.clientReadyRead = true := by
  simp [ConnectionState.canUp]

theorem UpOk.joined (h : UpOk o st st') (hj : Joined st) : Joined st' := by
  cases h with
  | skip _ => exact hj
  | relay bytes k hup _ hk =>
    obtain ⟨hw, hr⟩ := canUp_iff.mp hup
    exact (hj.up bytes hk hr).rearmUp (hj.not_failed hw)

theorem UpFail.fate (h : UpFail o st s) (hj : Joined st) (hD : Frees o D) : Fate Joined D s := by
  cases h with
  | cleanup bytes k s hup _ _ hk hc => exact (hj.up bytes hk (canUp_iff.mp hup).2).cleanup hD hc
  | gone s hup _ _ he => exact hj.ending hD (hj.late (canUp_iff.mp hup).2) he

theorem Relay.fate (h : Relay o st s) (hj : Joined st) (hD : Frees o D) : Fate Joined D s := by
  cases h with
  | downFail s hd => exact (hd.fate hj hD).petJoined hD
  | upFail st' s hd hu => exact (hu.fate (hd.joined hj) hD).petJoined hD
  | ok st' st'' hd hu => exact .start (hu.joined (hd.joined hj)).petted

theorem Joined.received (h : Joined st) (hdr : Hdr) : Joined (received hdr st) :=
  { h with init := List.mem_append_left _ h.init }

/-- The record when its raw packet could not be used is joined once its end towards Bro is closed. -/
theorem Joined.received_two (h : Joined st) (hdr : Hdr) :
    Joined (closing { Bronnect.received hdr st with state := 2 }) :=
  { (h.received hdr).closed with
    state := by simp [closing]
    telex := by simp [closing, registered]
    early := by simp [closing] }

theorem NotTaken.joined {hdr : Hdr} (hn : NotTaken o (received hdr st) st') (h : Joined st)
    (h1 : st.state = 1) : Joined (closing st') := by
  obtain ⟨hc, hr, hw, hfr, hfw, hcw⟩ := h.early h1
  cases hn with
  | noSocket _ => exact h.received_two hdr
  | noClient fd _ hneg =>
    refine { h.received_two hdr with
      fdClientRead := ?_, fdClientWrite := ?_, apart := ?_, early := by simp [closing] }
    · intro ev hev
      exact absurd (hr.symm.trans hev) (by simp)
    · intro ev hev
      exact absurd (hw.symm.trans hev) (by simp)
    · intro he
      have := h.serviceConn
      have : fd = st.serviceConn := he
      omega

theorem Joined.taken {hdr : Hdr} {fd : ℤ} (h : Joined st) (h1 : st.state = 1)
    (hfresh : fd ≠ st.serviceConn) :
    Joined (closeTelexConnection (.start (taken fd (Bronnect.received hdr st)))).st := by
  obtain ⟨hc, hr, hw, hfr, hfw, hcw⟩ := h.early h1
  refine { h.received hdr with
    state := ?_, fdClientRead := ?_, fdClientWrite := ?_, apart := hfresh, clientRead := ?_
    clientWrite := ?_, ready := ?_, telex := ?_, early := ?_ }
  · exact Nat.le_succ 1
  · rintro ev ⟨⟩; rfl
  · rintro ev ⟨⟩; rfl
  · simpa [registered, closeTelexConnection, Bronnect.taken, Bronnect.received, Cell.start,
      Cell.set] using hfr
  · simpa [registered, closeTelexConnection, Bronnect.taken, Bronnect.received, Cell.start,
      Cell.set] using hfw
  · intro _
    simp [closeTelexConnection, Bronnect.taken, Cell.start, Cell.set]
  · intro ht
    exact absurd ht (by simp [registered, closeTelexConnection, Cell.set])
  · intro h2
    exact absurd h2 (by simp [closeTelexConnection, Bronnect.taken, Cell.start, Cell.set])

theorem Fate.closeTelex (h : Fate Joined D s) (hD : Frees o D) :
    Fate Joined D (closeTelexConnection s.use) := by
  refine ⟨h.once, fun hf => ?_, fun hf => hD.closed s (h.dead hf)⟩
  exact { h.live hf with telex := by simp [closeTelexConnection, Cell.set, registered] }

theorem FromBro.fate_joined (h : FromBro o st s) (hj : Joined st) (hD : Frees o D)
    (ht : registered st.evTelexRead = true) (ho : Once st .telexRead o)
    (hfresh : Fresh st .telexRead o) : Fate Joined D s := by
  have h1 : st.state = 1 := hj.telex ht
  have noInit : ∀ {hdr : Hdr}, o.hdr = some hdr → hdr.type = recordTypeInit → False :=
    fun hh hi => ho rfl _ hh (.inl hi) (hi ▸ hj.init)
  cases h with
  | ignore h2 => omega
  | eof s _ _ he => exact he.fate (fun hf => hf.elim) fun w _ => hD.joined st w hj
  | undefined hdr _ _ _ => exact .start { hj.received hdr with ssl := hj.ssl }
  | initShort hdr s hh hi => exact (noInit hh hi).elim
  | extraInit hdr d hh hi => exact (noInit hh hi).elim
  | noService hdr d fd needFinish s hh hi => exact (noInit hh hi).elim
  | noSecret hdr d fd needFinish s hh hi => exact (noInit hh hi).elim
  | joined hdr d fd needFinish hh hi => exact (noInit hh hi).elim
  | wrongState hdr s _ _ hne => exact absurd h1 hne
  | rawShort hdr s _ _ _ _ hc => exact (hj.received_two hdr).cleanup_closing hD hc
  | noClient hdr st' s _ _ _ _ hn hc =>
    exact (((hn.joined hj h1).cleanup_closing hD hc).closeTelex hD).petJoined hD
  | taken hdr fd _ _ _ _ hk hpos =>
    exact .petJoined (.start (hj.taken h1 (hfresh rfl fd hk hpos))) hD

/-- A connection of the table: its init record is in or it is not. -/
def Known (st : ConnectionState) : Prop := Untouched st ∨ Joined st

theorem untouched_handleBroConnection (conn : ℤ) : Untouched (handleBroConnection conn) :=
  ⟨conn, [], [], by simp, rfl⟩

theorem Untouched.fds (h : Untouched st) : Fds st := by
  obtain ⟨conn, records, odd, -, rfl⟩ := h
  constructor <;> simp [handleBroConnection]

theorem Known.fds (h : Known st) : Fds st := h.elim Untouched.fds Joined.fds

/-- A record none of whose descriptors was ever ready. -/
theorem Quiet.of_flags (h1 : st.serviceReadyRead = false) (h2 : st.serviceReadyWrite = false)
    (h3 : st.clientReadyRead = false) (h4 : st.clientReadyWrite = false) : Quiet st := by
  simp [Quiet, h1, h2, h3, h4]

/-- A cleanup frees a record that has no SSL object. -/
theorem Cleanup.fate_of_ssl {I D : ConnectionState → Prop} (hc : Cleanup o st s)
    (hs : st.ssl = false)
    (hD : ∀ w, D { released o (decide (0 < st.state)) (closing st) with cleanupWaiting := w }) :
    Fate I D s := by
  have hb : (st.ssl || decide (0 < st.state)) = decide (0 < st.state) := by simp [hs]
  unfold Cleanup at hc
  rw [hb] at hc
  exact hc.fate (fun hp => absurd (hs.symm.trans hp.1) (by simp)) fun w _ => hD w

theorem Untouched.joined {hdr : Hdr} {d : InitData} {fd : ℤ} {needFinish : Bool} (h : Untouched st)
    (ht : hdr.type = recordTypeInit) (hpos : 0 ≤ fd) :
    Joined { serviced d fd needFinish (informed d (received hdr st)) with ssl := true } := by
  obtain ⟨conn, records, odd, -, rfl⟩ := h
  have hne : (-1 : ℤ) ≠ fd := by omega
  cases needFinish <;> constructor <;>
    simp_all [serviced, informed, received, handleBroConnection, registered]

theorem FromBro.fate_untouched (h : FromBro o st s) (hu : Untouched st) : Fate Known Released s := by
  have hj := fun hdr d fd nf => @Untouched.joined st hdr d fd nf hu
  obtain ⟨conn, records, odd, hni, rfl⟩ := hu
  cases h with
  | ignore h2 => simp [handleBroConnection] at h2
  | eof s _ _ he =>
    exact he.fate (fun hf => hf.elim) fun w _ => (Quiet.of_flags rfl rfl rfl rfl).free true w
  | undefined hdr hh hi hr =>
    refine .start (.inl ⟨conn, records ++ [hdr.type], .undefinedType :: odd, ?_, rfl⟩)
    simpa [hni] using Ne.symm hi
  | initShort hdr s _ _ _ hc =>
    exact hc.fate_of_ssl rfl fun w => (Quiet.of_flags rfl rfl rfl rfl).free _ w
  | extraInit hdr d _ _ hneg => simp [handleBroConnection] at hneg
  | noService hdr d fd needFinish s _ _ _ _ _ hc =>
    exact hc.fate_of_ssl rfl fun w => (Quiet.of_flags rfl rfl rfl rfl).free _ w
  | noSecret hdr d fd needFinish s _ _ _ _ hc =>
    exact hc.fate_of_ssl rfl fun w => (Quiet.of_flags rfl rfl rfl rfl).free _ w
  | joined hdr d fd needFinish _ ht _ hpos =>
    exact .start (.inr (hj hdr d fd needFinish ht hpos).petted)
  | wrongState hdr s _ _ _ hc =>
    exact hc.fate_of_ssl rfl fun w => (Quiet.of_flags rfl rfl rfl rfl).free _ w
  | rawShort hdr s _ _ h1 => simp [handleBroConnection] at h1
  | noClient hdr st' s _ _ h1 => simp [handleBroConnection] at h1
  | taken hdr fd _ _ h1 => simp [handleBroConnection] at h1

/-- A record that waits for its SSL shutdown has closed its end towards Bro. -/
theorem Joined.not_telex (h : Joined st) (hw : st.cleanupWaiting ≠ .none) :
    registered st.evTelexRead = false := by
  rw [← Bool.not_eq_true]
  intro ht
  exact hw (h.early (h.telex ht)).2.2.2.2.2

theorem Joined.connected {fd : ℤ} (h : Joined st)
    (he : st.evServiceWrite = some ⟨fd, false, true⟩) :
    Joined { st with
      evServiceRead := some ⟨st.serviceConn, true, true⟩
      serviceReadyRead := false
      evServiceWrite := some ⟨st.serviceConn, true, true⟩ } := by
  have hn : st.trace.connectFailed = false := by
    rw [← Bool.not_eq_true]
    intro hf
    obtain ⟨fd', he'⟩ := h.failed hf
    simp [he] at he'
  have hw : st.serviceReadyWrite = false := (h.connecting _ he rfl).2.2
  refine { h with
    fdServiceRead := ?_, fdServiceWrite := ?_, serviceRead := ?_, serviceWrite := ?_
    connecting := ?_, failed := ?_ }
  · rintro ev ⟨⟩; rfl
  · rintro ev ⟨⟩; rfl
  · simp [registered]
  · simp [registered, hn, hw]
  · rintro ev ⟨⟩ hp
    simp at hp
  · intro hf
    exact absurd (hn.symm.trans hf) (by simp)

theorem Joined.refused {fd : ℤ} (h : Joined st)
    (he : st.evServiceWrite = some ⟨fd, false, true⟩) :
    Joined { st with
      evServiceWrite := some ⟨fd, false, false⟩
      trace := { st.trace with connectFailed := true } } := by
  refine { h with fdServiceWrite := ?_, serviceWrite := ?_, connecting := ?_, failed := ?_ }
  · rintro ev ⟨⟩
    have hfd : fd = st.serviceConn := h.fdServiceWrite _ he
    exact hfd
  · simp [registered]
  · intro ev _ _
    exact h.connecting _ he rfl
  · intro _
    exact ⟨fd, rfl⟩

theorem Call.fate_joined {slot : Slot} (h : Call o st slot s) (hj : Joined st) (hD : Frees o D)
    (ho : Once st slot o) (hfresh : Fresh st slot o) : Fate Joined D s := by
  cases h with
  | telexRead s ht hb => exact hb.fate_joined hj hD ht ho hfresh
  | connected fd he => exact .start (hj.connected he).petted
  | refused fd s he hc => exact (hj.refused he).cleanup hD hc
  | serviceRead s hr hrel => exact hrel.fate (hj.readied_serviceRead hr) hD
  | serviceWrite fd s he hrel => exact hrel.fate (hj.readied_serviceWrite he) hD
  | clientRead s hr _ hrel => exact hrel.fate (hj.readied_clientRead hr) hD
  | clientWrite s hr _ hrel => exact hrel.fate (hj.readied_clientWrite hr) hD
  | retryRead s hr hw he =>
    exact (hj.readied_clientRead hr).ending hD (hj.not_telex (by simp [hw])) he
  | retryWrite s hr hw he => exact hj.ending hD (hj.not_telex (by simp [hw])) he
  | expired s _ _ hc =>
    have hj' : Joined { st with evWatchdog := some false } := { hj with ssl := hj.ssl }
    exact hj'.cleanup hD hc
  | unheard s _ h0 => exact absurd hj.state (by omega)

/-- Only a record from Bro or the watchdog can reach an untouched connection. -/
theorem Call.untouched {slot : Slot} (h : Call o st slot s) (hu : Untouched st) :
    slot = .telexRead ∧ FromBro o st s ∨
      slot = .watchdog ∧ Ending o false False { st with evWatchdog := some false } s := by
  obtain ⟨conn, records, odd, -, rfl⟩ := hu
  cases h with
  | telexRead s _ hb => exact .inl ⟨rfl, hb⟩
  | unheard s _ _ he => exact .inr ⟨rfl, he⟩
  | expired s _ h1 => simp [handleBroConnection] at h1
  | connected fd he => simp [handleBroConnection] at he
  | refused fd s he => simp [handleBroConnection] at he
  | serviceWrite fd s he => simp [handleBroConnection] at he
  | serviceRead s hr => simp [handleBroConnection, registered] at hr
  | clientRead s hr => simp [handleBroConnection, registered] at hr
  | clientWrite s hr => simp [handleBroConnection, registered] at hr
  | retryRead s hr => simp [handleBroConnection, registered] at hr
  | retryWrite s hr => simp [handleBroConnection, registered] at hr

theorem Call.fate_untouched {slot : Slot} (h : Call o st slot s) (hu : Untouched st) :
    Fate Known Released s := by
  rcases h.untouched hu with ⟨-, hb⟩ | ⟨-, he⟩
  · exact hb.fate_untouched hu
  · obtain ⟨conn, records, odd, -, rfl⟩ := hu
    exact he.fate (fun hf => hf.elim) fun w _ => (Quiet.of_flags rfl rfl rfl rfl).free false w

/-- A callback keeps what is known of its connection, or frees it with no event left behind. -/
theorem Known.fate {slot : Slot} (h : Known st) (hfresh : Fresh st slot o) (ho : Once st slot o)
    (hf : fire slot o st = some s) : Fate Known Released s := by
  have hc := fire_call h.fds hf
  rcases h with hu | hj
  · exact hc.fate_untouched hu
  · exact (hc.fate_joined hj frees_released ho hfresh).mono (fun _ => .inr) fun _ h => h

/-- What is known of all connections after any run in which Bro keeps to its records. -/
theorem Run.known {ls : List Label} {w : World} (h : Run (When Step (At Once)) World.init ls w) :
    Holds Known Released w :=
  Run.holds (fun conn _ => .inl (untouched_handleBroConnection conn))
    (fun _ _ _ _ hk hfresh ho hf => hk.fate hfresh ho hf) h

/-- In every run in which Bro sends at most one init and one raw record on a connection, the events
    of a connection are registered exactly when they are there and the matching flag is not set, but
    for the write event of a service socket that was refused; a freed connection has left no event
    registered, and the connections are counted. -/
theorem event_registered_iff {ls : List Label} {w : World}
    (h : Run (When Step (At Once)) World.init ls w) :
    (∀ n ∈ w.connections,
      (registered (w.mem n).evServiceRead = true ↔
        (w.mem n).evServiceRead ≠ none ∧ (w.mem n).serviceReadyRead = false) ∧
      (registered (w.mem n).evServiceWrite = true ↔ (w.mem n).evServiceWrite ≠ none ∧
        (w.mem n).serviceReadyWrite = false ∧ (w.mem n).trace.connectFailed = false) ∧
      (registered (w.mem n).evClientRead = true ↔
        (w.mem n).evClientRead ≠ none ∧ (w.mem n).clientReadyRead = false) ∧
      (registered (w.mem n).evClientWrite = true ↔
        (w.mem n).evClientWrite ≠ none ∧ (w.mem n).clientReadyWrite = false)) ∧
    (∀ n < w.nclients, n ∉ w.connections → registered (w.mem n).evTelexRead = false ∧
      registered (w.mem n).evServiceRead = false ∧ registered (w.mem n).evServiceWrite = false ∧
      registered (w.mem n).evClientRead = false ∧ registered (w.mem n).evClientWrite = false) ∧
    w.activeConnections = w.connections.card := by
  have hk := Run.known h
  refine ⟨fun n hn => ?_, fun n hn hm => ?_, hk.count⟩
  · rcases hk.live n hn with ⟨conn, records, odd, -, he⟩ | hj
    · simp [he, handleBroConnection, registered]
    · rw [hj.serviceRead, hj.serviceWrite, hj.clientRead, hj.clientWrite]
      simp [Option.isSome_iff_ne_none, and_assoc]
  · have hr := hk.dead n hn hm
    exact ⟨hr.telexRead, hr.serviceRead, hr.serviceWrite, hr.clientRead, hr.clientWrite⟩

/-- The service socket connects, and all four events are registered. -/
theorem event_registered_connected :
    Run (When Step (At Once)) World.init (sampleJoin ++ [.fire 0 .serviceWrite noAnswers])
      (World.after Once (sampleJoin ++ [.fire 0 .serviceWrite noAnswers])) ∧
    registered ((World.after Once (sampleJoin ++ [.fire 0 .serviceWrite noAnswers])).mem
      0).evServiceWrite = true := by
  have hr : Run (When Step (At Once)) World.init (sampleJoin ++ [.fire 0 .serviceWrite noAnswers])
      (World.after Once (sampleJoin ++ [.fire 0 .serviceWrite noAnswers])) :=
    Run.of_foldlM World.check_step rfl
  refine ⟨hr, ((event_registered_iff hr).1 0 (by decide)).2.1.mpr ?_⟩
  exact ⟨by decide, by decide, by decide⟩

/-- The service refuses the connection and the SSL shutdown has to wait for the client. -/
def sampleRefused : List Label :=
  sampleJoin ++ [.fire 0 .serviceWrite { noAnswers with
    soError := some 111, shutdown := 0, retry := (-1, .wantRead) }]

/-- The connection is still there, its service write event is there and its flag is not set, but the
    event is not registered. -/
theorem refused_not_registered :
    Run (When Step (At Once)) World.init sampleRefused (World.after Once sampleRefused) ∧
    0 ∈ (World.after Once sampleRefused).connections ∧
    ((World.after Once sampleRefused).mem 0).evServiceWrite ≠ none ∧
    ((World.after Once sampleRefused).mem 0).serviceReadyWrite = false ∧
    registered ((World.after Once sampleRefused).mem 0).evServiceWrite = false :=
  ⟨Run.of_foldlM World.check_step rfl, by decide, by decide, by decide, by decide⟩

end Telex.Bronnect
