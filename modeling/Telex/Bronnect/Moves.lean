import Telex.Bronnect.Model
import Telex.Lib.Runs

/-! What a callback can do to its connection

    The callbacks are read once here. A cleanup either frees the record or leaves it waiting for the
    SSL shutdown (`Ending`); a relay goes down, then up, and may end in either half (`Relay`); a record
    from Bro is one of the cases of `FromBro`. `fire_call` says which of these a fired event is. -/

namespace Telex.Bronnect
open Bro (Flow InitData Str recordTypeInit recordTypeRawPkt)

variable {o : Outcomes} {st st' a b : ConnectionState} {s s' : Cell}

@[simp]
theorem Cell.start_st : (Cell.start st).st = st := rfl

@[simp]
theorem Cell.start_use : (Cell.start st).use = Cell.start st := rfl

@[simp]
theorem Cell.start_set : (Cell.start a).set b = Cell.start b := rfl

/-- The second `SSL_shutdown` has to be tried again. -/
def Wants (o : Outcomes) : Prop :=
  o.retry.1 < 0 ∧ (o.retry.2 = .wantRead ∨ o.retry.2 = .wantWrite)

instance : Decidable (Wants o) := inferInstanceAs (Decidable (_ ∧ _))

/-- The record waits for its SSL shutdown. -/
def waiting (o : Outcomes) (st : ConnectionState) : ConnectionState :=
  { st with state := 5, cleanupWaiting := o.retry.2 }

/-- The ways a cleanup ends: the record waits, which needs `P`, or it is freed. -/
inductive Ending (o : Outcomes) (unblock : Bool) (P : Prop) (st : ConnectionState) : Cell → Prop
  | wait : P → Wants o → Ending o unblock P st (.start (waiting o st))
  | free (w : SslError) : ¬(P ∧ Wants o) →
      Ending o unblock P st ⟨{ released o unblock st with cleanupWaiting := w }, 1, false⟩

theorem cleanupConnectionAfterSsl_ending (unblock : Bool) :
    Ending o unblock False st (cleanupConnectionAfterSsl o unblock (.start st)) :=
  .free st.cleanupWaiting (by simp)

theorem cleanupConnectionSslTryShutdown_ending :
    Ending o true (st.ssl = true) st (cleanupConnectionSslTryShutdown o (.start st)) := by
  unfold cleanupConnectionSslTryShutdown
  by_cases hs : st.ssl = true
  · rw [if_neg (by simp [hs])]
    dsimp only
    by_cases hr : 0 ≤ o.retry.1
    · rw [if_pos hr]
      exact .free st.cleanupWaiting (by simp [Wants]; omega)
    · have hneg : o.retry.1 < 0 := by omega
      rw [if_neg hr]
      split
      · rename_i he; exact .wait hs ⟨hneg, Or.inl he⟩
      · rename_i he; exact .wait hs ⟨hneg, Or.inr he⟩
      · rename_i h1 h2
        refine .free o.retry.2 ?_
        rintro ⟨-, -, he | he⟩
        · exact h1 he
        · exact h2 he
  · rw [if_pos (by simpa using hs)]
    exact .free st.cleanupWaiting (by simp [hs])

/-- The record once `cleanup_connection_ssl` has closed its end towards Bro. -/
def closing (st : ConnectionState) : ConnectionState :=
  { st with
    tCleanup := true
    telexConn := if 0 ≤ st.telexConn then -2 else st.telexConn
    evTelexRead := none }

theorem cleanupConnection_start : cleanupConnection o (.start st) =
    if st.ssl then
      if o.shutdown = 0 then cleanupConnectionSslTryShutdown o (.start (closing st))
      else cleanupConnectionAfterSsl o true (.start { closing st with ssl := false })
    else cleanupConnectionAfterSsl o (decide (0 < st.state)) (.start (closing st)) := rfl

theorem cleanupConnection_ending :
    Ending o (st.ssl || decide (0 < st.state)) (st.ssl = true ∧ o.shutdown = 0) (closing st)
      (cleanupConnection o (.start st)) := by
  rw [cleanupConnection_start]
  by_cases hs : st.ssl = true
  · rw [if_pos hs, hs]
    by_cases h0 : o.shutdown = 0
    · rw [if_pos h0]
      have h : Ending o true ((closing st).ssl = true) (closing st)
          (cleanupConnectionSslTryShutdown o (.start (closing st))) :=
        cleanupConnectionSslTryShutdown_ending
      simpa [closing, hs, h0] using h
    · rw [if_neg h0]
      exact .free st.cleanupWaiting (by simp [h0])
  · rw [if_neg hs]
    have hb : (st.ssl || decide (0 < st.state)) = decide (0 < st.state) := by simp [hs]
    rw [hb]
    exact .free st.cleanupWaiting (by simp [hs])

/-- The ways `cleanup_connection` ends. -/
def Cleanup (o : Outcomes) (st : ConnectionState) : Cell → Prop :=
  Ending o (st.ssl || decide (0 < st.state)) (st.ssl = true ∧ o.shutdown = 0) (closing st)

/-! ### Relay -/

/-- The bytes got from the service and those taken for the client. -/
def Trace.down (tr : Trace) (got put : Str) : Trace :=
  { tr with fromService := tr.fromService ++ got, toClient := tr.toClient ++ put }

/-- The bytes got from the client, all of them passed on. -/
def Trace.up (tr : Trace) (bytes : Str) : Trace :=
  { tr with fromClient := tr.fromClient ++ bytes, toService := tr.toService ++ bytes }

/-- `forward_service_to_client` gives up. -/
def downFails (o : Outcomes) : Bool :=
  match o.recvService with
  | .error again => !again
  | .data [] => true
  | .data (_ :: _) =>
      match o.sslWrite with
      | .none | .wantRead | .wantWrite => false
      | _ => true

/-- A block was received and SSL wants to be called again with it. -/
def Drops (o : Outcomes) : Prop :=
  (∃ b bytes, o.recvService = .data (b :: bytes)) ∧
    (o.sslWrite = .wantRead ∨ o.sslWrite = .wantWrite)

/-- `forward_client_to_service` gives up. -/
def upFails (o : Outcomes) : Bool :=
  match o.sslRead.1 with
  | .none => !o.sendService
  | .wantRead | .wantWrite => false
  | _ => true

theorem forwardServiceToClient_start {ok : Bool}
    (h : forwardServiceToClient o (.start st) = some (ok, s)) :
    0 ≤ st.clientConn ∧ downFails o = !ok ∧
      (ok = true ∧ (∃ got put, (put = got ∨ Drops o) ∧
        s = .start { st with trace := st.trace.down got put }) ∨
      ok = false ∧ ∃ got, Cleanup o { st with trace := st.trace.down got [] } s) := by
  unfold forwardServiceToClient at h
  split at h
  · simp at h
  · rename_i hc
    refine ⟨by simpa using hc, ?_⟩
    have keep : st.trace.down [] [] = st.trace := by simp [Trace.down]
    cases hr : o.recvService with
    | error again =>
      cases again
      · simp only [hr, Option.some.injEq, Prod.mk.injEq] at h
        obtain ⟨rfl, rfl⟩ := h
        exact ⟨by simp [downFails, hr], .inr ⟨rfl, [], by rw [keep]; exact cleanupConnection_ending⟩⟩
      · simp only [hr, Option.some.injEq, Prod.mk.injEq] at h
        obtain ⟨rfl, rfl⟩ := h
        exact ⟨by simp [downFails, hr], .inl ⟨rfl, [], [], .inl rfl, by rw [keep]; rfl⟩⟩
    | data bytes =>
      cases bytes with
      | nil =>
        simp only [hr, Option.some.injEq, Prod.mk.injEq] at h
        obtain ⟨rfl, rfl⟩ := h
        exact ⟨by simp [downFails, hr], .inr ⟨rfl, [], by rw [keep]; exact cleanupConnection_ending⟩⟩
      | cons b bytes =>
        have hd : st.trace.down (b :: bytes) [] =
            { st.trace with fromService := st.trace.fromService ++ b :: bytes } := by
          simp [Trace.down]
        simp only [hr] at h
        split at h
        · rename_i hw
          simp only [Option.some.injEq, Prod.mk.injEq] at h
          obtain ⟨rfl, rfl⟩ := h
          exact ⟨by simp [downFails, hr, hw], .inl ⟨rfl, b :: bytes, b :: bytes, .inl rfl, rfl⟩⟩
        · rename_i hw
          simp only [Option.some.injEq, Prod.mk.injEq] at h
          obtain ⟨rfl, rfl⟩ := h
          exact ⟨by simp [downFails, hr, hw], .inl ⟨rfl, b :: bytes, [],
            .inr ⟨⟨b, bytes, hr⟩, .inr hw⟩, by rw [hd]; rfl⟩⟩
        · rename_i hw
          simp only [Option.some.injEq, Prod.mk.injEq] at h
          obtain ⟨rfl, rfl⟩ := h
          exact ⟨by simp [downFails, hr, hw], .inl ⟨rfl, b :: bytes, [],
            .inr ⟨⟨b, bytes, hr⟩, .inl hw⟩, by rw [hd]; rfl⟩⟩
        · rename_i h1 h2 h3
          simp only [Option.some.injEq, Prod.mk.injEq] at h
          obtain ⟨rfl, rfl⟩ := h
          refine ⟨?_, .inr ⟨rfl, b :: bytes, by rw [hd]; exact cleanupConnection_ending⟩⟩
          unfold downFails
          rw [hr]
          dsimp only
          split <;> simp_all

theorem logData_start (st : ConnectionState) :
    logData (.start st) = .start { st with state := 3 } := by
  by_cases h3 : st.state = 3
  · have h : logData (.start st) = .start st := if_pos h3
    rw [h, ← h3]
  · exact if_neg h3

theorem forwardClientToService_start {ok : Bool}
    (h : forwardClientToService o (.start st) = some (ok, s)) :
    upFails o = !ok ∧ ∃ bytes k, (k = st.state ∨ k = 3) ∧
      (ok = true ∧ s = .start { st with trace := st.trace.up bytes, state := k } ∨
      ok = false ∧ o.sslRead.1 ≠ .syscall ∧
        Cleanup o { st with trace := st.trace.up bytes, state := k } s ∨
      ok = false ∧ o.sslRead.1 = .syscall ∧ Ending o true False st s) := by
  have keep : st.trace.up [] = st.trace := by simp [Trace.up]
  unfold forwardClientToService at h
  split at h
  · rename_i bytes hr
    split at h
    · simp at h
    · have hlog := logData_start { st with trace := st.trace.up bytes }
      cases hs : o.sendService
      · simp only [hs, Bool.false_eq_true, if_false, Option.some.injEq, Prod.mk.injEq] at h
        obtain ⟨rfl, h⟩ := h
        refine ⟨by simp [upFails, hr, hs], bytes, 3, .inr rfl, .inr (.inl ⟨rfl, by simp [hr], ?_⟩)⟩
        rw [← h]
        exact hlog ▸ cleanupConnection_ending
      · simp only [hs, if_true, Option.some.injEq, Prod.mk.injEq] at h
        obtain ⟨rfl, h⟩ := h
        exact ⟨by simp [upFails, hr, hs], bytes, 3, .inr rfl, .inl ⟨rfl, h.symm.trans hlog⟩⟩
  · rename_i hr
    simp only [Option.some.injEq, Prod.mk.injEq] at h
    obtain ⟨rfl, rfl⟩ := h
    exact ⟨by simp [upFails, hr], [], st.state, .inl rfl, .inl ⟨rfl, by rw [keep]; rfl⟩⟩
  · rename_i hr
    simp only [Option.some.injEq, Prod.mk.injEq] at h
    obtain ⟨rfl, rfl⟩ := h
    exact ⟨by simp [upFails, hr], [], st.state, .inl rfl, .inl ⟨rfl, by rw [keep]; rfl⟩⟩
  · rename_i hr
    simp only [Option.some.injEq, Prod.mk.injEq] at h
    obtain ⟨rfl, rfl⟩ := h
    exact ⟨by simp [upFails, hr], [], st.state, .inl rfl, .inr (.inr ⟨rfl, by simp [hr],
      cleanupConnectionAfterSsl_ending true⟩)⟩
  · rename_i h1 h2 h3 h4
    simp only [Option.some.injEq, Prod.mk.injEq] at h
    obtain ⟨rfl, rfl⟩ := h
    have hne : ∀ e bytes, o.sslRead = (e, bytes) → e ≠ .none ∧ e ≠ .wantRead ∧ e ≠ .wantWrite ∧
        e ≠ .syscall := by
      rintro e bytes he
      refine ⟨?_, ?_, ?_, ?_⟩ <;> rintro rfl
      · exact h1 bytes he
      · exact h2 bytes he
      · exact h3 bytes he
      · exact h4 bytes he
    obtain ⟨n1, n2, n3, n4⟩ := hne o.sslRead.1 o.sslRead.2 rfl
    refine ⟨?_, [], st.state, .inl rfl, .inr (.inl ⟨rfl, n4, by rw [keep]; exact
      cleanupConnection_ending⟩)⟩
    unfold upFails
    split <;> simp_all

/-- The record when its service-to-client events are registered again. -/
def rearmDown (st : ConnectionState) : ConnectionState :=
  { st with
    serviceReadyRead := false
    clientReadyWrite := false
    evServiceRead := eventAdd st.evServiceRead
    evClientWrite := eventAdd st.evClientWrite }

/-- The record when its client-to-service events are registered again. -/
def rearmUp (st : ConnectionState) : ConnectionState :=
  { st with
    serviceReadyWrite := false
    clientReadyRead := false
    evServiceWrite := eventAdd st.evServiceWrite
    evClientRead := eventAdd st.evClientRead }

/-- Both ends are ready for a relay to the client. -/
def ConnectionState.canDown (st : ConnectionState) : Bool :=
  st.serviceReadyRead && st.clientReadyWrite

/-- Both ends are ready for a relay to the service. -/
def ConnectionState.canUp (st : ConnectionState) : Bool :=
  st.serviceReadyWrite && st.clientReadyRead

/-- The first half of `try_to_forward` leaves the connection up. -/
inductive DownOk (o : Outcomes) (st : ConnectionState) : ConnectionState → Prop
  | skip : st.canDown = false → DownOk o st st
  | relay (got put : Str) : st.canDown = true → downFails o = false → (put = got ∨ Drops o) →
      DownOk o st (rearmDown { st with trace := st.trace.down got put })

/-- The first half of `try_to_forward` ends the connection. -/
inductive DownFail (o : Outcomes) (st : ConnectionState) : Cell → Prop
  | cleanup (got : Str) (s : Cell) : st.canDown = true → downFails o = true →
      Cleanup o { st with trace := st.trace.down got [] } s → DownFail o st s

/-- The second half of `try_to_forward` leaves the connection up. -/
inductive UpOk (o : Outcomes) (st : ConnectionState) : ConnectionState → Prop
  | skip : st.canUp = false → UpOk o st st
  | relay (bytes : Str) (k : ℕ) : st.canUp = true → upFails o = false → (k = st.state ∨ k = 3) →
      UpOk o st (rearmUp { st with trace := st.trace.up bytes, state := k })

/-- The second half of `try_to_forward` ends the connection; a closed socket ends it without an SSL
    shutdown. -/
inductive UpFail (o : Outcomes) (st : ConnectionState) : Cell → Prop
  | cleanup (bytes : Str) (k : ℕ) (s : Cell) : st.canUp = true → upFails o = true →
      o.sslRead.1 ≠ .syscall → (k = st.state ∨ k = 3) →
      Cleanup o { st with trace := st.trace.up bytes, state := k } s → UpFail o st s
  | gone (s : Cell) : st.canUp = true → upFails o = true → o.sslRead.1 = .syscall →
      Ending o true False st s → UpFail o st s

/-- The ways a callback ends that calls `try_to_forward` and pets the watchdog. -/
inductive Relay (o : Outcomes) (st : ConnectionState) : Cell → Prop
  | downFail (s : Cell) : DownFail o st s → Relay o st (petWatchdog s)
  | upFail (st' : ConnectionState) (s : Cell) : DownOk o st st' → UpFail o st' s →
      Relay o st (petWatchdog s)
  | ok (st' st'' : ConnectionState) : DownOk o st st' → UpOk o st' st'' →
      Relay o st (petWatchdog (.start st''))

theorem tryDown_start {ok : Bool} (h : tryDown o (.start st) = some (ok, s)) :
    ok = true ∧ (∃ st', DownOk o st st' ∧ s = .start st') ∨ ok = false ∧ DownFail o st s := by
  unfold tryDown at h
  split at h
  · rename_i hc
    split at h
    · simp at h
    · rename_i u hf
      simp only [Option.some.injEq, Prod.mk.injEq] at h
      obtain ⟨rfl, rfl⟩ := h
      obtain ⟨-, hd, ⟨hk, -⟩ | ⟨-, got, hu⟩⟩ := forwardServiceToClient_start hf
      · simp at hk
      · exact .inr ⟨rfl, .cleanup got u hc hd hu⟩
    · rename_i u hf
      simp only [Option.some.injEq, Prod.mk.injEq] at h
      obtain ⟨rfl, rfl⟩ := h
      obtain ⟨-, hd, ⟨-, got, put, hp, rfl⟩ | ⟨hk, -⟩⟩ := forwardServiceToClient_start hf
      · exact .inl ⟨rfl, _, .relay got put hc hd hp, rfl⟩
      · simp at hk
  · rename_i hc
    simp only [Option.some.injEq, Prod.mk.injEq] at h
    obtain ⟨rfl, rfl⟩ := h
    exact .inl ⟨rfl, st, .skip ((Bool.not_eq_true _).mp hc), rfl⟩

theorem tryUp_start (h : tryUp o (.start st) = some s) :
    (∃ st', UpOk o st st' ∧ s = .start st') ∨ UpFail o st s := by
  unfold tryUp at h
  split at h
  · rename_i hc
    split at h
    · simp at h
    · rename_i u hf
      obtain rfl := Option.some.inj h
      obtain ⟨hu, bytes, k, hk, ⟨ht, -⟩ | ⟨-, hs, hcl⟩ | ⟨-, hs, he⟩⟩ :=
        forwardClientToService_start hf
      · simp at ht
      · exact .inr (.cleanup bytes k u hc hu hs hk hcl)
      · exact .inr (.gone u hc hu hs he)
    · rename_i u hf
      obtain rfl := Option.some.inj h
      obtain ⟨hu, bytes, k, hk, ⟨-, rfl⟩ | ⟨ht, -⟩ | ⟨ht, -⟩⟩ := forwardClientToService_start hf
      · exact .inl ⟨_, .relay bytes k hc hu hk, rfl⟩
      · simp at ht
      · simp at ht
  · rename_i hc
    obtain rfl := Option.some.inj h
    exact .inl ⟨st, .skip ((Bool.not_eq_true _).mp hc), rfl⟩

theorem tryToForward_relay (h : (tryToForward o (.start st)).map petWatchdog = some s) :
    Relay o st s := by
  obtain ⟨u, hf, rfl⟩ := Option.map_eq_some_iff.mp h
  unfold tryToForward at hf
  split at hf
  · simp at hf
  · rename_i v hd
    obtain rfl := Option.some.inj hf
    rcases tryDown_start hd with ⟨hk, -⟩ | ⟨-, hd⟩
    · simp at hk
    · exact .downFail v hd
  · rename_i v hd
    rcases tryDown_start hd with ⟨-, st', hok, rfl⟩ | ⟨hk, -⟩
    · rcases tryUp_start hf with ⟨st'', hup, rfl⟩ | hup
      · exact .ok st' st'' hok hup
      · exact .upFail st' u hok hup
    · simp at hk

/-! ### Records from Bro -/

/-- The record once the header of a record from Bro is in. -/
def received (hdr : Hdr) (st : ConnectionState) : ConnectionState :=
  { st with trace := { st.trace with records := st.trace.records ++ [hdr.type] } }

/-- The record when it takes an odd branch. -/
def oddly (odd : Odd) (st : ConnectionState) : ConnectionState :=
  { st with trace := { st.trace with odd := odd :: st.trace.odd } }

/-- The record once the init data is in. -/
def informed (d : InitData) (st : ConnectionState) : ConnectionState :=
  { st with
    state := 1
    evWatchdog := some true
    trace := { st.trace with initFlow := some d.flowState } }

/-- The record once the connection to the service is under way and the flow is known. -/
def serviced (d : InitData) (fd : ℤ) (needFinish : Bool) (st : ConnectionState) : ConnectionState :=
  { st with
    keyPort := d.port.toNat
    serviceConn := fd
    evServiceWrite := if needFinish then some ⟨fd, false, true⟩ else none
    flowState := d.flowState }

/-- The record once the client's socket is there. -/
def taken (fd : ℤ) (st : ConnectionState) : ConnectionState :=
  { st with
    state := 2
    clientConn := fd
    trace := { st.trace with forged := some (sockState st.flowState) }
    evClientRead := some ⟨fd, true, true⟩
    evClientWrite := some ⟨fd, true, true⟩ }

/-- The record when the client's socket could not be made. -/
inductive NotTaken (o : Outcomes) (st : ConnectionState) : ConnectionState → Prop
  | noSocket : o.fake = .noSocket ∨ o.fake = .noBind → NotTaken o st { st with state := 2 }
  | noClient (fd : ℤ) : o.fake = .ioctl fd → fd < 0 → NotTaken o st { st with
      state := 2
      clientConn := fd
      trace := { st.trace with forged := some (sockState st.flowState) } }

/-- The ways `on_telex_read` ends, from its header on where it has one. -/
inductive FromBro (o : Outcomes) (st : ConnectionState) : Cell → Prop
  | ignore : 2 < st.state → FromBro o st (.start st)
  | eof (s : Cell) : st.state ≤ 2 → o.hdr = none → Ending o true False { st with ssl := false } s →
      FromBro o st s
  | undefined (hdr : Hdr) : o.hdr = some hdr → hdr.type ≠ recordTypeInit →
      hdr.type ≠ recordTypeRawPkt → FromBro o st (.start (oddly .undefinedType (received hdr st)))
  | initShort (hdr : Hdr) (s : Cell) : o.hdr = some hdr → hdr.type = recordTypeInit →
      o.initData = none → Cleanup o (received hdr st) s → FromBro o st s
  | extraInit (hdr : Hdr) (d : InitData) : o.hdr = some hdr → hdr.type = recordTypeInit →
      0 ≤ st.clientConn → FromBro o st (.start (oddly .extraInit (informed d (received hdr st))))
  | noService (hdr : Hdr) (d : InitData) (fd : ℤ) (needFinish : Bool) (s : Cell) :
      o.hdr = some hdr → hdr.type = recordTypeInit → o.initData = some d →
      o.connect = some (fd, needFinish) → fd < 0 → Cleanup o { informed d (received hdr st) with
        keyPort := d.port.toNat, serviceConn := fd } s → FromBro o st s
  | noSecret (hdr : Hdr) (d : InitData) (fd : ℤ) (needFinish : Bool) (s : Cell) :
      o.hdr = some hdr → hdr.type = recordTypeInit → o.initData = some d → 0 ≤ fd →
      Cleanup o (serviced d fd needFinish (informed d (received hdr st))) s → FromBro o st s
  | joined (hdr : Hdr) (d : InitData) (fd : ℤ) (needFinish : Bool) : o.hdr = some hdr →
      hdr.type = recordTypeInit → st.clientConn < 0 → 0 ≤ fd → FromBro o st (petWatchdog (.start
        { serviced d fd needFinish (informed d (received hdr st)) with ssl := true }))
  | wrongState (hdr : Hdr) (s : Cell) : o.hdr = some hdr → hdr.type = recordTypeRawPkt →
      st.state ≠ 1 → Cleanup o (oddly .wrongState (received hdr st)) s → FromBro o st s
  | rawShort (hdr : Hdr) (s : Cell) : o.hdr = some hdr → hdr.type = recordTypeRawPkt →
      st.state = 1 → o.raw ≠ hdr.len.toNat → Cleanup o { received hdr st with state := 2 } s →
      FromBro o st s
  | noClient (hdr : Hdr) (st' : ConnectionState) (s : Cell) : o.hdr = some hdr →
      hdr.type = recordTypeRawPkt → st.state = 1 → o.raw = hdr.len.toNat →
      NotTaken o (received hdr st) st' → Cleanup o st' s →
      FromBro o st (petWatchdog (closeTelexConnection s.use))
  | taken (hdr : Hdr) (fd : ℤ) : o.hdr = some hdr → hdr.type = recordTypeRawPkt → st.state = 1 →
      o.raw = hdr.len.toNat → o.fake = .ioctl fd → 0 ≤ fd → st.evClientRead = none →
      st.evClientWrite = none →
      FromBro o st (petWatchdog (closeTelexConnection (.start (taken fd (received hdr st)))))

theorem onInit_fromBro {hdr : Hdr} (ho : o.hdr = some hdr) (ht : hdr.type = recordTypeInit)
    (h : onInit o hdr (.start (received hdr st)) = some s) : FromBro o st s := by
  simp only [onInit, initializeWatchdog, initServiceConnection, Cell.start_st, Cell.start_set] at h
  split at h
  · simp at h
  · split at h
    · rename_i hd
      exact Option.some.inj h ▸ .initShort hdr _ ho ht hd cleanupConnection_ending
    · rename_i d hd
      split at h
      · rename_i hc
        exact Option.some.inj h ▸ .extraInit hdr d ho ht hc
      · rename_i hc
        split at h
        · simp at h
        · cases hcon : o.connect with
          | none => simp [hcon] at h
          | some c =>
            obtain ⟨fd, needFinish⟩ := c
            simp only [hcon] at h
            by_cases hneg : fd < 0
            · simp only [hneg, if_true, Cell.start_st, Cell.start_set] at h
              exact Option.some.inj h ▸
                .noService hdr d fd needFinish _ ho ht hd hcon hneg cleanupConnection_ending
            · simp only [hneg, if_false, Cell.start_st, Cell.start_set] at h
              split at h
              · exact Option.some.inj h ▸ .noSecret hdr d fd needFinish _ ho ht hd
                  (not_lt.mp hneg) cleanupConnection_ending
              · split at h
                · simp at h
                · exact Option.some.inj h ▸ .joined hdr d fd needFinish ho ht (not_le.mp hc)
                    (not_lt.mp hneg)

theorem onRawPkt_fromBro {hdr : Hdr} (ho : o.hdr = some hdr) (ht : hdr.type = recordTypeRawPkt)
    (h : onRawPkt o hdr (.start (received hdr st)) = some s) : FromBro o st s := by
  unfold onRawPkt at h
  split at h
  · rename_i h1
    exact Option.some.inj h ▸ .wrongState hdr _ ho ht h1 cleanupConnection_ending
  · rename_i h1
    have h1 : st.state = 1 := not_not.mp h1
    dsimp only at h
    split at h
    · rename_i hl
      exact Option.some.inj h ▸ .rawShort hdr _ ho ht h1 hl cleanupConnection_ending
    · rename_i hl
      have hl : o.raw = hdr.len.toNat := not_not.mp hl
      split at h
      · simp at h
      · rename_i u hu
        unfold setupFakeSocket at hu
        split at hu
        · rename_i hk
          rw [← Option.some.inj h, ← Option.some.inj hu]
          exact .noClient hdr _ _ ho ht h1 hl (.noSocket (.inl hk)) cleanupConnection_ending
        · rename_i hk
          rw [← Option.some.inj h, ← Option.some.inj hu]
          exact .noClient hdr _ _ ho ht h1 hl (.noSocket (.inr hk)) cleanupConnection_ending
        · rename_i fd hk
          dsimp only at hu
          split at hu
          · rename_i hneg
            rw [← Option.some.inj h, ← Option.some.inj hu]
            exact .noClient hdr _ _ ho ht h1 hl (.noClient fd hk hneg) cleanupConnection_ending
          · rename_i hpos
            split at hu
            · simp at hu
            · rename_i hev
              have hev : st.evClientRead = none ∧ st.evClientWrite = none := by
                simpa [received] using hev
              rw [← Option.some.inj h, ← Option.some.inj hu]
              exact .taken hdr fd ho ht h1 hl hk (not_lt.mp hpos) hev.1 hev.2

theorem onTelexRead_fromBro (h : onTelexRead o (.start st) = some s) : FromBro o st s := by
  unfold onTelexRead at h
  split at h
  · rename_i h2
    exact Option.some.inj h ▸ .ignore h2
  · rename_i h2
    split at h
    · rename_i ho
      exact Option.some.inj h ▸ .eof _ (not_lt.mp h2) ho (cleanupConnectionAfterSsl_ending true)
    · rename_i hdr ho
      dsimp only at h
      split at h
      · rename_i ht
        exact onInit_fromBro ho ht h
      · rename_i hi
        split at h
        · rename_i ht
          exact onRawPkt_fromBro ho ht h
        · rename_i hr
          exact Option.some.inj h ▸ .undefined hdr ho hi hr

/-! ### Callbacks -/

/-- There is an event and it is registered. -/
def registered (e : Option Ev) : Bool := e.any Ev.added

/-- The record once one of its descriptors is ready. -/
def readied (slot : Slot) (st : ConnectionState) : ConnectionState :=
  match slot with
  | .serviceRead => { st with serviceReadyRead := true, evServiceRead := eventDel st.evServiceRead }
  | .serviceWrite =>
      { st with serviceReadyWrite := true, evServiceWrite := eventDel st.evServiceWrite }
  | .clientRead => { st with clientReadyRead := true, evClientRead := eventDel st.evClientRead }
  | .clientWrite => { st with clientReadyWrite := true, evClientWrite := eventDel st.evClientWrite }
  | _ => st

/-- The events of a record were set with its descriptors. -/
structure Fds (st : ConnectionState) : Prop where
  serviceRead : ∀ ev, st.evServiceRead = some ev → ev.fd = st.serviceConn
  serviceWrite : ∀ ev, st.evServiceWrite = some ev → ev.fd = st.serviceConn
  clientRead : ∀ ev, st.evClientRead = some ev → ev.fd = st.clientConn
  clientWrite : ∀ ev, st.evClientWrite = some ev → ev.fd = st.clientConn
  apart : st.evServiceRead ≠ none ∨ st.evServiceWrite ≠ none → st.clientConn ≠ st.serviceConn

/-- The ways the callback of a fired event ends. -/
inductive Call (o : Outcomes) (st : ConnectionState) : Slot → Cell → Prop
  | telexRead (s : Cell) : registered st.evTelexRead = true → FromBro o st s →
      Call o st .telexRead s
  | connected (fd : ℤ) : st.evServiceWrite = some ⟨fd, false, true⟩ → Call o st .serviceWrite
      (petWatchdog (.start { st with
        evServiceRead := some ⟨st.serviceConn, true, true⟩
        serviceReadyRead := false
        evServiceWrite := some ⟨st.serviceConn, true, true⟩ }))
  | refused (fd : ℤ) (s : Cell) : st.evServiceWrite = some ⟨fd, false, true⟩ →
      Cleanup o { st with
        evServiceWrite := some ⟨fd, false, false⟩
        trace := { st.trace with connectFailed := true } } s → Call o st .serviceWrite s
  | serviceRead (s : Cell) : registered st.evServiceRead = true →
      Relay o (readied .serviceRead st) s → Call o st .serviceRead s
  | serviceWrite (fd : ℤ) (s : Cell) : st.evServiceWrite = some ⟨fd, true, true⟩ →
      Relay o (readied .serviceWrite st) s → Call o st .serviceWrite s
  | clientRead (s : Cell) : registered st.evClientRead = true → st.cleanupWaiting ≠ .wantRead →
      Relay o (readied .clientRead st) s → Call o st .clientRead s
  | clientWrite (s : Cell) : registered st.evClientWrite = true → st.cleanupWaiting ≠ .wantWrite →
      Relay o (readied .clientWrite st) s → Call o st .clientWrite s
  | retryRead (s : Cell) : registered st.evClientRead = true → st.cleanupWaiting = .wantRead →
      Ending o true (st.ssl = true) (readied .clientRead st) s → Call o st .clientRead s
  | retryWrite (s : Cell) : registered st.evClientWrite = true → st.cleanupWaiting = .wantWrite →
      Ending o true (st.ssl = true) st s → Call o st .clientWrite s
  | expired (s : Cell) : st.evWatchdog = some true → 1 ≤ st.state →
      Cleanup o { st with evWatchdog := some false } s → Call o st .watchdog s
  | unheard (s : Cell) : st.evWatchdog = some true → st.state = 0 →
      Ending o false False { st with evWatchdog := some false } s → Call o st .watchdog s

theorem onFinishConnect_call {fd : ℤ} (he : st.evServiceWrite = some ⟨fd, false, true⟩)
    (h : onFinishConnect fd o (.start { st with evServiceWrite := some ⟨fd, false, false⟩ }) = some s) :
    Call o st .serviceWrite s := by
  simp only [onFinishConnect, setupServiceRead, Cell.start_st, Cell.start_set, Option.map] at h
  by_cases hfd : fd = st.serviceConn
  · subst hfd
    cases hso : o.soError with
    | none => simp [hso] at h
    | some optval =>
      by_cases h0 : optval = 0
      · simp only [hso, h0, ne_eq, not_true_eq_false, if_false] at h
        exact Option.some.inj h ▸ .connected _ he
      · simp only [hso, h0, ne_eq, not_true_eq_false, not_false_eq_true, if_false, if_true] at h
        exact Option.some.inj h ▸ .refused _ _ he cleanupConnection_ending
  · simp [hfd] at h

/-- A fired event is one of the calls. -/
theorem fire_call (hf : Fds st) {slot : Slot} (h : fire slot o st = some s) : Call o st slot s := by
  cases slot with
  | telexRead =>
    simp only [fire] at h
    split at h
    · rename_i he
      exact .telexRead s (by simp [registered, he]) (onTelexRead_fromBro h)
    · simp at h
  | serviceRead =>
    simp only [fire] at h
    split at h
    · rename_i fd p he
      obtain rfl : fd = st.serviceConn := hf.serviceRead _ he
      have hne : st.clientConn ≠ st.serviceConn := hf.apart (.inl (by simp [he]))
      simp only [onReadReady, Cell.start_st, Cell.start_set, hne, if_false, if_true] at h
      exact .serviceRead s (by simp [registered, he]) (tryToForward_relay h)
    · simp at h
  | serviceWrite =>
    simp only [fire] at h
    split at h
    · rename_i fd he
      obtain rfl : fd = st.serviceConn := hf.serviceWrite _ he
      have hne : st.clientConn ≠ st.serviceConn := hf.apart (.inr (by simp [he]))
      simp only [onWriteReady, Cell.start_st, Cell.start_set, hne, if_false, if_true] at h
      exact .serviceWrite _ s he (tryToForward_relay h)
    · rename_i fd he
      exact onFinishConnect_call he h
    · simp at h
  | clientRead =>
    simp only [fire] at h
    split at h
    · rename_i fd p he
      obtain rfl : fd = st.clientConn := hf.clientRead _ he
      simp only [onReadReady, Cell.start_st, Cell.start_set, if_true] at h
      by_cases hw : st.cleanupWaiting = .wantRead
      · replace h := (if_pos hw).symm.trans h
        have hend : Ending o true ((readied .clientRead st).ssl = true) (readied .clientRead st)
          (cleanupConnectionSslTryShutdown o (.start (readied .clientRead st))) :=
            cleanupConnectionSslTryShutdown_ending
        exact Option.some.inj h ▸ .retryRead _ (by simp [registered, he]) hw hend
      · replace h := (if_neg hw).symm.trans h
        exact .clientRead s (by simp [registered, he]) hw (tryToForward_relay h)
    · simp at h
  | clientWrite =>
    simp only [fire] at h
    split at h
    · rename_i fd p he
      obtain rfl : fd = st.clientConn := hf.clientWrite _ he
      simp only [onWriteReady, Cell.start_st, Cell.start_set, if_true] at h
      by_cases hw : st.cleanupWaiting = .wantWrite
      · replace h := (if_pos hw).symm.trans h
        exact Option.some.inj h ▸ .retryWrite _ (by simp [registered, he]) hw
          cleanupConnectionSslTryShutdown_ending
      · replace h := (if_neg hw).symm.trans h
        exact .clientWrite s (by simp [registered, he]) hw (tryToForward_relay h)
    · simp at h
  | watchdog =>
    simp only [fire] at h
    split at h
    · rename_i he
      by_cases h1 : 1 ≤ st.state
      · replace h := (if_pos h1).symm.trans h
        exact Option.some.inj h ▸ .expired _ he h1 cleanupConnection_ending
      · replace h := (if_neg h1).symm.trans h
        exact Option.some.inj h ▸ .unheard _ he (by omega) (cleanupConnectionAfterSsl_ending false)
    · simp at h

end Telex.Bronnect
