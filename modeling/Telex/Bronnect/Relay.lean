import Telex.Bronnect.Registration

/-! What the relay loses

    A block is read from one side into a buffer on the stack and handed to the other side at once. When
    `SSL_write` asks to be called again with the block, `forward_service_to_client` returns as if it
    had been taken, and the block is gone. Nothing else is lost while a connection is up. -/

namespace Telex.Bronnect
open Bro (recordTypeInit recordTypeRawPkt)
open Runs

/-- Until its cleanup a connection has passed on what it got. -/
structure Passed (st : ConnectionState) : Prop where
  down : st.tCleanup = false → st.trace.toClient = st.trace.fromService
  up : st.trace.toService = st.trace.fromClient

/-- No block is handed to an SSL connection that wants to be called again with it. -/
def Keeps (st : ConnectionState) (slot : Slot) (o : Outcomes) : Prop :=
  st.tCleanup = false → (readied slot st).canDown = true → ¬Drops o

variable {o : Outcomes} {st st' : ConnectionState} {s : Cell}

theorem Passed.of_trace (h : Passed st) (hc : st'.tCleanup = st.tCleanup)
    (ht : st'.trace.toClient = st.trace.toClient ∧ st'.trace.fromService = st.trace.fromService ∧
      st'.trace.toService = st.trace.toService ∧ st'.trace.fromClient = st.trace.fromClient) :
    Passed st' := by
  obtain ⟨h1, h2, h3, h4⟩ := ht
  refine ⟨fun hf => ?_, ?_⟩
  · rw [h1, h2]; exact h.down (hc ▸ hf)
  · rw [h3, h4]; exact h.up

/-- Once the cleanup has begun only the way up counts. -/
theorem passed_closing (h : st.trace.toService = st.trace.fromClient) : Passed (closing st) :=
  ⟨fun hf => absurd hf (by simp [closing]), h⟩

theorem Passed.ending {u : Bool} {P : Prop} (h : Passed st) (he : Ending o u P st s) :
    Fate Passed (fun _ => True) s :=
  he.fate (fun _ _ => h.of_trace rfl ⟨rfl, rfl, rfl, rfl⟩) fun _ _ => trivial

theorem Cleanup.passed (hc : Cleanup o st s) (h : st.trace.toService = st.trace.fromClient) :
    Fate Passed (fun _ => True) s :=
  (passed_closing h).ending hc

theorem DownOk.passed (h : DownOk o st st') (hp : Passed st)
    (hk : st.tCleanup = false → st.canDown = true → ¬Drops o) : Passed st' := by
  cases h with
  | skip _ => exact hp
  | relay got put hc _ hput =>
    refine ⟨fun hf => ?_, hp.up⟩
    have he : put = got := hput.resolve_right (hk hf hc)
    have hd := hp.down hf
    simp [rearmDown, Trace.down, he, hd]

theorem UpOk.passed (h : UpOk o st st') (hp : Passed st) : Passed st' := by
  cases h with
  | skip _ => exact hp
  | relay bytes k _ _ _ => exact ⟨hp.down, by simp [rearmUp, Trace.up, hp.up]⟩

theorem Relay.passed (h : Relay o st s) (hp : Passed st)
    (hk : st.tCleanup = false → st.canDown = true → ¬Drops o) : Fate Passed (fun _ => True) s := by
  have pet : ∀ {s}, Fate Passed (fun _ => True) s → Fate Passed (fun _ => True) (petWatchdog s) :=
    fun hf => hf.pet (fun _ h => h.of_trace rfl ⟨rfl, rfl, rfl, rfl⟩) fun _ _ => trivial
  cases h with
  | downFail s hd =>
    cases hd with
    | cleanup got s _ _ hc => exact pet (hc.passed hp.up)
  | upFail st' s hd hu =>
    have hp' := hd.passed hp hk
    cases hu with
    | cleanup bytes k s _ _ _ _ hc => exact pet (hc.passed (by simp [Trace.up, hp'.up]))
    | gone s _ _ _ he => exact pet (hp'.ending he)
  | ok st' st'' hd hu => exact pet (.start (hu.passed (hd.passed hp hk)))

theorem FromBro.passed (h : FromBro o st s) (hp : Passed st) : Fate Passed (fun _ => True) s := by
  cases h with
  | ignore _ => exact .start hp
  | eof s _ _ he => exact he.fate (fun hf => hf.elim) fun _ _ => trivial
  | undefined hdr => exact .start (hp.of_trace rfl ⟨rfl, rfl, rfl, rfl⟩)
  | initShort hdr s _ _ _ hc => exact hc.passed hp.up
  | extraInit hdr d => exact .start (hp.of_trace rfl ⟨rfl, rfl, rfl, rfl⟩)
  | noService hdr d fd needFinish s _ _ _ _ _ hc => exact hc.passed hp.up
  | noSecret hdr d fd needFinish s _ _ _ _ hc => exact hc.passed hp.up
  | joined hdr d fd needFinish => exact .start (hp.of_trace rfl ⟨rfl, rfl, rfl, rfl⟩)
  | wrongState hdr s _ _ _ hc => exact hc.passed hp.up
  | rawShort hdr s _ _ _ _ hc => exact hc.passed hp.up
  | noClient hdr st' s _ _ _ _ hn hc =>
    have hup : st'.trace.toService = st'.trace.fromClient := by cases hn <;> exact hp.up
    have hf := hc.passed hup
    exact ⟨hf.once, fun h0 => (hf.live h0).of_trace rfl ⟨rfl, rfl, rfl, rfl⟩, fun _ => trivial⟩
  | taken hdr fd => exact .start (hp.of_trace rfl ⟨rfl, rfl, rfl, rfl⟩)

theorem Call.passed {slot : Slot} (h : Call o st slot s) (hp : Passed st) (hk : Keeps st slot o) :
    Fate Passed (fun _ => True) s := by
  cases h with
  | telexRead s _ hb => exact hb.passed hp
  | connected fd he => exact .start (hp.of_trace rfl ⟨rfl, rfl, rfl, rfl⟩)
  | refused fd s he hc => exact hc.passed hp.up
  | serviceRead s _ hr => exact hr.passed (hp.of_trace rfl ⟨rfl, rfl, rfl, rfl⟩) hk
  | serviceWrite fd s _ hr => exact hr.passed (hp.of_trace rfl ⟨rfl, rfl, rfl, rfl⟩) hk
  | clientRead s _ _ hr => exact hr.passed (hp.of_trace rfl ⟨rfl, rfl, rfl, rfl⟩) hk
  | clientWrite s _ _ hr => exact hr.passed (hp.of_trace rfl ⟨rfl, rfl, rfl, rfl⟩) hk
  | retryRead s _ _ he =>
    have hp' : Passed (readied .clientRead st) := hp.of_trace rfl ⟨rfl, rfl, rfl, rfl⟩
    exact hp'.ending he
  | retryWrite s _ _ he => exact hp.ending he
  | expired s _ _ hc => exact hc.passed hp.up
  | unheard s _ _ he => exact he.fate (fun hf => hf.elim) fun _ _ => trivial

/-- In every run in which no block is dropped, a connection that has not entered its cleanup has
    handed to the client what it got from the service, and every connection has handed to the service
    what it got from the client. -/
theorem relay_lossless {ls : List Label} {w : World}
    (h : Run (When Step (At fun st slot o => Once st slot o ∧ Keeps st slot o)) World.init ls w) :
    ∀ n ∈ w.connections,
      ((w.mem n).tCleanup = false → (w.mem n).trace.toClient = (w.mem n).trace.fromService) ∧
      (w.mem n).trace.toService = (w.mem n).trace.fromClient := by
  have hk : Holds (fun st => Known st ∧ Passed st) (fun _ => True) w := by
    refine Run.holds (fun conn _ => ⟨.inl (untouched_handleBroConnection conn), fun _ => rfl, rfl⟩)
      ?_ h
    rintro st slot o s ⟨hk, hp⟩ hfresh ⟨ho, hkeep⟩ hf
    have h1 := hk.fate hfresh ho hf
    have h2 := (fire_call hk.fds hf).passed hp hkeep
    exact ⟨h1.once, fun h0 => ⟨h1.live h0, h2.live h0⟩, fun _ => trivial⟩
  exact fun n hn => ⟨(hk.live n hn).2.down, (hk.live n hn).2.up⟩

instance (o : Outcomes) : Decidable (Drops o) :=
  match h : o.recvService with
  | .error _ => isFalse (by simp [Drops, h])
  | .data [] => isFalse (by simp [Drops, h])
  | .data (_ :: _) => decidable_of_iff (o.sslWrite = .wantRead ∨ o.sslWrite = .wantWrite)
      (by simp [Drops, h])

instance (st : ConnectionState) (slot : Slot) (o : Outcomes) : Decidable (Keeps st slot o) :=
  inferInstanceAs (Decidable (_ → _ → _))

/-- A connection is up, the client can be written to and the service sends two blocks; `err` is what
    SSL says to the first. -/
def sampleBlocks (err : SslError) : List Label :=
  sampleJoin ++ [.fire 0 .serviceWrite noAnswers, .fire 0 .clientWrite noAnswers,
    .fire 0 .serviceRead { noAnswers with recvService := .data [1], sslWrite := err },
    .fire 0 .clientWrite noAnswers,
    .fire 0 .serviceRead { noAnswers with recvService := .data [2] }]

theorem relay_lossless_blocks : ∃ w,
    Run (When Step (At fun st slot o => Once st slot o ∧ Keeps st slot o)) World.init
      (sampleBlocks .none) w ∧ (w.mem 0).trace.fromService = [1, 2] ∧
      (w.mem 0).trace.toClient = [1, 2] := by
  have hr : Run (When Step (At fun st slot o => Once st slot o ∧ Keeps st slot o)) World.init
      (sampleBlocks .none) (World.after (fun st slot o => Once st slot o ∧ Keeps st slot o)
        (sampleBlocks .none)) := Run.of_foldlM World.check_step rfl
  exact ⟨_, hr, rfl, (relay_lossless hr 0 (by decide)).1 rfl⟩

/-- The first block is lost and the second one arrives, so no block kept for later makes up for it. -/
theorem want_write_loses_block :
    Run (When Step (At Once)) World.init (sampleBlocks .wantWrite)
      (World.after Once (sampleBlocks .wantWrite)) ∧
    0 ∈ (World.after Once (sampleBlocks .wantWrite)).connections ∧
    ((World.after Once (sampleBlocks .wantWrite)).mem 0).tCleanup = false ∧
    ¬∃ held, ((World.after Once (sampleBlocks .wantWrite)).mem 0).trace.toClient ++ held =
      ((World.after Once (sampleBlocks .wantWrite)).mem 0).trace.fromService := by
  refine ⟨Run.of_foldlM World.check_step rfl, by decide, by decide, ?_⟩
  rintro ⟨held, h⟩
  have h' : [(2 : Bro.Byte)] ++ held = [1, 2] := h
  simp at h'

end Telex.Bronnect
