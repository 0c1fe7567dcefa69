import Telex.Bronnect.Registration

/-! Which callbacks use a record they have freed

    Neither `setup_fake_socket` nor `try_to_forward` tells its caller that the connection is gone.
    After the first, `on_telex_read` goes on with the packet, the socket to Bro and the watchdog; after
    the second, `on_read_ready` and `on_write_ready` pet the watchdog. No other callback goes on. -/

namespace Telex.Bronnect
open Bro (recordTypeInit recordTypeRawPkt)
open Runs

/-- `cleanup_connection` leaves the record waiting for its SSL shutdown. -/
def Defers (st : ConnectionState) (o : Outcomes) : Prop :=
  st.ssl = true ∧ o.shutdown = 0 ∧ Wants o

instance (st : ConnectionState) (o : Outcomes) : Decidable (Defers st o) :=
  inferInstanceAs (Decidable (_ ∧ _ ∧ _))

/-- `try_to_forward` frees the record. -/
def RelayFrees (st : ConnectionState) (o : Outcomes) : Prop :=
  if st.canDown = true ∧ downFails o = true then ¬Defers st o
  else st.canUp = true ∧ upFails o = true ∧ (o.sslRead.1 = .syscall ∨ ¬Defers st o)

/-- `setup_fake_socket` fails. -/
def fakeFails (o : Outcomes) : Prop :=
  match o.fake with
  | .noSocket | .noBind => True
  | .ioctl fd => fd < 0

/-- The callback goes on after the record was freed. -/
def UsesFreed (st : ConnectionState) (slot : Slot) (o : Outcomes) : Prop :=
  match slot with
  | .telexRead => st.state = 1 ∧ fakeFails o ∧ ¬Defers st o ∧
      ∃ len, o.hdr = some ⟨recordTypeRawPkt, len⟩ ∧ o.raw = len.toNat
  | .serviceRead => RelayFrees (readied .serviceRead st) o
  | .serviceWrite => st.evServiceWrite.any Ev.persist = true ∧
      RelayFrees (readied .serviceWrite st) o
  | .clientRead => st.cleanupWaiting ≠ .wantRead ∧ RelayFrees (readied .clientRead st) o
  | .clientWrite => st.cleanupWaiting ≠ .wantWrite ∧ RelayFrees (readied .clientWrite st) o
  | .watchdog => False

variable {o : Outcomes} {st st' : ConnectionState} {s : Cell}

theorem Ending.not_stale {u : Bool} {P : Prop} (h : Ending o u P st s) : s.stale = false := by
  cases h <;> rfl

theorem Ending.freed_pos {u : Bool} {P : Prop} (h : Ending o u P st s) :
    0 < s.freed ↔ ¬(P ∧ Wants o) := by
  cases h with
  | wait hp hw => simp [Cell.start, hp, hw]
  | free w hn => simp [hn]

theorem Cleanup.freed_pos (h : Cleanup o st s) : 0 < s.freed ↔ ¬Defers st o := by
  rw [Ending.freed_pos h, Defers, and_assoc]

/-- Petting the watchdog of a record uses it. -/
theorem petWatchdog_stale (h : s.stale = false) : (petWatchdog s).stale = true ↔ 0 < s.freed := by
  simp [petWatchdog, Cell.set, Cell.use, h]

theorem DownOk.not_fails (h : DownOk o st st') : ¬(st.canDown = true ∧ downFails o = true) := by
  cases h with
  | skip hc => simp [hc]
  | relay got put _ hd _ => simp [hd]

theorem DownOk.canUp (h : DownOk o st st') : st'.canUp = st.canUp := by
  cases h <;> rfl

theorem DownOk.ssl (h : DownOk o st st') : st'.ssl = st.ssl := by
  cases h <;> rfl

theorem DownOk.defers (h : DownOk o st st') : Defers st' o ↔ Defers st o := by
  rw [Defers, Defers, h.ssl]

theorem UpFail.freed_pos (h : UpFail o st s) :
    0 < s.freed ↔ o.sslRead.1 = .syscall ∨ ¬Defers st o := by
  cases h with
  | cleanup bytes k s _ _ hs _ hc =>
    rw [Cleanup.freed_pos hc]
    simp [hs, Defers]
  | gone s _ _ hs he =>
    rw [Ending.freed_pos he]
    simp [hs]

theorem UpFail.not_stale (h : UpFail o st s) : s.stale = false := by
  cases h with
  | cleanup _ _ _ _ _ _ _ hc => exact Ending.not_stale hc
  | gone _ _ _ _ he => exact he.not_stale

theorem UpFail.fails (h : UpFail o st s) : st.canUp = true ∧ upFails o = true := by
  cases h with
  | cleanup _ _ _ hc hu _ _ _ => exact ⟨hc, hu⟩
  | gone _ hc hu _ _ => exact ⟨hc, hu⟩

theorem UpOk.not_fails (h : UpOk o st st') : ¬(st.canUp = true ∧ upFails o = true) := by
  cases h with
  | skip hc => simp [hc]
  | relay bytes k _ hu _ => simp [hu]

/-- A relaying callback uses its record after the relay exactly when the relay has freed it. -/
theorem Relay.stale_iff (h : Relay o st s) : s.stale = true ↔ RelayFrees st o := by
  cases h with
  | downFail s hd =>
    cases hd with
    | cleanup got s hc hf hcl =>
      rw [petWatchdog_stale (Ending.not_stale hcl), Cleanup.freed_pos hcl, RelayFrees,
        if_pos ⟨hc, hf⟩]
      rfl
  | upFail st' s hd hu =>
    rw [petWatchdog_stale hu.not_stale, hu.freed_pos, RelayFrees, if_neg hd.not_fails, hd.defers]
    obtain ⟨hc, hf⟩ := hu.fails
    simp [hd.canUp.symm.trans hc, hf]
  | ok st' st'' hd hu =>
    have hn := hu.not_fails
    rw [hd.canUp] at hn
    rw [petWatchdog_stale rfl, RelayFrees, if_neg hd.not_fails]
    constructor
    · intro h; simp [Cell.start] at h
    · rintro ⟨hc, hf, -⟩; exact absurd ⟨hc, hf⟩ hn

theorem NotTaken.fakeFails (h : NotTaken o st st') : fakeFails o := by
  cases h with
  | noSocket hk => rcases hk with hk | hk <;> simp [Bronnect.fakeFails, hk]
  | noClient fd hk hneg => simpa [Bronnect.fakeFails, hk] using hneg

theorem NotTaken.defers {hdr : Hdr} (h : NotTaken o (received hdr st) st') :
    Defers st' o ↔ Defers st o := by
  cases h <;> rfl

theorem FromBro.stale_iff (h : FromBro o st s) :
    s.stale = true ↔ UsesFreed st .telexRead o := by
  -- a branch that ends where the record may be freed does not use it, and is not the raw packet's
  have other : s.stale = false → ¬UsesFreed st .telexRead o →
      (s.stale = true ↔ UsesFreed st .telexRead o) := fun hs hn => by simp [hs, hn]
  have notRaw : ∀ {hdr : Hdr}, o.hdr = some hdr → hdr.type ≠ recordTypeRawPkt →
      ¬UsesFreed st .telexRead o := by
    rintro hdr hh hne ⟨-, -, -, len, hl, -⟩
    obtain rfl := Option.some.inj (hh.symm.trans hl)
    exact hne rfl
  have hne : recordTypeInit ≠ recordTypeRawPkt := by decide
  cases h with
  | ignore h2 => exact other rfl fun hu => by have := hu.1; omega
  | eof s _ hh he => exact other he.not_stale (by rintro ⟨-, -, -, len, hl, -⟩; simp [hh] at hl)
  | undefined hdr hh _ hr => exact other rfl (notRaw hh hr)
  | initShort hdr s hh hi _ hc => exact other (Ending.not_stale hc) (notRaw hh (hi ▸ hne))
  | extraInit hdr d hh hi => exact other rfl (notRaw hh (hi ▸ hne))
  | noService hdr d fd needFinish s hh hi _ _ _ hc =>
    exact other (Ending.not_stale hc) (notRaw hh (hi ▸ hne))
  | noSecret hdr d fd needFinish s hh hi _ _ hc =>
    exact other (Ending.not_stale hc) (notRaw hh (hi ▸ hne))
  | joined hdr d fd needFinish hh hi => exact other rfl (notRaw hh (hi ▸ hne))
  | wrongState hdr s _ _ h1 hc => exact other (Ending.not_stale hc) fun hu => h1 hu.1
  | rawShort hdr s hh _ _ hl hc =>
    refine other (Ending.not_stale hc) ?_
    rintro ⟨-, -, -, len, hl', hr⟩
    obtain rfl := Option.some.inj (hh.symm.trans hl')
    exact hl hr
  | noClient hdr st' s hh ht h1 hl hn hc =>
    have hs : (petWatchdog (closeTelexConnection s.use)).stale = true ↔ 0 < s.freed := by
      simp [petWatchdog, closeTelexConnection, Cell.set, Cell.use, Ending.not_stale hc]
    rw [hs, Cleanup.freed_pos hc, hn.defers]
    exact ⟨fun hd => ⟨h1, hn.fakeFails, hd, hdr.len, by rw [hh, ← ht], hl⟩, fun hu => hu.2.2.1⟩
  | taken hdr fd hh _ _ _ hk hpos =>
    refine other rfl fun hu => ?_
    have hf := hu.2.1
    simp only [fakeFails, hk] at hf
    omega

theorem Call.stale_iff {slot : Slot} (h : Call o st slot s) :
    s.stale = true ↔ UsesFreed st slot o := by
  cases h with
  | telexRead s _ hb => exact hb.stale_iff
  | connected fd he => simp [UsesFreed, he, petWatchdog, Cell.set, Cell.use, Cell.start]
  | refused fd s he hc => simp [UsesFreed, he, Ending.not_stale hc]
  | serviceRead s _ hr => exact hr.stale_iff
  | serviceWrite fd s he hr =>
    have hp : st.evServiceWrite.any Ev.persist = true := by simp [he]
    exact hr.stale_iff.trans ⟨fun hu => ⟨hp, hu⟩, fun hu => hu.2⟩
  | clientRead s _ hw hr => exact hr.stale_iff.trans ⟨fun hu => ⟨hw, hu⟩, fun hu => hu.2⟩
  | clientWrite s _ hw hr => exact hr.stale_iff.trans ⟨fun hu => ⟨hw, hu⟩, fun hu => hu.2⟩
  | retryRead s _ hw he => simp [UsesFreed, hw, he.not_stale]
  | retryWrite s _ hw he => simp [UsesFreed, hw, he.not_stale]
  | expired s _ _ hc => simp [UsesFreed, Ending.not_stale hc]
  | unheard s _ _ he => simp [UsesFreed, he.not_stale]

/-- In every reachable state, a callback leaves its record alone once it has freed it exactly when
    neither a failed `setup_fake_socket` nor a relay has freed it. -/
theorem freed_unused_iff {ls : List Label} {w : World} {n : ℕ} {slot : Slot}
    (h : Run (When Step (At Once)) World.init ls w) (hn : n ∈ w.connections)
    (hf : fire slot o (w.mem n) = some s) :
    s.stale = false ↔ ¬UsesFreed (w.mem n) slot o := by
  rw [← (fire_call ((Run.known h).live n hn).fds hf).stale_iff, Bool.not_eq_true]

/-- The watchdog frees the record and leaves it alone. -/
theorem freed_unused_watchdog : ∃ s, fire .watchdog noAnswers ((World.after Once sampleJoin).mem 0) =
    some s ∧ s.freed = 1 ∧ s.stale = false := by
  have hr : Run (When Step (At Once)) World.init sampleJoin (World.after Once sampleJoin) :=
    Run.of_foldlM World.check_step rfl
  have hn : 0 ∈ (World.after Once sampleJoin).connections := by decide
  have hu : ¬UsesFreed ((World.after Once sampleJoin).mem 0) .watchdog noAnswers := fun hu => hu
  exact ⟨_, rfl, rfl, (freed_unused_iff hr hn rfl).mpr hu⟩

/-- The client's socket is ready for a relay, and so is the service's. -/
def sampleRelay : List Label :=
  sampleJoin ++ [.fire 0 .serviceWrite noAnswers, .fire 0 .clientWrite noAnswers]

/-- When the service closes its connection, the record is freed and its watchdog is petted. -/
theorem service_close_uses_freed :
    Run (When Step (At Once)) World.init sampleRelay (World.after Once sampleRelay) ∧
    ∃ s, fire .serviceRead { noAnswers with recvService := .data [] }
      ((World.after Once sampleRelay).mem 0) = some s ∧ s.freed = 1 ∧ s.stale = true :=
  ⟨Run.of_foldlM World.check_step rfl, _, rfl, rfl, rfl⟩

end Telex.Bronnect
