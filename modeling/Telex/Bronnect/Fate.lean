import Telex.Bronnect.Moves

/-! What becomes of the records

    A property of all connections in every run comes down to one callback: a record that satisfies the
    invariant `I` either still does when the callback returns, or was freed and satisfies `D`. -/

namespace Telex.Bronnect
open Runs

/-- After a callback the record is as `I` says, or it was freed and is as `D` says. -/
structure Fate (I D : ConnectionState → Prop) (s : Cell) : Prop where
  once : s.freed ≤ 1
  live : s.freed = 0 → I s.st
  dead : s.freed ≠ 0 → D s.st

/-- The record when its watchdog is petted. -/
def petted (st : ConnectionState) : ConnectionState :=
  { st with evWatchdog := st.evWatchdog.map fun _ => true }

variable {I D : ConnectionState → Prop} {o : Outcomes} {st : ConnectionState} {s : Cell}

theorem Fate.start (h : I st) : Fate I D (.start st) :=
  ⟨Nat.zero_le 1, fun _ => h, fun hf => absurd rfl hf⟩

theorem Fate.mono {I' D' : ConnectionState → Prop} (h : Fate I D s) (hI : ∀ st, I st → I' st)
    (hD : ∀ st, D st → D' st) : Fate I' D' s :=
  ⟨h.once, fun hf => hI _ (h.live hf), fun hf => hD _ (h.dead hf)⟩

theorem Fate.pet (h : Fate I D s) (hI : ∀ st, I st → I (petted st))
    (hD : ∀ st, D st → D (petted st)) : Fate I D (petWatchdog s) :=
  ⟨h.once, fun hf => hI _ (h.live hf), fun hf => hD _ (h.dead hf)⟩

theorem Ending.fate {u : Bool} {P : Prop} (he : Ending o u P st s)
    (hw : P → Wants o → I (waiting o st))
    (hf : ∀ w, ¬(P ∧ Wants o) → D { released o u st with cleanupWaiting := w }) : Fate I D s := by
  cases he with
  | wait hp hwant => exact .start (hw hp hwant)
  | free w hn => exact ⟨Nat.le_refl 1, fun h => absurd h (by simp), fun _ => hf w hn⟩

/-- All connections of the table satisfy `I` and all freed ones `D`, and the table is counted. -/
structure Holds (I D : ConnectionState → Prop) (w : World) : Prop where
  bound : ∀ n ∈ w.connections, n < w.nclients
  live : ∀ n ∈ w.connections, I (w.mem n)
  dead : ∀ n < w.nclients, n ∉ w.connections → D (w.mem n)
  count : w.activeConnections = w.connections.card

variable {P : ConnectionState → Slot → Outcomes → Prop} {w w' : World}

/-- What a callback does to the process. -/
theorem World.step_fire {n : ℕ} {slot : Slot} (h : w.step (.fire n slot o) = some w') :
    n ∈ w.connections ∧ ∃ s, fire slot o (w.mem n) = some s ∧ w' = ⟨Function.update w.mem n s.st,
      if s.freed = 0 then w.connections else w.connections.erase n, w.nclients,
      w.activeConnections - s.freed⟩ := by
  simp only [World.step] at h
  split at h
  · rename_i hn
    split at h
    · simp at h
    · rename_i s hf
      exact ⟨hn, s, hf, (Option.some.inj h).symm⟩
  · simp at h

/-- What accepting a connection does to the process. -/
theorem World.step_accept {conn : ℤ} (h : w.step (.accept conn) = some w') :
    0 ≤ conn ∧ w' = ⟨Function.update w.mem w.nclients (handleBroConnection conn),
      insert w.nclients w.connections, w.nclients + 1, w.activeConnections + 1⟩ := by
  simp only [World.step] at h
  split at h
  · simp at h
  · rename_i hconn
    exact ⟨not_lt.mp hconn, (Option.some.inj h).symm⟩

theorem Holds.accept {conn : ℤ} (h : Holds I D w) (hI : I (handleBroConnection conn))
    (hs : w.step (.accept conn) = some w') : Holds I D w' := by
  obtain ⟨hb, hl, hd, hc⟩ := h
  obtain ⟨-, rfl⟩ := World.step_accept hs
  have hnew : w.nclients ∉ w.connections := fun hm => Nat.lt_irrefl _ (hb _ hm)
  refine ⟨?_, ?_, ?_, ?_⟩
  · intro n hn
    rcases Finset.mem_insert.mp hn with rfl | hn
    · exact Nat.lt_succ_self _
    · exact Nat.lt_succ_of_lt (hb n hn)
  · intro n hn
    by_cases hne : n = w.nclients
    · subst hne
      simpa using hI
    · have hm : n ∈ w.connections := (Finset.mem_insert.mp hn).resolve_left hne
      simpa [hne] using hl n hm
  · intro n hn hm
    have hne : n ≠ w.nclients := fun he => hm (he ▸ Finset.mem_insert_self _ _)
    have hm' : n ∉ w.connections := fun h => hm (Finset.mem_insert_of_mem h)
    simpa [hne] using hd n (by simp at hn; omega) hm'
  · simp [Finset.card_insert_of_notMem hnew, hc]

theorem Holds.fire {n : ℕ} {slot : Slot} (h : Holds I D w)
    (hcall : ∀ s, n ∈ w.connections → fire slot o (w.mem n) = some s → Fate I D s)
    (hs : w.step (.fire n slot o) = some w') : Holds I D w' := by
  obtain ⟨hb, hl, hd, hc⟩ := h
  obtain ⟨hn, s, hf, rfl⟩ := World.step_fire hs
  have hfate := hcall s hn hf
  by_cases h0 : s.freed = 0
  · simp only [h0, if_true]
    refine ⟨hb, ?_, ?_, by simpa using hc⟩
    · intro m hm
      by_cases hmn : m = n
      · subst hmn; simpa using hfate.live h0
      · simpa [hmn] using hl m hm
    · intro m hm hmc
      have hmn : m ≠ n := fun he => hmc (he ▸ hn)
      simpa [hmn] using hd m hm hmc
  · have h1 : s.freed = 1 := by have := hfate.once; omega
    simp only [h1, one_ne_zero, if_false]
    refine ⟨fun m hm => hb m (Finset.mem_of_mem_erase hm), ?_, ?_, ?_⟩
    · intro m hm
      obtain ⟨hmn, hm⟩ := Finset.mem_erase.mp hm
      simpa [hmn] using hl m hm
    · intro m hm hmc
      by_cases hmn : m = n
      · subst hmn; simpa using hfate.dead h0
      · simpa [hmn] using hd m hm fun h => hmc (Finset.mem_erase.mpr ⟨hmn, h⟩)
    · have hpos : 0 < w.connections.card := Finset.card_pos.mpr ⟨n, hn⟩
      simp only [Finset.card_erase_of_mem hn, hc]
      omega

theorem Holds.init : Holds I D World.init :=
  ⟨by simp [World.init], by simp [World.init], by simp [World.init], by simp [World.init]⟩

/-- Invariant rule of bronnect. -/
theorem Run.holds {ls : List Label} (hI : ∀ conn, 0 ≤ conn → I (handleBroConnection conn))
    (hcall : ∀ st slot o s, I st → Fresh st slot o → P st slot o → Bronnect.fire slot o st = some s →
      Fate I D s)
    (h : Run (When Step (At P)) World.init ls w) : Holds I D w := by
  refine h.inv (Holds I D) .init ?_
  rintro w l w' hw ⟨⟨hs, hfresh⟩, hp⟩
  cases l with
  | accept conn => exact hw.accept (hI conn (World.step_accept hs).1) hs
  | fire n slot o =>
    exact hw.fire (fun s hn hf => hcall _ slot o s (hw.live n hn) hfresh hp hf) hs

instance (st : ConnectionState) (slot : Slot) (o : Outcomes) : Decidable (Fresh st slot o) :=
  match h : o.fake with
  | .noSocket => isTrue (by simp [Fresh, h])
  | .noBind => isTrue (by simp [Fresh, h])
  | .ioctl fd => decidable_of_iff (slot = .telexRead → 0 ≤ fd → fd ≠ st.serviceConn)
      (by simp [Fresh, h])

instance (P : ConnectionState → Slot → Outcomes → Prop) [∀ st slot o, Decidable (P st slot o)]
    (w : World) (l : Label) : Decidable (At P w l) :=
  match l with
  | .accept _ => isTrue trivial
  | .fire n slot o => inferInstanceAs (Decidable (P (w.mem n) slot o))

/-- A turn of the event loop where it is a step that meets the condition. -/
def World.check (P : ConnectionState → Slot → Outcomes → Prop)
    [∀ st slot o, Decidable (P st slot o)] (w : World) (l : Label) : Except Unit World :=
  if At Fresh w l ∧ At P w l then
    match w.step l with
    | some w' => .ok w'
    | none => .error ()
  else .error ()

theorem World.check_step {P : ConnectionState → Slot → Outcomes → Prop}
    [∀ st slot o, Decidable (P st slot o)] (w : World) (l : Label) (w' : World)
    (h : w.check P l = .ok w') : When Step (At P) w l w' := by
  unfold World.check at h
  split at h
  · rename_i hp
    split at h
    · rename_i v hs
      exact Except.ok.inj h ▸ ⟨⟨hs, hp.1⟩, hp.2⟩
    · simp at h
  · simp at h

/-- The process after the steps of a run that can be checked. -/
def World.after (P : ConnectionState → Slot → Outcomes → Prop)
    [∀ st slot o, Decidable (P st slot o)] (ls : List Label) : World :=
  match ls.foldlM (World.check P) World.init with
  | .ok w => w
  | .error _ => World.init

/-- Answers with which nothing moves. -/
def noAnswers : Outcomes where
  hdr := none
  initData := none
  connect := none
  leakedLen := 0
  liveSsl := true
  raw := 0
  fake := .noSocket
  soError := some 0
  recvService := .error true
  sslWrite := .none
  sslRead := (.wantRead, [])
  sendService := true
  shutdown := 1
  retry := (0, .none)
  unblock := true

/-- A flow from 1.0.0.0, port 1, to 2.0.0.0, port 2, in network order. -/
def sampleFlow : Bro.Flow := { noFlow with origH := 1, origP := 1, respH := 2, respP := 2 }

def sampleInit : Bro.InitData := ⟨sampleFlow, [], 80, [], [], [], [], [], []⟩

/-- Bro connects and sends both records; the connection to the service is under way. -/
def sampleJoin : List Label :=
  [.accept 5,
    .fire 0 .telexRead { noAnswers with
      hdr := some ⟨Bro.recordTypeInit, sizeofInitData⟩
      initData := some sampleInit
      connect := some (6, true) },
    .fire 0 .telexRead { noAnswers with
      hdr := some ⟨Bro.recordTypeRawPkt, 1⟩
      raw := 1
      fake := .ioctl 7 }]

end Telex.Bronnect
