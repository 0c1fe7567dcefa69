import Telex.FlowBlocker.Model
import Telex.Lib.Runs

/-! Timers and later commands

    Every message arms a timer of its own, an unblock message too, and no timer is ever cancelled. A
    flow that is blocked again while a timer of an earlier message is pending is unblocked by that
    timer, too early for the new command. Where this does not happen, a block lasts for the whole
    `FLOW_TIMEOUT`. -/

namespace Telex.FlowBlocker
open Runs

/-- The last message for a flow: its time and whether it is a block. -/
def Router.lastMessage (r : Router) (f : Flow) : Option (ℕ × Bool) :=
  (r.executed.filter (·.2.flow = f)).getLast?.map fun e => (e.1, e.2.block)

/-- When a block arrives, the timers that would unblock its flow were all armed at that very time. -/
def Unhurried (r : Router) : Label → Prop
  | .recv now recvd => ∀ c, fields recvd = some c → c.block = true →
      ∀ x ∈ r.timers, x.flow.Same c.flow → now + flowTimeout ≤ x.due
  | .timer _ _ => True

/-- No pending timer can end a block before its time. -/
structure Patient (r : Router) : Prop where
  past : ∀ e ∈ r.executed, e.1 ≤ r.now
  late : ∀ f t, r.lastMessage f = some (t, true) →
    ∀ x ∈ r.timers, x.flow.Same f → t + flowTimeout ≤ x.due

variable {names : Names} {r r' : Router} {l : Label}

theorem patient_init (maxelem : Option ℕ) : Patient (.init maxelem) :=
  ⟨fun _ h => absurd h (by simp [Router.init]), fun _ _ _ _ h => absurd h (by simp [Router.init])⟩

theorem lastMessage_mem {f : Flow} {t : ℕ} {b : Bool} (h : r.lastMessage f = some (t, b)) :
    ∃ c, (t, c) ∈ r.executed := by
  obtain ⟨e, he, hb⟩ := Option.map_eq_some_iff.mp h
  have hm := (List.mem_filter.mp (List.mem_of_getLast? he)).1
  rw [← (Prod.mk.inj hb).1]
  exact ⟨e.2, hm⟩

theorem lastMessage_append {t : ℕ} {c : Command} (h : r'.executed = r.executed ++ [(t, c)]) (f : Flow) :
    r'.lastMessage f = if c.flow = f then some (t, c.block) else r.lastMessage f := by
  rw [Router.lastMessage, h, List.filter_append]
  by_cases hf : c.flow = f <;> simp [hf, Router.lastMessage]

theorem Patient.recv {now : ℕ} {recvd : List Byte} (h : Patient r) (hn : r.now ≤ now)
    (hu : Unhurried r (.recv now recvd)) :
    Patient { (onReadReady names now r recvd).1 with now } := by
  cases hf : fields recvd with
  | none =>
    rw [onReadReady_none hf]
    exact ⟨fun e he => (h.past e he).trans hn, h.late⟩
  | some c =>
    rw [onReadReady_some hf]
    refine ⟨fun e he => ?_, fun f t hl x hx hs => ?_⟩
    · rcases List.mem_append.mp he with he | he
      · exact (h.past e he).trans hn
      · rw [List.mem_singleton.mp he]
    · rw [lastMessage_append (r := r) rfl] at hl
      split at hl
      · next hc =>
        -- the block itself: its own timer is due in time, the others by the condition
        obtain ⟨rfl, hb⟩ := Prod.mk.inj (Option.some.inj hl)
        rcases List.mem_append.mp hx with hx | hx
        · exact hu c hf hb x hx (hc ▸ hs)
        · rw [List.mem_singleton.mp hx]
      · rcases List.mem_append.mp hx with hx | hx
        · exact h.late f t hl x hx hs
        · obtain ⟨d, hd⟩ := lastMessage_mem hl
          rw [List.mem_singleton.mp hx]
          exact Nat.add_le_add_right ((h.past _ hd).trans hn) _

theorem Patient.timer {now i : ℕ} {timer : Timer} (h : Patient r) (hn : r.now ≤ now) :
    Patient { unblockFlow names r i timer with now } := by
  rw [unblockFlow_eq]
  exact ⟨fun e he => (h.past e he).trans hn,
    fun f t hl x hx => h.late f t hl x (List.mem_of_mem_eraseIdx hx)⟩

theorem Patient.step (h : Patient r) (hs : When (Step names) Unhurried r l r') : Patient r' := by
  obtain ⟨hs, hu⟩ := hs
  cases hs with
  | recv hn _ => exact h.recv hn hu
  | timer hn _ _ => exact h.timer hn

/-- The flow that a timer unblocks is its own. -/
theorem same_of_unblocked {timer : Timer} {f : Flow} (i : ℕ) (hb : r.Blocked f)
    (hb' : ¬(unblockFlow names r i timer).Blocked f) : timer.flow.Same f := by
  by_contra hs
  have he : f.elem ≠ timer.flow.elem := fun he => hs (Flow.elem_eq_iff.mp he.symm)
  rw [unblockFlow_eq] at hb'
  exact hb' (Finset.mem_erase.mpr ⟨he, hb⟩)

/-- In every run in which no block meets an older timer of its flow, a timer that unblocks a flow whose
    last message is a block does so at the end of its `FLOW_TIMEOUT` at the earliest. -/
theorem block_outlives_timers {maxelem : Option ℕ} {ls : List Label}
    (h : Run (When (Step names) Unhurried) (.init maxelem) ls r) {now i : ℕ}
    (hs : Step names r (.timer now i) r') {f : Flow} {t : ℕ} (hl : r.lastMessage f = some (t, true))
    (hb : r.Blocked f) (hb' : ¬r'.Blocked f) : t + flowTimeout ≤ now := by
  have hp : Patient r := h.inv Patient (patient_init maxelem) fun _ _ _ hp hs => hp.step hs
  cases hs with
  | timer _ hi hdue =>
    have hsame := same_of_unblocked i hb hb'
    exact (hp.late f t hl _ (List.mem_of_getElem? hi) hsame).trans hdue

/-- The flow blocker after it has read a block of the sample flow. -/
def sampleBlock (now : ℕ) (r : Router) : Router :=
  { (onReadReady noNames now r (msg ⟨true, sampleFlow ⟨39, 16⟩⟩)).1 with now }

theorem sampleBlock_step {now : ℕ} (h : r.now ≤ now) :
    Step noNames r (.recv now (msg ⟨true, sampleFlow ⟨39, 16⟩⟩)) (sampleBlock now r) :=
  .recv h (by decide)

theorem sampleBlock_eq (now : ℕ) (r : Router) :
    sampleBlock now r = Router.mk (r.ourset.mod (sampleFlow ⟨39, 16⟩).elem true)
      (r.timers ++ [⟨sampleFlow ⟨39, 16⟩, now + flowTimeout⟩]) now
      (r.executed ++ [(now, ⟨true, sampleFlow ⟨39, 16⟩⟩)]) := by
  rw [sampleBlock, onReadReady_some (fields_msg _)]

theorem sampleBlock_blocked (now : ℕ) (h : r.ourset.maxelem = none) :
    (sampleBlock now r).ourset.maxelem = none ∧
    (sampleBlock now r).Blocked (sampleFlow ⟨39, 16⟩) := by
  have hf : r.ourset.full = false := by simp [OurSet.full, h]
  simp [sampleBlock_eq, Router.Blocked, OurSet.mod, hf, h]

/-- One block and its timer. -/
theorem block_outlives_timers_one : ∃ r r',
    Run (When (Step noNames) Unhurried) (.init none) [.recv 0 (msg ⟨true, sampleFlow ⟨39, 16⟩⟩)] r ∧
    Step noNames r (.timer flowTimeout 0) r' ∧
    r.lastMessage (sampleFlow ⟨39, 16⟩) = some (0, true) ∧
    r.Blocked (sampleFlow ⟨39, 16⟩) ∧ ¬r'.Blocked (sampleFlow ⟨39, 16⟩) ∧
    0 + flowTimeout ≤ flowTimeout := by
  have hr : Run (When (Step noNames) Unhurried) (.init none)
      [.recv 0 (msg ⟨true, sampleFlow ⟨39, 16⟩⟩)] (sampleBlock 0 (.init none)) :=
    Run.nil.snoc ⟨sampleBlock_step (le_refl _), fun _ _ _ x hx => absurd hx (by simp [Router.init])⟩
  have hs : Step noNames (sampleBlock 0 (.init none)) (.timer flowTimeout 0)
      { unblockFlow noNames (sampleBlock 0 (.init none)) 0 ⟨sampleFlow ⟨39, 16⟩, flowTimeout⟩ with
        now := flowTimeout } :=
    .timer (by decide) (by rw [sampleBlock_eq]; rfl) (le_refl _)
  have hl : (sampleBlock 0 (.init none)).lastMessage (sampleFlow ⟨39, 16⟩) = some (0, true) := by
    rw [sampleBlock_eq]; rfl
  have hb := (sampleBlock_blocked 0 (r := .init none) rfl).2
  have hb' : ¬(unblockFlow noNames (sampleBlock 0 (.init none)) 0
      ⟨sampleFlow ⟨39, 16⟩, flowTimeout⟩).Blocked (sampleFlow ⟨39, 16⟩) := by
    rw [unblockFlow_eq]; exact Finset.notMem_erase _ _
  exact ⟨_, _, hr, hs, hl, hb, hb', block_outlives_timers hr hs hl hb hb'⟩

/-- A flow is blocked at 0 and again at 1; the first timer ends the second block a second early. -/
theorem second_block_cut_short : ∃ r r',
    Run (Step noNames) (.init none) [.recv 0 (msg ⟨true, sampleFlow ⟨39, 16⟩⟩),
      .recv 1 (msg ⟨true, sampleFlow ⟨39, 16⟩⟩)] r ∧
    Step noNames r (.timer flowTimeout 0) r' ∧
    r.lastMessage (sampleFlow ⟨39, 16⟩) = some (1, true) ∧
    r.Blocked (sampleFlow ⟨39, 16⟩) ∧ ¬r'.Blocked (sampleFlow ⟨39, 16⟩) ∧
    ¬1 + flowTimeout ≤ flowTimeout := by
  have hr : Run (Step noNames) (.init none) [.recv 0 (msg ⟨true, sampleFlow ⟨39, 16⟩⟩),
      .recv 1 (msg ⟨true, sampleFlow ⟨39, 16⟩⟩)] (sampleBlock 1 (sampleBlock 0 (.init none))) :=
    (Run.nil.snoc (sampleBlock_step (le_refl _))).snoc (sampleBlock_step (by decide))
  have hs : Step noNames (sampleBlock 1 (sampleBlock 0 (.init none))) (.timer flowTimeout 0)
      { unblockFlow noNames (sampleBlock 1 (sampleBlock 0 (.init none))) 0
        ⟨sampleFlow ⟨39, 16⟩, flowTimeout⟩ with now := flowTimeout } :=
    .timer (by decide) (by rw [sampleBlock_eq, sampleBlock_eq]; rfl) (le_refl _)
  refine ⟨_, _, hr, hs, ?_, ?_, ?_, by decide⟩
  · rw [sampleBlock_eq, sampleBlock_eq]; rfl
  · exact (sampleBlock_blocked 1 (sampleBlock_blocked 0 rfl).1).2
  · rw [unblockFlow_eq]; exact Finset.notMem_erase _ _

end Telex.FlowBlocker
