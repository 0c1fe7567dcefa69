import Mathlib.Data.List.Induction

/-! Runs of a labelled transition relation

    A run is the list of labels it took, oldest first. A property of whole runs is proved once for
    the start and once for a step; a condition on the steps of a run is a stronger relation. -/

namespace Runs

variable {S L : Type*}

/-- `Run R s₀ ls s`: the steps `ls` lead from `s₀` to `s`. -/
inductive Run (R : S → L → S → Prop) (s₀ : S) : List L → S → Prop
  | nil : Run R s₀ [] s₀
  | snoc {ls s l s'} : Run R s₀ ls s → R s l s' → Run R s₀ (ls ++ [l]) s'

/-- The steps of `R` that meet the condition `C` on the state before and the label. -/
def When (R : S → L → S → Prop) (C : S → L → Prop) (s : S) (l : L) (s' : S) : Prop :=
  R s l s' ∧ C s l

variable {R Q : S → L → S → Prop} {s₀ s : S} {ls : List L}

/-- Invariant rule. -/
theorem Run.inv (I : S → Prop) (h0 : I s₀) (hs : ∀ s l s', I s → R s l s' → I s')
    (h : Run R s₀ ls s) : I s := by
  induction h with
  | nil => exact h0
  | snoc _ hr ih => exact hs _ _ _ ih hr

theorem Run.mono (hRQ : ∀ s l s', R s l s' → Q s l s') (h : Run R s₀ ls s) : Run Q s₀ ls s := by
  induction h with
  | nil => exact .nil
  | snoc _ hr ih => exact .snoc ih (hRQ _ _ _ hr)

/-- A condition that the labels of a run meet in every state. -/
theorem Run.when {C : S → L → Prop} (hC : ∀ l ∈ ls, ∀ s, C s l) (h : Run R s₀ ls s) :
    Run (When R C) s₀ ls s := by
  induction h with
  | nil => exact .nil
  | @snoc ls s l s' _ hr ih =>
    have hlast := hC l (List.mem_append_right _ List.mem_cons_self) s
    exact (ih fun l hl => hC l (List.mem_append_left _ hl)).snoc ⟨hr, hlast⟩

theorem run_one {l : L} (h : R s₀ l s) : Run R s₀ [l] s := Run.snoc .nil h

/-- Simulation rule: `f` takes each step from a state with `I` to a step of `Q` with the same label. -/
theorem Run.simulate {T : Type*} {Q : T → L → T → Prop} (I : S → Prop) (f : S → T) (h0 : I s₀)
    (hs : ∀ s l s', I s → R s l s' → I s' ∧ Q (f s) l (f s')) (h : Run R s₀ ls s) :
    I s ∧ Run Q (f s₀) ls (f s) := by
  induction h with
  | nil => exact ⟨h0, .nil⟩
  | snoc _ hr ih =>
    obtain ⟨hi, hq⟩ := hs _ _ _ ih.1 hr
    exact ⟨hi, ih.2.snoc hq⟩

/-- A function that only takes steps of `R` makes runs when it is folded over the labels. -/
theorem Run.of_foldlM {E : Type*} {f : S → L → Except E S}
    (hf : ∀ s l s', f s l = .ok s' → R s l s') (h : ls.foldlM f s₀ = .ok s) : Run R s₀ ls s := by
  induction ls using List.reverseRecOn generalizing s with
  | nil => exact Except.ok.inj h ▸ .nil
  | append_singleton ls l ih =>
    rw [List.foldlM_append] at h
    cases ht : ls.foldlM f s₀ with
    | error e => simp [ht, bind, Except.bind] at h
    | ok t =>
      refine (ih ht).snoc (hf t l s ?_)
      cases hl : f t l <;> simp_all [bind, Except.bind, pure, Except.pure]

end Runs
