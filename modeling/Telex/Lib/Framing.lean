import Mathlib.Data.List.Basic
import Mathlib.Logic.Function.Basic

/-! Records in queues

    A record begins with a header of fixed size that gives the size of the whole. A reader keeps the
    elements that arrived in a queue and hands each record to a step as soon as all of it is there;
    the step may ask for what is left in the queue to be dropped. Where no step asks, it does not
    matter in which pieces the elements came: the records handed on are those of the stream. With
    several queues this holds for each, however the pieces of different streams interleave. -/

namespace Framing

structure Format (α : Type*) where
  header : ℕ
  /-- The size of a record, read from its header. -/
  size : List α → ℕ
  pos : 0 < header
  header_le (h : List α) : header ≤ size h

namespace Format

variable {α σ : Type*} (f : Format α)

def first (q : List α) : ℕ := f.size (q.take f.header)

/-- The first record of the queue has arrived. -/
def Full (q : List α) : Prop := f.first q ≤ q.length

instance (q : List α) : Decidable (f.Full q) := inferInstanceAs (Decidable (_ ≤ _))

def IsRecord (r : List α) : Prop := f.first r = r.length

variable {f} {q r c : List α}

theorem pos_first : 0 < f.first q := Nat.lt_of_lt_of_le f.pos (f.header_le _)

theorem Full.header_le (h : f.Full q) : f.header ≤ q.length :=
  Nat.le_trans (f.header_le _) h

theorem Full.length_drop_lt (h : f.Full q) : (q.drop (f.first q)).length < q.length := by
  have h0 := f.pos_first (q := q)
  have h1 : f.first q ≤ q.length := h
  rw [List.length_drop]
  omega

theorem first_append (h : f.header ≤ q.length) (c : List α) : f.first (q ++ c) = f.first q := by
  rw [first, List.take_append_of_le_length h, first]

theorem Full.append (h : f.Full q) (c : List α) : f.Full (q ++ c) := by
  rw [Full, first_append h.header_le]
  exact Nat.le_trans h (by simp)

theorem not_full_of_length (h : q.length < f.header) : ¬f.Full q := fun hq =>
  absurd hq.header_le (by omega)

theorem IsRecord.full (h : f.IsRecord r) : f.Full r := Nat.le_of_eq h

theorem IsRecord.first_append (h : f.IsRecord r) (c : List α) : f.first (r ++ c) = r.length := by
  rw [Format.first_append h.full.header_le, h]

/-! ### One queue -/

variable (f) in
/-- Hands the records of the queue to `step`, until one is missing or the rest is to be dropped. -/
def drain (step : σ → List α → σ × Bool) (s : σ) (q : List α) : σ × List α :=
  if f.Full q then
    if (step s (q.take (f.first q))).2 then
      drain step (step s (q.take (f.first q))).1 (q.drop (f.first q))
    else ((step s (q.take (f.first q))).1, [])
  else (s, q)
termination_by q.length
decreasing_by exact Full.length_drop_lt ‹_›

/-- The step goes on after a record whatever the state. -/
def Kept (step : σ → List α → σ × Bool) (r : List α) : Prop := ∀ s, (step s r).2 = true

def steps (step : σ → List α → σ × Bool) (s : σ) (rs : List (List α)) : σ :=
  rs.foldl (fun s r => (step s r).1) s

variable {step : σ → List α → σ × Bool} {s : σ}

theorem drain_of_not_full (h : ¬f.Full q) : f.drain step s q = (s, q) := by
  rw [drain, if_neg h]

theorem drain_not_full (step : σ → List α → σ × Bool) (s : σ) (q : List α) :
    ¬f.Full (f.drain step s q).2 := by
  induction s, q using drain.induct f step with
  | case1 s q hf hk ih =>
    rw [drain, if_pos hf, if_pos hk]
    exact ih
  | case2 s q hf hk =>
    rw [drain, if_pos hf, if_neg hk]
    exact not_full_of_length f.pos
  | case3 s q hf => rwa [drain_of_not_full hf]

/-- A queue that holds the beginning of a stream of records. The records that are there are handed
    on; what stays is the beginning of the rest of the stream. -/
theorem drain_stream {rs : List (List α)} {t : List α} (hr : ∀ r ∈ rs, f.IsRecord r)
    (hk : ∀ r ∈ rs, Kept step r) (ht : ¬f.Full t) (h : q ++ c = rs.flatten ++ t) :
    ∃ rs₁ rs₂ q', rs = rs₁ ++ rs₂ ∧ f.drain step s q = (steps step s rs₁, q') ∧
      q' ++ c = rs₂.flatten ++ t := by
  induction rs generalizing s q with
  | nil =>
    have hqc : q ++ c = t := h
    have hq : ¬f.Full q := fun hq => ht (hqc ▸ hq.append c)
    exact ⟨[], [], q, rfl, drain_of_not_full hq, h⟩
  | cons r rs ih =>
    by_cases hq : f.Full q
    · have hrec := hr r List.mem_cons_self
      have hlen : f.first q = r.length := by
        rw [← Format.first_append hq.header_le c, h, List.flatten_cons, List.append_assoc,
          hrec.first_append]
      have hle : r.length ≤ q.length := hlen ▸ hq
      have htake : q.take r.length = r := by
        have hqc : (q ++ c).take r.length = q.take r.length := List.take_append_of_le_length hle
        rw [← hqc, h]
        simp
      have hrest : q.drop r.length ++ c = rs.flatten ++ t := by
        rw [← List.drop_append_of_le_length hle, h]
        simp
      obtain ⟨rs₁, rs₂, q', rfl, hd, hq'⟩ := ih (fun r' h' => hr r' (List.mem_cons_of_mem r h'))
        (fun r' h' => hk r' (List.mem_cons_of_mem r h')) hrest
      refine ⟨r :: rs₁, rs₂, q', rfl, ?_, hq'⟩
      rw [drain, if_pos hq, hlen, htake, if_pos (hk r List.mem_cons_self s)]
      exact hd
    · exact ⟨[], r :: rs, q, rfl, drain_of_not_full hq, h⟩

/-! ### Several queues -/

section Queues

variable {ι : Type*}

def stepAll (step : ι → σ → List α → σ × Bool) (s : σ) (ps : List (ι × List α)) : σ :=
  ps.foldl (fun s p => (step p.1 s p.2).1) s

theorem stepAll_append (step : ι → σ → List α → σ × Bool) (s : σ) (ps ps' : List (ι × List α)) :
    stepAll step s (ps ++ ps') = stepAll step (stepAll step s ps) ps' := List.foldl_append ..

theorem stepAll_map (step : ι → σ → List α → σ × Bool) (i : ι) (s : σ) (rs : List (List α)) :
    stepAll step s (rs.map (Prod.mk i)) = steps (step i) s rs := by
  rw [stepAll, List.foldl_map, steps]

variable [DecidableEq ι]

variable (f) in
/-- A piece of one stream arrives. -/
def deliver (step : ι → σ → List α → σ × Bool) (w : σ × (ι → List α)) (d : ι × List α) :
    σ × (ι → List α) :=
  ((f.drain (step d.1) w.1 (w.2 d.1 ++ d.2)).1,
    Function.update w.2 d.1 (f.drain (step d.1) w.1 (w.2 d.1 ++ d.2)).2)

/-- What belongs to one stream, in order. -/
def of {β : Type*} (i : ι) (l : List (ι × β)) : List β := (l.filter (·.1 = i)).map Prod.snd

theorem of_cons_self {β : Type*} (i : ι) (b : β) (l : List (ι × β)) :
    of i ((i, b) :: l) = b :: of i l := by
  simp [of]

theorem of_cons_ne {β : Type*} {i j : ι} (h : j ≠ i) (b : β) (l : List (ι × β)) :
    of i ((j, b) :: l) = of i l := by
  simp [of, h]

theorem of_append {β : Type*} (i : ι) (l l' : List (ι × β)) : of i (l ++ l') = of i l ++ of i l' := by
  simp [of]

theorem of_map_self {β : Type*} (i : ι) (l : List β) : of i (l.map (Prod.mk i)) = l := by
  induction l with
  | nil => rfl
  | cons b l ih => rw [List.map_cons, of_cons_self, ih]

theorem of_map_ne {β : Type*} {i j : ι} (h : j ≠ i) (l : List β) : of i (l.map (Prod.mk j)) = [] := by
  induction l with
  | nil => rfl
  | cons b l ih => rw [List.map_cons, of_cons_ne h, ih]

variable {step : ι → σ → List α → σ × Bool}

/-- However the pieces of the streams come, the records handed on are those of the streams, each
    stream's in its order, and what stays in the queues is what follows its last record. -/
theorem deliver_streams {ds : List (ι × List α)} {w : σ × (ι → List α)} {rs : ι → List (List α)}
    {t : ι → List α} (hr : ∀ i, ∀ r ∈ rs i, f.IsRecord r) (hk : ∀ i, ∀ r ∈ rs i, Kept (step i) r)
    (ht : ∀ i, ¬f.Full (t i)) (hw : ∀ i, ¬f.Full (w.2 i))
    (h : ∀ i, w.2 i ++ (of i ds).flatten = (rs i).flatten ++ t i) :
    ∃ ps, (∀ i, of i ps = rs i) ∧ ds.foldl (f.deliver step) w = (stepAll step w.1 ps, t) := by
  induction ds generalizing w rs with
  | nil =>
    have hnil : ∀ i, rs i = [] := by
      intro i
      rcases hi : rs i with _ | ⟨r, l⟩
      · rfl
      · have hrec := hr i r (hi ▸ List.mem_cons_self)
        have hq : w.2 i = r ++ (l.flatten ++ t i) := by simpa [of, hi] using h i
        exact absurd (hq ▸ hrec.full.append _) (hw i)
    refine ⟨[], fun i => (hnil i).symm, ?_⟩
    have hwt : w.2 = t := funext fun i => by simpa [of, hnil i] using h i
    rw [← hwt]
    rfl
  | cons d ds ih =>
    obtain ⟨j, c⟩ := d
    have hj : (w.2 j ++ c) ++ (of j ds).flatten = (rs j).flatten ++ t j := by
      simpa [of_cons_self] using h j
    obtain ⟨rs₁, rs₂, q', hrs, hd, hq'⟩ := drain_stream (s := w.1) (hr j) (hk j) (ht j) hj
    have hsub : ∀ i, ∀ r ∈ Function.update rs j rs₂ i, r ∈ rs i := by
      intro i r hmem
      by_cases hij : i = j
      · subst hij
        rw [Function.update_self] at hmem
        rw [hrs]
        exact List.mem_append_right _ hmem
      · rwa [Function.update_of_ne hij] at hmem
    obtain ⟨ps, hps, hfold⟩ := @ih (f.deliver step w (j, c)) (Function.update rs j rs₂)
      (fun i r hmem => hr i r (hsub i r hmem)) (fun i r hmem => hk i r (hsub i r hmem))
      (fun i => by
        by_cases hij : i = j
        · subst hij
          simpa [deliver] using drain_not_full (f := f) (step i) w.1 (w.2 i ++ c)
        · simpa [deliver, hij] using hw i)
      (fun i => by
        by_cases hij : i = j
        · subst hij
          simpa [deliver, hd] using hq'
        · have hi := h i
          rw [of_cons_ne (Ne.symm hij)] at hi
          simpa [deliver, hij] using hi)
    refine ⟨rs₁.map (Prod.mk j) ++ ps, fun i => ?_, ?_⟩
    · rw [of_append, hps]
      by_cases hij : i = j
      · subst hij
        rw [of_map_self, Function.update_self, hrs]
      · rw [of_map_ne (Ne.symm hij), Function.update_of_ne hij, List.nil_append]
    · have hstate : (f.deliver step w (j, c)).1 = stepAll step w.1 (rs₁.map (Prod.mk j)) := by
        rw [stepAll_map, deliver, hd]
      rw [List.foldl_cons, hfold, hstate, stepAll_append]

end Queues

end Format

end Framing
