import Mathlib.Data.Finset.Card
import Mathlib.Data.List.Nodup
import Mathlib.Data.List.Perm.Basic

/-! Sets kept in buckets

    A set stored as a list of buckets, each element in the bucket of its key. Looking into the one
    bucket is then as good as looking through all of them, an element occurs at most once when it
    occurs at most once in its bucket, and what is done to one bucket is done to the set. -/

namespace Buckets

variable {α : Type*} {key : α → ℕ} {t : List (List α)} {x : α} {b b' : List α}

/-- Each element is in the bucket of its key. -/
def Placed (key : α → ℕ) (t : List (List α)) : Prop := ∀ i b, t[i]? = some b → ∀ x ∈ b, key x = i

theorem Placed.mem_iff (h : Placed key t) : x ∈ t.flatten ↔ ∃ b, t[key x]? = some b ∧ x ∈ b := by
  rw [List.mem_flatten]
  constructor
  · rintro ⟨b, hb, hx⟩
    obtain ⟨i, hi⟩ := List.mem_iff_getElem?.mp hb
    exact ⟨b, h i b hi x hx ▸ hi, hx⟩
  · rintro ⟨b, hb, hx⟩
    exact ⟨b, List.mem_of_getElem? hb, hx⟩

theorem Placed.mem_bucket_iff (h : Placed key t) (hb : t[key x]? = some b) : x ∈ t.flatten ↔ x ∈ b := by
  rw [h.mem_iff]
  constructor
  · rintro ⟨b', hb', hx⟩
    rw [hb] at hb'
    exact Option.some.inj hb' ▸ hx
  · exact fun hx => ⟨b, hb, hx⟩

theorem Placed.set (h : Placed key t) {i : ℕ} (hb : ∀ y ∈ b, key y = i) : Placed key (t.set i b) := by
  intro j c hc y hy
  rw [List.getElem?_set] at hc
  split at hc
  · next hij =>
    split at hc
    · exact hij ▸ hb y (Option.some.inj hc ▸ hy)
    · cases hc
  · exact h j c hc y hy

theorem placed_replicate (n : ℕ) : Placed key (List.replicate n []) := by
  intro i b hb y hy
  rw [List.eq_of_mem_replicate (List.mem_of_getElem? hb)] at hy
  cases hy

/-- A bucket that has one element more than another. -/
theorem flatten_set_perm {i : ℕ} (hb : t[i]? = some b) (hp : b'.Perm (x :: b)) :
    (t.set i b').flatten.Perm (x :: t.flatten) := by
  obtain ⟨hi, rfl⟩ := List.getElem?_eq_some_iff.mp hb
  have ht : t.flatten = (t.take i).flatten ++ (t[i] ++ (t.drop (i + 1)).flatten) := by
    rw [← List.flatten_cons, ← List.flatten_append, ← List.drop_eq_getElem_cons hi,
      List.take_append_drop]
  rw [List.set_eq_take_append_cons_drop, if_pos hi, List.flatten_append, List.flatten_cons, ht]
  have hmid := ((hp.append_right (t.drop (i + 1)).flatten).append_left (t.take i).flatten)
  exact hmid.trans List.perm_middle

/-- A bucket that has one element less than another. -/
theorem perm_flatten_set {i : ℕ} (hb : t[i]? = some b) (hp : b.Perm (x :: b')) :
    t.flatten.Perm (x :: (t.set i b').flatten) := by
  obtain ⟨hi, rfl⟩ := List.getElem?_eq_some_iff.mp hb
  have hset : (t.set i b')[i]? = some b' := by simp [hi]
  have hback := flatten_set_perm hset hp
  rwa [List.set_set, List.set_getElem_self] at hback

/-- How many elements a bucket has is how many of the set have its key. -/
theorem Placed.length_bucket (h : Placed key t) {i : ℕ} (hb : t[i]? = some b) :
    b.length = t.flatten.countP (key · = i) := by
  obtain ⟨hi, rfl⟩ := List.getElem?_eq_some_iff.mp hb
  have hsplit : t = t.take i ++ t[i] :: t.drop (i + 1) := by
    rw [← List.drop_eq_getElem_cons hi, List.take_append_drop]
  have hpart : ∀ u : List (List α), (∀ c ∈ u, ∃ j, t[j]? = some c ∧ j ≠ i) →
      u.flatten.countP (key · = i) = 0 := by
    intro u hu
    rw [List.countP_eq_zero]
    intro x hx
    obtain ⟨c, hc, hxc⟩ := List.mem_flatten.mp hx
    obtain ⟨j, hj, hne⟩ := hu c hc
    simp [h j c hj x hxc, hne]
  have hself : t[i].countP (key · = i) = t[i].length := by
    rw [List.countP_eq_length]
    intro x hx
    simp [h i _ hb x hx]
  have hbefore := hpart (t.take i) (by
    intro c hc
    obtain ⟨j, hj⟩ := List.mem_iff_getElem?.mp hc
    have hlt : j < i := by
      have := (List.getElem?_eq_some_iff.mp hj).1
      simp at this
      omega
    exact ⟨j, by rwa [List.getElem?_take_of_lt hlt] at hj, by omega⟩)
  have hafter := hpart (t.drop (i + 1)) (by
    intro c hc
    obtain ⟨j, hj⟩ := List.mem_iff_getElem?.mp hc
    rw [List.getElem?_drop] at hj
    exact ⟨i + 1 + j, hj, by omega⟩)
  conv_rhs => rw [hsplit]
  rw [List.flatten_append, List.flatten_cons, List.countP_append, List.countP_append, hbefore, hafter,
    hself]
  omega

/-- The list without its `i`-th entry, whose place the last one takes. -/
def swapRemove (l : List α) (i : ℕ) : List α :=
  match l.getLast? with
  | some last => (if i ≠ l.length - 1 then l.set i last else l).dropLast
  | none => []

theorem length_swapRemove_le (l : List α) (i : ℕ) : (swapRemove l i).length ≤ l.length := by
  unfold swapRemove
  split
  · split <;> simp
  · simp

theorem perm_swapRemove {l : List α} {i : ℕ} (hx : l[i]? = some x) : l.Perm (x :: swapRemove l i) := by
  obtain ⟨hi, hxi⟩ := List.getElem?_eq_some_iff.mp hx
  induction l using List.reverseRecOn with
  | nil => simp at hi
  | append_singleton init last _ =>
    simp only [swapRemove, List.getLast?_concat, List.length_append, List.length_singleton,
      Nat.add_sub_cancel]
    by_cases hlast : i = init.length
    · -- the last entry itself
      subst hlast
      simp only [List.getElem_concat_length] at hxi
      simp [hxi]
    · have hlt : i < init.length := by
        simp at hi
        omega
      have hset : (init ++ [last]).set i last = init.set i last ++ [last] :=
        List.set_append_left _ _ hlt
      have hget : init[i] = x := by rw [← hxi, List.getElem_append_left hlt]
      rw [if_pos hlast, hset, List.dropLast_concat]
      have hold : init.Perm (x :: init.eraseIdx i) := hget ▸ (List.getElem_cons_eraseIdx_perm hlt).symm
      have hnew : (init.set i last).Perm (last :: init.eraseIdx i) :=
        (List.set_perm_cons_eraseIdx hlt last)
      have hfront : (init ++ [last]).Perm (last :: x :: init.eraseIdx i) :=
        List.perm_append_comm.trans (hold.cons last)
      exact hfront.trans ((List.Perm.swap _ _ _).trans (hnew.symm.cons x))

end Buckets
