import Mathlib.Data.List.Sort
import Mathlib.Data.List.TakeWhile

/-! A row of the port charts of `station/net/httpd.c`

    The columns are the ports of the last log line, a row is an older entry with ports of its own.
    `httpd_log_fmt_port` walks both lists with one index and an offset. A port only in the list moves
    the offset and prints a zero; a port only in the entry moves the index but not the offset, so the
    column it was compared with gets no cell. Once the entry is used up the row ends, without cells
    for the columns left; and where the entry goes on beyond the list the inner loop looks at the
    list one place too far before it gives up. -/

namespace Telex.Httpd

/-- `struct port_stats`, less the table of users. -/
structure PortStats where
  port : ℤ
  usersSize : BitVec 64
  connections : BitVec 64
  deriving DecidableEq

/-- The loop's variables, the cells it printed and the places of `port_list` it read. -/
structure Row where
  i : ℕ
  added : ℕ
  cells : List (BitVec 64)
  reads : List ℕ
  deriving DecidableEq

section Merge

variable (list : List ℤ) (past : ℕ → ℤ)

/-- `port_list[k]`; from `port_list_len` on it is what older lists or the memory behind hold. -/
def portAt (k : ℕ) : ℤ := list.getD k (past k)

/-- `while (pstats[i].port > port_list[i+added])`; the flag says that the function returned. -/
def advance (port : ℤ) (st : Row) : Row × Bool :=
  let k := st.i + st.added
  if port > portAt list past k then
    let next : Row := ⟨st.i, st.added + 1, st.cells ++ [0], st.reads ++ [k]⟩
    if st.i + (st.added + 1) > list.length then (next, true) else advance port next
  else (⟨st.i, st.added, st.cells, st.reads ++ [k]⟩, false)
termination_by list.length + 1 - (st.i + st.added)

/-- The outer loop over the entry's ports. -/
def columns (fn : PortStats → BitVec 64) : List PortStats → Row → Row
  | [], st => st
  | e :: es, st =>
    if st.i + st.added < list.length then
      let r := advance list past e.port st
      if r.2 then r.1
      else
        let k := r.1.i + r.1.added
        let reads := r.1.reads ++ [k]
        if e.port ≠ portAt list past k then columns fn es ⟨r.1.i + 1, r.1.added, r.1.cells, reads⟩
        else columns fn es ⟨r.1.i + 1, r.1.added, r.1.cells ++ [fn e], reads⟩
    else st

/-- `httpd_log_fmt_port` -/
def fmtPort (pstats : List PortStats) (fn : PortStats → BitVec 64) : Row :=
  columns list past fn pstats ⟨0, 0, [], []⟩

end Merge

/-- `httpd_log_fmt_port_users_cb` -/
def usersCb (pstats : PortStats) : BitVec 64 := pstats.usersSize

/-- `httpd_log_fmt_port_conns_cb` -/
def connsCb (pstats : PortStats) : BitVec 64 := pstats.connections

/-! ### What a row should hold -/

/-- The value of the entry for a port, or zero. -/
def cell (pstats : List PortStats) (fn : PortStats → BitVec 64) (q : ℤ) : BitVec 64 :=
  ((pstats.find? fun e => e.port = q).map fn).getD 0

/-- One cell a column, and no look beyond the list. -/
def RowRight (list : List ℤ) (past : ℕ → ℤ) (pstats : List PortStats)
    (fn : PortStats → BitVec 64) : Prop :=
  (fmtPort list past pstats fn).cells = list.map (cell pstats fn) ∧
    ∀ k ∈ (fmtPort list past pstats fn).reads, k < list.length

/-- The entry has the last port of the list, and none below it that is not in the list. -/
def Covers (list : List ℤ) (pstats : List PortStats) : Prop :=
  ∀ q ∈ list.getLast?, (∃ e ∈ pstats, e.port = q) ∧ ∀ e ∈ pstats, e.port < q → e.port ∈ list

/-! ### The inner loop -/

variable {list : List ℤ} {past : ℕ → ℤ} {pstats : List PortStats} {fn : PortStats → BitVec 64}
  {st : Row} {port : ℤ}

/-- What is left of the list from `k` on begins with `port_list[k]`. -/
theorem portAt_of_drop (past : ℕ → ℤ) {k : ℕ} {q : ℤ} {qs : List ℤ} (h : list.drop k = q :: qs) :
    portAt list past k = q ∧ k < list.length ∧ list.drop (k + 1) = qs := by
  have hk : k < list.length := by
    by_contra hge
    rw [List.drop_eq_nil_of_le (not_lt.mp hge)] at h
    cases h
  rw [List.drop_eq_getElem_cons hk, List.cons.injEq] at h
  refine ⟨?_, hk, h.2⟩
  rw [portAt, List.getD_eq_getElem?_getD, List.getElem?_eq_getElem hk, Option.getD_some, h.1]

/-- Past the ports that are smaller, a zero for each, to one that is not. -/
theorem advance_stops (past : ℕ → ℤ) {smaller : List ℤ} {q : ℤ} {qs : List ℤ}
    (hd : list.drop (st.i + st.added) = smaller ++ q :: qs) (hs : ∀ a ∈ smaller, a < port)
    (hq : port ≤ q) :
    advance list past port st = (⟨st.i, st.added + smaller.length,
      st.cells ++ List.replicate smaller.length 0,
      st.reads ++ List.range' (st.i + st.added) (smaller.length + 1)⟩, false) := by
  induction smaller generalizing st with
  | nil =>
    obtain ⟨hp, -, -⟩ := portAt_of_drop past hd
    rw [advance]
    simp only [hp]
    rw [if_neg (not_lt.mpr hq)]
    simp
  | cons a smaller ih =>
    obtain ⟨hp, hlt, hrest⟩ := portAt_of_drop past hd
    have hrec := @ih ⟨st.i, st.added + 1, st.cells ++ [0], st.reads ++ [st.i + st.added]⟩
      hrest (fun b hb => hs b (List.mem_cons_of_mem _ hb))
    rw [advance]
    simp only [hp]
    have hr : List.range' (st.i + st.added) (smaller.length + 1 + 1) =
        (st.i + st.added) :: List.range' (st.i + (st.added + 1)) (smaller.length + 1) :=
      List.range'_succ
    rw [if_pos (hs a (List.mem_cons_self ..)), if_neg (by omega), hrec, List.length_cons, hr,
      List.replicate_succ, List.append_assoc, List.append_assoc, Nat.add_right_comm, Nat.add_assoc]
    rfl

/-- Past the whole list: the place behind it is read. -/
theorem advance_beyond (past : ℕ → ℤ) {smaller : List ℤ} (hk : st.i + st.added ≤ list.length)
    (hd : list.drop (st.i + st.added) = smaller) (hs : ∀ a ∈ smaller, a < port) :
    list.length ∈ (advance list past port st).1.reads := by
  induction smaller generalizing st with
  | nil =>
    have hlen : list.length ≤ st.i + st.added := List.drop_eq_nil_iff.mp hd
    rw [advance]
    simp only
    split
    · rw [if_pos (by omega)]
      simp only [List.mem_append, List.mem_singleton]
      omega
    · simp only [List.mem_append, List.mem_singleton]
      omega
  | cons a smaller ih =>
    obtain ⟨hp, hlt, hrest⟩ := portAt_of_drop past hd
    rw [advance]
    simp only [hp]
    rw [if_pos (hs a (List.mem_cons_self ..)), if_neg (by omega)]
    exact ih (by simp only; omega) hrest (fun b hb => hs b (List.mem_cons_of_mem _ hb))

theorem reads_advance (list : List ℤ) (past : ℕ → ℤ) (port : ℤ) (st : Row) :
    ∀ k ∈ st.reads, k ∈ (advance list past port st).1.reads := by
  induction st using advance.induct list past port with
  | case1 st k hgt hret =>
    intro j hj
    rw [advance]
    simp only
    rw [if_pos hgt, if_pos hret]
    exact List.mem_append_left _ hj
  | case2 st k hgt next hret ih =>
    intro j hj
    rw [advance]
    simp only
    rw [if_pos hgt, if_neg hret]
    exact ih j (List.mem_append_left _ hj)
  | case3 st k hle =>
    intro j hj
    rw [advance]
    simp only
    rw [if_neg hle]
    exact List.mem_append_left _ hj

/-- The outer loop only adds to what was read. -/
theorem reads_columns (es : List PortStats) (st : Row) :
    ∀ k ∈ st.reads, k ∈ (columns list past fn es st).reads := by
  induction es generalizing st with
  | nil => exact fun k hk => hk
  | cons e es ih =>
    intro k hk
    have ha := reads_advance list past e.port st k hk
    rw [columns]
    split
    · simp only
      split
      · exact ha
      · split
        · exact ih _ k (List.mem_append_left _ ha)
        · exact ih _ k (List.mem_append_left _ ha)
    · exact hk

/-! ### One port of the entry -/

/-- The row after a port of the entry met the column `q`, which is `d` columns further on. -/
def Row.meet (fn : PortStats → BitVec 64) (e : PortStats) (q : ℤ) (d : ℕ) (st : Row) : Row :=
  ⟨st.i + 1, st.added + d,
    st.cells ++ List.replicate d 0 ++ if e.port = q then [fn e] else [],
    st.reads ++ List.range' (st.i + st.added) (d + 1) ++ [st.i + (st.added + d)]⟩

/-- A port of the entry either runs past the list, or meets the first column not below it. -/
theorem columns_cons (past : ℕ → ℤ) (fn : PortStats → BitVec 64) (e : PortStats)
    (es : List PortStats) (hk : st.i + st.added < list.length) :
    (list.length ∈ (columns list past fn (e :: es) st).reads ∧
      ∀ a ∈ list.drop (st.i + st.added), a < e.port) ∨
    ∃ smaller q qs, list.drop (st.i + st.added) = smaller ++ q :: qs ∧
      (∀ a ∈ smaller, a < e.port) ∧ e.port ≤ q ∧
      columns list past fn (e :: es) st = columns list past fn es (st.meet fn e q smaller.length) := by
  obtain ⟨smaller, hsm⟩ : ∃ l, l = (list.drop (st.i + st.added)).takeWhile (· < e.port) := ⟨_, rfl⟩
  have hsplit := List.takeWhile_append_dropWhile (p := (· < e.port))
    (l := list.drop (st.i + st.added))
  rw [← hsm] at hsplit
  have hlt : ∀ a ∈ smaller, a < e.port := fun a ha => by
    rw [hsm] at ha
    simpa using List.mem_takeWhile_imp ha
  cases hd : (list.drop (st.i + st.added)).dropWhile (· < e.port) with
  | nil =>
    rw [hd, List.append_nil] at hsplit
    refine .inl ⟨?_, hsplit ▸ hlt⟩
    have hb := advance_beyond past hk.le hsplit.symm hlt
    rw [columns, if_pos hk]
    simp only
    split
    · exact hb
    · split
      · exact reads_columns _ _ _ (List.mem_append_left _ hb)
      · exact reads_columns _ _ _ (List.mem_append_left _ hb)
  | cons q qs =>
    rw [hd] at hsplit
    have hq : e.port ≤ q := by
      have := List.head_dropWhile_not (· < e.port) (l := list.drop (st.i + st.added))
        (by rw [hd]; exact List.cons_ne_nil _ _)
      simpa [hd] using this
    refine .inr ⟨smaller, q, qs, hsplit.symm, hlt, hq, ?_⟩
    have hstop := advance_stops past hsplit.symm hlt hq
    have hat : portAt list past (st.i + (st.added + smaller.length)) = q := by
      have hdrop : list.drop (st.i + (st.added + smaller.length)) = q :: qs := by
        rw [← Nat.add_assoc, ← List.drop_drop, ← hsplit, List.drop_left]
      exact (portAt_of_drop past hdrop).1
    rw [columns, if_pos hk, hstop]
    simp only [Bool.false_eq_true, if_false, hat]
    by_cases he : e.port = q
    · rw [if_neg (not_not.mpr he), Row.meet, if_pos he]
    · rw [if_pos he, Row.meet, if_neg he, List.append_nil]

/-- Where the list goes on after a port was met. -/
theorem drop_meet {smaller : List ℤ} {q : ℤ} {qs : List ℤ} (fn : PortStats → BitVec 64)
    (e : PortStats) (hd : list.drop (st.i + st.added) = smaller ++ q :: qs) :
    list.drop ((st.meet fn e q smaller.length).i + (st.meet fn e q smaller.length).added) = qs := by
  have e1 : st.i + 1 + (st.added + smaller.length) = st.i + st.added + (smaller.length + 1) := by
    omega
  simp only [Row.meet]
  rw [e1, ← List.drop_drop, hd, ← List.drop_drop, List.drop_left]
  rfl

/-! ### The whole row -/

section Sorted

variable {smaller qs : List ℤ} {q : ℤ} {e : PortStats} {es : List PortStats}

theorem mem_getLast?_append_cons {a : ℤ} :
    a ∈ (smaller ++ q :: qs).getLast? ↔ qs = [] ∧ a = q ∨ a ∈ qs.getLast? := by
  cases qs with
  | nil => simp [eq_comm]
  | cons b qs => simp [List.getLast?_append]

/-- A list is covered if the entry meets a column of it and covers the columns after that. -/
theorem Covers.meet (hes : ∀ f ∈ es, e.port < f.port) (he : e.port = q) (h : Covers qs es) :
    Covers (smaller ++ q :: qs) (e :: es) := by
  intro a ha
  rcases mem_getLast?_append_cons.mp ha with ⟨rfl, rfl⟩ | hqs
  · refine ⟨⟨e, List.mem_cons_self .., he⟩, ?_⟩
    intro f hf hlt
    rcases List.mem_cons.mp hf with rfl | hf
    · exact absurd hlt (by omega)
    · have := hes f hf
      omega
  · obtain ⟨⟨f, hf, hfa⟩, hall⟩ := h a hqs
    refine ⟨⟨f, List.mem_cons_of_mem _ hf, hfa⟩, ?_⟩
    intro g hg hlt
    rcases List.mem_cons.mp hg with rfl | hg
    · rw [he]
      exact List.mem_append_right _ (List.mem_cons_self ..)
    · exact List.mem_append_right _ (List.mem_cons_of_mem _ (hall g hg hlt))

/-- Conversely a covering entry meets its column and covers the others. -/
theorem Covers.of_meet (hlist : (smaller ++ q :: qs).Pairwise (· < ·))
    (hes : ∀ f ∈ es, e.port < f.port) (hsm : ∀ a ∈ smaller, a < e.port) (hq : e.port ≤ q)
    (h : Covers (smaller ++ q :: qs) (e :: es)) : e.port = q ∧ Covers qs es := by
  have hqs : ∀ b ∈ qs, q < b := (List.pairwise_cons.mp (List.pairwise_append.mp hlist).2.1).1
  have hmem : ∀ {b : ℤ}, b ∈ smaller ++ q :: qs → b ≤ e.port → e.port ≤ b → b = q := by
    intro b hb hle hge
    rcases List.mem_append.mp hb with hb | hb
    · exact absurd (hsm b hb) (by omega)
    · rcases List.mem_cons.mp hb with rfl | hb
      · rfl
      · exact absurd (hqs b hb) (by omega)
  have heq : e.port = q := by
    -- the last column is `q` or above, so the entry's port is in the list or is the last port
    obtain ⟨l, hl⟩ : ∃ l, l ∈ (smaller ++ q :: qs).getLast? :=
      ⟨_, List.getLast?_eq_getLast_of_ne_nil (by simp)⟩
    obtain ⟨⟨f, hf, hfl⟩, hall⟩ := h l hl
    have hle : q ≤ l := by
      rcases mem_getLast?_append_cons.mp hl with ⟨-, rfl⟩ | hq'
      · exact le_rfl
      · exact (hqs l (List.mem_of_getLast? hq')).le
    rcases eq_or_lt_of_le (hq.trans hle) with hel | hel
    · omega
    · exact hmem (hall e (List.mem_cons_self ..) hel) le_rfl le_rfl
  refine ⟨heq, ?_⟩
  intro l hl
  have hql : q < l := hqs l (List.mem_of_getLast? hl)
  obtain ⟨⟨f, hf, hfl⟩, hall⟩ := h l (mem_getLast?_append_cons.mpr (.inr hl))
  refine ⟨⟨f, ?_, hfl⟩, ?_⟩
  · rcases List.mem_cons.mp hf with rfl | hf
    · omega
    · exact hf
  · intro g hg hlt
    rcases List.mem_append.mp (hall g (List.mem_cons_of_mem _ hg) hlt) with hm | hm
    · have := hsm _ hm
      have := hes g hg
      omega
    · rcases List.mem_cons.mp hm with hm | hm
      · have := hes g hg
        omega
      · exact hm

/-- An entry whose ports are all above the list covers none of it. -/
theorem Covers.not_above {rest : List ℤ} (hne : rest ≠ []) (hes : ∀ f ∈ es, e.port < f.port)
    (habove : ∀ a ∈ rest, a < e.port) : ¬Covers rest (e :: es) := by
  intro h
  obtain ⟨⟨f, hf, hfl⟩, -⟩ := h _ (List.getLast?_eq_getLast_of_ne_nil hne)
  have hlast := habove _ (List.getLast_mem hne)
  rcases List.mem_cons.mp hf with rfl | hf
  · omega
  · have := hes f hf
    omega

/-- The cells of a list whose columns below the entry's first port are empty. -/
theorem map_cell_meet (hlist : (smaller ++ q :: qs).Pairwise (· < ·))
    (hes : ∀ f ∈ es, e.port < f.port) (hsm : ∀ a ∈ smaller, a < e.port) (he : e.port = q) :
    (smaller ++ q :: qs).map (cell (e :: es) fn) =
      List.replicate smaller.length 0 ++ fn e :: qs.map (cell es fn) := by
  have hqs : ∀ b ∈ qs, q < b := (List.pairwise_cons.mp (List.pairwise_append.mp hlist).2.1).1
  have h0 : smaller.map (cell (e :: es) fn) = List.replicate smaller.length 0 := by
    rw [List.eq_replicate_iff]
    refine ⟨List.length_map .., ?_⟩
    intro b hb
    obtain ⟨a, ha, rfl⟩ := List.mem_map.mp hb
    have hnone : (e :: es).find? (fun f => f.port = a) = none := by
      rw [List.find?_eq_none]
      intro f hf
      have := hsm a ha
      rcases List.mem_cons.mp hf with rfl | hf
      · simp; omega
      · have := hes f hf
        simp; omega
    rw [cell, hnone]
    rfl
  have h1 : cell (e :: es) fn q = fn e := by
    rw [cell, List.find?_cons_of_pos (by simpa using he)]
    rfl
  have h2 : qs.map (cell (e :: es) fn) = qs.map (cell es fn) := by
    refine List.map_congr_left fun b hb => ?_
    have := hqs b hb
    rw [cell, List.find?_cons_of_neg (by simp; omega), cell]
  rw [List.map_append, List.map_cons, h0, h1, h2]

end Sorted

/-- Rows never have too many cells, and enough of them only where the entry covers the list. -/
theorem columns_le (es : List PortStats) :
    ∀ (st : Row), es.Pairwise (fun e f => e.port < f.port) → st.i + st.added ≤ list.length →
    (∀ k ∈ (columns list past fn es st).reads, k < list.length) →
    (columns list past fn es st).cells.length ≤
      st.cells.length + (list.drop (st.i + st.added)).length ∧
    ((columns list past fn es st).cells.length =
      st.cells.length + (list.drop (st.i + st.added)).length →
      Covers (list.drop (st.i + st.added)) es) := by
  induction es with
  | nil =>
    intro st _ _ _
    refine ⟨Nat.le_add_right _ _, ?_⟩
    intro heq
    rw [columns] at heq
    have hnil : list.drop (st.i + st.added) = [] := List.length_eq_zero_iff.mp (by omega)
    rw [hnil]
    rintro q ⟨⟩
  | cons e es ih =>
    intro st hes hk hreads
    rcases Nat.lt_or_ge (st.i + st.added) list.length with hlt | hge
    · rcases columns_cons past fn e es hlt with
        ⟨hbad, -⟩ | ⟨smaller, q, qs, hd, hsm, hq, hcol⟩
      · exact absurd (hreads _ hbad) (Nat.lt_irrefl _)
      · have hdm := drop_meet fn e hd
        have hlen : smaller.length + (qs.length + 1) = list.length - (st.i + st.added) := by
          rw [← List.length_drop, hd, List.length_append, List.length_cons]
        rw [hcol] at hreads ⊢
        obtain ⟨hle, hcov⟩ := ih _ (List.pairwise_cons.mp hes).2
          (by simp only [Row.meet]; omega) hreads
        rw [hdm] at hle hcov
        rw [hd]
        by_cases he : e.port = q
        · simp only [Row.meet, if_pos he, List.length_append, List.length_replicate,
            List.length_nil, List.length_cons] at hle hcov ⊢
          refine ⟨by omega, ?_⟩
          intro heq
          exact (hcov (by omega)).meet (List.pairwise_cons.mp hes).1 he
        · simp only [Row.meet, if_neg he, List.length_append, List.length_replicate,
            List.length_nil, List.length_cons] at hle hcov ⊢
          exact ⟨by omega, by omega⟩
    · have hnil : list.drop (st.i + st.added) = [] := List.drop_eq_nil_of_le hge
      rw [hnil, columns, if_neg (not_lt.mpr hge)]
      exact ⟨le_rfl, fun _ => by rintro q ⟨⟩⟩

/-- An entry that covers what is left of the list gets exactly its cells. -/
theorem columns_covered (past : ℕ → ℤ) (fn : PortStats → BitVec 64)
    (hlist : list.Pairwise (· < ·)) (es : List PortStats) :
    ∀ (st : Row), es.Pairwise (fun e f => e.port < f.port) → st.i + st.added ≤ list.length →
    Covers (list.drop (st.i + st.added)) es → (∀ k ∈ st.reads, k < list.length) →
    (columns list past fn es st).cells =
      st.cells ++ (list.drop (st.i + st.added)).map (cell es fn) ∧
    ∀ k ∈ (columns list past fn es st).reads, k < list.length := by
  induction es with
  | nil =>
    intro st _ _ hcov hreads
    have hnil : list.drop (st.i + st.added) = [] := by
      by_contra hne
      obtain ⟨⟨e, he, -⟩, -⟩ := hcov _ (List.getLast?_eq_getLast_of_ne_nil hne)
      cases he
    rw [hnil, List.map_nil, List.append_nil]
    exact ⟨rfl, hreads⟩
  | cons e es ih =>
    intro st hes hk hcov hreads
    rcases Nat.lt_or_ge (st.i + st.added) list.length with hlt | hge
    · have hes' := (List.pairwise_cons.mp hes).1
      rcases columns_cons past fn e es hlt with
        ⟨-, hbad⟩ | ⟨smaller, q, qs, hd, hsm, hq, hcol⟩
      · have hne : list.drop (st.i + st.added) ≠ [] := by
          rw [Ne, List.drop_eq_nil_iff]
          omega
        exact absurd hcov (Covers.not_above hne hes' hbad)
      · have hsub : (smaller ++ q :: qs).Pairwise (· < ·) := hd ▸ hlist.drop
        have hdm := drop_meet fn e hd
        have hlen : smaller.length + (qs.length + 1) = list.length - (st.i + st.added) := by
          rw [← List.length_drop, hd, List.length_append, List.length_cons]
        rw [hd] at hcov ⊢
        obtain ⟨he, hcov'⟩ := hcov.of_meet hsub hes' hsm hq
        rw [hcol, map_cell_meet hsub hes' hsm he]
        have hreads' : ∀ k ∈ (st.meet fn e q smaller.length).reads, k < list.length := by
          intro k hk
          simp only [Row.meet, List.mem_append, List.mem_range'_1, List.mem_singleton] at hk
          rcases hk with (hk | hk) | hk
          · exact hreads k hk
          · omega
          · omega
        have hrec := ih (st.meet fn e q smaller.length) (List.pairwise_cons.mp hes).2
          (by simp only [Row.meet]; omega) (by rwa [hdm]) hreads'
        rw [hdm] at hrec
        refine ⟨?_, hrec.2⟩
        rw [hrec.1, Row.meet, if_pos he]
        simp only [List.append_assoc, List.singleton_append]
    · have hnil : list.drop (st.i + st.added) = [] := List.drop_eq_nil_of_le hge
      rw [hnil, List.map_nil, List.append_nil, columns, if_neg (not_lt.mpr hge)]
      exact ⟨rfl, hreads⟩

theorem rowRight_iff_covers (past : ℕ → ℤ) (fn : PortStats → BitVec 64)
    (hlist : list.Pairwise (· < ·)) (hpstats : pstats.Pairwise (fun e f => e.port < f.port)) :
    RowRight list past pstats fn ↔ Covers list pstats := by
  constructor
  · rintro ⟨hcells, hreads⟩
    have h := (columns_le pstats ⟨0, 0, [], []⟩ hpstats (Nat.zero_le _) hreads).2
    refine h ?_
    rw [fmtPort] at hcells
    rw [hcells]
    simp
  · intro hcov
    have h := columns_covered past fn hlist pstats ⟨0, 0, [], []⟩ hpstats
      (Nat.zero_le _) hcov (by simp)
    exact h

/-- A row is right exactly if the entry has the last port of the list and no port below it that the
    list has not. -/
theorem row_right_iff (list : List ℤ) (past : ℕ → ℤ) (pstats : List PortStats)
    (fn : PortStats → BitVec 64) (hlist : list.Pairwise (· < ·))
    (hpstats : pstats.Pairwise (fun e f => e.port < f.port)) :
    RowRight list past pstats fn ↔ Covers list pstats :=
  rowRight_iff_covers past fn hlist hpstats

theorem row_right_iff_two : RowRight [80, 443] (fun _ => 0) [⟨80, 1, 2⟩, ⟨443, 3, 4⟩] usersCb :=
  (row_right_iff [80, 443] (fun _ => 0) [⟨80, 1, 2⟩, ⟨443, 3, 4⟩] usersCb (by decide)
    (by decide)).mpr (by unfold Covers; decide)

/-- Three entries go wrong: a port the list has not leaves its neighbour's column without a cell, an
    entry that ends early ends the row, and one beyond the list has the place behind it read. -/
theorem rows_wrong :
    ¬RowRight [443] (fun _ => 0) [⟨80, 1, 2⟩, ⟨443, 3, 4⟩] usersCb ∧
      (fmtPort [443] (fun _ => 0) [⟨80, 1, 2⟩, ⟨443, 3, 4⟩] usersCb).cells = [] ∧
      (fmtPort [80, 443] (fun _ => 0) [⟨80, 1, 2⟩] usersCb).cells = [1] ∧
      2 ∈ (fmtPort [80, 443] (fun _ => 0) [⟨8080, 1, 2⟩] usersCb).reads := by
  have hcells : (fmtPort [443] (fun _ => 0) [⟨80, 1, 2⟩, ⟨443, 3, 4⟩] usersCb).cells = [] := by
    simp [fmtPort, columns, advance, portAt]
  refine ⟨?_, hcells, ?_, ?_⟩
  · rintro ⟨h, -⟩
    rw [hcells] at h
    cases h
  · simp [fmtPort, columns, advance, portAt, usersCb]
  · simp [fmtPort, columns, advance, portAt]

end Telex.Httpd
