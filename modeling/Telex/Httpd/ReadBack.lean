import Telex.Httpd.Log
import Telex.Httpd.Stats
import Mathlib.Data.List.Induction

/-! Reading the statistics file back: `httpd_log_to_js` on what `httpd_log` wrote

    The reader takes a line's bytes up and down into 32 bits where the writer has 64, and a line cut
    in its triples still says how many there were. After either the file no longer says what was
    logged; without them it does, line by line, whatever the reader's memory held before. -/

namespace Telex.Httpd
open CText

/-! ### What the reader should be told -/

/-- A formatter's arguments are the numbers logged. -/
structure Matches (e : Entry) (l : Line) : Prop where
  time : e.utime = l.time
  totConns : e.totConns = l.numConnections
  uniqueClients : e.uniqueClients = l.uniqueClients
  up : e.upBytes.toNat = l.sinceLastUp.toNat
  down : e.downBytes.toNat = l.sinceLastDown.toNat
  activeConns : e.activeConns = l.activeConnections
  totUp : e.totUp = l.upBytes
  totDown : e.totDown = l.downBytes
  totalConns : e.totalConns = l.totalConnections
  pstats : e.pstats = l.pstats

/-- Whatever memory held before, a reader whose window covers the lines is told each of them once,
    in order. -/
def ReadBack (ls : List Line) : Prop :=
  ∀ (q : Query) (fresh : ℕ → ℕ → PortStats) (v : Vars), q.every = 1 →
    (∀ l ∈ ls, q.now - q.timeDiff ≤ l.time) →
    ∃ fuel calls, httpdLogToJs q fresh v (file ls) fuel = some calls ∧
      List.Forall₂ Matches calls ls

/-- The bytes of the interval fit the reader's variables. -/
def Line.Narrow (l : Line) : Prop := l.sinceLastUp.toNat < 2 ^ 32 ∧ l.sinceLastDown.toNat < 2 ^ 32

/-! ### Reading a line -/

variable {q : Query} {fresh : ℕ → ℕ → PortStats} {r r' : Reader}

/-- What the reader's variables hold after a line's first ten numbers. -/
def Line.vars (l : Line) : Vars :=
  ⟨l.time, l.numConnections, l.uniqueClients, l.sinceLastUp.setWidth 32,
    l.sinceLastDown.setWidth 32, l.activeConnections, l.upBytes, l.downBytes, l.totalConnections,
    l.numPorts⟩

theorem store_counters (v : Vars) (l : Line) :
    v.store (l.counters ++ [l.numPorts.toInt]) = l.vars := by
  have h32 : ∀ x : BitVec 32, toWord 32 x.toInt = x := toWord_toInt (by decide)
  have h64 : ∀ x : BitVec 64, toWord 64 x.toInt = x := toWord_toInt (by decide)
  have hlow : ∀ x : BitVec 64, toWord 32 x.toInt = x.setWidth 32 := toWord_long (by decide)
  simp [Vars.store, stored, Line.counters, Line.vars, h32, h64, hlow]

theorem numPorts_toNat (l : Line) : l.numPorts.toNat = l.pstats.length := by
  have := l.small
  rw [Line.numPorts, BitVec.toNat_ofNat, Nat.mod_eq_of_lt (by omega)]

theorem store_triple (old p : PortStats) (hp : ∃ port : BitVec 32, p.port = port.toInt) :
    old.store p.triple = p := by
  obtain ⟨port, hport⟩ := hp
  have h32 : toWord 32 port.toInt = port := toWord_toInt (by decide) port
  have h64 : ∀ x : BitVec 64, toWord 64 x.toInt = x := toWord_toInt (by decide)
  cases p
  simp_all [PortStats.store, stored, PortStats.triple]

/-- The triples of a line are read back. -/
theorem readPorts_remains {mem : ℕ → PortStats} {c : Char} (hc : c.isDigit = false) (t : Text)
    (ps : List PortStats) : ∀ i : ℕ, (∀ p ∈ ps, ∃ port : BitVec 32, p.port = port.toInt) →
    readPorts mem ps.length i (remains c t (ps.flatMap PortStats.triple)) = some (ps, c :: t) := by
  induction ps with
  | nil => exact fun _ _ => rfl
  | cons p ps ih =>
    intro i hps
    have hscan : fscanf 3 (remains c t ((p :: ps).flatMap PortStats.triple)) =
        ⟨p.triple, false, remains c t (ps.flatMap PortStats.triple)⟩ := by
      rw [List.flatMap_cons, PortStats.triple, List.cons_append, remains,
        fscanf_space (by decide) (by decide)]
      exact fscanf_joined p.triple (ps.flatMap PortStats.triple) hc t (List.cons_ne_nil _ _)
    rw [List.length_cons, readPorts]
    simp only [hscan, Bool.false_eq_true, if_false,
      ih (i + 1) fun e he => hps e (List.mem_cons_of_mem _ he),
      store_triple (mem i) p (hps p (List.mem_cons_self ..))]
    rfl

/-- A turn that reads a line's first ten numbers goes by its triples. -/
theorem turn_header {l : Line} {s : Text} (hevery : q.every = 1)
    (hcover : q.now - q.timeDiff ≤ l.time)
    (hscan : fscanf 10 r.rest = ⟨l.counters ++ [l.numPorts.toInt], false, s⟩) :
    turn q fresh r = (readPorts (fresh r.mallocs) l.pstats.length 0 s).elim (.returned r.calls)
      fun read => .go ⟨l.vars, 0, r.mallocs + 1, read.2, r.calls ++ [l.vars.entry read.1]⟩ := by
  rw [turn]
  simp only [hscan, Bool.false_eq_true, if_false, store_counters]
  rw [show l.vars.numPorts = l.numPorts from rfl, numPorts_toNat]
  cases readPorts (fresh r.mallocs) l.pstats.length 0 s with
  | none => rfl
  | some read =>
    have hin : ¬l.vars.utime < q.now - q.timeDiff := BitVec.not_lt.mpr hcover
    simp only [Option.elim]
    rw [if_neg hin, if_neg (by omega)]

/-- A line that fits is read in one turn. -/
theorem turn_fits (fresh : ℕ → ℕ → PortStats) {l : Line} {gap t : Text} (hevery : q.every = 1)
    (hcover : q.now - q.timeDiff ≤ l.time) (hfits : l.Fits) (hgap : ∀ d ∈ gap, isSpace d = true)
    (hrest : r.rest = gap ++ (l.syslogMsg ++ '\n' :: t)) :
    ∃ gap', (∀ d ∈ gap', isSpace d = true) ∧ turn q fresh r =
      .go ⟨l.vars, 0, r.mallocs + 1, gap' ++ t, r.calls ++ [l.vars.entry l.pstats]⟩ := by
  obtain ⟨c, gap', hc, hgap', htext⟩ := syslogMsg_fits hfits t
  have hcd := not_isDigit_of_isSpace hc
  have hscan : fscanf 10 r.rest = ⟨l.counters ++ [l.numPorts.toInt], false,
      remains c (gap' ++ t) (l.pstats.flatMap PortStats.triple)⟩ := by
    rw [hrest, fscanf_spaces (by decide) hgap, htext, Line.numbers]
    exact fscanf_joined (l.counters ++ [l.numPorts.toInt]) _ hcd _ (List.cons_ne_nil _ _)
  refine ⟨c :: gap', ?_, ?_⟩
  · intro d hd
    rcases List.mem_cons.mp hd with rfl | hd
    · exact hc
    · exact hgap' d hd
  · rw [turn_header hevery hcover hscan, readPorts_remains hcd _ l.pstats 0 l.ports]
    rfl

/-- Lines that fit are read one a turn, up to what follows them. -/
theorem run_fits (hevery : q.every = 1) (ls : List Line) : ∀ {r : Reader} {gap t : Text},
    (∀ l ∈ ls, q.now - q.timeDiff ≤ l.time) → (∀ l ∈ ls, l.Fits) →
    (∀ d ∈ gap, isSpace d = true) → r.rest = gap ++ (file ls ++ t) →
    ∃ r' gap', (∀ fuel, run q fresh (ls.length + fuel) r = run q fresh fuel r') ∧
      (∀ d ∈ gap', isSpace d = true) ∧ r'.rest = gap' ++ t ∧
      r'.calls = r.calls ++ ls.map fun l => l.vars.entry l.pstats := by
  induction ls with
  | nil =>
    intro r gap t _ _ hgap hrest
    refine ⟨r, gap, ?_, hgap, hrest, (List.append_nil _).symm⟩
    intro fuel
    rw [List.length_nil, Nat.zero_add]
  | cons l ls ih =>
    intro r gap t hcover hfits hgap hrest
    have htext : r.rest = gap ++ (l.syslogMsg ++ '\n' :: (file ls ++ t)) := by
      rw [hrest, file, List.flatMap_cons, ← file]
      simp only [List.append_assoc, List.cons_append, List.nil_append]
    obtain ⟨gap₁, hgap₁, hturn⟩ := turn_fits fresh hevery
      (hcover l (List.mem_cons_self ..)) (hfits l (List.mem_cons_self ..)) hgap htext
    obtain ⟨r', gap', hrun, hgap', hrest', hcalls⟩ := @ih
      ⟨l.vars, 0, r.mallocs + 1, gap₁ ++ (file ls ++ t), r.calls ++ [l.vars.entry l.pstats]⟩ gap₁ t
        (fun m hm => hcover m (List.mem_cons_of_mem _ hm))
        (fun m hm => hfits m (List.mem_cons_of_mem _ hm)) hgap₁ rfl
    refine ⟨r', gap', ?_, hgap', hrest', ?_⟩
    · intro fuel
      rw [List.length_cons, Nat.add_right_comm, run, hturn]
      exact hrun fuel
    · rw [hcalls, List.append_assoc, List.map_cons, List.singleton_append]

theorem run_end {gap : Text} (hgap : ∀ d ∈ gap, isSpace d = true) (hrest : r.rest = gap) (fuel : ℕ) :
    run q fresh (fuel + 1) r = some r.calls := by
  have hscan : fscanf 10 r.rest = ⟨[], true, []⟩ := by
    have h := fscanf_spaces (n := 10) (by decide) hgap []
    rw [List.append_nil, ← hrest] at h
    rw [h, fscanf_nil (by decide)]
  have hturn : turn q fresh r = .returned r.calls := by
    rw [turn]
    simp only [hscan, if_true]
  rw [run, hturn]

theorem run_mono {fuel : ℕ} {calls : List Entry} : ∀ {r : Reader} (k : ℕ),
    run q fresh fuel r = some calls → run q fresh (fuel + k) r = some calls := by
  induction fuel with
  | zero =>
    intro r k h
    cases h
  | succ fuel ih =>
    intro r k h
    rw [Nat.add_right_comm, run]
    rw [run] at h
    cases ht : turn q fresh r with
    | go r' =>
      rw [ht] at h
      exact ih k h
    | returned calls' =>
      rw [ht] at h
      exact h

theorem calls_of_turn :
    (∀ calls, turn q fresh r = .returned calls → calls = r.calls) ∧
      ∀ r', turn q fresh r = .go r' → r.calls <+: r'.calls := by
  rw [turn]
  simp only
  split
  · exact ⟨fun _ h => (Turn.returned.inj h).symm, fun _ h => by cases h⟩
  · split
    · exact ⟨fun _ h => (Turn.returned.inj h).symm, fun _ h => by cases h⟩
    · refine ⟨fun _ h => ?_, fun r' h => ?_⟩
      · split_ifs at h
      · split_ifs at h <;> obtain rfl := Turn.go.inj h
        · exact List.prefix_rfl
        · exact List.prefix_rfl
        · exact List.prefix_append _ _

/-- Calls are only added. -/
theorem calls_of_run {calls : List Entry} (fuel : ℕ) : ∀ {r : Reader},
    run q fresh fuel r = some calls → r.calls <+: calls := by
  induction fuel with
  | zero =>
    intro r h
    cases h
  | succ fuel ih =>
    intro r h
    rw [run] at h
    cases ht : turn q fresh r with
    | go r' =>
      rw [ht] at h
      exact (calls_of_turn.2 r' ht).trans (ih h)
    | returned calls' =>
      rw [ht] at h
      obtain rfl : calls' = calls := Option.some.inj h
      obtain rfl := calls_of_turn.1 calls' ht
      exact List.prefix_rfl

/-! ### Reading a line that was cut -/

/-- Nothing of an entry is there by chance. -/
structure Differs (old p : PortStats) : Prop where
  port : old.port ≠ p.port
  usersSize : old.usersSize ≠ p.usersSize
  connections : old.connections ≠ p.connections

theorem stored_ne {w : ℕ} (hw : w ≤ 64) {items : List ℤ} {k : ℕ} {old x : BitVec w} (hold : old ≠ x)
    (hnear : ∀ z ∈ items[k]?, Nearer z x.toInt) : stored items k old ≠ x := by
  rw [stored]
  cases hz : items[k]? with
  | none => exact hold
  | some z => exact toWord_ne hw (hnear z hz)

/-- A triple cut short is not read back. -/
theorem store_cut {old p : PortStats} (hp : ∃ port : BitVec 32, p.port = port.toInt)
    (hold : Differs old p) {cut more : Text} {c : Char} (h : joined p.triple = cut ++ more)
    (hm : more ≠ []) (hc : isSpace c = true) : old.store (fscanf 3 (cut ++ [c])).items ≠ p := by
  obtain ⟨port, hport⟩ := hp
  obtain ⟨k, z, hk, hnear⟩ := fscanf_cut p.triple h hm hc
  rw [show p.triple.length = 3 from rfl] at hnear
  intro heq
  rcases k with _ | _ | _ | k
  · obtain rfl : p.port = z := Option.some.inj hk
    have hst := congrArg PortStats.port heq
    rw [PortStats.store] at hst
    simp only at hst
    cases hz : (fscanf 3 (cut ++ [c])).items[0]? with
    | none =>
      rw [hz] at hst
      exact hold.port hst
    | some z =>
      rw [hz, hport] at hst
      rw [hport] at hnear
      exact toWord_ne (by decide) (hnear z hz) (BitVec.eq_of_toInt_eq hst)
  · obtain rfl : p.usersSize.toInt = z := Option.some.inj hk
    exact stored_ne (by decide) hold.usersSize hnear (congrArg PortStats.usersSize heq)
  · obtain rfl : p.connections.toInt = z := Option.some.inj hk
    exact stored_ne (by decide) hold.connections hnear (congrArg PortStats.connections heq)
  · cases hk

theorem readPorts_space {mem : ℕ → PortStats} {n : ℕ} (hn : 0 < n) {i : ℕ} {c : Char}
    (hc : isSpace c = true) (s : Text) : readPorts mem n i (c :: s) = readPorts mem n i s := by
  obtain ⟨n, rfl⟩ : ∃ k, n = k + 1 := ⟨n - 1, by omega⟩
  rw [readPorts, readPorts, fscanf_space (by decide) hc]

/-- A line cut short in its triples is not read back. -/
theorem readPorts_cut {mem : ℕ → PortStats} {c : Char} (hc : isSpace c = true)
    (ps : List PortStats) : ∀ {i : ℕ} {cut more : Text},
    (∀ p ∈ ps, ∃ port : BitVec 32, p.port = port.toInt) →
    (∀ k p, ps[k]? = some p → Differs (mem (i + k)) p) →
    joined (ps.flatMap PortStats.triple) = cut ++ more → more ≠ [] →
    ∀ read rest, readPorts mem ps.length i (cut ++ [c]) = some (read, rest) → read ≠ ps := by
  induction ps with
  | nil =>
    intro i cut more _ _ h hm
    exact absurd (List.append_eq_nil_iff.mp h.symm).2 hm
  | cons p ps ih =>
    intro i cut more hps hmem h hm read rest hread heq
    have hcd := not_isDigit_of_isSpace hc
    have hp := hps p (List.mem_cons_self ..)
    have htail : ∀ {cut' more' : Text}, joined (ps.flatMap PortStats.triple) = cut' ++ more' →
        more' ≠ [] → ∀ read rest,
        readPorts mem ps.length (i + 1) (cut' ++ [c]) = some (read, rest) → read ≠ ps := by
      refine fun h' hm' => ih (fun e he => hps e (List.mem_cons_of_mem _ he)) ?_ h' hm'
      intro k e hk
      rw [Nat.add_assoc, Nat.add_comm 1]
      exact hmem (k + 1) e hk
    rw [List.length_cons, readPorts] at hread
    simp only at hread
    split at hread
    · cases hread
    · obtain ⟨⟨ps', rest'⟩, hrec, hres⟩ := Option.bind_eq_some_iff.mp hread
      obtain ⟨rfl, -⟩ := Prod.mk.inj (Option.some.inj hres)
      obtain ⟨hhead, rfl⟩ := List.cons.inj heq
      have hz : p.triple ≠ [] := List.cons_ne_nil _ _
      rcases joined_cut hz h hm with ⟨lost, hl, hcut⟩ | ⟨hne, rfl | ⟨cut', rfl, hcut'⟩⟩
      · exact store_cut hp (hmem 0 p rfl) hcut hl hc hhead
      · have hscan := fscanf_joined p.triple [] hcd [] hz
        rw [List.append_nil, show p.triple.length = 3 from rfl] at hscan
        rw [hscan] at hrec
        exact htail (List.nil_append _).symm (joined_ne_nil hne) _ _ hrec rfl
      · have hscan := fscanf_joined p.triple [] (c := ' ') (by decide) (cut' ++ [c]) hz
        rw [List.append_nil, show p.triple.length = 3 from rfl] at hscan
        have hpos : 0 < ps'.length := by
          rw [List.length_pos_iff]
          rintro rfl
          exact hne rfl
        rw [List.append_assoc, List.cons_append, hscan, remains,
          readPorts_space hpos (by decide)] at hrec
        exact htail hcut' hm _ _ hrec rfl

/-! ### The whole file -/

/-- What the formatter gets of a line that fits is right exactly if the bytes fit. -/
theorem matches_iff (l : Line) : Matches (l.vars.entry l.pstats) l ↔ l.Narrow := by
  have hlow : ∀ x : BitVec 64, (x.setWidth 32).toNat = x.toNat ↔ x.toNat < 2 ^ 32 := by
    intro x
    rw [BitVec.toNat_setWidth]
    omega
  constructor
  · intro h
    exact ⟨(hlow _).mp h.up, (hlow _).mp h.down⟩
  · rintro ⟨hup, hdown⟩
    exact ⟨rfl, rfl, rfl, (hlow _).mpr hup, (hlow _).mpr hdown, rfl, rfl, rfl, rfl, rfl⟩

/-- The calls made for lines that fit. -/
theorem httpdLogToJs_fits {ls : List Line} (hfits : ∀ l ∈ ls, l.Fits) (v : Vars)
    (hevery : q.every = 1) (hcover : ∀ l ∈ ls, q.now - q.timeDiff ≤ l.time) :
    httpdLogToJs q fresh v (file ls) (ls.length + 1) =
      some (ls.map fun l => l.vars.entry l.pstats) := by
  obtain ⟨r', gap, hrun, hgap, hrest, hr'⟩ := @run_fits q fresh hevery ls
    ⟨v, 0, 0, file ls, []⟩ [] [] hcover hfits (by simp) (by simp)
  rw [List.append_nil] at hrest
  rw [httpdLogToJs, hrun 1, run_end hgap hrest 0, hr', List.nil_append]

theorem zero_le_time (l : Line) : (0 : BitVec 32) - 0 ≤ l.time := Nat.zero_le l.time.toNat

/-- Lines that fit are read back exactly if their bytes fit. -/
theorem readBack_iff_of_fits {ls : List Line} (hfits : ∀ l ∈ ls, l.Fits) :
    ReadBack ls ↔ ∀ l ∈ ls, l.Narrow := by
  constructor
  · intro h l hl
    obtain ⟨fuel, calls, hrun, hmatch⟩ := h ⟨0, 0, 1⟩ (fun _ _ => ⟨0, 0, 0⟩) l.vars rfl
      fun l _ => zero_le_time l
    have hmap := @httpdLogToJs_fits ⟨0, 0, 1⟩ (fun _ _ => ⟨0, 0, 0⟩) ls hfits l.vars rfl
      fun l _ => zero_le_time l
    have heq : some calls = some (ls.map fun l => l.vars.entry l.pstats) := by
      rw [httpdLogToJs] at hrun hmap
      rw [← run_mono (ls.length + 1) hrun, ← run_mono fuel hmap, Nat.add_comm]
    obtain rfl := Option.some.inj heq
    rw [List.forall₂_map_left_iff, List.forall₂_same] at hmatch
    exact (matches_iff l).mp (hmatch l hl)
  · intro h q fresh v hevery hcover
    refine ⟨ls.length + 1, _, httpdLogToJs_fits hfits v hevery hcover, ?_⟩
    rw [List.forall₂_map_left_iff, List.forall₂_same]
    exact fun l hl => (matches_iff l).mpr (h l hl)

/-- Memory in which nothing is right by chance. -/
def spoil (ps : List PortStats) (i : ℕ) : PortStats :=
  (ps[i]?).elim ⟨0, 0, 0⟩ fun p =>
    ⟨if p.port = 0 then 1 else 0, p.usersSize + 1, p.connections + 1⟩

theorem differs_spoil {ps : List PortStats} {i : ℕ} {p : PortStats} (h : ps[i]? = some p) :
    Differs (spoil ps i) p := by
  rw [spoil, h]
  refine ⟨?_, by simp, by simp⟩
  simp only [Option.elim]
  split <;> omega

/-- Of a line that does not fit the reader makes no call or a wrong one. -/
theorem turn_cut (q : Query) {l : Line} (hl : ¬l.Fits) {gap : Text} (hgap : ∀ d ∈ gap, isSpace d = true)
    (hrest : r.rest = gap ++ (l.syslogMsg ++ ['\n'])) (hevery : q.every = 1)
    (hcover : q.now - q.timeDiff ≤ l.time) :
    turn q (fun _ => spoil l.pstats) r = .returned r.calls ∨
      ∃ r' read, turn q (fun _ => spoil l.pstats) r = .go r' ∧
        r'.calls = r.calls ++ [l.vars.entry read] ∧ read ≠ l.pstats := by
  obtain ⟨cut, more, hm, hmsg, hcut⟩ := syslogMsg_cut hl
  have hscan : fscanf 10 r.rest =
      ⟨l.counters ++ [l.numPorts.toInt], false, ' ' :: (cut ++ ['\n'])⟩ := by
    have h := fscanf_joined (l.counters ++ [l.numPorts.toInt]) [] (c := ' ') (by decide)
      (cut ++ ['\n']) (List.cons_ne_nil _ _)
    rw [List.append_nil] at h
    rw [hrest, fscanf_spaces (by decide) hgap, hmsg, List.append_assoc, List.cons_append]
    exact h
  have hpos : 0 < l.pstats.length := by
    rw [List.length_pos_iff]
    intro hnil
    rw [hnil] at hcut
    exact hm (List.append_eq_nil_iff.mp hcut.symm).2
  rw [turn_header hevery hcover hscan, readPorts_space hpos (by decide)]
  cases hread : readPorts (spoil l.pstats) l.pstats.length 0 (cut ++ ['\n']) with
  | none => exact .inl rfl
  | some read =>
    refine .inr ⟨_, read.1, rfl, rfl, ?_⟩
    refine readPorts_cut (by decide) l.pstats l.ports ?_ hcut hm read.1 read.2 hread
    intro k p hk
    rw [Nat.zero_add]
    exact differs_spoil hk

/-- A last line that does not fit is not read back. -/
theorem not_readBack_of_cut {ls : List Line} {l : Line} (hfits : ∀ l ∈ ls, l.Fits)
    (hl : ¬l.Fits) : ¬ReadBack (ls ++ [l]) := by
  intro h
  obtain ⟨fuel, calls, hrun, hmatch⟩ := h ⟨0, 0, 1⟩ (fun _ => spoil l.pstats) l.vars rfl
    fun l _ => zero_le_time l
  have hfile : file (ls ++ [l]) = [] ++ (file ls ++ (l.syslogMsg ++ ['\n'])) := by
    simp [file]
  obtain ⟨r, gap, hturns, hgap, hrest, hcalls⟩ := @run_fits ⟨0, 0, 1⟩ (fun _ => spoil l.pstats) rfl
    ls ⟨l.vars, 0, 0, file (ls ++ [l]), []⟩ [] _ (fun l _ => zero_le_time l) hfits (by simp) hfile
  rw [List.nil_append] at hcalls
  have hlen := hmatch.length_eq
  rw [List.length_append, List.length_singleton] at hlen
  have hr := run_mono (ls.length + 1) hrun
  rw [Nat.add_left_comm, hturns, run] at hr
  rcases turn_cut ⟨0, 0, 1⟩ hl hgap hrest rfl (zero_le_time l) with hret | ⟨r', read, hgo, hr', hne⟩
  · rw [hret] at hr
    obtain rfl : r.calls = calls := Option.some.inj hr
    rw [hcalls, List.length_map] at hlen
    omega
  · rw [hgo] at hr
    have hpre := calls_of_run fuel hr
    obtain rfl : r'.calls = calls := hpre.eq_of_length (by
      rw [hlen, hr', hcalls, List.length_append, List.length_map, List.length_singleton])
    rw [hr', hcalls] at hmatch
    have hlast := List.forall₂_drop_append _ _ _ hmatch
    rw [List.drop_left' (List.length_map ..)] at hlast
    exact hne (List.forall₂_cons.mp hlast).1.pstats

/-- Every line of a file that was read back after each of them fits. -/
theorem fits_of_readBack (ls : List Line) (h : ∀ k, ReadBack (ls.take k)) : ∀ l ∈ ls, l.Fits := by
  induction ls using List.reverseRecOn with
  | nil =>
    intro l hl
    cases hl
  | append_singleton ls l ih =>
    have hls : ∀ m ∈ ls, m.Fits := by
      refine ih fun k => ?_
      rcases Nat.le_total k ls.length with hk | hk
      · rw [← List.take_append_of_le_length hk]
        exact h k
      · have hwhole := h ls.length
        rw [List.take_left] at hwhole
        rwa [List.take_of_length_le hk]
    have hl : l.Fits := by
      by_contra hl
      have hall := h (ls ++ [l]).length
      rw [List.take_length] at hall
      exact not_readBack_of_cut hls hl hall
    intro m hm
    rcases List.mem_append.mp hm with hm | hm
    · exact hls m hm
    · rw [List.mem_singleton.mp hm]
      exact hl

theorem logged_take (st : LogState) (snaps : List Snapshot) (k : ℕ) :
    logged st (snaps.take k) = (logged st snaps).take k := by
  induction snaps generalizing st k with
  | nil => simp [logged]
  | cons s ss ih =>
    cases k with
    | zero => rfl
    | succ k => rw [List.take_succ_cons, logged, logged, List.take_succ_cons, ih]

/-- After every call of `httpd_log` the file says what was logged, exactly if in every call the bytes
    since the last one are below `2^32` and the numbers fit the line. -/
theorem log_read_back_iff (st : LogState) (snaps : List Snapshot) :
    (∀ k, ReadBack (logged st (snaps.take k))) ↔
      ∀ l ∈ logged st snaps, l.Narrow ∧ l.Fits := by
  simp only [logged_take]
  constructor
  · intro h l hl
    have hfits := fits_of_readBack _ h
    have hall := h (logged st snaps).length
    rw [List.take_length] at hall
    exact ⟨(readBack_iff_of_fits hfits).mp hall l hl, hfits l hl⟩
  · intro h k
    have hk : ∀ l ∈ (logged st snaps).take k, l.Narrow ∧ l.Fits := fun l hl =>
      h l (List.mem_of_mem_take hl)
    exact (readBack_iff_of_fits fun l hl => (hk l hl).2).mpr fun l hl => (hk l hl).1

/-- Four gigabytes in an interval are read back as none. -/
theorem bytes_read_short : ¬ReadBack (logged ⟨0, 0⟩ [⟨1, [], 4294967296#64, 0, 0, 0, by decide⟩]) := by
  intro h
  have hfits : ∀ l ∈ logged ⟨0, 0⟩ [⟨1, [], 4294967296#64, 0, 0, 0, by decide⟩], l.Fits := by
    intro l hl
    obtain rfl := List.mem_singleton.mp hl
    exact fits_of_no_ports (by simp [httpdLog, portStats, portUsers])
  have hn := (readBack_iff_of_fits hfits).mp h _ (List.mem_cons_self ..)
  exact absurd hn.1 (by decide)

end Telex.Httpd
