import Telex.Lib.Scan
import Telex.Httpd.Ports

/-! Reading the statistics file, `httpd_log_to_js` of `station/net/httpd.c`

    The loop reads a line's ten numbers, then as many triples as the tenth says, and calls a
    formatter. It stops on `EOF` and looks at no other return value, so a character no conversion
    reads is met again in every turn: the file is never read to its end and the loop never left. What
    a failed conversion leaves unassigned keeps its old value, at first that of an uninitialised
    local or of fresh memory. Memory is always granted. -/

namespace Telex.Httpd
open CText

/-- The locals `fscanf` assigns. -/
structure Vars where
  utime : BitVec 32
  totConns : BitVec 32
  uniqueClients : BitVec 32
  upBytes : BitVec 32
  downBytes : BitVec 32
  activeConns : BitVec 32
  totUp : BitVec 64
  totDown : BitVec 64
  totalConnections : BitVec 32
  numPorts : BitVec 32

/-- `HTTPD_LOG_FMT_ARGS`, less the text of the time. -/
structure Entry where
  utime : BitVec 32
  totConns : BitVec 32
  uniqueClients : BitVec 32
  upBytes : BitVec 32
  downBytes : BitVec 32
  activeConns : BitVec 32
  totUp : BitVec 64
  totDown : BitVec 64
  totalConns : BitVec 32
  pstats : List PortStats

/-- The item of a conversion, or what its variable held. -/
def stored {w : ℕ} (items : List ℤ) (k : ℕ) (old : BitVec w) : BitVec w :=
  (items[k]?).elim old (toWord w)

/-- `"%d %d %d %d %d %d %ld %ld %d %d"` -/
def Vars.store (v : Vars) (items : List ℤ) : Vars where
  utime := stored items 0 v.utime
  totConns := stored items 1 v.totConns
  uniqueClients := stored items 2 v.uniqueClients
  upBytes := stored items 3 v.upBytes
  downBytes := stored items 4 v.downBytes
  activeConns := stored items 5 v.activeConns
  totUp := stored items 6 v.totUp
  totDown := stored items 7 v.totDown
  totalConnections := stored items 8 v.totalConnections
  numPorts := stored items 9 v.numPorts

/-- `"%d %ld %ld"`; the port is an `int`. -/
def PortStats.store (p : PortStats) (items : List ℤ) : PortStats where
  port := (items[0]?).elim p.port fun z => (toWord 32 z).toInt
  usersSize := stored items 1 p.usersSize
  connections := stored items 2 p.connections

/-- The inner loop from index `i` on, `n` turns left, over memory fresh from `malloc`; nothing if it
    returned on `EOF`. -/
def readPorts (fresh : ℕ → PortStats) : ℕ → ℕ → Text → Option (List PortStats × Text)
  | 0, _, s => some ([], s)
  | n + 1, i, s =>
    let r := fscanf 3 s
    if r.eof then none
    else do
      let (pstats, rest) ← readPorts fresh n (i + 1) r.rest
      return ((fresh i).store r.items :: pstats, rest)

/-- The arguments of `httpd_log_to_js` and the time of the call. -/
structure Query where
  now : BitVec 32
  timeDiff : BitVec 32
  every : ℕ

/-- The loop's variables, the file, and the formatter's calls so far. -/
structure Reader where
  vars : Vars
  count : ℕ
  mallocs : ℕ
  rest : Text
  calls : List Entry

/-- The loop goes on, or the function has returned. -/
inductive Turn
  | go (r : Reader)
  | returned (calls : List Entry)

def Vars.entry (v : Vars) (pstats : List PortStats) : Entry :=
  ⟨v.utime, v.totConns, v.uniqueClients, v.upBytes, v.downBytes, v.activeConns, v.totUp, v.totDown,
    v.totalConnections, pstats⟩

/-- One turn of the loop. -/
def turn (q : Query) (fresh : ℕ → ℕ → PortStats) (r : Reader) : Turn :=
  let scanned := fscanf 10 r.rest
  if scanned.eof then .returned r.calls
  else
    let v := r.vars.store scanned.items
    match readPorts (fresh r.mallocs) v.numPorts.toNat 0 scanned.rest with
    | none => .returned r.calls
    | some (pstats, rest) =>
      if v.utime < q.now - q.timeDiff then .go ⟨v, r.count, r.mallocs + 1, rest, r.calls⟩
      else if r.count + 1 < q.every then .go ⟨v, r.count + 1, r.mallocs + 1, rest, r.calls⟩
      else .go ⟨v, 0, r.mallocs + 1, rest, r.calls ++ [v.entry pstats]⟩

/-- So many turns at most. -/
def run (q : Query) (fresh : ℕ → ℕ → PortStats) : ℕ → Reader → Option (List Entry)
  | 0, _ => none
  | fuel + 1, r =>
    match turn q fresh r with
    | .go r => run q fresh fuel r
    | .returned calls => some calls

/-- `httpd_log_to_js` on a file, the formatter's calls in order. -/
def httpdLogToJs (q : Query) (fresh : ℕ → ℕ → PortStats) (v : Vars) (file : Text) (fuel : ℕ) :
    Option (List Entry) :=
  run q fresh fuel ⟨v, 0, 0, file, []⟩

/-- The function returns. -/
def Terminates (q : Query) (fresh : ℕ → ℕ → PortStats) (v : Vars) (file : Text) : Prop :=
  ∃ fuel calls, httpdLogToJs q fresh v file fuel = some calls

/-! ### Turns -/

variable {q : Query} {fresh : ℕ → ℕ → PortStats} {r r' : Reader}

/-- The inner loop leaves readable text readable and no longer than it was. -/
theorem readPorts_rest {mem : ℕ → PortStats} (n : ℕ) : ∀ {i : ℕ} {s rest : Text}
    {pstats : List PortStats}, readPorts mem n i s = some (pstats, rest) →
    ((∀ c ∈ rest, readable c = true) ↔ ∀ c ∈ s, readable c = true) ∧
      ((∀ c ∈ s, readable c = true) → rest.length ≤ s.length) := by
  induction n with
  | zero =>
    intro i s rest pstats h
    obtain ⟨-, rfl⟩ := Prod.mk.inj (Option.some.inj h)
    exact ⟨Iff.rfl, fun _ => le_rfl⟩
  | succ n ih =>
    intro i s rest pstats h
    rw [readPorts] at h
    simp only at h
    split at h
    · cases h
    · rename_i heof
      obtain ⟨⟨ps, rest'⟩, hrec, heq⟩ := Option.bind_eq_some_iff.mp h
      obtain ⟨-, rfl⟩ := Prod.mk.inj (Option.some.inj heq)
      obtain ⟨hiff, hle⟩ := ih hrec
      have hsub := fscanf_readable_iff 3 s
      refine ⟨hiff.trans hsub, ?_⟩
      intro hs
      rcases fscanf_shorter (n := 3) (by decide) hs with he | hlt
      · exact absurd he heof
      · exact (hle (hsub.mpr hs)).trans hlt.le

/-- On unreadable text the inner loop runs to its end. -/
theorem readPorts_unreadable (mem : ℕ → PortStats) (n : ℕ) : ∀ {i : ℕ} {s : Text},
    ¬(∀ c ∈ s, readable c = true) → ∃ pstats rest, readPorts mem n i s = some (pstats, rest) := by
  induction n with
  | zero => exact fun _ => ⟨_, _, rfl⟩
  | succ n ih =>
    intro i s hs
    have heof := fscanf_not_eof (n := 3) hs
    rw [← fscanf_readable_iff 3] at hs
    obtain ⟨pstats, rest, hrec⟩ := ih (i := i + 1) hs
    refine ⟨(mem i).store (fscanf 3 s).items :: pstats, rest, ?_⟩
    rw [readPorts]
    simp only [heof, Bool.false_eq_true, if_false, hrec]
    rfl

/-- What a turn that goes on has done: it read a line and its triples. -/
theorem turn_go (h : turn q fresh r = .go r') : (fscanf 10 r.rest).eof = false ∧
    ∃ mem n pstats, readPorts mem n 0 (fscanf 10 r.rest).rest = some (pstats, r'.rest) := by
  rw [turn] at h
  simp only at h
  split at h
  · cases h
  · rename_i heof
    refine ⟨by simpa using heof, ?_⟩
    split at h
    · cases h
    · rename_i pstats rest hrec
      split_ifs at h <;> obtain rfl := Turn.go.inj h <;> exact ⟨_, _, pstats, hrec⟩

/-- Readable text gets shorter with every turn. -/
theorem turn_shorter (hr : ∀ c ∈ r.rest, readable c = true) (h : turn q fresh r = .go r') :
    (∀ c ∈ r'.rest, readable c = true) ∧ r'.rest.length < r.rest.length := by
  obtain ⟨heof, mem, n, pstats, hrec⟩ := turn_go h
  obtain ⟨hiff, hle⟩ := readPorts_rest n hrec
  have hs := (fscanf_readable_iff 10 r.rest).mpr hr
  refine ⟨hiff.mpr hs, (hle hs).trans_lt ?_⟩
  rcases fscanf_shorter (n := 10) (by decide) hr with he | hlt
  · rw [heof] at he
    cases he
  · exact hlt

/-- On unreadable text the loop goes on, and the text stays unreadable. -/
theorem turn_unreadable (q : Query) (fresh : ℕ → ℕ → PortStats)
    (hr : ¬∀ c ∈ r.rest, readable c = true) :
    ∃ r', turn q fresh r = .go r' ∧ ¬∀ c ∈ r'.rest, readable c = true := by
  have heof := fscanf_not_eof (n := 10) hr
  have hs := hr
  rw [← fscanf_readable_iff 10] at hs
  obtain ⟨pstats, rest, hrec⟩ := readPorts_unreadable (fresh r.mallocs)
    (r.vars.store (fscanf 10 r.rest).items).numPorts.toNat (i := 0) hs
  have hrest : ¬∀ c ∈ rest, readable c = true := by
    rw [(readPorts_rest _ hrec).1]
    exact hs
  rw [turn]
  simp only [heof, Bool.false_eq_true, if_false, hrec]
  split_ifs
  · exact ⟨_, rfl, hrest⟩
  · exact ⟨_, rfl, hrest⟩
  · exact ⟨_, rfl, hrest⟩

/-! ### Runs -/

theorem run_readable (q : Query) (fresh : ℕ → ℕ → PortStats) (n : ℕ) : ∀ {r : Reader},
    (∀ c ∈ r.rest, readable c = true) → r.rest.length ≤ n →
    ∃ calls, run q fresh (n + 1) r = some calls := by
  induction n with
  | zero =>
    intro r hr hn
    rw [run]
    cases ht : turn q fresh r with
    | go r' => exact absurd (turn_shorter hr ht).2 (by omega)
    | returned calls => exact ⟨calls, rfl⟩
  | succ n ih =>
    intro r hr hn
    rw [run]
    cases ht : turn q fresh r with
    | go r' =>
      obtain ⟨hr', hlt⟩ := turn_shorter hr ht
      exact ih hr' (by omega)
    | returned calls => exact ⟨calls, rfl⟩

theorem run_unreadable (fuel : ℕ) : ∀ {r : Reader}, (¬∀ c ∈ r.rest, readable c = true) →
    run q fresh fuel r = none := by
  induction fuel with
  | zero => exact fun _ => rfl
  | succ fuel ih =>
    intro r hr
    obtain ⟨r', hgo, hr'⟩ := turn_unreadable q fresh hr
    rw [run, hgo]
    exact ih hr'

/-- The function returns exactly on files of white space, digits and signs. -/
theorem terminates_iff (q : Query) (fresh : ℕ → ℕ → PortStats) (v : Vars) (file : Text) :
    Terminates q fresh v file ↔ ∀ c ∈ file, readable c = true := by
  constructor
  · rintro ⟨fuel, calls, hrun⟩
    by_contra hfile
    rw [httpdLogToJs, run_unreadable fuel hfile] at hrun
    cases hrun
  · intro hfile
    obtain ⟨calls, hrun⟩ := run_readable q fresh file.length
      (r := ⟨v, 0, 0, file, []⟩) hfile le_rfl
    exact ⟨_, calls, hrun⟩

/-- One letter is enough: `fscanf` returns 0 and leaves it, for ever. -/
theorem letter_loops : ¬Terminates ⟨0, 0, 1⟩ (fun _ _ => ⟨0, 0, 0⟩)
    ⟨0, 0, 0, 0, 0, 0, 0, 0, 0, 0⟩ ['x'] := by
  rintro ⟨fuel, calls, hrun⟩
  have hx : ¬∀ c ∈ ['x'], readable c = true := fun h =>
    absurd (h 'x' (List.mem_singleton_self _)) (by decide)
  rw [httpdLogToJs, run_unreadable fuel hx] at hrun
  cases hrun

end Telex.Httpd
