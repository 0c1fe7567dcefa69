import Telex.Lib.Scan
import Telex.Httpd.Ports

/-! Writing the statistics file, `httpd_log` of `station/net/httpd.c`

    Every few seconds the connections are counted and a line of numbers goes to the file. The line is
    put together by `snprintf`, each call behind the one before, in a buffer of fixed size: what is
    beyond it is lost, with the last triples of a line of many ports. The line is then what its
    numbers print, cut at the end of the buffer. -/

namespace Telex.Httpd
open CText

/-- `MAX_PORTS` -/
def maxPorts : ℕ := 15

/-- `MAX_HTTPD_LINE_SIZE` -/
def maxHttpdLineSize : ℕ := 125 + maxPorts * 20

/-! ### Counting the connections -/

/-- What `httpd_log` reads of a `struct ConnectionState`. -/
structure Connection where
  keyPort : BitVec 32
  origH : BitVec 32

/-- An entry of `port_users`: the port and its `struct port_stats`, the clients in a set. -/
structure PortUsers where
  port : BitVec 32
  users : List (BitVec 32)
  connections : BitVec 64
  deriving DecidableEq

/-- `update_port_usage` -/
def updatePortUsage : List PortUsers → BitVec 32 → BitVec 32 → List PortUsers
  | [], keyPort, clientIp => [⟨keyPort, [clientIp], 1⟩]
  | e :: es, keyPort, clientIp =>
    if e.port = keyPort then ⟨e.port, e.users.insert clientIp, e.connections + 1⟩ :: es
    else e :: updatePortUsage es keyPort clientIp

/-- What a call of `httpd_log` finds: the time, the table `connections` in the order it is walked,
    and `stats`. The table counts its entries in an `int`. -/
structure Snapshot where
  time : BitVec 32
  connections : List Connection
  upBytes : BitVec 64
  downBytes : BitVec 64
  activeConnections : BitVec 32
  totalConnections : BitVec 32
  small : connections.length < 2 ^ 31

def uniqueClients (conns : List Connection) : List (BitVec 32) :=
  conns.foldl (fun clients st => clients.insert st.origH) []

def portUsers (conns : List Connection) : List PortUsers :=
  conns.foldl (fun table st => updatePortUsage table st.keyPort st.origH) []

def PortUsers.stats (e : PortUsers) : PortStats :=
  ⟨e.port.toInt, (BitVec.ofNat 32 e.users.length).setWidth 64, e.connections⟩

/-- The triples, `qsort`ed by port; no port is there twice, so the order of the table is forgotten. -/
def portStats (conns : List Connection) : List PortStats :=
  ((portUsers conns).map PortUsers.stats).mergeSort fun e f => decide (e.port ≤ f.port)

/-! ### A line -/

/-- The numbers of a line. -/
structure Line where
  time : BitVec 32
  numConnections : BitVec 32
  uniqueClients : BitVec 32
  sinceLastUp : BitVec 64
  sinceLastDown : BitVec 64
  activeConnections : BitVec 32
  upBytes : BitVec 64
  downBytes : BitVec 64
  totalConnections : BitVec 32
  pstats : List PortStats
  ports : ∀ p ∈ pstats, ∃ port : BitVec 32, p.port = port.toInt
  small : pstats.length < 2 ^ 31

/-- `"%d %d %d %ld %ld %d %ld %ld %d "` -/
def Line.counters (l : Line) : List ℤ :=
  [l.time.toInt, l.numConnections.toInt, l.uniqueClients.toInt, l.sinceLastUp.toInt,
    l.sinceLastDown.toInt, l.activeConnections.toInt, l.upBytes.toInt, l.downBytes.toInt,
    l.totalConnections.toInt]

def Line.numPorts (l : Line) : BitVec 32 := BitVec.ofNat 32 l.pstats.length

/-- `"%d %ld %ld "` -/
def PortStats.triple (p : PortStats) : List ℤ := [p.port, p.usersSize.toInt, p.connections.toInt]

/-- The buffer up to its end mark, and the offset. -/
structure Message where
  text : Text
  offset : ℕ

/-- A piece of the line, printed from the offset on if there is room. -/
def Message.add (m : Message) (piece : Text) : Message :=
  if m.offset ≤ maxHttpdLineSize then
    -- `snprintf` writes one character less than the room it is given, and none if there is no room
    ⟨if maxHttpdLineSize - m.offset = 0 then m.text
      else m.text.take m.offset ++ piece.take (maxHttpdLineSize - m.offset - 1),
      m.offset + piece.length⟩
  else m

/-- `syslog_msg` -/
def Line.syslogMsg (l : Line) : Text :=
  (l.pstats.foldl (fun m p => m.add (spaced p.triple))
    ((Message.add ⟨[], 0⟩ (spaced l.counters)).add (spaced [l.numPorts.toInt]))).text

/-- `static uint64_t last_up_bytes, last_down_bytes` -/
structure LogState where
  lastUpBytes : BitVec 64
  lastDownBytes : BitVec 64

theorem length_updatePortUsage_le (table : List PortUsers) (keyPort clientIp : BitVec 32) :
    (updatePortUsage table keyPort clientIp).length ≤ table.length + 1 := by
  induction table with
  | nil => exact le_rfl
  | cons e es ih =>
    rw [updatePortUsage]
    split
    · exact Nat.le_succ _
    · exact Nat.succ_le_succ ih

theorem length_portUsers_le (conns : List Connection) : (portUsers conns).length ≤ conns.length := by
  have h : ∀ table : List PortUsers, (conns.foldl (fun table st =>
      updatePortUsage table st.keyPort st.origH) table).length ≤ table.length + conns.length := by
    induction conns with
    | nil => exact fun _ => le_rfl
    | cons st conns ih =>
      intro table
      have hrec := ih (updatePortUsage table st.keyPort st.origH)
      have hlen := length_updatePortUsage_le table st.keyPort st.origH
      rw [List.foldl_cons, List.length_cons]
      omega
  have h0 := h []
  rwa [List.length_nil, Nat.zero_add] at h0

theorem length_portStats (conns : List Connection) :
    (portStats conns).length = (portUsers conns).length := by
  rw [portStats, List.length_mergeSort, List.length_map]

theorem port_of_mem_portStats {conns : List Connection} {p : PortStats} (h : p ∈ portStats conns) :
    ∃ port : BitVec 32, p.port = port.toInt := by
  rw [portStats, List.mem_mergeSort, List.mem_map] at h
  obtain ⟨e, -, rfl⟩ := h
  exact ⟨e.port, rfl⟩

theorem map_port_updatePortUsage (table : List PortUsers) (keyPort clientIp : BitVec 32) :
    (updatePortUsage table keyPort clientIp).map PortUsers.port =
      if keyPort ∈ table.map PortUsers.port then table.map PortUsers.port
      else table.map PortUsers.port ++ [keyPort] := by
  induction table with
  | nil => rfl
  | cons e es ih =>
    rw [updatePortUsage]
    by_cases he : e.port = keyPort
    · simp [he]
    · simp only [if_neg he, List.map_cons, ih, List.mem_cons, Ne.symm he, false_or]
      split <;> rfl

theorem nodup_portUsers (conns : List Connection) :
    ((portUsers conns).map PortUsers.port).Nodup := by
  have h : ∀ table : List PortUsers, (table.map PortUsers.port).Nodup → ((conns.foldl (fun table st =>
      updatePortUsage table st.keyPort st.origH) table).map PortUsers.port).Nodup := by
    induction conns with
    | nil => exact fun _ h => h
    | cons st conns ih =>
      intro table htable
      refine ih _ ?_
      rw [map_port_updatePortUsage]
      split
      · exact htable
      · rename_i hport
        exact htable.append (List.nodup_singleton _) (by simpa using hport)
  exact h [] List.nodup_nil

/-- The triples are in order of their ports, no port twice, as the charts expect them. -/
theorem portStats_pairwise (conns : List Connection) :
    (portStats conns).Pairwise fun e f => e.port < f.port := by
  have hle : (portStats conns).Pairwise fun e f => decide (e.port ≤ f.port) = true :=
    List.pairwise_mergeSort (by simp; omega) (by simp; omega) _
  have hne : (portStats conns).Pairwise fun e f => e.port ≠ f.port := by
    have hn : (((portUsers conns).map PortUsers.stats).map PortStats.port).Nodup := by
      rw [List.map_map]
      have := (nodup_portUsers conns).map (f := BitVec.toInt) fun a b => BitVec.eq_of_toInt_eq
      rwa [List.map_map] at this
    rw [List.Nodup, List.pairwise_map] at hn
    exact hn.perm (List.mergeSort_perm _ _).symm fun h => h.symm
  refine (hle.and hne).imp ?_
  rintro e f ⟨h, hne⟩
  exact lt_of_le_of_ne (of_decide_eq_true h) hne

/-- The port charts of the log have the ports of its last line as columns. Both draw a row right under
    the same condition. -/
theorem chart_rows_iff (last conns : List Connection) (past : ℕ → ℤ) :
    let list := (portStats last).map PortStats.port
    (RowRight list past (portStats conns) usersCb ↔ Covers list (portStats conns)) ∧
      (RowRight list past (portStats conns) connsCb ↔ Covers list (portStats conns)) := by
  have hlist : ((portStats last).map PortStats.port).Pairwise (· < ·) :=
    List.pairwise_map.mpr (portStats_pairwise last)
  exact ⟨rowRight_iff_covers past usersCb hlist (portStats_pairwise conns),
    rowRight_iff_covers past connsCb hlist (portStats_pairwise conns)⟩

/-- `httpd_log`, the numbers it prints and the counts it keeps. -/
def httpdLog (st : LogState) (s : Snapshot) : Line × LogState :=
  (⟨s.time, BitVec.ofNat 32 s.connections.length,
    BitVec.ofNat 32 (uniqueClients s.connections).length,
    s.upBytes - st.lastUpBytes, s.downBytes - st.lastDownBytes, s.activeConnections, s.upBytes,
    s.downBytes, s.totalConnections, portStats s.connections,
    fun _ h => port_of_mem_portStats h,
    (length_portStats _).trans_le (length_portUsers_le _) |>.trans_lt s.small⟩,
    ⟨s.upBytes, s.downBytes⟩)

/-- The lines of a sequence of calls. -/
def logged : LogState → List Snapshot → List Line
  | _, [] => []
  | st, s :: ss => (httpdLog st s).1 :: logged (httpdLog st s).2 ss

/-- The statistics file, a line of text for each. -/
def file (ls : List Line) : Text := ls.flatMap fun l => l.syslogMsg ++ ['\n']

/-! ### The buffer -/

/-- All numbers of a line. -/
def Line.numbers (l : Line) : List ℤ :=
  (l.counters ++ [l.numPorts.toInt]) ++ l.pstats.flatMap PortStats.triple

/-- The numbers, with their spaces, fit the buffer; the last space may be lost. -/
def Line.Fits (l : Line) : Prop := (spaced l.numbers).length ≤ maxHttpdLineSize

/-- The buffer holds all but the end of what was printed, and the offset is beyond it if it does. -/
structure Message.Holds (m : Message) (printed : Text) : Prop where
  text : m.text = printed.take (maxHttpdLineSize - 1)
  offset : m.offset = printed.length ∨
    maxHttpdLineSize < m.offset ∧ maxHttpdLineSize < printed.length

theorem Message.Holds.add {m : Message} {printed : Text} (h : m.Holds printed) (piece : Text) :
    (m.add piece).Holds (printed ++ piece) := by
  have hsize : maxHttpdLineSize = 425 := rfl
  have htake : (printed ++ piece).take (maxHttpdLineSize - 1) =
      m.text ++ piece.take (maxHttpdLineSize - 1 - printed.length) := by
    rw [List.take_append, ← h.text]
  have hfull : maxHttpdLineSize - 1 ≤ printed.length →
      (printed ++ piece).take (maxHttpdLineSize - 1) = m.text := by
    intro hle
    rw [htake, Nat.sub_eq_zero_of_le hle, List.take_zero, List.append_nil]
  rw [Message.add]
  rcases h.offset with ho | ⟨ho, hp⟩
  · split
    · refine ⟨?_, .inl (by rw [List.length_append, ho])⟩
      simp only
      split
      · exact (hfull (by omega)).symm
      · have hm : m.text.take m.offset = m.text := by
          refine List.take_of_length_le ?_
          rw [h.text, List.length_take]
          omega
        rw [hm, htake, ho, Nat.sub_right_comm]
    · exact ⟨(hfull (by omega)).symm, .inr ⟨by omega, by rw [List.length_append]; omega⟩⟩
  · rw [if_neg (by omega)]
    exact ⟨(hfull (by omega)).symm, .inr ⟨ho, by rw [List.length_append]; omega⟩⟩

theorem Message.Holds.foldl {m : Message} {printed : Text} (h : m.Holds printed)
    (ps : List PortStats) : (ps.foldl (fun m p => m.add (spaced p.triple)) m).Holds
      (printed ++ spaced (ps.flatMap PortStats.triple)) := by
  induction ps generalizing m printed with
  | nil => exact (List.append_nil printed).symm ▸ h
  | cons p ps ih =>
    have hrec := ih (h.add (spaced p.triple))
    rwa [List.append_assoc, spaced, spaced, ← List.flatMap_append, ← List.flatMap_cons] at hrec

/-- The line is what its numbers print, cut at the end of the buffer. -/
theorem syslogMsg_eq (l : Line) : l.syslogMsg = (spaced l.numbers).take (maxHttpdLineSize - 1) := by
  have h0 : Message.Holds ⟨[], 0⟩ [] := ⟨rfl, .inl rfl⟩
  have h := ((h0.add (spaced l.counters)).add (spaced [l.numPorts.toInt])).foldl l.pstats
  rw [Line.syslogMsg, h.text, Line.numbers, List.nil_append]
  simp only [spaced, List.flatMap_append]

theorem numbers_ne_nil (l : Line) : l.numbers ≠ [] := List.cons_ne_nil _ _

/-- A line that fits is followed by white space and the next line. -/
theorem syslogMsg_fits {l : Line} (h : l.Fits) (t : Text) : ∃ c gap, isSpace c = true ∧
    (∀ d ∈ gap, isSpace d = true) ∧
    l.syslogMsg ++ '\n' :: t = joined l.numbers ++ c :: (gap ++ t) := by
  have hsize : maxHttpdLineSize = 425 := rfl
  rw [Line.Fits, spaced_eq (numbers_ne_nil l), List.length_append, List.length_singleton] at h
  rw [syslogMsg_eq, spaced_eq (numbers_ne_nil l)]
  rcases Nat.lt_or_ge (joined l.numbers).length (maxHttpdLineSize - 1) with hlt | hge
  · refine ⟨' ', ['\n'], rfl, fun d hd => List.mem_singleton.mp hd ▸ rfl, ?_⟩
    rw [List.take_of_length_le (by rw [List.length_append, List.length_singleton]; omega),
      List.append_assoc]
    rfl
  · refine ⟨'\n', [], rfl, fun d hd => absurd hd List.not_mem_nil, ?_⟩
    rw [List.take_append_of_le_length (by omega), List.take_of_length_le (by omega)]
    rfl

theorem length_header_le (l : Line) : (joined (l.counters ++ [l.numPorts.toInt])).length ≤ 210 := by
  have h32 : ∀ x : BitVec 32, (printSigned x.toInt).length ≤ 20 := length_printSigned_le (by decide)
  have h64 : ∀ x : BitVec 64, (printSigned x.toInt).length ≤ 20 := length_printSigned_le (by decide)
  have hnum : ∀ z ∈ l.counters ++ [l.numPorts.toInt], (printSigned z).length ≤ 20 := by
    simp [Line.counters, h32, h64]
  have hten : (l.counters ++ [l.numPorts.toInt]).length = 10 := rfl
  have h := length_joined_le hnum
  rwa [hten] at h

/-- A line too long is cut among its triples. -/
theorem syslogMsg_cut {l : Line} (h : ¬l.Fits) : ∃ cut more, more ≠ [] ∧
    l.syslogMsg = joined (l.counters ++ [l.numPorts.toInt]) ++ ' ' :: cut ∧
    joined (l.pstats.flatMap PortStats.triple) = cut ++ more := by
  have hsize : maxHttpdLineSize = 425 := rfl
  have hheader := length_header_le l
  rw [Line.Fits, spaced_eq (numbers_ne_nil l), List.length_append, List.length_singleton] at h
  have hmsg : l.syslogMsg = (joined l.numbers).take (maxHttpdLineSize - 1) := by
    rw [syslogMsg_eq, spaced_eq (numbers_ne_nil l), List.take_append_of_le_length (by omega)]
  have hlen : l.syslogMsg.length = maxHttpdLineSize - 1 := by
    rw [hmsg, List.length_take]
    omega
  have hsplit : joined l.numbers =
      l.syslogMsg ++ (joined l.numbers).drop (maxHttpdLineSize - 1) := by
    rw [hmsg, List.take_append_drop]
  have hm : (joined l.numbers).drop (maxHttpdLineSize - 1) ≠ [] := by
    rw [Ne, List.drop_eq_nil_iff]
    omega
  have hz : l.counters ++ [l.numPorts.toInt] ≠ [] := List.cons_ne_nil _ _
  rcases joined_cut hz hsplit hm with ⟨lost, -, hlost⟩ | ⟨-, hcut | ⟨cut, hcut, hrest⟩⟩
  · have := congrArg List.length hlost
    rw [List.length_append] at this
    omega
  · have := congrArg List.length hcut
    omega
  · exact ⟨cut, _, hm, hcut, hrest⟩

/-- A line without ports fits. -/
theorem fits_of_no_ports {l : Line} (h : l.pstats = []) : l.Fits := by
  have hlen := length_header_le l
  have hnum : l.numbers = l.counters ++ [l.numPorts.toInt] := by
    rw [Line.numbers, h, List.flatMap_nil, List.append_nil]
  rw [Line.Fits, spaced_eq (numbers_ne_nil l), hnum, List.length_append]
  exact (Nat.add_le_add_right hlen 1).trans (by decide)

end Telex.Httpd
