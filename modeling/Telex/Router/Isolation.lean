import Telex.Router.Blocker

/-! Which commands meet in the router's set

    Two flows have the same element when they agree in the source address, the source port and the
    destination address; the texts in between lose nothing else. Such flows are blocked and unblocked
    together, and others are left alone.

    The commands are those of the station's messages, and the timers' to unblock a flow. The table may
    refuse a block: the set is full, too many of its elements have the hash of the new one, or there is
    no memory. Nothing changes then, and nobody is told. -/

namespace Telex.Router
open Runs FlowBlocker

/-- The command that a callback carries out. -/
def Blocker.command (b : Blocker) : Label → Option Command
  | .recv _ recvd => fields recvd
  | .timer _ i => b.timers[i]?.map fun timer => ⟨false, timer.flow⟩

/-- The state after a callback. -/
def Blocker.after (names : Names) (b : Blocker) : Label × Mem → Blocker
  | (.recv now recvd, mem) => { onReadReady names now b recvd mem with now }
  | (.timer now i, mem) =>
    match b.timers[i]? with
    | some timer => { unblockFlow names b i timer mem with now }
    | none => b

/-- A block of a flow that is not blocked yet, for which `add_ipportip` returns an error. -/
def Refused (names : Names) (h : IpSetHash Elem) (c : Command) (mem : Mem) : Prop :=
  c.block = true ∧ c.flow.elem ∉ h.elems ∧
    (addIpportip names h (inetNtop c.flow.addr2) (ntohs c.flow.port1) (inetNtop c.flow.addr1) true
      mem).2 ≠ 0

instance (names : Names) (h : IpSetHash Elem) (c : Command) (mem : Mem) :
    Decidable (Refused names h c mem) :=
  inferInstanceAs (Decidable (_ ∧ _ ∧ _))

/-- The command of a callback, if it has one, and whether it is refused. -/
def logEntry (names : Names) (b : Blocker) (l : Label × Mem) : List (Command × Bool) :=
  (b.command l.1).toList.map fun c => (c, decide (Refused names b.ourset c l.2))

/-- The commands of some callbacks. -/
def commandLog (names : Names) : Blocker → List (Label × Mem) → List (Command × Bool)
  | _, [] => []
  | b, l :: ls => logEntry names b l ++ commandLog names (b.after names l) ls

/-- The commands without those that were refused. -/
def accepted (log : List (Command × Bool)) : List Command := (log.filter (!·.2)).map Prod.fst

/-- There is memory, and room for all these elements at once. -/
structure Spacious (h : IpSetHash Elem) (ls : List (Label × Mem)) (elems : Finset Elem) : Prop where
  granted : ∀ l ∈ ls, Granted l.2
  room : elems.card ≤ h.maxelem.toNat
  sparse : ¬CrowdedSet elemHash h.initval elems

/-- The last command on a flow that is the same as `f`: whether it is a block. -/
def lastOn (f : Flow) (cmds : List Command) : Option Bool :=
  (cmds.filter (·.flow.Same f)).getLast?.map Command.block

variable {names : Names} {h : IpSetHash Elem} {b b' : Blocker} {l : Label × Mem} {ls : List (Label × Mem)}

theorem lastOn_append (f : Flow) (cmds : List Command) (c : Command) :
    lastOn f (cmds ++ [c]) = if c.flow.Same f then some c.block else lastOn f cmds := by
  by_cases hs : c.flow.Same f <;> simp [lastOn, List.filter_append, hs]

theorem refused_iff {c : Command} {mem : Mem} (hb : c.block = true) :
    Refused names h c mem ↔
      c.flow.elem ∉ h.elems ∧ (callAd elemHash h .add c.flow.elem false mem).2.1 ≠ none := by
  have hret := addIpportip_eq_zero_iff names h c.flow true mem
  rw [if_pos rfl] at hret
  rw [Refused, and_iff_right hb, Ne, hret]

/-- Why a block is refused. -/
theorem refused_cases (hi : h.Inv elemHash) {c : Command} {mem : Mem} (href : Refused names h c mem) :
    h.maxelem.toNat ≤ h.elems.card ∨ CrowdedSet elemHash h.initval (insert c.flow.elem h.elems) ∨
      ¬Granted mem := by
  obtain ⟨hd, hret⟩ := (refused_iff href.1).mp href
  by_contra hno
  rw [not_or, not_or, not_le, not_not] at hno
  obtain ⟨hlt, hsparse, hm⟩ := hno
  rcases callAd_add_granted hi hm hlt hd false with ⟨-, hnone, -⟩ | ⟨hcrowd, -⟩
  · exact hret hnone
  · exact hsparse hcrowd

/-- Nothing is refused where there is room. -/
theorem not_refused (hi : h.Inv elemHash) {c : Command} {mem : Mem} {elems : Finset Elem}
    (hm : Granted mem) (hroom : elems.card ≤ h.maxelem.toNat)
    (hsparse : ¬CrowdedSet elemHash h.initval elems) (hsub : insert c.flow.elem h.elems ⊆ elems) :
    ¬Refused names h c mem := by
  intro href
  have hcard := (Finset.card_le_card hsub).trans hroom
  rw [Finset.card_insert_of_notMem href.2.1] at hcard
  rcases refused_cases hi href with hfull | hcrowd | hnot
  · exact absurd hcard (Nat.not_le_of_lt (Nat.lt_succ_of_le hfull))
  · exact hsparse (hcrowd.mono hsub)
  · exact hnot hm

/-- What one command does to a flow. -/
theorem mem_telexLocalModFlow (hi : h.Inv elemHash) (names : Names) (c : Command) (mem : Mem) (f : Flow) :
    f.elem ∈ (telexLocalModFlow names h c.flow c.block mem).elems ↔
      if c.flow.Same f ∧ ¬Refused names h c mem then c.block = true else f.elem ∈ h.elems := by
  obtain ⟨-, -, hspec⟩ := refines_telexLocalModFlow hi names c.flow c.block mem
  have hsame : f.elem = c.flow.elem ↔ c.flow.Same f := eq_comm.trans Flow.elem_eq_iff
  cases hb : c.block with
  | false =>
    rw [hb] at hspec
    simp only [hspec.eq_erase, Finset.mem_erase, Ne, hsame]
    by_cases hs : c.flow.Same f <;> simp [hs, Refused, hb]
  | true =>
    rw [hb, if_pos rfl] at hspec
    simp only [hspec.add_eq, refused_iff hb]
    by_cases hs : c.flow.Same f
    · rw [hsame.mpr hs]
      by_cases hd : c.flow.elem ∈ h.elems
      · simp [hs, hd]
      · by_cases hret : (callAd elemHash h .add c.flow.elem false mem).2.1 = none <;>
          simp [hs, hd, hret]
    · have hne : f.elem ≠ c.flow.elem := fun he => hs (hsame.mp he)
      simp only [hs, false_and, if_false]
      split <;> simp [hne]

/-! ### Callbacks -/

theorem step_after (hs : BlockerStep names b l b') : b' = b.after names l := by
  cases hs with
  | recv _ _ => rfl
  | timer _ ht _ => simp only [Blocker.after, ht]

/-- A callback carries out its command. -/
theorem step_command (hs : BlockerStep names b l b') :
    b'.ourset = match b.command l.1 with
      | some c => telexLocalModFlow names b.ourset c.flow c.block l.2
      | none => b.ourset := by
  cases hs with
  | @recv now recvd mem _ _ => cases hf : fields recvd <;> simp [onReadReady, Blocker.command, hf]
  | timer _ ht _ => simp [Blocker.command, ht, unblockFlow]

theorem blocked_step_iff (hi : b.ourset.Inv elemHash) (hs : BlockerStep names b l b') {c : Command}
    (hc : b.command l.1 = some c) (f : Flow) :
    b'.router.Blocked f ↔
      if c.flow.Same f ∧ ¬Refused names b.ourset c l.2 then c.block = true else b.router.Blocked f := by
  have hset := step_command hs
  rw [hc] at hset
  change f.elem ∈ b'.ourset.elems ↔ _
  rw [hset]
  exact mem_telexLocalModFlow hi names c l.2 f

theorem blocked_step_of_no_command (hs : BlockerStep names b l b') (hc : b.command l.1 = none)
    (f : Flow) : b'.router.Blocked f ↔ b.router.Blocked f := by
  have hset := step_command hs
  rw [hc] at hset
  change f.elem ∈ b'.ourset.elems ↔ _
  rw [hset]
  rfl

/-- A command on another flow leaves a flow as it is. -/
theorem blocked_step_of_not_same (hi : b.ourset.Inv elemHash) (hs : BlockerStep names b l b') {f : Flow}
    (hc : ∀ c, b.command l.1 = some c → ¬c.flow.Same f) : b'.router.Blocked f ↔ b.router.Blocked f := by
  cases hcmd : b.command l.1 with
  | none => exact blocked_step_of_no_command hs hcmd f
  | some c => rw [blocked_step_iff hi hs hcmd, if_neg fun hcs => hc c hcmd hcs.1]

/-! ### Runs -/

theorem run_after (hr : Run (BlockerStep names) b ls b') : b' = ls.foldl (Blocker.after names) b := by
  induction hr with
  | nil => rfl
  | snoc _ hs ih => rw [List.foldl_append, ← ih, step_after hs, List.foldl_cons, List.foldl_nil]

/-- The table stays well formed, and its parameters stay. -/
theorem run_params (hi : h.Inv elemHash) (hr : Run (BlockerStep names) (.init h) ls b) :
    b.ourset.Inv elemHash ∧ h.SameParams b.ourset := by
  refine hr.inv (fun b => b.ourset.Inv elemHash ∧ h.SameParams b.ourset) ⟨hi, rfl, rfl⟩ ?_
  rintro b l b' ⟨hib, hmax, hinit⟩ hs
  obtain ⟨hib', hmax', hinit'⟩ := inv_step hib hs
  exact ⟨hib', hmax'.trans hmax, hinit'.trans hinit⟩

theorem commandLog_append (b : Blocker) (ls : List (Label × Mem)) (l : Label × Mem) :
    commandLog names b (ls ++ [l]) =
      commandLog names b ls ++ logEntry names (ls.foldl (Blocker.after names) b) l := by
  induction ls generalizing b with
  | nil => simp [commandLog]
  | cons l' ls ih => simp [commandLog, ih]

/-- What a callback adds to the log. -/
theorem commandLog_snoc (hr : Run (BlockerStep names) b ls b') (l : Label × Mem) :
    commandLog names b (ls ++ [l]) = commandLog names b ls ++ logEntry names b' l := by
  rw [commandLog_append, ← run_after hr]

theorem accepted_append (log log' : List (Command × Bool)) :
    accepted (log ++ log') = accepted log ++ accepted log' := by
  rw [accepted, List.filter_append, List.map_append, accepted, accepted]

/-- The last command that was not refused decides. -/
theorem blocked_run_iff (hi : h.Inv elemHash) (hempty : h.elems = ∅)
    (hr : Run (BlockerStep names) (.init h) ls b) (f : Flow) :
    b.router.Blocked f ↔ lastOn f (accepted (commandLog names (.init h) ls)) = some true := by
  induction hr with
  | nil =>
    have hnot : ¬(Blocker.init h).router.Blocked f := by
      simp [Router.Blocked, Blocker.router, Blocker.init, hempty]
    exact iff_of_false hnot (by simp [commandLog, accepted, lastOn])
  | @snoc ls b l b' hr hs ih =>
    have hib := (run_params hi hr).1
    rw [commandLog_snoc hr, accepted_append]
    cases hc : b.command l.1 with
    | none =>
      rw [blocked_step_of_no_command hs hc, ih]
      simp [logEntry, hc, accepted]
    | some c =>
      rw [blocked_step_iff hib hs hc]
      by_cases href : Refused names b.ourset c l.2
      · simp [logEntry, hc, accepted, href, ih]
      · have hlog : accepted (logEntry names b l) = [c] := by simp [logEntry, hc, accepted, href]
        rw [hlog, lastOn_append]
        by_cases hs : c.flow.Same f <;> simp [hs, href, ih]

theorem elems_step_subset (hi : b.ourset.Inv elemHash) (hs : BlockerStep names b l b') {c : Command}
    (hc : b.command l.1 = some c) : b'.ourset.elems ⊆ insert c.flow.elem b.ourset.elems := by
  have hset := step_command hs
  rw [hc] at hset
  intro d hd
  rw [hset] at hd
  rcases elems_telexLocalModFlow_subset hi names hd with hd | ⟨-, rfl⟩
  · exact Finset.mem_insert_of_mem hd
  · exact Finset.mem_insert_self _ _

/-- In a run with room for all its commands none is refused. -/
theorem run_spacious {elems : Finset Elem} (hi : h.Inv elemHash) (hempty : h.elems = ∅)
    (hr : Run (BlockerStep names) (.init h) ls b) (hsp : Spacious h ls elems)
    (hlog : ∀ e ∈ commandLog names (.init h) ls, e.1.flow.elem ∈ elems) :
    b.ourset.elems ⊆ elems ∧ ∀ e ∈ commandLog names (.init h) ls, e.2 = false := by
  induction hr with
  | nil => exact ⟨by simp [Blocker.init, hempty], by simp [commandLog]⟩
  | @snoc ls b l b' hr hs ih =>
    rw [commandLog_snoc hr] at hlog ⊢
    have hls : Spacious h ls elems :=
      ⟨fun l hl => hsp.granted l (List.mem_append_left _ hl), hsp.room, hsp.sparse⟩
    obtain ⟨hsub, hold⟩ := ih hls fun e he => hlog e (List.mem_append_left _ he)
    obtain ⟨hib, hmax, hinit⟩ := run_params hi hr
    cases hc : b.command l.1 with
    | none =>
      have hset := step_command hs
      rw [hc] at hset
      exact ⟨hset ▸ hsub, by simpa [logEntry, hc] using hold⟩
    | some c =>
      have hmem : c.flow.elem ∈ elems := hlog (c, decide (Refused names b.ourset c l.2))
        (List.mem_append_right _ (by simp [logEntry, hc]))
      have hins := Finset.insert_subset hmem hsub
      have hnot : ¬Refused names b.ourset c l.2 := by
        refine not_refused hib (hsp.granted l (by simp)) ?_ ?_ hins
        · rw [hmax]
          exact hsp.room
        · rw [hinit]
          exact hsp.sparse
      refine ⟨(elems_step_subset hib hs hc).trans hins, ?_⟩
      intro e he
      rcases List.mem_append.mp he with he | he
      · exact hold e he
      · obtain rfl : e = (c, decide (Refused names b.ourset c l.2)) := by simpa [logEntry, hc] using he
        exact decide_eq_false hnot

theorem accepted_eq {log : List (Command × Bool)} (h : ∀ e ∈ log, e.2 = false) :
    accepted log = log.map Prod.fst := by
  rw [accepted, List.filter_eq_self.mpr fun e he => by rw [h e he]; rfl]

variable {hashsize maxelem : Option (BitVec 32)} {initval : BitVec 32} {mem : Mem}

theorem blocked_iff_of_spacious (hc : hashIpportipCreate hashsize maxelem initval mem = .ok h)
    (hr : Run (BlockerStep names) (.init h) ls b)
    (hsp : Spacious h ls ((commandLog names (.init h) ls).map (·.1.flow.elem)).toFinset) (f : Flow) :
    b.router.Blocked f ↔ lastOn f ((commandLog names (.init h) ls).map Prod.fst) = some true := by
  obtain ⟨hi, hempty, -, -⟩ := hashIpportipCreate_ok elemHash hc
  obtain ⟨-, hnone⟩ := run_spacious hi hempty hr hsp fun e he => by
    rw [List.mem_toFinset]
    exact List.mem_map_of_mem he
  rw [blocked_run_iff hi hempty hr f, accepted_eq hnone]

/-- A flow is blocked when the last command on it or on a flow with the same source address, source
    port and destination address that was not refused is a block. Only where the set is full or crowded
    or memory runs out is a block refused; with room for all the elements simply the last such command
    decides. A command on any other flow leaves a flow as it was. -/
theorem blocked_iff_last (hc : hashIpportipCreate hashsize maxelem initval mem = .ok h)
    (hr : Run (BlockerStep names) (.init h) ls b) (f : Flow) :
    (b.router.Blocked f ↔ lastOn f (accepted (commandLog names (.init h) ls)) = some true) ∧
    (∀ (l : Label × Mem) c, b.command l.1 = some c → Refused names b.ourset c l.2 →
      h.maxelem.toNat ≤ b.ourset.elems.card ∨
        CrowdedSet elemHash h.initval (insert c.flow.elem b.ourset.elems) ∨ ¬Granted l.2) ∧
    (Spacious h ls ((commandLog names (.init h) ls).map (·.1.flow.elem)).toFinset →
      (b.router.Blocked f ↔ lastOn f ((commandLog names (.init h) ls).map Prod.fst) = some true)) ∧
    ∀ l b', BlockerStep names b l b' → (∀ c, b.command l.1 = some c → ¬c.flow.Same f) →
      (b'.router.Blocked f ↔ b.router.Blocked f) := by
  obtain ⟨hi, hempty, -, -⟩ := hashIpportipCreate_ok elemHash hc
  obtain ⟨hib, hmax, hinit⟩ := run_params hi hr
  refine ⟨blocked_run_iff hi hempty hr f, ?_, fun hsp => blocked_iff_of_spacious hc hr hsp f,
    fun l b' hs hother => blocked_step_of_not_same hib hs hother⟩
  intro l c _ href
  rw [← hmax, ← hinit]
  exact refused_cases hib href

/-- The sample flow is blocked, and then a command comes. -/
def sampleLabels (c : Command) : List (Label × Mem) :=
  [(.recv 0 (msg ⟨true, sampleFlow samplePort⟩), []), (.recv 1 (msg c), [])]

theorem map_commandLog_sample (b : Blocker) (c : Command) :
    (commandLog noNames b (sampleLabels c)).map Prod.fst = [⟨true, sampleFlow samplePort⟩, c] := by
  simp [sampleLabels, commandLog, logEntry, Blocker.command, fields_msg]

theorem exists_sample_run (c : Command) : ∃ h b, hashIpportipCreate none none 0 [] = .ok h ∧
    Run (BlockerStep noNames) (.init h) (sampleLabels c) b ∧ Spacious h (sampleLabels c)
      ((commandLog noNames (.init h) (sampleLabels c)).map (·.1.flow.elem)).toFinset := by
  obtain ⟨h, b, hc, hr, -⟩ := exists_blocker_run
  obtain ⟨-, -, hmax, -⟩ := hashIpportipCreate_ok elemHash hc
  have hr' := hr.mono (Q := BlockerStep noNames) fun _ _ _ hs => hs.1
  have hnow : b.now ≤ 1 := by
    rw [run_after hr']
    exact Nat.zero_le 1
  have hcard :
      ((commandLog noNames (.init h) (sampleLabels c)).map (·.1.flow.elem)).toFinset.card ≤ 2 := by
    refine (List.toFinset_card_le _).trans ?_
    have hlen := congrArg List.length (map_commandLog_sample (.init h) c)
    rw [List.length_map] at hlen
    rw [List.length_map, hlen]
    exact Nat.le_refl 2
  refine ⟨h, _, hc, hr'.snoc (.recv hnow (Nat.le_of_eq (length_msg c))), ?_, ?_, ?_⟩
  · simp [sampleLabels, granted_nil]
  · rw [hmax]
    exact hcard.trans (by decide)
  · exact not_crowdedSet_of_card_le (hcard.trans (by decide))

/-- A flow stays blocked when another flow of its client is unblocked. -/
theorem blocked_iff_last_two : ∃ h b, hashIpportipCreate none none 0 [] = .ok h ∧
    Run (BlockerStep noNames) (.init h) (sampleLabels ⟨false, sampleFlow ⟨39, 17⟩⟩) b ∧
    b.router.Blocked (sampleFlow samplePort) := by
  obtain ⟨h, b, hc, hr, hsp⟩ := exists_sample_run ⟨false, sampleFlow ⟨39, 17⟩⟩
  refine ⟨h, b, hc, hr, ((blocked_iff_last hc hr _).2.2.1 hsp).mpr ?_⟩
  rw [map_commandLog_sample]
  decide

/-- The flow to port 443 is blocked, and one from the same port to port 80 is unblocked. -/
theorem other_port_unblocks : ∃ h b, hashIpportipCreate none none 0 [] = .ok h ∧
    Run (BlockerStep noNames) (.init h)
      (sampleLabels ⟨false, { sampleFlow samplePort with port2 := ⟨0, 80⟩ }⟩) b ∧
    (((commandLog noNames (.init h)
      (sampleLabels ⟨false, { sampleFlow samplePort with port2 := ⟨0, 80⟩ }⟩)).map Prod.fst).filter
        (·.flow = sampleFlow samplePort)).getLast?.map Command.block = some true ∧
    ¬b.router.Blocked (sampleFlow samplePort) := by
  obtain ⟨h, b, hc, hr, hsp⟩ :=
    exists_sample_run ⟨false, { sampleFlow samplePort with port2 := ⟨0, 80⟩ }⟩
  refine ⟨h, b, hc, hr, ?_, ?_⟩
  · rw [map_commandLog_sample]
    decide
  · rw [blocked_iff_of_spacious hc hr hsp, map_commandLog_sample]
    decide

end Telex.Router
