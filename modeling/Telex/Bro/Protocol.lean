import Telex.Bro.Blocking

/-! The records the policy writes to bronnect

    On every socket the policy writes an init record, if anything, and after it at most one raw
    record. The socket of an entry is its own, and the state of the entry says what was written on
    it: nothing below state 5, the init record in state 5. -/

namespace Telex.Bro
open Runs

/-- `RECORD_TYPE_INIT` -/
def recordTypeInit : BitVec 16 := 0x0000

/-- `RECORD_TYPE_RAW_PKT` -/
def recordTypeRawPkt : BitVec 16 := 0x0002

/-- The type in a record's header. -/
def Record.type : Record → BitVec 16
  | .init _ => recordTypeInit
  | .raw _ => recordTypeRawPkt

/-- The records written on a socket, oldest first. -/
def written (sock : ℕ) : List Effect → List Record
  | [] => []
  | .send _ i r :: l => if i = sock then written sock l ++ [r] else written sock l
  | _ :: l => written sock l

/-- What was written on the socket of an entry. -/
structure Wrote (s : State) (te : TelexInfo) (sock : ℕ) : Prop where
  opened : sock < s.socks
  nothing : te.state ≠ 5 → written sock s.log = []
  init : te.state = 5 → ∃ d, written sock s.log = [.init d]

/-- The sockets of the table and what was written on them. -/
structure Sockets (s : State) : Prop where
  wrote : ∀ cid te, s.table cid = some te → ∀ sock, te.sock = some sock → Wrote s te sock
  own : ∀ cid te, s.table cid = some te → ∀ cid' te', s.table cid' = some te' → te.sock ≠ none →
    te'.sock = te.sock → cid' = cid
  unopened : ∀ sock, s.socks ≤ sock → written sock s.log = []
  follows : ∀ sock, (written sock s.log).map Record.type <+: [recordTypeInit, recordTypeRawPkt]

variable {s s' : State} {ev : Event} {cid : ConnId} {te : TelexInfo} {e : Effect} {l : List Effect}
  {sock : ℕ}

theorem written_harmless (h : e.harmless) : written sock (e :: l) = written sock l := by
  cases e <;> simp_all [written, Effect.harmless]

@[simp]
theorem written_cleanupTelexObj : written sock (cleanupTelexObj s te).log = written sock s.log := by
  unfold cleanupTelexObj; split <;> rfl

/-- Only the log and the number of sockets matter for what was written. -/
theorem Wrote.of_eq {te' : TelexInfo} (h : Wrote s te sock) (hs : s.socks ≤ s'.socks)
    (hl : written sock s'.log = written sock s.log) (ht : te'.state = 5 ↔ te.state = 5) :
    Wrote s' te' sock := by
  obtain ⟨ho, hn, hi⟩ := h
  refine ⟨by omega, fun h5 => ?_, fun h5 => ?_⟩
  · rw [hl]; exact hn (by tauto)
  · rw [hl]; exact hi (ht.mp h5)

/-- Nothing is written and no entry is new. -/
theorem Sockets.shrink (h : Sockets s) (ht : ∀ c te, s'.table c = some te → s.table c = some te)
    (hs : s'.socks = s.socks) (hl : ∀ sock, written sock s'.log = written sock s.log) :
    Sockets s' := by
  refine ⟨?_, ?_, ?_, ?_⟩
  · intro c te hc sock hk
    exact (h.wrote c te (ht c te hc) sock hk).of_eq (Nat.le_of_eq hs.symm) (hl sock) Iff.rfl
  · intro c te hc c' te' hc' hn he
    exact h.own c te (ht c te hc) c' te' (ht c' te' hc') hn he
  · intro sock hk; rw [hl]; exact h.unopened sock (hs ▸ hk)
  · intro sock; rw [hl]; exact h.follows sock

theorem Sockets.other (h : Sockets s) (ht : s.table cid = some te) (hs : te.sock = some sock) :
    ∀ c u, s.table c = some u → c ≠ cid → u.sock ≠ some sock := by
  intro c u hu hne he
  exact hne (h.own cid te ht c u hu (by simp [hs]) (he.trans hs.symm))

/-- An entry whose socket no other entry has can be assigned. -/
theorem own_update {t : ConnId → Option TelexInfo}
    (h : ∀ c te, t c = some te → ∀ c' te', t c' = some te' → te.sock ≠ none → te'.sock = te.sock →
      c' = c)
    (hv : ∀ c te', t c = some te' → c ≠ cid → te.sock ≠ none → te'.sock ≠ te.sock) :
    ∀ c u, Function.update t cid (some te) c = some u → ∀ c' u',
      Function.update t cid (some te) c' = some u' → u.sock ≠ none → u'.sock = u.sock → c' = c := by
  intro c u hc c' u' hc' hn he
  by_cases h1 : c = cid
  · by_cases h2 : c' = cid
    · rw [h1, h2]
    · subst h1
      rw [Function.update_self, Option.some.injEq] at hc
      rw [Function.update_of_ne h2] at hc'
      exact absurd (hc ▸ he) (hv c' u' hc' h2 (hc ▸ hn))
  · rw [Function.update_of_ne h1] at hc
    by_cases h2 : c' = cid
    · subst h2
      rw [Function.update_self, Option.some.injEq] at hc'
      subst hc'
      exact absurd he.symm (hv c u hc h1 (he ▸ hn))
    · rw [Function.update_of_ne h2] at hc'
      exact h c u hc c' u' hc' hn he

/-- What a record sent on the socket of the entry `cid` does to the other sockets. -/
structure Sent (s s' : State) (cid : ConnId) : Prop where
  others : ∀ c u, s.table c = some u → c ≠ cid → ∀ i, u.sock = some i → Wrote s' u i
  unopened : ∀ i, s.socks ≤ i → written i s'.log = []
  follows : ∀ i, (written i s'.log).map Record.type <+: [recordTypeInit, recordTypeRawPkt]

theorem Sockets.sent (h : Sockets s) (r : Record) (ht : s.table cid = some te)
    (hs : te.sock = some sock)
    (hr : (written sock s.log ++ [r]).map Record.type <+: [recordTypeInit, recordTypeRawPkt]) :
    Sent s (s.did (.send cid sock r)) cid := by
  refine ⟨?_, ?_, ?_⟩
  · intro c u hu hc i hi
    have hne : sock ≠ i := fun he => h.other ht hs c u hu hc (he ▸ hi)
    exact (h.wrote c u hu i hi).of_eq (Nat.le_refl _) (by simp [written, hne]) Iff.rfl
  · intro i hi
    have := (h.wrote cid te ht sock hs).opened
    have hne : sock ≠ i := by rintro rfl; omega
    simpa [written, hne] using h.unopened i hi
  · intro i
    by_cases hi : sock = i
    · subst hi; simpa [written] using hr
    · simpa [written, hi] using h.follows i

theorem some_of_update_none {t : ConnId → Option TelexInfo} {c : ConnId}
    (h : Function.update t cid none c = some te) : c ≠ cid ∧ t c = some te := by
  by_cases hc : c = cid
  · rw [hc, Function.update_self] at h
    cases h
  · rw [Function.update_of_ne hc] at h
    exact ⟨hc, h⟩

/-- An entry is removed, and before that nothing was written. -/
theorem Sockets.removed {s₁ : State} (h : Sockets s) (ht : s₁.table = s.table)
    (hs : s₁.socks = s.socks) (hl : ∀ sock, written sock s₁.log = written sock s.log) :
    Sockets ((cleanupTelexObj s₁ te).set cid none) := by
  refine h.shrink ?_ ?_ ?_
  · intro c u hu
    rw [State.set_table, cleanupTelexObj_table, ht] at hu
    exact (some_of_update_none hu).2
  · rw [State.set_socks, cleanupTelexObj_socks, hs]
  · intro sock
    rw [State.set_log, written_cleanupTelexObj, hl]

/-- The first record is written and the entry waits to be handed over. -/
theorem Sockets.init {te' : TelexInfo} (h : Sockets s) (d : InitData) (ht : s.table cid = some te)
    (h4 : te.state = 4) (hs : te.sock = some sock) (hs' : te'.sock = some sock) (h5 : te'.state = 5) :
    Sockets ((s.did (.send cid sock (.init d))).set cid (some te')) := by
  have hw : written sock s.log = [] := (h.wrote cid te ht sock hs).nothing (by omega)
  have hsent := h.sent (.init d) ht hs (by simp [hw, Record.type])
  refine ⟨?_, own_update h.own ?_, hsent.unopened, hsent.follows⟩
  · intro c u hu i hi
    by_cases hc : c = cid
    · subst hc
      rw [State.set_table, Function.update_self, Option.some.injEq] at hu
      subst hu
      obtain rfl : sock = i := Option.some.inj (hs'.symm.trans hi)
      exact ⟨(h.wrote c te ht sock hs).opened, fun h => absurd h5 h, fun _ => ⟨d, by
        simp [written, hw]⟩⟩
    · rw [State.set_table, Function.update_of_ne hc] at hu
      exact (hsent.others c u hu hc i hi).of_eq (Nat.le_refl _) rfl Iff.rfl
  · intro c u hu hne _ he
    exact h.other ht hs c u hu hne (he.trans hs')

/-- The packet is written and the entry removed. -/
theorem Sockets.handOver (h : Sockets s) (pkt : Str) (ht : s.table cid = some te) (h5 : te.state = 5)
    (hs : te.sock = some sock) :
    Sockets ((cleanupTelexObj ((s.did (.send cid sock (.raw pkt))).did (.rst cid)) te).set
      cid none) := by
  obtain ⟨d, hd⟩ := (h.wrote cid te ht sock hs).init h5
  have hsent := h.sent (.raw pkt) ht hs (by simp [hd, Record.type])
  have hsub : ∀ c u, ((cleanupTelexObj ((s.did (.send cid sock (.raw pkt))).did (.rst cid)) te).set
      cid none).table c = some u → c ≠ cid ∧ s.table c = some u := by
    intro c u hu
    rw [State.set_table, cleanupTelexObj_table] at hu
    exact some_of_update_none hu
  refine ⟨?_, ?_, ?_, ?_⟩
  · intro c u hu i hi
    obtain ⟨hc, hu⟩ := hsub c u hu
    exact (hsent.others c u hu hc i hi).of_eq (by simp) (by simp [written]) Iff.rfl
  · intro c u hu c' u' hu' hn he
    exact h.own c u (hsub c u hu).2 c' u' (hsub c' u' hu').2 hn he
  · intro i hi
    simpa [written] using hsent.unopened i (by simpa using hi)
  · intro i
    simpa [written] using hsent.follows i

theorem Move.sockets (hm : Move s cid ev s') (h : Sockets s) : Sockets s' := by
  cases hm with
  | idle => exact h
  | noted e he => exact h.shrink (fun _ _ hc => hc) rfl fun sock => written_harmless he
  | enter te ht h1 hs =>
    refine ⟨forall_update _ _ ?_ ?_, own_update h.own ?_, h.unopened, h.follows⟩
    · intro c te hc sock hk
      exact (h.wrote c te hc sock hk).of_eq (Nat.le_refl _) rfl Iff.rfl
    · rintro _ ⟨⟩ sock hk; simp [hs] at hk
    · intro _ _ _ _ hn; exact absurd hs hn
  | connect te ht h1 hs =>
    refine ⟨forall_update _ _ ?_ ?_, own_update h.own ?_, ?_, h.follows⟩
    · intro c te hc sock hk
      exact (h.wrote c te hc sock hk).of_eq (Nat.le_succ _) rfl Iff.rfl
    · rintro _ ⟨⟩ sock hk
      rw [hs, Option.some.injEq] at hk
      refine ⟨by simp [← hk], fun _ => ?_, fun h5 => by omega⟩
      exact h.unopened sock (by omega)
    · intro c te' hc _ _ he
      have := (h.wrote c te' hc s.socks (he.trans hs)).opened
      omega
    · intro sock hk
      exact h.unopened sock (Nat.le_of_succ_le hk)
  | change te te' ht hc =>
    refine ⟨forall_update _ _ ?_ ?_, own_update h.own ?_, h.unopened, h.follows⟩
    · intro c te hc sock hk
      exact (h.wrote c te hc sock hk).of_eq (Nat.le_refl _) rfl Iff.rfl
    · rintro _ ⟨⟩ sock hk
      refine (h.wrote cid te ht sock (hc.sock ▸ hk)).of_eq (Nat.le_refl _) rfl ?_
      rcases hc.state with h' | h' | h' <;> omega
    · intro c u hu hne hn he
      exact hne (h.own cid te ht c u hu (hc.sock ▸ hn) (he.trans hc.sock))
  | init te te' sock d ht h4 hs hs' h5 => exact h.init d ht h4 hs hs' h5
  | release te ht => exact h.removed rfl rfl fun _ => rfl
  | abandon te ht => exact h.removed rfl rfl fun _ => rfl
  | handOver te sock now pkt blocker ht h5 hs => exact h.handOver pkt ht h5 hs
  | drop te now pkt send blocker ht => exact h.removed rfl rfl fun _ => rfl

/-- What is known of the sockets after any run. -/
theorem Run.sockets {evs : List Event} (h : Run Step State.init evs s) : Sockets s := by
  refine h.inv Sockets ⟨?_, ?_, ?_, ?_⟩ fun _ _ _ hi hs => (step_move hs).sockets hi
  · intro cid te ht; simp [State.init] at ht
  · intro cid te ht; simp [State.init] at ht
  · intro sock _; rfl
  · intro sock; simp [State.init, written]

theorem written_cons (e : Effect) : written sock l <+: written sock (e :: l) := by
  cases e with
  | send cid i r =>
    by_cases hi : i = sock
    · simp [written, hi]
    · simp [written, hi]
  | modBlock | openSock | closeSock | fwd | rst | skip => exact List.prefix_rfl

/-- What was written on a socket stays. -/
theorem Move.written_mono (h : Move s cid ev s') :
    written sock s.log <+: written sock s'.log := by
  cases h with
  | idle => exact List.prefix_rfl
  | noted e _ => exact written_cons e
  | enter te => exact written_cons _
  | connect te => exact (written_cons _).trans (written_cons _)
  | change te te' => exact List.prefix_rfl
  | init te te' sock d => exact written_cons _
  | release te => simpa using written_cons _
  | abandon te => simp
  | handOver te sock now pkt blocker => simpa using (written_cons _).trans (written_cons _)
  | drop te now pkt send blocker => simpa using written_cons _

end Telex.Bro
