import Telex.Bronnect.Registration

/-! Who unblocks a flow

    Bronnect owes the flow blocker one message for every connection whose init record came in. Two
    paths get it wrong. When Bro goes away before the init record, `on_telex_read` frees the record
    with an unblock message for a flow it was never told; when the service cannot be reached, the
    record is freed before the flow of its init record is stored. -/

namespace Telex.Bronnect
open Bro (Flow InitData recordTypeInit recordTypeRawPkt)
open Runs

/-- A freed record has sent one message for the flow of its init record, or none without it. -/
def Unblocked (st : ConnectionState) : Prop :=
  st.trace.unblocks = (st.trace.initFlow.map FlowKey.of).toList

/-- An init record is in and the service cannot be reached. -/
def unreached (o : Outcomes) : Option Flow :=
  match o.hdr, o.initData, o.connect with
  | some hdr, some d, some (fd, _) =>
      if hdr.type = recordTypeInit ∧ fd < 0 then some d.flowState else none
  | _, _, _ => none

/-- Bro does not go away before its init record, the service is reached unless the flow is the zero
    flow, and the flow blocker takes the message. -/
structure Unblocks (st : ConnectionState) (slot : Slot) (o : Outcomes) : Prop where
  heard : slot = .telexRead → st.state = 0 → o.hdr ≠ none
  reached : slot = .telexRead → ∀ f ∈ unreached o, FlowKey.of f = FlowKey.of noFlow
  taken : o.unblock = true

instance (st : ConnectionState) (slot : Slot) (o : Outcomes) : Decidable (Unblocks st slot o) :=
  decidable_of_iff ((slot = .telexRead → st.state = 0 → o.hdr ≠ none) ∧
      (slot = .telexRead → ∀ f ∈ unreached o, FlowKey.of f = FlowKey.of noFlow) ∧
      o.unblock = true)
    ⟨fun h => ⟨h.1, h.2.1, h.2.2⟩, fun h => ⟨h.heard, h.reached, h.taken⟩⟩

variable {o : Outcomes} {st : ConnectionState} {s : Cell}

/-- A joined record that is freed sends the message it owes. -/
theorem frees_unblocked (hu : o.unblock = true) : Frees o Unblocked where
  joined st w h := by
    simp [Unblocked, released, telexRemoteModFlow, hu, h.unblocks, h.flow]
  petted _ h := h
  closed _ h := h

/-- A record without an init record sends nothing when it is not asked to. -/
theorem unblocked_of_silent (w : SslError) (hu : st.trace.unblocks = [])
    (hi : st.trace.initFlow = none) :
    Unblocked { released o false st with cleanupWaiting := w } := by
  simp [Unblocked, released, hu, hi]

/-- A record that is asked to sends the message for the flow it holds. -/
theorem unblocked_of_key {f : Flow} (w : SslError) (ho : o.unblock = true)
    (hu : st.trace.unblocks = []) (hi : st.trace.initFlow = some f)
    (hk : FlowKey.of f = FlowKey.of st.flowState) :
    Unblocked { released o true st with cleanupWaiting := w } := by
  simp [Unblocked, released, telexRemoteModFlow, ho, hu, hi, hk]

theorem FromBro.unblocked_untouched (h : FromBro o st s) (hu : Untouched st)
    (hc : Unblocks st .telexRead o) : Fate Known Unblocked s := by
  have hj := fun hdr d fd nf => @Untouched.joined st hdr d fd nf hu
  obtain ⟨conn, records, odd, hni, rfl⟩ := hu
  cases h with
  | ignore h2 => simp [handleBroConnection] at h2
  | eof s _ hh _ => exact absurd hh (hc.heard rfl rfl)
  | undefined hdr hh hi hr =>
    refine .start (.inl ⟨conn, records ++ [hdr.type], .undefinedType :: odd, ?_, rfl⟩)
    simpa [hni] using Ne.symm hi
  | initShort hdr s _ _ _ hcl => exact hcl.fate_of_ssl rfl fun w => unblocked_of_silent w rfl rfl
  | extraInit hdr d _ _ hneg => simp [handleBroConnection] at hneg
  | noService hdr d fd needFinish s hh ht hd hcon hneg hcl =>
    have hk : FlowKey.of d.flowState = FlowKey.of noFlow :=
      hc.reached rfl d.flowState (by simp [unreached, hh, ht, hd, hcon, hneg])
    exact hcl.fate_of_ssl rfl fun w => unblocked_of_key w hc.taken rfl rfl hk
  | noSecret hdr d fd needFinish s _ _ _ _ hcl =>
    exact hcl.fate_of_ssl rfl fun w => unblocked_of_key w hc.taken rfl rfl rfl
  | joined hdr d fd needFinish _ ht _ hpos =>
    exact .start (.inr (hj hdr d fd needFinish ht hpos).petted)
  | wrongState hdr s _ _ _ hcl => exact hcl.fate_of_ssl rfl fun w => unblocked_of_silent w rfl rfl
  | rawShort hdr s _ _ h1 => simp [handleBroConnection] at h1
  | noClient hdr st' s _ _ h1 => simp [handleBroConnection] at h1
  | taken hdr fd _ _ h1 => simp [handleBroConnection] at h1

theorem Known.unblocked {slot : Slot} (h : Known st) (hfresh : Fresh st slot o)
    (ho : Once st slot o) (hc : Unblocks st slot o) (hf : fire slot o st = some s) :
    Fate Known Unblocked s := by
  have hcall := fire_call h.fds hf
  rcases h with hu | hj
  · rcases hcall.untouched hu with ⟨rfl, hb⟩ | ⟨-, he⟩
    · exact hb.unblocked_untouched hu hc
    · obtain ⟨conn, records, odd, -, rfl⟩ := hu
      exact he.fate (fun hf => hf.elim) fun w _ => unblocked_of_silent w rfl rfl
  · exact (hcall.fate_joined hj (frees_unblocked hc.taken) ho hfresh).mono (fun _ => .inr)
      fun _ h => h

/-- In every run in which Bro sends its records at most once and the unblocking condition holds, a
    freed connection has sent one unblock message for the flow of its init record, or none when there
    was no init record, and a connection of the table has sent none. -/
theorem unblock_once {ls : List Label} {w : World}
    (h : Run (When Step (At fun st slot o => Once st slot o ∧ Unblocks st slot o)) World.init ls w) :
    (∀ n < w.nclients, n ∉ w.connections →
      (∀ f, (w.mem n).trace.initFlow = some f → (w.mem n).trace.unblocks = [FlowKey.of f]) ∧
      ((w.mem n).trace.initFlow = none → (w.mem n).trace.unblocks = [])) ∧
    ∀ n ∈ w.connections, (w.mem n).trace.unblocks = [] := by
  have hk : Holds Known Unblocked w :=
    Run.holds (fun conn _ => .inl (untouched_handleBroConnection conn))
      (fun _ _ _ _ hk hfresh hc hf => hk.unblocked hfresh hc.1 hc.2 hf) h
  refine ⟨fun n hn hm => ?_, fun n hn => ?_⟩
  · have hu : Unblocked (w.mem n) := hk.dead n hn hm
    refine ⟨fun f hf => ?_, fun hf => ?_⟩
    · simpa [Unblocked, hf] using hu
    · simpa [Unblocked, hf] using hu
  · rcases hk.live n hn with ⟨conn, records, odd, -, he⟩ | hj
    · simp [he, handleBroConnection]
    · exact hj.unblocks

/-- A joined connection whose watchdog expires. -/
def sampleExpired : List Label := sampleJoin ++ [.fire 0 .watchdog noAnswers]

theorem unblock_once_expired : ∃ w,
    Run (When Step (At fun st slot o => Once st slot o ∧ Unblocks st slot o)) World.init
      sampleExpired w ∧ 0 ∉ w.connections ∧ (w.mem 0).trace.unblocks = [FlowKey.of sampleFlow] := by
  have hr : Run (When Step (At fun st slot o => Once st slot o ∧ Unblocks st slot o)) World.init
      sampleExpired (World.after (fun st slot o => Once st slot o ∧ Unblocks st slot o)
        sampleExpired) := Run.of_foldlM World.check_step rfl
  exact ⟨_, hr, by decide, ((unblock_once hr).1 0 (by decide) (by decide)).1 sampleFlow rfl⟩

/-- Bro goes away without an init record. -/
def sampleUnheard : List Label := [.accept 5, .fire 0 .telexRead noAnswers]

/-- The record is freed with a message for the zero flow. -/
theorem unheard_unblocks :
    Run (When Step (At Once)) World.init sampleUnheard (World.after Once sampleUnheard) ∧
    0 ∉ (World.after Once sampleUnheard).connections ∧
    ((World.after Once sampleUnheard).mem 0).trace.initFlow = none ∧
    ((World.after Once sampleUnheard).mem 0).trace.unblocks = [FlowKey.of noFlow] :=
  ⟨Run.of_foldlM World.check_step rfl, by decide, by decide, by decide⟩

end Telex.Bronnect
