import Telex.Bro.Moves

/-! Who owns a blocked flow

    A tagged flow is blocked at the flow blocker, and somebody has to unblock it: the policy as long
    as the flow is in its table, bronnect once it has the raw packet. Two handlers break this. The
    alert handler removes the entry without unblocking the flow, and `new_packet_final` removes it
    without looking at whether the raw packet could be sent. -/

namespace Telex.Bro
open Runs

/-- The last `telex_mod_block` call for the flow. -/
def lastBlock (cid : ConnId) : List Effect → Option Bool
  | [] => none
  | .modBlock c block :: l => if c = cid then some block else lastBlock cid l
  | _ :: l => lastBlock cid l

/-- Since that call a raw packet of the flow was delivered to bronnect. -/
def delivered (cid : ConnId) : List Effect → Bool
  | [] => false
  | .modBlock c _ :: l => if c = cid then false else delivered cid l
  | .send c _ (.raw _) :: l => decide (c = cid) || delivered cid l
  | _ :: l => delivered cid l

/-- A step of the policy. -/
def Step (s : State) (ev : Event) (s' : State) : Prop := step s ev = .ok s'

/-- Every flow whose last block call was to block has an owner. -/
def Owned (s : State) : Prop :=
  ∀ cid, lastBlock cid s.log = some true → (s.table cid).isSome ∨ delivered cid s.log = true

/-- The event neither removes a tracked connection on a client alert nor hands one over with a
    packet that cannot be sent. -/
structure KeepsOwner (s : State) (ev : Event) : Prop where
  alert : ∀ cid, ev = .sslConnAlert cid true → s.table cid = none
  packet : ∀ cid now pkt blocker te, ev = .newPacketFinal cid now pkt false blocker →
    s.table cid = some te → te.doFwd = true → te.fwdTime < now → te.state ≠ 5

variable {s s' : State} {ev : Event} {c cid : ConnId} {te : TelexInfo} {e : Effect} {l : List Effect}

theorem lastBlock_harmless (h : e.harmless) : lastBlock cid (e :: l) = lastBlock cid l := by
  cases e <;> simp_all [lastBlock, Effect.harmless]

theorem delivered_harmless (h : e.harmless) : delivered cid (e :: l) = delivered cid l := by
  cases e <;> simp_all [delivered, Effect.harmless]

@[simp]
theorem lastBlock_cleanupTelexObj :
    lastBlock cid (cleanupTelexObj s te).log = lastBlock cid s.log := by
  unfold cleanupTelexObj; split <;> rfl

@[simp]
theorem delivered_cleanupTelexObj :
    delivered cid (cleanupTelexObj s te).log = delivered cid s.log := by
  unfold cleanupTelexObj; split <;> rfl

/-- An entry that waits to be handed over has a socket. -/
def HasSock (s : State) : Prop := ∀ cid te, s.table cid = some te → te.state = 5 → te.sock ≠ none

/-- Every entry of the table satisfies `p` after one of them was assigned. -/
theorem forall_update {t : ConnId → Option TelexInfo} {p : ConnId → TelexInfo → Prop}
    (cid : ConnId) (v : Option TelexInfo) (h : ∀ c te, t c = some te → p c te) (hv : ∀ te, v = some te → p cid te) :
    ∀ c te, Function.update t cid v c = some te → p c te := by
  intro c te hc
  by_cases hcc : c = cid
  · subst hcc; rw [Function.update_self] at hc; exact hv te hc
  · rw [Function.update_of_ne hcc] at hc; exact h c te hc

theorem Move.hasSock (hm : Move s cid ev s') (h : HasSock s) : HasSock s' := by
  cases hm with
  | idle => exact h
  | noted _ _ => exact h
  | enter te ht h1 hs => exact forall_update _ _ h (by rintro _ ⟨⟩ h5; omega)
  | connect te ht h1 hs => exact forall_update _ _ h (by rintro _ ⟨⟩ h5; omega)
  | change te te' ht hc =>
    refine forall_update _ _ h ?_
    rintro _ ⟨⟩ h5
    rw [hc.sock]
    exact h cid te ht (by rcases hc.state with h' | h' | h' <;> omega)
  | init te te' sock d ht h4 hs hs' h5 => exact forall_update _ _ h (by rintro _ ⟨⟩ _; simp [hs'])
  | release te ht => simpa [HasSock] using forall_update cid none h (by simp)
  | abandon te ht => simpa [HasSock] using forall_update cid none h (by simp)
  | handOver te sock now pkt blocker ht =>
    simpa [HasSock] using forall_update cid none h (by simp)
  | drop te now pkt send blocker ht =>
    simpa [HasSock] using forall_update cid none h (by simp)

/-- A step that keeps owners keeps every blocked flow owned. -/
theorem Move.owned (hm : Move s cid ev s') (hk : KeepsOwner s ev) (hs : HasSock s) (h : Owned s) :
    Owned s' := by
  intro c hb
  cases hm with
  | idle => exact h c hb
  | noted e he =>
    rw [State.did_log, lastBlock_harmless he] at hb
    rw [State.did_log, delivered_harmless he]
    exact h c hb
  | enter te ht =>
    by_cases hc : c = cid
    · simp [hc]
    · simpa [lastBlock, delivered, Ne.symm hc, hc] using h c (by simpa [lastBlock, Ne.symm hc] using hb)
  | connect te ht =>
    by_cases hc : c = cid
    · simp [hc]
    · simpa [lastBlock, delivered, Ne.symm hc, hc] using h c (by simpa [lastBlock, Ne.symm hc] using hb)
  | change te te' ht =>
    by_cases hc : c = cid
    · simp [hc]
    · simpa [hc] using h c hb
  | init te te' sock d ht =>
    by_cases hc : c = cid
    · simp [hc]
    · simpa [lastBlock, delivered, hc] using h c (by simpa [lastBlock] using hb)
  | release te ht =>
    by_cases hc : c = cid
    · simp [lastBlock, hc] at hb
    · simpa [lastBlock, delivered, Ne.symm hc, hc] using h c (by simpa [lastBlock, Ne.symm hc] using hb)
  | abandon te ht hev => simp [hk.alert cid hev] at ht
  | handOver te sock now pkt blocker ht =>
    by_cases hc : c = cid
    · right; simp [delivered, hc]
    · simpa [lastBlock, delivered, Ne.symm hc, hc] using h c (by simpa [lastBlock] using hb)
  | drop te now pkt send blocker ht hf hnow h5 hsend hev =>
    rcases hsend with hsock | rfl
    · exact absurd hsock (hs cid te ht h5)
    · exact absurd h5 (hk.packet cid now pkt blocker te hev ht hf hnow)

/-- In every run whose events keep owners, no flow is left blocked without one. -/
theorem blocked_flow_owned {evs : List Event} (h : Run (When Step KeepsOwner) State.init evs s) :
    ∀ cid, lastBlock cid s.log = some true →
      (s.table cid).isSome ∨ delivered cid s.log = true := by
  refine (h.inv (fun s => Owned s ∧ HasSock s) ⟨?_, ?_⟩ ?_).1
  · intro cid hb; simp [State.init, lastBlock] at hb
  · intro cid te ht; simp [State.init] at ht
  · rintro s ev s' ⟨ho, hs⟩ ⟨hst, hk⟩
    have hm := step_move hst
    exact ⟨hm.owned hk hs ho, hm.hasSock hs⟩

/-- A connection from client port 1 to server port 443. -/
def sampleConn : ConnId := ⟨1, 1, 2, 443⟩

/-- A tagged client hello. -/
def sampleHello : Event := .sslConnAttempt sampleConn true 0 ⟨[], 80⟩ [] 0 .connected true

/-- The state after it. -/
def sampleTracked : State :=
  ⟨Function.update (fun _ => none) sampleConn (some { newTelexInfo ⟨[], 80⟩ [] 0 with sock := some 0 }),
    1, [.openSock 0, .modBlock sampleConn true]⟩

theorem step_sampleHello : step State.init sampleHello = .ok sampleTracked := rfl

/-- An endpoint nothing was seen of. -/
def noEndpoint : Endpoint := ⟨0, 0, 0, 0, 0⟩

/-- A handshake or cipher change record on the sample connection. -/
def sampleRecord (isOrig : Bool) (typ : ℕ) : Event :=
  .sslRecord sampleConn isOrig typ [] noEndpoint noEndpoint true true

/-- A tagged handshake up to the init record, and the next packet of the client. -/
def sampleHandedOver : List Event :=
  [sampleHello, .sslConnServerReply sampleConn [], .sslServerKeyExchange sampleConn [] [] [],
    sampleRecord true 20, sampleRecord true 22, sampleRecord false 20, sampleRecord false 22,
    .newPacketFinal sampleConn 1 [] true true]

/-- The flow stays blocked after the handshake; bronnect is its owner then. -/
theorem blocked_flow_owned_handed : ∃ s, Run (When Step KeepsOwner) State.init sampleHandedOver s ∧
    lastBlock sampleConn s.log = some true ∧ s.table sampleConn = none ∧
      delivered sampleConn s.log = true := by
  obtain ⟨s, hf⟩ : ∃ s, sampleHandedOver.foldlM step State.init = .ok s := ⟨_, rfl⟩
  have hk : ∀ ev ∈ sampleHandedOver, ∀ s, KeepsOwner s ev := by
    intro ev hev s
    simp only [sampleHandedOver, List.mem_cons, List.not_mem_nil, or_false] at hev
    rcases hev with rfl | rfl | rfl | rfl | rfl | rfl | rfl | rfl <;>
      exact ⟨by rintro _ ⟨⟩, by rintro _ _ _ _ _ ⟨⟩⟩
  have hr : Run (When Step KeepsOwner) State.init sampleHandedOver s :=
    (Run.of_foldlM (fun _ _ _ h => h) hf).when hk
  obtain ⟨hb, ht⟩ : lastBlock sampleConn s.log = some true ∧ s.table sampleConn = none := by
    obtain rfl := Except.ok.inj hf
    exact ⟨by decide, by decide⟩
  exact ⟨s, hr, hb, ht, (blocked_flow_owned hr sampleConn hb).resolve_left (by simp [ht])⟩

/-- A client alert after a tagged hello leaves the flow blocked with nobody to unblock it. -/
theorem alert_loses_flow : ∃ s, Run Step State.init [sampleHello, .sslConnAlert sampleConn true] s ∧
    lastBlock sampleConn s.log = some true ∧ s.table sampleConn = none ∧
      delivered sampleConn s.log = false := by
  have hr : Run Step State.init [sampleHello] sampleTracked := Run.snoc .nil step_sampleHello
  have ha : Step sampleTracked (.sslConnAlert sampleConn true) (cleanupConnection sampleTracked
    sampleConn { newTelexInfo ⟨[], 80⟩ [] 0 with sock := some 0 }) := rfl
  exact ⟨_, hr.snoc ha, by decide, by decide, by decide⟩

end Telex.Bro
