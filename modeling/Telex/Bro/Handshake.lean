import Telex.Bro.Blocking

/-! What is known of a handshake when the init record is sent

    The init record is sent on the first handshake record after both cipher changes, whichever side
    it comes from, and `telex_send_init_data` uses the randoms and initialization vectors without
    checking that they were recorded. The history of a connection is the list of its events since
    it was entered in the table, latest first; what the entry holds is read off it. -/

namespace Telex.Bro
open Runs

/-- A cipher change record of the client. -/
def isClientCcs (cid : ConnId) : Event → Bool
  | .sslRecord c isOrig typ .. => decide (c = cid) && isOrig && typ == 20
  | _ => false

/-- A handshake record of the client. -/
def isClientHandshake (cid : ConnId) : Event → Bool
  | .sslRecord c isOrig typ .. => decide (c = cid) && isOrig && typ == 22
  | _ => false

/-- A server hello. -/
def isServerHello (cid : ConnId) : Event → Bool
  | .sslConnServerReply c _ => decide (c = cid)
  | _ => false

/-- The client sent a handshake record after its cipher change. -/
def clientFinished (cid : ConnId) : List Event → Bool
  | [] => false
  | ev :: h => clientFinished cid h || (isClientHandshake cid ev && h.any (isClientCcs cid))

/-- The policy with the history of each connection in its table. -/
structure Watched where
  state : State
  hist : ConnId → List Event

/-- Bro at its start. -/
def Watched.init : Watched := ⟨State.init, fun _ => []⟩

/-- Handle one event; the history of a connection starts when it enters the table. -/
def Watched.step (w : Watched) (ev : Event) : Except Fault Watched :=
  match Bro.step w.state ev with
  | .error f => .error f
  | .ok s => .ok ⟨s, fun cid =>
      if (w.state.table cid).isSome ∧ (s.table cid).isSome then ev :: w.hist cid else []⟩

/-- A step of the policy with its histories. -/
def WatchedStep (w : Watched) (ev : Event) (w' : Watched) : Prop := w.step ev = .ok w'

/-- What the entry `te` of `cid` holds after the history `h`. -/
structure Knows (cid : ConnId) (h : List Event) (te : TelexInfo) : Prop where
  state : te.state = 1 ∨ te.state = 2 ∨ te.state = 4 ∨ te.state = 5
  ccs : te.state = 1 ↔ h.any (isClientCcs cid) = false
  clientRandom : te.dh.clientRandom ≠ none
  params : te.dh.p ≠ none → te.dh.g ≠ none ∧ te.dh.pubKey ≠ none
  serverRandom : te.dh.serverRandom ≠ none ↔ h.any (isServerHello cid) = true
  clientIv : te.dh.clientIv ≠ none ↔ clientFinished cid h = true
  serverIv : te.state ≠ 5 → te.dh.serverIv = none

/-- How an entry that stays in the table changes. -/
inductive EntryStep (cid : ConnId) : Event → TelexInfo → TelexInfo → Prop
  | hello (te : TelexInfo) (r : Str) : EntryStep cid (.sslConnServerReply cid r) te
      { te with dh := { te.dh with serverRandom := some r } }
  | params (te : TelexInfo) (p g k : Str) : EntryStep cid (.sslServerKeyExchange cid p g k) te
      { te with dh := { te.dh with p := some p, g := some g, pubKey := some k } }
  | clientCcs (te : TelexInfo) (data : Str) (o r : Endpoint) (send blocker : Bool) : te.state = 1 →
      EntryStep cid (.sslRecord cid true 20 data o r send blocker) te { te with state := 2 }
  | serverCcs (te : TelexInfo) (data : Str) (o r : Endpoint) (send blocker : Bool) : te.state = 2 →
      EntryStep cid (.sslRecord cid false 20 data o r send blocker) te { te with state := 4 }
  | handshake (te : TelexInfo) (isOrig : Bool) (data : Str) (o r : Endpoint) (send blocker : Bool) :
      te.state ≠ 4 → EntryStep cid (.sslRecord cid isOrig 22 data o r send blocker) te
        (recordFinished te isOrig data o r)
  | sent (te : TelexInfo) (isOrig : Bool) (data : Str) (o r : Endpoint) (send blocker : Bool) :
      te.state = 4 → EntryStep cid (.sslRecord cid isOrig 22 data o r send blocker) te
        { recordFinished te isOrig data o r with state := 5 }
  | other (ev : Event) (te te' : TelexInfo) : te'.state = te.state → te'.dh = te.dh →
      isClientCcs cid ev = false → isClientHandshake cid ev = false →
      isServerHello cid ev = false → EntryStep cid ev te te'

variable {s s' : State} {ev : Event} {cid : ConnId} {te te' : TelexInfo} {h : List Event}

theorem doExpire_table {blocker : Bool} (hd : doExpire s cid blocker = .ok s') :
    s'.table cid = none := by
  cases ht : s.table cid with
  | none => simp only [doExpire, ht, Except.ok.injEq] at hd; exact hd ▸ ht
  | some te =>
    cases blocker
    · simp [doExpire, ht, telexModBlock, bind, Except.bind] at hd
    · simp only [doExpire, ht, telexModBlock, if_true, bind, Except.bind, pure, Except.pure,
        Except.ok.injEq] at hd
      simp [← hd]

/-- An entry the handler put in the table and did not remove. -/
theorem entry_eq (hs : .ok (s.set cid (some te)) = (.ok s' : Except Fault State))
    (ht' : s'.table cid = some te') : te' = te := by
  rw [← Except.ok.inj hs, State.set_table, Function.update_self] at ht'
  exact (Option.some.inj ht').symm

theorem entry_same (hs : .ok s = (.ok s' : Except Fault State)) (ht : s.table cid = some te)
    (ht' : s'.table cid = some te') : te' = te := by
  rw [← Except.ok.inj hs, ht] at ht'
  exact (Option.some.inj ht').symm

theorem sslRecord_entry {isOrig : Bool} {typ : ℕ} {data : Str} {o r : Endpoint}
    {send blocker : Bool} (hs : step s (.sslRecord cid isOrig typ data o r send blocker) = .ok s')
    (ht : s.table cid = some te) (ht' : s'.table cid = some te') :
    EntryStep cid (.sslRecord cid isOrig typ data o r send blocker) te te' := by
  simp only [step] at hs
  split_ifs at hs with h23 h20 h22
  · -- application data removes the entry or does nothing
    simp only [sslAppData, ht] at hs
    split at hs
    · rw [entry_same hs ht ht']
      exact .other _ _ _ rfl rfl (by simp [isClientCcs, h23]) (by simp [isClientHandshake, h23]) rfl
    · simp [doExpire_table hs] at ht'
  · subst h20
    simp only [sslChangeCipher, ht] at hs
    split at hs
    · rename_i h1
      cases isOrig
      · simp only [Bool.false_eq_true, if_false] at hs
        simp [doExpire_table hs] at ht'
      · rw [entry_eq hs ht']
        exact .clientCcs te data o r send blocker h1
    · split at hs
      · rename_i h2
        obtain ⟨h2, rfl⟩ := h2
        rw [entry_eq hs ht']
        exact .serverCcs te data o r send blocker h2
      · simp [doExpire_table hs] at ht'
  · subst h22
    simp only [sslHandshake, ht] at hs
    split at hs
    · rename_i h4
      rw [recordFinished_state] at h4
      cases hd : telexSendInitData cid (recordFinished te isOrig data o r) send with
      | error f => simp [hd, bind, Except.bind] at hs
      | ok d =>
        simp only [hd, bind, Except.bind] at hs
        cases d with
        | none => simp [doExpire_table hs] at ht'
        | some d =>
          rw [entry_eq hs ht']
          exact .sent te isOrig data o r send blocker h4
    · rename_i h4
      rw [recordFinished_state] at h4
      rw [entry_eq hs ht']
      exact .handshake te isOrig data o r send blocker h4
  · rw [entry_same hs ht ht']
    exact .other _ _ _ rfl rfl (by simp [isClientCcs, h20]) (by simp [isClientHandshake, h22]) rfl

/-- How the entry of the event's connection changes, if it stays. -/
theorem step_entry (hs : step s ev = .ok s') (ht : s.table ev.cid = some te)
    (ht' : s'.table ev.cid = some te') : EntryStep ev.cid ev te te' := by
  cases ev with
  | sslConnAttempt =>
    simp only [step, sslConnAttempt, Event.cid] at hs ht
    rw [ht] at hs
    rw [entry_same hs ht ht']
    exact .other _ _ _ rfl rfl rfl rfl rfl
  | sslConnServerReply cid r =>
    simp only [step, Event.cid] at hs ht
    rw [ht] at hs
    rw [entry_eq hs ht']
    exact .hello te r
  | sslServerKeyExchange cid p g k =>
    simp only [step, Event.cid] at hs ht
    rw [ht] at hs
    rw [entry_eq hs ht']
    exact .params te p g k
  | sslRecord => exact sslRecord_entry hs ht ht'
  | sslConnAlert cid isOrig =>
    simp only [step, Event.cid] at hs ht
    rw [ht] at hs
    cases isOrig
    · rw [entry_same hs ht ht']
      exact .other _ _ _ rfl rfl rfl rfl rfl
    · simp only [if_true, Except.ok.injEq] at hs
      simp [← hs, cleanupConnection, Event.cid] at ht'
  | newPacketFinal cid now pkt send blocker =>
    simp only [step, newPacketFinal, Event.cid] at hs ht
    rw [ht] at hs
    have same : ∀ {u : State}, .ok u = (.ok s' : Except Fault State) → u.table = s.table →
        EntryStep cid (.newPacketFinal cid now pkt send blocker) te te' := fun hu hut => by
      rw [entry_same hu (hut ▸ ht) ht']
      exact .other _ _ _ rfl rfl rfl rfl rfl
    dsimp only at hs
    split at hs
    · split at hs
      · split at hs
        · simp only [Except.ok.injEq] at hs
          simp [← hs, cleanupConnection, Event.cid] at ht'
        · exact same hs rfl
      · split at hs
        · simp [Event.cid, doExpire_table hs] at ht'
        · exact same hs rfl
    · exact same hs rfl
  | tcpOption cid isOrig opt ts =>
    have hm : te'.state = te.state ∧ te'.dh = te.dh := by
      simp only [step, tcpOption, Event.cid] at hs ht
      rw [ht] at hs
      dsimp only at hs
      split_ifs at hs <;>
        first
        | (rw [entry_eq hs ht']; exact ⟨rfl, rfl⟩)
        | (rw [entry_same hs ht ht']; exact ⟨rfl, rfl⟩)
    exact .other _ _ _ hm.1 hm.2 rfl rfl rfl
  | expire cid blocker => simp [Event.cid, doExpire_table hs] at ht'
  | connectionStateRemove cid blocker => simp [Event.cid, doExpire_table hs] at ht'

/-- The entry of a connection that was not in the table. -/
theorem step_enter (hs : step s ev = .ok s') (ht : s.table ev.cid = none)
    (ht' : s'.table ev.cid = some te') : ∃ key clientRandom now sock,
      te' = { newTelexInfo key clientRandom now with sock := sock } := by
  have none' : ∀ {u : State}, .ok u = (.ok s' : Except Fault State) → u.table = s.table → False := by
    intro u hu hut
    rw [← Except.ok.inj hu, hut, ht] at ht'
    simp at ht'
  cases ev with
  | sslConnAttempt cid isTagged diff key clientRandom now connect blocker =>
    simp only [step, sslConnAttempt, Event.cid] at hs ht
    rw [ht] at hs
    simp only at hs
    split at hs
    · exact (none' hs rfl).elim
    · cases blocker
      · simp [telexModBlock, bind, Except.bind] at hs
      · cases connect with
        | noSocket => simp [telexModBlock, telexInitBronnect, bind, Except.bind] at hs
        | refused => exact ⟨key, clientRandom, now, _, entry_eq hs ht'⟩
        | connected => exact ⟨key, clientRandom, now, _, entry_eq hs ht'⟩
  | sslConnServerReply =>
    simp only [step, Event.cid] at hs ht
    rw [ht] at hs
    exact (none' hs rfl).elim
  | sslServerKeyExchange =>
    simp only [step, Event.cid] at hs ht
    rw [ht] at hs
    exact (none' hs rfl).elim
  | sslRecord =>
    simp only [step, Event.cid, sslAppData, sslChangeCipher, sslHandshake] at hs ht
    rw [ht] at hs
    split_ifs at hs <;> exact (none' hs rfl).elim
  | sslConnAlert =>
    simp only [step, Event.cid] at hs ht
    rw [ht] at hs
    exact (none' hs rfl).elim
  | newPacketFinal =>
    simp only [step, newPacketFinal, Event.cid] at hs ht
    rw [ht] at hs
    exact (none' hs rfl).elim
  | tcpOption =>
    simp only [step, tcpOption, Event.cid] at hs ht
    rw [ht] at hs
    exact (none' hs rfl).elim
  | expire => simp [Event.cid, doExpire_table hs] at ht'
  | connectionStateRemove => simp [Event.cid, doExpire_table hs] at ht'

theorem Knows.enter {key : KeyInfo} {clientRandom : Str} {now : ℕ} {sock : Option ℕ} :
    Knows cid [] { newTelexInfo key clientRandom now with sock := sock } := by
  constructor <;> simp [newTelexInfo, clientFinished]

theorem recordFinished_dh (te : TelexInfo) (isOrig : Bool) (data : Str) (o r : Endpoint) :
    (recordFinished te isOrig data o r).dh = { te.dh with
      clientIv := if 2 ≤ te.state ∧ isOrig = true then some (getIvFromHandshake data)
        else te.dh.clientIv
      serverIv := if 3 ≤ te.state ∧ isOrig = false then some (getIvFromHandshake data)
        else te.dh.serverIv } := by
  unfold recordFinished
  cases isOrig <;> by_cases h2 : 2 ≤ te.state <;> by_cases h3 : 3 ≤ te.state <;> simp [h2, h3]

theorem recordFinished_clientIv {isOrig : Bool} {data : Str} {o r : Endpoint} {send blocker : Bool}
    (hst : te.state = 1 ∨ te.state = 2 ∨ te.state = 4 ∨ te.state = 5)
    (hccs : te.state = 1 ↔ h.any (isClientCcs cid) = false)
    (hci : te.dh.clientIv ≠ none ↔ clientFinished cid h = true) :
    (recordFinished te isOrig data o r).dh.clientIv ≠ none ↔
      clientFinished cid (.sslRecord cid isOrig 22 data o r send blocker :: h) = true := by
  have h2 : 2 ≤ te.state ↔ h.any (isClientCcs cid) = true := by
    rw [← Bool.not_eq_false, ← hccs]
    omega
  cases isOrig
  · simpa [recordFinished_dh, clientFinished, isClientHandshake] using hci
  · cases ha : h.any (isClientCcs cid) with
    | false => simpa [recordFinished_dh, clientFinished, ha, h2] using hci
    | true => simp [recordFinished_dh, clientFinished, isClientHandshake, ha, h2]

/-- The entry still says what the history says after one more event. -/
theorem Knows.step (hk : Knows cid h te) (he : EntryStep cid ev te te') :
    Knows cid (ev :: h) te' := by
  obtain ⟨hst, hccs, hcr, hp, hsr, hci, hsi⟩ := hk
  cases he with
  | hello te r =>
    refine ⟨hst, ?_, hcr, hp, ?_, ?_, hsi⟩
    · simpa [isClientCcs] using hccs
    · simp [isServerHello]
    · simpa [clientFinished, isClientHandshake] using hci
  | params te p g k =>
    refine ⟨hst, ?_, hcr, by simp, ?_, ?_, hsi⟩
    · simpa [isClientCcs] using hccs
    · simpa [isServerHello] using hsr
    · simpa [clientFinished, isClientHandshake] using hci
  | clientCcs te data o r send blocker h1 =>
    refine ⟨by simp, ?_, hcr, hp, ?_, ?_, fun _ => hsi (by omega)⟩
    · simp [isClientCcs]
    · simpa [isServerHello] using hsr
    · simpa [clientFinished, isClientHandshake] using hci
  | serverCcs te data o r send blocker h2 =>
    refine ⟨by simp, ?_, hcr, hp, ?_, ?_, fun _ => hsi (by omega)⟩
    · simpa [isClientCcs, h2] using hccs
    · simpa [isServerHello] using hsr
    · simpa [clientFinished, isClientHandshake] using hci
  | handshake te isOrig data o r send blocker h4 =>
    refine ⟨by simpa using hst, ?_, ?_, ?_, ?_, ?_, ?_⟩
    · simpa [isClientCcs] using hccs
    · simpa [recordFinished_dh] using hcr
    · simpa [recordFinished_dh] using hp
    · simpa [recordFinished_dh, isServerHello] using hsr
    · exact recordFinished_clientIv hst hccs hci
    · intro h5
      rw [recordFinished_state] at h5
      have h3 : ¬3 ≤ te.state := by omega
      simp [recordFinished_dh, h3, hsi h5]
  | sent te isOrig data o r send blocker h4 =>
    refine ⟨by simp, ?_, ?_, ?_, ?_, ?_, by simp⟩
    · simpa [isClientCcs, h4] using hccs
    · simpa [recordFinished_dh] using hcr
    · simpa [recordFinished_dh] using hp
    · simpa [recordFinished_dh, isServerHello] using hsr
    · exact recordFinished_clientIv hst hccs hci
  | other ev te te' hs hd hc hh hr =>
    rw [← hs] at hst hccs hsi
    rw [← hd] at hcr hp hsr hci hsi
    refine ⟨hst, ?_, hcr, hp, ?_, ?_, hsi⟩
    · simpa [hc] using hccs
    · simpa [hr] using hsr
    · simpa [clientFinished, hh] using hci

/-- An event of another connection adds nothing to what is known of this one. -/
theorem EntryStep.of_ne (hc : cid ≠ ev.cid) (te : TelexInfo) : EntryStep cid ev te te := by
  refine .other ev te te rfl rfl ?_ ?_ ?_ <;>
    cases ev <;> simp_all [isClientCcs, isClientHandshake, isServerHello, Event.cid, eq_comm]

/-- Every entry of a reachable table says what its history says. -/
theorem Run.knows {evs : List Event} {w : Watched} (hr : Run WatchedStep Watched.init evs w) :
    ∀ cid te, w.state.table cid = some te → Knows cid (w.hist cid) te := by
  refine hr.inv (fun w => ∀ cid te, w.state.table cid = some te → Knows cid (w.hist cid) te) ?_ ?_
  · intro cid te ht
    simp [Watched.init, State.init] at ht
  · intro w ev w' hw hs cid te' ht'
    simp only [WatchedStep, Watched.step] at hs
    split at hs
    · simp at hs
    · rename_i s' hst
      rw [← Except.ok.inj hs] at ht' ⊢
      have hf : cid ≠ ev.cid → s'.table cid = w.state.table cid := (step_move hst).frame
      cases ht : w.state.table cid with
      | none =>
        have hc : cid = ev.cid := by
          by_contra hc
          rw [hf hc, ht] at ht'
          simp at ht'
        obtain ⟨key, random, now, sock, rfl⟩ := step_enter hst (hc ▸ ht) (hc ▸ ht')
        simpa [ht] using Knows.enter
      | some te =>
        have he : EntryStep cid ev te te' := by
          by_cases hc : cid = ev.cid
          · subst hc
            exact step_entry hst ht ht'
          · rw [hf hc, ht, Option.some.injEq] at ht'
            exact ht' ▸ .of_ne hc te
        have hi : (s'.table cid).isSome = true := by rw [ht', Option.isSome_some]
        simpa [ht, hi] using (hw cid te ht).step he

/-- Everything `telex_send_init_data` uses after it has checked `dh$p`. -/
def Assigned (dh : DhParams) : Prop :=
  dh.g ≠ none ∧ dh.pubKey ≠ none ∧ dh.clientRandom ≠ none ∧ dh.serverRandom ≠ none ∧
    dh.clientIv ≠ none ∧ dh.serverIv ≠ none

/-- The builtin crashes exactly when it gets past its checks and something is not there. -/
theorem telexSendInitData_nullDeref {send : Bool} :
    telexSendInitData cid te send = .error .nullDeref ↔
      te.sock ≠ none ∧ te.dh.p ≠ none ∧ ¬Assigned te.dh := by
  unfold telexSendInitData Assigned
  split
  · simp_all
  · simp_all
  · rename_i sock p hs hp
    split
    · split_ifs <;> simp_all
    · rename_i hne
      simp only [hs, hp, ne_eq, reduceCtorEq, not_false_eq_true, true_and, true_iff]
      rintro ⟨hg, hk, hcr, hsr, hci, hsi⟩
      obtain ⟨g, hg⟩ := Option.ne_none_iff_exists'.mp hg
      obtain ⟨k, hk⟩ := Option.ne_none_iff_exists'.mp hk
      obtain ⟨cr, hcr⟩ := Option.ne_none_iff_exists'.mp hcr
      obtain ⟨sr, hsr⟩ := Option.ne_none_iff_exists'.mp hsr
      obtain ⟨ci, hci⟩ := Option.ne_none_iff_exists'.mp hci
      obtain ⟨si, hsi⟩ := Option.ne_none_iff_exists'.mp hsi
      exact hne g k cr sr ci si hg hk hcr hsr hci hsi

theorem doExpire_ne_nullDeref {blocker : Bool} : doExpire s cid blocker ≠ .error .nullDeref := by
  cases ht : s.table cid <;> cases blocker <;>
    simp [doExpire, ht, telexModBlock, bind, Except.bind, pure, Except.pure]

/-- The handler of a handshake record crashes exactly when the builtin it calls does. -/
theorem sslRecord_nullDeref {isOrig : Bool} {data : Str} {o r : Endpoint} {send blocker : Bool}
    (ht : s.table cid = some te) :
    step s (.sslRecord cid isOrig 22 data o r send blocker) = .error .nullDeref ↔
      te.state = 4 ∧ te.sock ≠ none ∧ te.dh.p ≠ none ∧
        ¬Assigned (recordFinished te isOrig data o r).dh := by
  have hsock : (recordFinished te isOrig data o r).sock = te.sock := recordFinished_changes.sock
  have hp : (recordFinished te isOrig data o r).dh.p = te.dh.p := by rw [recordFinished_dh]
  have hd : telexSendInitData cid (recordFinished te isOrig data o r) send = .error .nullDeref ↔
      te.sock ≠ none ∧ te.dh.p ≠ none ∧ ¬Assigned (recordFinished te isOrig data o r).dh := by
    rw [telexSendInitData_nullDeref, hsock, hp]
  simp only [step, sslHandshake, ht, recordFinished_state]
  by_cases h4 : te.state = 4
  · rw [← hd]
    cases telexSendInitData cid (recordFinished te isOrig data o r) send with
    | error f => simp [h4, bind, Except.bind]
    | ok d =>
      cases d with
      | none => simp [h4, bind, Except.bind, doExpire_ne_nullDeref]
      | some d => simp [h4, bind, Except.bind, pure, Except.pure]
  · simp [h4]

/-- No other event makes Bro crash. -/
theorem step_nullDeref (hs : step s ev = .error .nullDeref) :
    ∃ cid isOrig data o r send blocker te, ev = .sslRecord cid isOrig 22 data o r send blocker ∧
      s.table cid = some te := by
  cases ev with
  | sslConnAttempt cid isTagged diff key random now connect blocker =>
    simp only [step, sslConnAttempt] at hs
    cases blocker <;> cases connect <;> cases ht : s.table cid <;>
      simp_all [telexModBlock, telexInitBronnect, bind, Except.bind, pure, Except.pure] <;>
      split at hs <;> simp at hs
  | sslConnServerReply cid => cases ht : s.table cid <;> simp_all [step]
  | sslServerKeyExchange cid => cases ht : s.table cid <;> simp_all [step]
  | sslRecord cid isOrig typ data o r send blocker =>
    cases ht : s.table cid with
    | none => simp [step, sslAppData, sslChangeCipher, sslHandshake, ht] at hs
    | some te =>
      by_cases h22 : typ = 22
      · exact ⟨cid, isOrig, data, o, r, send, blocker, te, by rw [h22], ht⟩
      · simp only [step, sslAppData, sslChangeCipher, ht, h22, if_false] at hs
        split_ifs at hs <;> exact (doExpire_ne_nullDeref hs).elim
  | sslConnAlert cid => cases ht : s.table cid <;> simp_all [step]
  | newPacketFinal cid =>
    simp only [step, newPacketFinal] at hs
    cases ht : s.table cid with
    | none => simp_all
    | some te =>
      rw [ht] at hs
      simp only at hs
      split_ifs at hs
      exact (doExpire_ne_nullDeref hs).elim
  | tcpOption => simp [step] at hs
  | expire => exact (doExpire_ne_nullDeref hs).elim
  | connectionStateRemove => exact (doExpire_ne_nullDeref hs).elim

/-- After a run, a handshake record that makes the policy send the init record finds everything in
    place exactly when it is the server's, a server hello was seen and the client sent a handshake
    record after its cipher change; where it does not, Bro crashes. -/
theorem init_data_assigned_iff {evs : List Event} {w : Watched}
    (hr : Run WatchedStep Watched.init evs w) :
    (∀ cid te isOrig data o r, w.state.table cid = some te → te.state = 4 → te.dh.p ≠ none →
      (Assigned (recordFinished te isOrig data o r).dh ↔ isOrig = false ∧
        (w.hist cid).any (isServerHello cid) = true ∧ clientFinished cid (w.hist cid) = true)) ∧
    ∀ ev, step w.state ev = .error .nullDeref ↔
      ∃ cid isOrig data o r send blocker te, ev = .sslRecord cid isOrig 22 data o r send blocker ∧
        w.state.table cid = some te ∧ te.state = 4 ∧ te.sock ≠ none ∧ te.dh.p ≠ none ∧
        ¬(isOrig = false ∧ (w.hist cid).any (isServerHello cid) = true ∧
          clientFinished cid (w.hist cid) = true) := by
  have key : ∀ cid te isOrig data o r, w.state.table cid = some te → te.state = 4 →
      te.dh.p ≠ none → (Assigned (recordFinished te isOrig data o r).dh ↔ isOrig = false ∧
        (w.hist cid).any (isServerHello cid) = true ∧ clientFinished cid (w.hist cid) = true) := by
    intro cid te isOrig data o r ht h4 hp
    have hk := Run.knows hr cid te ht
    have hg := hk.params hp
    rw [← hk.serverRandom, ← hk.clientIv]
    cases isOrig
    · simp [Assigned, recordFinished_dh, h4, hg.1, hg.2, hk.clientRandom]
    · simp [Assigned, recordFinished_dh, hk.serverIv (by omega)]
  refine ⟨key, fun ev => ⟨fun hs => ?_, ?_⟩⟩
  · obtain ⟨cid, isOrig, data, o, r, send, blocker, te, rfl, ht⟩ := step_nullDeref hs
    obtain ⟨h4, hsock, hp, ha⟩ := (sslRecord_nullDeref ht).mp hs
    rw [key cid te isOrig data o r ht h4 hp] at ha
    exact ⟨cid, isOrig, data, o, r, send, blocker, te, rfl, ht, h4, hsock, hp, ha⟩
  · rintro ⟨cid, isOrig, data, o, r, send, blocker, te, rfl, ht, h4, hsock, hp, ha⟩
    rw [← key cid te isOrig data o r ht h4 hp] at ha
    exact (sslRecord_nullDeref ht).mpr ⟨h4, hsock, hp, ha⟩

/-- A tagged handshake up to the cipher changes, with `finished` between the two. -/
def sampleHandshake (finished : List Event) : List Event :=
  [sampleHello, .sslConnServerReply sampleConn [], .sslServerKeyExchange sampleConn [] [] [],
    sampleRecord true 20] ++ finished ++ [sampleRecord false 20]

/-- Bro after such a handshake. -/
def sampleWatched (finished : List Event) : Watched :=
  match (sampleHandshake finished).foldlM Watched.step Watched.init with
  | .ok w => w
  | .error _ => Watched.init

/-- With the client's finished record between the cipher changes, the server's finds everything in
    place and Bro goes on. -/
theorem init_data_assigned_finished :
    Run WatchedStep Watched.init (sampleHandshake [sampleRecord true 22])
      (sampleWatched [sampleRecord true 22]) ∧
    (∃ te, (sampleWatched [sampleRecord true 22]).state.table sampleConn = some te ∧
      Assigned (recordFinished te false [] noEndpoint noEndpoint).dh) ∧
    step (sampleWatched [sampleRecord true 22]).state (sampleRecord false 22) ≠
      .error .nullDeref := by
  have hr : Run WatchedStep Watched.init (sampleHandshake [sampleRecord true 22])
      (sampleWatched [sampleRecord true 22]) := Run.of_foldlM (fun _ _ _ h => h) rfl
  have hiff := init_data_assigned_iff hr
  have hh : ((sampleWatched [sampleRecord true 22]).hist sampleConn).any
      (isServerHello sampleConn) = true := by decide
  have hf : clientFinished sampleConn ((sampleWatched [sampleRecord true 22]).hist sampleConn) =
      true := by decide
  refine ⟨hr, ⟨_, rfl, (hiff.1 sampleConn _ false [] noEndpoint noEndpoint rfl rfl
    (by simp [recordFinished_dh])).mpr ⟨rfl, hh, hf⟩⟩, ?_⟩
  rw [Ne, hiff.2]
  rintro ⟨cid, isOrig, data, o, r, send, blocker, te, hev, ht, h4, hsock, hp, hn⟩
  obtain ⟨rfl, rfl, -⟩ := Event.sslRecord.inj hev
  exact hn ⟨rfl, hh, hf⟩

/-- Where the client's finished record comes after both cipher changes, the init record is sent on
    it, and Bro crashes for want of the server's initialization vector. -/
theorem client_finished_crashes :
    Run WatchedStep Watched.init (sampleHandshake []) (sampleWatched []) ∧
    (∃ te, (sampleWatched []).state.table sampleConn = some te ∧ te.state = 4 ∧
      te.dh.p ≠ none ∧ (recordFinished te true [] noEndpoint noEndpoint).dh.serverIv = none) ∧
    step (sampleWatched []).state (sampleRecord true 22) = .error .nullDeref :=
  ⟨Run.of_foldlM (fun _ _ _ h => h) rfl, ⟨_, rfl, rfl, by simp, rfl⟩, rfl⟩

end Telex.Bro
