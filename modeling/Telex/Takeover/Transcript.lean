import Telex.Bro.Handshake
import Telex.Takeover.InitRecord

/-! What the init record says of the handshake

    The history of a connection is the list of its events since, and with, the one that entered it in the
    table, latest first. What the policy keeps of it is read off the history: the key and the client's
    random of the hello, the last server hello, the last key exchange, and the ends of the Finished
    messages. The record for bronnect is made of exactly these, in every run, whatever happens on other
    connections in between. -/

namespace Telex.Takeover
open Runs Bro

/-- The key and the client's random of the hello that entered the connection. -/
def enteredBy (h : List Event) : Option (KeyInfo × Str) :=
  match h.getLast? with
  | some (.sslConnAttempt _ _ _ key clientRandom ..) => some (key, clientRandom)
  | _ => none

/-- The random of the last server hello. -/
def lastServerRandom : List Event → Option Str
  | [] => none
  | .sslConnServerReply _ r :: _ => some r
  | _ :: h => lastServerRandom h

/-- The parameters of the last key exchange: the modulus, the generator and the server's public key. -/
def lastParams : List Event → Option (Str × Str × Str)
  | [] => none
  | .sslServerKeyExchange _ p g pubKey :: _ => some (p, g, pubKey)
  | _ :: h => lastParams h

/-- The connection's client has changed its cipher. -/
def changedCipher : List Event → Bool
  | [] => false
  | .sslRecord _ true 20 .. :: _ => true
  | _ :: h => changedCipher h

/-- The last handshake record of the client after its cipher change. -/
def lastFinished : List Event → Option Str
  | [] => none
  | .sslRecord _ true 22 data .. :: h => if changedCipher h then some data else lastFinished h
  | _ :: h => lastFinished h

/-- What an event does to `te$tcp`; `changed` says whether the client has changed its cipher. -/
def tcpStep (ev : Event) (changed : Bool) (tcp : TcpInfo) : TcpInfo :=
  match ev with
  | .sslRecord _ isOrig typ _ orig resp .. =>
    if typ = 22 ∧ changed = true ∧ isOrig = true then
      { tcp with
        ack := orig.lastSeq
        seq := resp.lastSeq
        sndWindow := resp.lastWindow >>> resp.lastWindowScale
        sndWindowScale := resp.lastWindowScale
        rcvWindow := orig.lastWindow >>> orig.lastWindowScale
        rcvWindowScale := orig.lastWindowScale }
    else tcp
  | .tcpOption _ isOrig opt ts =>
    if opt = 8 then
      if isOrig = false then
        { tcp with
          tsOption := true
          lastTs := if tcp.curTs.tsval ≠ ts.tsval then tcp.curTs else tcp.lastTs
          curTs := if tcp.curTs.tsval ≠ ts.tsval then ts else tcp.curTs }
      else tcp
    else if opt = 4 then
      if isOrig then { tcp with sackOption := true } else tcp
    else tcp
  | _ => tcp

/-- `te$tcp` after a history. -/
def tcpOf : List Event → TcpInfo
  | [] => (newTelexInfo ⟨[], 0⟩ [] 0).tcp
  | ev :: h => tcpStep ev (changedCipher h) (tcpOf h)

/-- The policy with the history of each connection in its table. -/
structure Traced where
  state : State
  hist : ConnId → List Event

/-- Bro at its start. -/
def Traced.init : Traced := ⟨State.init, fun _ => []⟩

/-- Handle one event; the history of a connection lasts as long as its entry. -/
def Traced.step (w : Traced) (ev : Event) : Except Fault Traced :=
  match Bro.step w.state ev with
  | .error f => .error f
  | .ok s => .ok ⟨s, fun cid =>
      if (s.table cid).isNone then [] else if cid = ev.cid then ev :: w.hist cid else w.hist cid⟩

/-- A step of the policy with its histories. -/
def TracedStep (w : Traced) (ev : Event) (w' : Traced) : Prop := w.step ev = .ok w'

/-- What the entry `te` holds after the history `h`. -/
structure Holds (h : List Event) (te : TelexInfo) : Prop where
  state : te.state = 1 ∨ te.state = 2 ∨ te.state = 4 ∨ te.state = 5
  ccs : te.state = 1 ↔ changedCipher h = false
  hello : ∃ r, te.dh.clientRandom = some r ∧ enteredBy h = some (te.keyInfo, r)
  serverRandom : te.dh.serverRandom = lastServerRandom h
  p : te.dh.p = (lastParams h).map (·.1)
  pubKey : te.dh.pubKey = (lastParams h).map (·.2.2)
  clientIv : te.dh.clientIv = (lastFinished h).map getIvFromHandshake
  serverIv : te.state ≠ 5 → te.dh.serverIv = none
  tcp : te.tcp = tcpOf h

/-- What an event does to an entry that stays in the table, as far as the init record is concerned. -/
def Follows (ev : Event) (te te' : TelexInfo) : Prop :=
  te'.keyInfo = te.keyInfo ∧ te'.tcp = tcpStep ev (decide (2 ≤ te.state)) te.tcp ∧
    match ev with
    | .sslConnServerReply _ r =>
      te'.state = te.state ∧ te'.dh = { te.dh with serverRandom := some r }
    | .sslServerKeyExchange _ p g k =>
      te'.state = te.state ∧ te'.dh = { te.dh with p := some p, g := some g, pubKey := some k }
    | .sslRecord _ isOrig typ data .. =>
      if typ = 20 then
        te'.dh = te.dh ∧ (te.state = 1 ∧ isOrig = true ∧ te'.state = 2 ∨
          te.state = 2 ∧ isOrig = false ∧ te'.state = 4)
      else if typ = 22 then
        te'.dh = { te.dh with
          clientIv := if 2 ≤ te.state ∧ isOrig = true then some (getIvFromHandshake data)
            else te.dh.clientIv
          serverIv := if 3 ≤ te.state ∧ isOrig = false then some (getIvFromHandshake data)
            else te.dh.serverIv } ∧
        te'.state = if te.state = 4 then 5 else te.state
      else te'.state = te.state ∧ te'.dh = te.dh
    | _ => te'.state = te.state ∧ te'.dh = te.dh

variable {s s' : State} {ev : Event} {cid : ConnId} {te te' : TelexInfo} {h : List Event}

theorem recordFinished_keyInfo (te : TelexInfo) (isOrig : Bool) (data : Str) (o r : Endpoint) :
    (recordFinished te isOrig data o r).keyInfo = te.keyInfo := by
  unfold recordFinished
  split_ifs <;> rfl

theorem recordFinished_tcp (cid : ConnId) (te : TelexInfo) (isOrig : Bool) (data : Str) (o r : Endpoint)
    (send blocker : Bool) : (recordFinished te isOrig data o r).tcp =
      tcpStep (.sslRecord cid isOrig 22 data o r send blocker) (decide (2 ≤ te.state)) te.tcp := by
  unfold recordFinished tcpStep
  by_cases h2 : 2 ≤ te.state <;> cases isOrig <;> by_cases h3 : 3 ≤ te.state <;> simp [h2, h3]

theorem follows_record {isOrig : Bool} {typ : ℕ} {data : Str} {o r : Endpoint} {send blocker : Bool}
    (hs : Bro.step s (.sslRecord cid isOrig typ data o r send blocker) = .ok s')
    (ht : s.table cid = some te) (ht' : s'.table cid = some te') :
    Follows (.sslRecord cid isOrig typ data o r send blocker) te te' := by
  simp only [Bro.step] at hs
  split_ifs at hs with h23 h20 h22
  · simp only [sslAppData, ht] at hs
    split at hs
    · rw [entry_same hs ht ht']
      simp [Follows, tcpStep, h23]
    · simp [doExpire_table hs] at ht'
  · subst h20
    simp only [sslChangeCipher, ht] at hs
    split at hs
    · next h1 =>
      cases isOrig with
      | false => simp [doExpire_table hs] at ht'
      | true =>
        rw [entry_eq hs ht']
        simp [Follows, tcpStep, h1]
    · split at hs
      · next h2 =>
        rw [entry_eq hs ht']
        simp [Follows, tcpStep, h2]
      · simp [doExpire_table hs] at ht'
  · subst h22
    simp only [sslHandshake, ht] at hs
    split at hs
    · next h4 =>
      rw [recordFinished_state] at h4
      cases hd : telexSendInitData cid (recordFinished te isOrig data o r) send with
      | error f => simp [hd, bind, Except.bind] at hs
      | ok d =>
        simp only [hd, bind, Except.bind] at hs
        cases d with
        | none => simp [doExpire_table hs] at ht'
        | some d =>
          rw [entry_eq hs ht']
          exact ⟨recordFinished_keyInfo .., recordFinished_tcp .., recordFinished_dh .., by simp [h4]⟩
    · next h4 =>
      rw [recordFinished_state] at h4
      rw [entry_eq hs ht']
      exact ⟨recordFinished_keyInfo .., recordFinished_tcp .., recordFinished_dh .., by simp [h4]⟩
  · rw [entry_same hs ht ht']
    simp [Follows, tcpStep, h20, h22]

/-- How the entry of the event's connection changes, if it stays. -/
theorem step_follows (hs : Bro.step s ev = .ok s') (ht : s.table ev.cid = some te)
    (ht' : s'.table ev.cid = some te') : Follows ev te te' := by
  cases ev with
  | sslConnAttempt =>
    simp only [Bro.step, sslConnAttempt, Event.cid] at hs ht
    rw [ht] at hs
    rw [entry_same hs ht ht']
    exact ⟨rfl, rfl, rfl, rfl⟩
  | sslConnServerReply cid r =>
    simp only [Bro.step, Event.cid] at hs ht
    rw [ht] at hs
    rw [entry_eq hs ht']
    exact ⟨rfl, rfl, rfl, rfl⟩
  | sslServerKeyExchange cid p g k =>
    simp only [Bro.step, Event.cid] at hs ht
    rw [ht] at hs
    rw [entry_eq hs ht']
    exact ⟨rfl, rfl, rfl, rfl⟩
  | sslRecord => exact follows_record hs ht ht'
  | sslConnAlert cid isOrig =>
    simp only [Bro.step, Event.cid] at hs ht
    rw [ht] at hs
    cases isOrig with
    | false =>
      rw [entry_same hs ht ht']
      exact ⟨rfl, rfl, rfl, rfl⟩
    | true =>
      simp only [if_true, Except.ok.injEq] at hs
      simp [← hs, cleanupConnection, Event.cid] at ht'
  | newPacketFinal cid now pkt send blocker =>
    simp only [Bro.step, newPacketFinal, Event.cid] at hs ht
    rw [ht] at hs
    have same : ∀ {u : State}, .ok u = (.ok s' : Except Fault State) → u.table = s.table →
        Follows (.newPacketFinal cid now pkt send blocker) te te' := fun hu hut => by
      rw [entry_same hu (hut ▸ ht) ht']
      exact ⟨rfl, rfl, rfl, rfl⟩
    dsimp only at hs
    split at hs
    · split at hs
      · split at hs
        · simp only [Except.ok.injEq] at hs
          simp [← hs, cleanupConnection, Event.cid] at ht'
        · exact same hs rfl
      · split at hs
        · simp [Event.cid, doExpire_table hs] at ht'
        · exact same hs rfl
    · exact same hs rfl
  | tcpOption cid isOrig opt ts =>
    simp only [Bro.step, tcpOption, Event.cid] at hs ht
    rw [ht] at hs
    dsimp only at hs
    by_cases h8 : opt = 8
    · cases isOrig with
      | false =>
        rw [if_pos h8, if_pos rfl] at hs
        rw [entry_eq hs ht']
        exact ⟨rfl, (if_pos h8).symm, rfl, rfl⟩
      | true =>
        rw [if_pos h8, if_neg (by simp)] at hs
        rw [entry_same hs ht ht']
        exact ⟨rfl, (if_pos h8).symm, rfl, rfl⟩
    · by_cases h4 : opt = 4
      · cases isOrig with
        | false =>
          rw [if_neg h8, if_pos h4, if_neg (by simp)] at hs
          rw [entry_same hs ht ht']
          exact ⟨rfl, by simp [tcpStep, h4], rfl, rfl⟩
        | true =>
          rw [if_neg h8, if_pos h4, if_pos rfl] at hs
          rw [entry_eq hs ht']
          exact ⟨rfl, by simp [tcpStep, h4], rfl, rfl⟩
      · rw [if_neg h8, if_neg h4] at hs
        rw [entry_same hs ht ht']
        exact ⟨rfl, by simp [tcpStep, h8, h4], rfl, rfl⟩
  | expire cid blocker => simp [Event.cid, doExpire_table hs] at ht'
  | connectionStateRemove cid blocker => simp [Event.cid, doExpire_table hs] at ht'

/-- Only a hello enters a connection, with its key and its random. -/
theorem step_entered (hs : Bro.step s ev = .ok s') (ht : s.table ev.cid = none)
    (ht' : s'.table ev.cid = some te') : ∃ isTagged diff key random now connect blocker sock,
      ev = .sslConnAttempt ev.cid isTagged diff key random now connect blocker ∧
        te' = { newTelexInfo key random now with sock := sock } := by
  have none' : ∀ {u : State}, .ok u = (.ok s' : Except Fault State) → u.table = s.table → False := by
    intro u hu hut
    rw [← Except.ok.inj hu, hut, ht] at ht'
    simp at ht'
  cases ev with
  | sslConnAttempt cid isTagged diff key random now connect blocker =>
    simp only [Bro.step, sslConnAttempt, Event.cid] at hs ht
    rw [ht] at hs
    simp only at hs
    split at hs
    · exact (none' hs rfl).elim
    · cases blocker with
      | false => simp [telexModBlock, bind, Except.bind] at hs
      | true =>
        cases connect with
        | noSocket => simp [telexModBlock, telexInitBronnect, bind, Except.bind] at hs
        | refused => exact ⟨_, _, _, _, _, _, _, _, rfl, entry_eq hs ht'⟩
        | connected => exact ⟨_, _, _, _, _, _, _, _, rfl, entry_eq hs ht'⟩
  | sslConnServerReply | sslServerKeyExchange | sslConnAlert =>
    simp only [Bro.step, Event.cid] at hs ht
    rw [ht] at hs
    exact (none' hs rfl).elim
  | sslRecord =>
    simp only [Bro.step, Event.cid, sslAppData, sslChangeCipher, sslHandshake] at hs ht
    rw [ht] at hs
    split_ifs at hs <;> exact (none' hs rfl).elim
  | newPacketFinal =>
    simp only [Bro.step, newPacketFinal, Event.cid] at hs ht
    rw [ht] at hs
    exact (none' hs rfl).elim
  | tcpOption =>
    simp only [Bro.step, tcpOption, Event.cid] at hs ht
    rw [ht] at hs
    exact (none' hs rfl).elim
  | expire | connectionStateRemove => simp [Event.cid, doExpire_table hs] at ht'

theorem enteredBy_cons (ev : Event) (hne : h ≠ []) : enteredBy (ev :: h) = enteredBy h := by
  rw [enteredBy, List.getLast?_cons_of_ne_nil hne, enteredBy]

/-- An entry that does not change under an event that no one looks for. -/
theorem Holds.same (hh : Holds h te) (hne : h ≠ []) (hk : te'.keyInfo = te.keyInfo)
    (hst : te'.state = te.state) (hdh : te'.dh = te.dh) (hc : changedCipher (ev :: h) = changedCipher h)
    (hr : lastServerRandom (ev :: h) = lastServerRandom h) (hp : lastParams (ev :: h) = lastParams h)
    (hf : lastFinished (ev :: h) = lastFinished h) (htcp : te'.tcp = tcpOf (ev :: h)) :
    Holds (ev :: h) te' := by
  obtain ⟨h1, h2, h3, h4, h5, h6, h7, h8, -⟩ := hh
  constructor
  · rwa [hst]
  · rwa [hst, hc]
  · rwa [hk, hdh, enteredBy_cons ev hne]
  · rwa [hdh, hr]
  · rwa [hdh, hp]
  · rwa [hdh, hp]
  · rwa [hdh, hf]
  · rwa [hst, hdh]
  · exact htcp

/-- The client has changed its cipher in all states but the first. -/
theorem Holds.two_le (hh : Holds h te) : 2 ≤ te.state ↔ changedCipher h = true := by
  have hst := hh.state
  rw [← Bool.not_eq_false, ← hh.ccs]
  omega

/-- The TCP fields follow the history, whatever the event. -/
theorem Holds.tcp_step (hh : Holds h te)
    (ht : te'.tcp = tcpStep ev (decide (2 ≤ te.state)) te.tcp) : te'.tcp = tcpOf (ev :: h) := by
  have hc : decide (2 ≤ te.state) = changedCipher h := by
    cases hc : changedCipher h with
    | false => simpa [hc] using hh.two_le
    | true => simpa [hc] using hh.two_le
  rw [ht, hc, hh.tcp, tcpOf]

theorem Holds.changeCipher {isOrig : Bool} {data : Str} {o r : Endpoint} {send blocker : Bool}
    (hh : Holds h te) (hne : h ≠ []) (hk : te'.keyInfo = te.keyInfo) (hdh : te'.dh = te.dh)
    (hst : te.state = 1 ∧ isOrig = true ∧ te'.state = 2 ∨
      te.state = 2 ∧ isOrig = false ∧ te'.state = 4)
    (htcp : te'.tcp = tcpOf (.sslRecord cid isOrig 20 data o r send blocker :: h)) :
    Holds (.sslRecord cid isOrig 20 data o r send blocker :: h) te' := by
  obtain ⟨h1, h2, h3, h4, h5, h6, h7, h8, -⟩ := hh
  have hhello : ∃ r', te'.dh.clientRandom = some r' ∧
      enteredBy (.sslRecord cid isOrig 20 data o r send blocker :: h) = some (te'.keyInfo, r') := by
    rwa [hk, hdh, enteredBy_cons _ hne]
  rcases hst with ⟨hs, rfl, hs'⟩ | ⟨hs, rfl, hs'⟩
  · exact ⟨by omega, by simp [hs', changedCipher], hhello, by rw [hdh]; exact h4, by rw [hdh]; exact h5,
      by rw [hdh]; exact h6, by rw [hdh]; exact h7, fun _ => by rw [hdh]; exact h8 (by omega), htcp⟩
  · refine ⟨by omega, ?_, hhello, by rw [hdh]; exact h4, by rw [hdh]; exact h5,
      by rw [hdh]; exact h6, by rw [hdh]; exact h7, fun _ => by rw [hdh]; exact h8 (by omega), htcp⟩
    have hc : changedCipher h ≠ false := fun hc => by
      have := h2.mpr hc
      omega
    simpa [hs', changedCipher] using hc

theorem Holds.handshake {isOrig : Bool} {data : Str} {o r : Endpoint} {send blocker : Bool}
    (hh : Holds h te) (hne : h ≠ []) (hk : te'.keyInfo = te.keyInfo)
    (hdh : te'.dh = { te.dh with
      clientIv := if 2 ≤ te.state ∧ isOrig = true then some (getIvFromHandshake data)
        else te.dh.clientIv
      serverIv := if 3 ≤ te.state ∧ isOrig = false then some (getIvFromHandshake data)
        else te.dh.serverIv })
    (hst : te'.state = if te.state = 4 then 5 else te.state)
    (htcp : te'.tcp = tcpOf (.sslRecord cid isOrig 22 data o r send blocker :: h)) :
    Holds (.sslRecord cid isOrig 22 data o r send blocker :: h) te' := by
  have h2 := hh.two_le
  obtain ⟨h1, hccs, h3, h4, h5, h6, h7, h8, -⟩ := hh
  refine ⟨?_, ?_, ?_, ?_, ?_, ?_, ?_, ?_, htcp⟩
  · split at hst <;> omega
  · have hc : changedCipher (.sslRecord cid isOrig 22 data o r send blocker :: h) = changedCipher h := by
      cases isOrig <;> rfl
    rw [hc, ← hccs]
    split at hst <;> omega
  · rw [hk, hdh, enteredBy_cons _ hne]
    exact h3
  · rw [hdh]
    exact h4
  · rw [hdh]
    exact h5
  · rw [hdh]
    exact h6
  · rw [hdh]
    cases isOrig with
    | false => simpa [lastFinished] using h7
    | true =>
      cases hc : changedCipher h with
      | false => simpa [lastFinished, h2, hc] using h7
      | true => simp [lastFinished, h2, hc]
  · intro h5'
    have h3 : ¬3 ≤ te.state := by split at hst <;> omega
    rw [hdh]
    simpa [h3] using h8 (by omega)

theorem Holds.record {isOrig : Bool} {typ : ℕ} {data : Str} {o r : Endpoint} {send blocker : Bool}
    (hh : Holds h te) (hne : h ≠ [])
    (hf : Follows (.sslRecord cid isOrig typ data o r send blocker) te te') :
    Holds (.sslRecord cid isOrig typ data o r send blocker :: h) te' := by
  obtain ⟨hk, htcp, hf⟩ := hf
  replace htcp := hh.tcp_step htcp
  dsimp only at hf
  by_cases h20 : typ = 20
  · subst h20
    exact hh.changeCipher hne hk hf.1 hf.2 htcp
  · rw [if_neg h20] at hf
    by_cases h22 : typ = 22
    · subst h22
      exact hh.handshake hne hk hf.1 hf.2 htcp
    · rw [if_neg h22] at hf
      refine hh.same hne hk hf.1 hf.2 ?_ rfl rfl ?_ htcp
      · cases isOrig
        · rfl
        · simp [changedCipher, h20]
      · cases isOrig
        · rfl
        · simp [lastFinished, h22]

/-- The entry still holds what the history says after one more event. -/
theorem Holds.step (hh : Holds h te) (hne : h ≠ []) (hf : Follows ev te te') : Holds (ev :: h) te' := by
  cases ev with
  | sslConnServerReply c r =>
    obtain ⟨hk, htcp, hst, hdh⟩ := hf
    replace htcp := hh.tcp_step htcp
    obtain ⟨h1, h2, h3, h4, h5, h6, h7, h8, -⟩ := hh
    refine ⟨by rwa [hst], by rwa [hst], by rwa [hk, hdh, enteredBy_cons _ hne], by rw [hdh]; rfl,
      by rwa [hdh], by rwa [hdh], by rwa [hdh], by rwa [hst, hdh], htcp⟩
  | sslServerKeyExchange c p g k =>
    obtain ⟨hk, htcp, hst, hdh⟩ := hf
    replace htcp := hh.tcp_step htcp
    obtain ⟨h1, h2, h3, h4, h5, h6, h7, h8, -⟩ := hh
    refine ⟨by rwa [hst], by rwa [hst], by rwa [hk, hdh, enteredBy_cons _ hne], by rwa [hdh],
      by rw [hdh]; rfl, by rw [hdh]; rfl, by rwa [hdh], by rwa [hst, hdh], htcp⟩
  | sslRecord c isOrig typ data o r send blocker => exact hh.record hne hf
  | _ =>
    obtain ⟨hk, htcp, hst, hdh⟩ := hf
    exact hh.same hne hk hst hdh rfl rfl rfl rfl (hh.tcp_step htcp)

theorem Holds.enter {isTagged : Bool} {diff : ℤ} {key : KeyInfo} {random : Str} {now : ℕ}
    {connect : Connect} {blocker : Bool} {sock : Option ℕ} :
    Holds [.sslConnAttempt cid isTagged diff key random now connect blocker]
      { newTelexInfo key random now with sock := sock } :=
  ⟨.inl rfl, iff_of_true rfl rfl, ⟨random, rfl, rfl⟩, rfl, rfl, rfl, rfl, fun _ => rfl, rfl⟩

/-- The histories are those of the entries. -/
def Traced.Held (w : Traced) : Prop :=
  ∀ cid, (w.state.table cid = none ∧ w.hist cid = []) ∨
    ∃ te, w.state.table cid = some te ∧ w.hist cid ≠ [] ∧ Holds (w.hist cid) te

theorem traced_step {w w' : Traced} (hs : TracedStep w ev w') : Bro.step w.state ev = .ok w'.state ∧
    ∀ cid, w'.hist cid = if (w'.state.table cid).isNone then []
      else if cid = ev.cid then ev :: w.hist cid else w.hist cid := by
  simp only [TracedStep, Traced.step] at hs
  split at hs
  · cases hs
  · next s' hst =>
    cases hs
    exact ⟨hst, fun _ => rfl⟩

theorem Traced.Held.step {w w' : Traced} (hw : w.Held) (hs : TracedStep w ev w') : w'.Held := by
  obtain ⟨hst, hhist⟩ := traced_step hs
  intro cid
  rw [hhist cid]
  cases ht' : w'.state.table cid with
  | none => exact .inl ⟨rfl, rfl⟩
  | some te' =>
    refine .inr ⟨te', rfl, ?_⟩
    simp only [Option.isNone_some, Bool.false_eq_true, if_false]
    by_cases hc : cid = ev.cid
    · subst hc
      rw [if_pos rfl]
      refine ⟨List.cons_ne_nil _ _, ?_⟩
      rcases hw ev.cid with ⟨ht, hnil⟩ | ⟨te, ht, hne, hh⟩
      · obtain ⟨isTagged, diff, key, random, now, connect, blocker, sock, he, rfl⟩ :=
          step_entered hst ht ht'
        rw [hnil, he]
        exact .enter
      · exact hh.step hne (step_follows hst ht ht')
    · rw [if_neg hc]
      have hframe : w'.state.table cid = w.state.table cid := (step_move hst).frame hc
      rw [hframe] at ht'
      rcases hw cid with ⟨ht, -⟩ | ⟨te, ht, hne, hh⟩
      · rw [ht] at ht'
        cases ht'
      · rw [ht] at ht'
        exact Option.some.inj ht' ▸ ⟨hne, hh⟩

/-- The histories are right in every run. -/
theorem run_held {evs : List Event} {w : Traced} (hr : Run TracedStep .init evs w) : w.Held :=
  hr.inv Traced.Held (fun _ => .inl ⟨rfl, rfl⟩) fun _ _ _ hw hs => hw.step hs

/-! ### The records that are sent -/

/-- The init records among the effects. -/
def inits : List Effect → List (ConnId × InitData)
  | [] => []
  | .send cid _ (.init d) :: l => (cid, d) :: inits l
  | _ :: l => inits l

theorem inits_cleanupTelexObj (s : State) (te : TelexInfo) :
    inits (cleanupTelexObj s te).log = inits s.log := by
  unfold cleanupTelexObj
  split <;> rfl

theorem inits_doExpire {blocker : Bool} (hd : doExpire s cid blocker = .ok s') :
    inits s'.log = inits s.log := by
  unfold doExpire at hd
  split at hd
  · cases hd
    rfl
  · cases blocker with
    | false => simp [telexModBlock, bind, Except.bind] at hd
    | true =>
      simp only [telexModBlock, if_true, bind, Except.bind, pure, Except.pure, Except.ok.injEq] at hd
      rw [← hd, State.set_log, inits_cleanupTelexObj]
      rfl

theorem inits_handshake {isOrig : Bool} {data : Str} {o r : Endpoint} {send blocker : Bool}
    (hs : sslHandshake s cid isOrig data o r send blocker = .ok s') : inits s'.log = inits s.log ∨
      ∃ te d, s.table cid = some te ∧ te.state = 4 ∧
        telexSendInitData cid (recordFinished te isOrig data o r) send = .ok (some d) ∧
        inits s'.log = (cid, d) :: inits s.log := by
  unfold sslHandshake at hs
  split at hs
  · cases hs
    exact .inl rfl
  · next te ht =>
    dsimp only at hs
    split at hs
    · next h4 =>
      rw [recordFinished_state] at h4
      cases hd : telexSendInitData cid (recordFinished te isOrig data o r) send with
      | error f => simp [hd, bind, Except.bind] at hs
      | ok d =>
        simp only [hd, bind, Except.bind] at hs
        cases d with
        | none =>
          have he := inits_doExpire hs
          exact .inl he
        | some d =>
          obtain ⟨sock, hsock⟩ := telexSendInitData_sock hd
          simp only [hsock, pure, Except.pure, Except.ok.injEq] at hs
          exact .inr ⟨te, d, ht, h4, hd, by rw [← hs]; rfl⟩
    · cases hs
      exact .inl rfl

/-- An init record is sent only for a handshake record. -/
theorem step_inits (hs : Bro.step s ev = .ok s') : inits s'.log = inits s.log ∨
    ∃ cid isOrig data o r send blocker te d, ev = .sslRecord cid isOrig 22 data o r send blocker ∧
      s.table cid = some te ∧ te.state = 4 ∧
      telexSendInitData cid (recordFinished te isOrig data o r) send = .ok (some d) ∧
      inits s'.log = (cid, d) :: inits s.log := by
  cases ev with
  | sslConnAttempt cid isTagged diff key random now connect blocker =>
    refine .inl ?_
    simp only [Bro.step, sslConnAttempt] at hs
    split at hs
    · cases hs
      rfl
    · split at hs
      · cases hs
        rfl
      · cases blocker with
        | false => simp [telexModBlock, bind, Except.bind] at hs
        | true => cases connect <;> cases hs <;> rfl
  | sslConnServerReply | sslServerKeyExchange =>
    simp only [Bro.step] at hs
    split at hs <;> cases hs <;> exact .inl rfl
  | sslRecord cid isOrig typ data o r send blocker =>
    simp only [Bro.step] at hs
    split_ifs at hs with h23 h20 h22
    · refine .inl ?_
      simp only [sslAppData] at hs
      split at hs
      · cases hs
        rfl
      · split at hs
        · cases hs
          rfl
        · exact inits_doExpire hs
    · refine .inl ?_
      simp only [sslChangeCipher] at hs
      split at hs
      · cases hs
        rfl
      · split_ifs at hs <;> first | exact inits_doExpire hs | (cases hs; rfl)
    · subst h22
      rcases inits_handshake hs with he | ⟨te, d, h'⟩
      · exact .inl he
      · exact .inr ⟨cid, isOrig, data, o, r, send, blocker, te, d, rfl, h'⟩
    · cases hs
      exact .inl rfl
  | sslConnAlert cid isOrig =>
    refine .inl ?_
    simp only [Bro.step] at hs
    split at hs
    · cases hs
      rfl
    · cases isOrig <;> cases hs
      · rfl
      · exact inits_cleanupTelexObj _ _
  | newPacketFinal cid now pkt send blocker =>
    refine .inl ?_
    simp only [Bro.step, newPacketFinal] at hs
    split at hs
    · cases hs
      rfl
    · split_ifs at hs
      · cases hs
        rw [cleanupConnection, State.set_log, inits_cleanupTelexObj]
        unfold telexSendBronnectRawPkt
        split <;> rfl
      · cases hs
        rfl
      · have he := inits_doExpire hs
        exact he
      all_goals
        cases hs
        rfl
  | tcpOption cid isOrig opt ts =>
    refine .inl ?_
    simp only [Bro.step, tcpOption, Except.ok.injEq] at hs
    subst hs
    split
    · rfl
    · split_ifs <;> rfl
  | expire | connectionStateRemove => exact .inl (inits_doExpire hs)

/-- The values an init record is made of, as they were seen: `h` is the history before the server's
    Finished message `sf`. -/
structure Matches (h : List Event) (sf : Str) (d : InitData) : Prop where
  hello : ∃ key, enteredBy h = some (key, d.clientRandom) ∧ (key.sharedKey.length = 16 →
    d.sharedSecret = key.sharedKey ∧ d.port = BitVec.ofNat 16 key.port)
  serverRandom : lastServerRandom h = some d.serverRandom
  params : ∃ g, lastParams h = some (d.p, g, d.pubKey)
  clientIv : ∃ cf, lastFinished h = some cf ∧ d.clientIv = getIvFromHandshake cf
  serverIv : d.serverIv = getIvFromHandshake sf

theorem Holds.matches {isOrig : Bool} {data : Str} {o r : Endpoint} {send : Bool} {d : InitData}
    (hh : Holds h te) (h4 : te.state = 4)
    (hd : telexSendInitData cid (recordFinished te isOrig data o r) send = .ok (some d)) :
    isOrig = false ∧ Matches h data d := by
  obtain ⟨-, hp, hpub, hcr, hsr, hci, hsi, hkey⟩ := telexSendInitData_some hd
  rw [recordFinished_dh] at hp hpub hcr hsr hci hsi
  rw [recordFinished_keyInfo] at hkey
  simp only [h4] at hp hpub hcr hsr hci hsi
  have hserver : isOrig = false := by
    cases isOrig with
    | false => rfl
    | true =>
      rw [if_neg (by simp), hh.serverIv (by omega)] at hsi
      cases hsi
  subst hserver
  obtain ⟨random, hr, hent⟩ := hh.hello
  rw [hr] at hcr
  rw [hh.serverRandom] at hsr
  rw [hh.p] at hp
  rw [hh.pubKey] at hpub
  rw [if_neg (by simp), hh.clientIv] at hci
  rw [if_pos (by simp)] at hsi
  obtain ⟨⟨p, g, pub⟩, hpar, rfl⟩ := Option.map_eq_some_iff.mp hp
  rw [hpar, Option.map_some] at hpub
  obtain ⟨cf, hcf, hiv⟩ := Option.map_eq_some_iff.mp hci
  exact ⟨rfl, ⟨te.keyInfo, Option.some.inj hcr ▸ hent, hkey⟩, hsr,
    ⟨g, by rw [hpar, ← Option.some.inj hpub]⟩, ⟨cf, hcf, hiv.symm⟩, (Option.some.inj hsi).symm⟩

/-- The entry that an init record was made from, with what it holds. -/
theorem Traced.Held.sent {w w' : Traced} {d : InitData} (hw : w.Held) (hs : TracedStep w ev w')
    (hd : inits w'.state.log = (cid, d) :: inits w.state.log) :
    ∃ sf o r send blocker te, ev = .sslRecord cid false 22 sf o r send blocker ∧
      Holds (w.hist cid) te ∧ te.state = 4 ∧
      telexSendInitData cid (recordFinished te false sf o r) send = .ok (some d) := by
  obtain ⟨hst, -⟩ := traced_step hs
  rcases step_inits hst with he | ⟨c, isOrig, data, o, r, send, blocker, te, d', rfl, ht, h4, hsent, he⟩
  · rw [hd] at he
    exact absurd (congrArg List.length he) (by simp)
  · rw [hd] at he
    obtain ⟨rfl, rfl⟩ := Prod.ext_iff.mp (List.cons.inj he).1
    rcases hw cid with ⟨hnone, -⟩ | ⟨te', ht', -, hh⟩
    · rw [ht] at hnone
      cases hnone
    · rw [ht] at ht'
      cases ht'
      obtain ⟨rfl, -⟩ := hh.matches h4 hsent
      exact ⟨data, o, r, send, blocker, te, rfl, hh, h4, hsent⟩

/-- Every init record is sent on the server's Finished message and says what was seen of its
    connection. -/
theorem init_matches_transcript {evs : List Event} {w w' : Traced} {d : InitData}
    (hr : Run TracedStep .init evs w) (hs : TracedStep w ev w')
    (hd : inits w'.state.log = (cid, d) :: inits w.state.log) :
    ∃ sf o r send blocker, ev = .sslRecord cid false 22 sf o r send blocker ∧
      Matches (w.hist cid) sf d := by
  obtain ⟨sf, o, r, send, blocker, te, he, hh, h4, hsent⟩ := (run_held hr).sent hs hd
  exact ⟨sf, o, r, send, blocker, he, (hh.matches h4 hsent).2⟩

/-- A handshake up to the server's Finished message, with the client's and with the start of another
    handshake in between. -/
def sampleEvents (finished : Str) : List Event :=
  [.sslConnAttempt sampleConn true 0 ⟨List.replicate 16 7, 8080⟩ (List.replicate 32 1) 0 .connected true,
    .sslConnAttempt ⟨3, 3, 2, 443⟩ true 0 ⟨[], 80⟩ [] 0 .connected true,
    .sslConnServerReply sampleConn (List.replicate 32 2),
    .sslServerKeyExchange sampleConn [23] [2] [8],
    .sslRecord sampleConn true 20 [] noEndpoint noEndpoint true true,
    .sslRecord sampleConn true 22 finished noEndpoint noEndpoint true true,
    .sslRecord sampleConn false 20 [] noEndpoint noEndpoint true true]

/-- The server's Finished message. -/
def sampleFinished : Event :=
  .sslRecord sampleConn false 22 (List.replicate 48 4) noEndpoint noEndpoint true true

/-- Bro after some events. -/
def tracedAfter (evs : List Event) : Traced :=
  match evs.foldlM Traced.step .init with
  | .ok w => w
  | .error _ => .init

theorem init_matches_transcript_sample :
    Run TracedStep .init (sampleEvents (List.replicate 48 3))
      (tracedAfter (sampleEvents (List.replicate 48 3))) ∧
    TracedStep (tracedAfter (sampleEvents (List.replicate 48 3))) sampleFinished
      (tracedAfter (sampleEvents (List.replicate 48 3) ++ [sampleFinished])) ∧
    ∃ d, inits (tracedAfter (sampleEvents (List.replicate 48 3) ++ [sampleFinished])).state.log =
        [(sampleConn, d)] ∧
      ∃ sf, Matches ((tracedAfter (sampleEvents (List.replicate 48 3))).hist sampleConn) sf d := by
  have hr : Run TracedStep .init (sampleEvents (List.replicate 48 3))
      (tracedAfter (sampleEvents (List.replicate 48 3))) :=
    Run.of_foldlM (fun _ _ _ h => h) rfl
  have hs : TracedStep (tracedAfter (sampleEvents (List.replicate 48 3))) sampleFinished
      (tracedAfter (sampleEvents (List.replicate 48 3) ++ [sampleFinished])) := rfl
  obtain ⟨d, hd⟩ : ∃ d,
      inits (tracedAfter (sampleEvents (List.replicate 48 3) ++ [sampleFinished])).state.log =
        (sampleConn, d) :: inits (tracedAfter (sampleEvents (List.replicate 48 3))).state.log :=
    ⟨_, rfl⟩
  obtain ⟨sf, _, _, _, _, -, hm⟩ := init_matches_transcript hr hs hd
  exact ⟨hr, hs, d, hd, sf, hm⟩

end Telex.Takeover
