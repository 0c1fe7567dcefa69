import Telex.Bro.Model
import Telex.Lib.Runs

/-! What an event can do to the table and to the outside

    `Move s cid ev s'` lists the ways a handler can end: nothing that matters, a new entry, a changed
    entry, an init record, and four ways to remove an entry. `step_move` reads the handlers once; the
    invariants are proved from the moves. -/

namespace Telex.Bro

@[simp]
theorem State.set_table (s : State) (cid : ConnId) (te : Option TelexInfo) :
    (s.set cid te).table = Function.update s.table cid te := rfl

@[simp]
theorem State.set_socks (s : State) (cid : ConnId) (te : Option TelexInfo) :
    (s.set cid te).socks = s.socks := rfl

@[simp]
theorem State.set_log (s : State) (cid : ConnId) (te : Option TelexInfo) :
    (s.set cid te).log = s.log := rfl

@[simp]
theorem State.did_table (s : State) (e : Effect) : (s.did e).table = s.table := rfl

@[simp]
theorem State.did_socks (s : State) (e : Effect) : (s.did e).socks = s.socks := rfl

@[simp]
theorem State.did_log (s : State) (e : Effect) : (s.did e).log = e :: s.log := rfl

/-- The connection an event is about. -/
def Event.cid : Event → ConnId
  | .sslConnAttempt cid .. | .sslConnServerReply cid _ | .sslServerKeyExchange cid ..
  | .sslRecord cid .. | .sslConnAlert cid _ | .newPacketFinal cid .. | .tcpOption cid ..
  | .expire cid _ | .connectionStateRemove cid _ => cid

/-- Effects that concern neither a block nor a socket. -/
def Effect.harmless : Effect → Prop
  | .fwd _ | .rst _ | .skip _ => True
  | _ => False

/-- An entry may go from `te` to `te'` without a record being sent. -/
structure Changes (te te' : TelexInfo) : Prop where
  sock : te'.sock = te.sock
  state : te'.state = te.state ∨ (te.state = 1 ∧ te'.state = 2) ∨ (te.state = 2 ∧ te'.state = 4)

/-- The ways the handler of `ev`, an event of the connection `cid`, can end. -/
inductive Move (s : State) (cid : ConnId) (ev : Event) : State → Prop
  | idle : Move s cid ev s
  | noted (e : Effect) : e.harmless → Move s cid ev (s.did e)
  | enter (te : TelexInfo) : s.table cid = none → te.state = 1 → te.sock = none →
      Move s cid ev ((s.did (.modBlock cid true)).set cid (some te))
  | connect (te : TelexInfo) : s.table cid = none → te.state = 1 → te.sock = some s.socks →
      Move s cid ev ({ (s.did (.modBlock cid true)).did (.openSock s.socks) with
        socks := s.socks + 1 }.set cid (some te))
  | change (te te' : TelexInfo) : s.table cid = some te → Changes te te' →
      Move s cid ev (s.set cid (some te'))
  | init (te te' : TelexInfo) (sock : ℕ) (d : InitData) : s.table cid = some te → te.state = 4 →
      te.sock = some sock → te'.sock = some sock → te'.state = 5 →
      Move s cid ev ((s.did (.send cid sock (.init d))).set cid (some te'))
  | release (te : TelexInfo) : s.table cid = some te →
      Move s cid ev ((cleanupTelexObj (s.did (.modBlock cid false)) te).set cid none)
  | abandon (te : TelexInfo) : s.table cid = some te → ev = .sslConnAlert cid true →
      Move s cid ev ((cleanupTelexObj s te).set cid none)
  | handOver (te : TelexInfo) (sock now : ℕ) (pkt : Str) (blocker : Bool) : s.table cid = some te →
      te.state = 5 → te.sock = some sock → ev = .newPacketFinal cid now pkt true blocker →
      Move s cid ev ((cleanupTelexObj ((s.did (.send cid sock (.raw pkt))).did (.rst cid)) te).set
        cid none)
  | drop (te : TelexInfo) (now : ℕ) (pkt : Str) (send blocker : Bool) : s.table cid = some te →
      te.doFwd = true → te.fwdTime < now → te.state = 5 → (te.sock = none ∨ send = false) →
      ev = .newPacketFinal cid now pkt send blocker →
      Move s cid ev ((cleanupTelexObj (s.did (.rst cid)) te).set cid none)

variable {s s' : State} {ev : Event} {cid : ConnId} {te : TelexInfo}

theorem set_did_set (s : State) (cid : ConnId) (e : Effect) (a b : Option TelexInfo) :
    ((s.set cid a).did e).set cid b = (s.did e).set cid b := by
  simp [State.set, State.did]

theorem doExpire_move (te' : TelexInfo) {blocker : Bool} (ht : s.table cid = some te)
    (hte : te'.sock = te.sock) (h : doExpire (s.set cid (some te')) cid blocker = .ok s') :
    Move s cid ev s' := by
  cases blocker
  · simp [doExpire, telexModBlock, bind, Except.bind] at h
  · simp only [doExpire, telexModBlock, State.set_table, Function.update_self, if_true, bind,
      Except.bind, pure, Except.pure, Except.ok.injEq] at h
    subst h
    have hc : (cleanupTelexObj ((s.set cid (some te')).did (.modBlock cid false)) te').set cid none =
        (cleanupTelexObj (s.did (.modBlock cid false)) te).set cid none := by
      cases hk : te.sock <;> simp [cleanupTelexObj, hte, hk, State.set, State.did]
    rw [hc]
    exact .release te ht

theorem doExpire_move_self {blocker : Bool} (h : doExpire s cid blocker = .ok s') :
    Move s cid ev s' := by
  cases ht : s.table cid with
  | none =>
      simp only [doExpire, ht, Except.ok.injEq] at h
      exact h ▸ .idle
  | some te =>
      have hs : s.set cid (some te) = s := by
        rw [State.set, ← ht, Function.update_eq_self]
      exact doExpire_move te ht rfl (hs.symm ▸ h)

theorem recordFinished_changes {isOrig : Bool} {data : Str} {orig resp : Endpoint} :
    Changes te (recordFinished te isOrig data orig resp) := by
  unfold recordFinished
  split_ifs <;> exact ⟨rfl, Or.inl rfl⟩

@[simp]
theorem recordFinished_state {isOrig : Bool} {data : Str} {orig resp : Endpoint} :
    (recordFinished te isOrig data orig resp).state = te.state := by
  unfold recordFinished
  split_ifs <;> rfl

theorem sslAppData_move {blocker : Bool} (h : sslAppData s cid blocker = .ok s') :
    Move s cid ev s' := by
  unfold sslAppData at h
  split at h
  · exact Except.ok.inj h ▸ .idle
  · split at h
    · exact Except.ok.inj h ▸ .idle
    · exact doExpire_move_self h

theorem sslChangeCipher_move {isOrig blocker : Bool}
    (h : sslChangeCipher s cid isOrig blocker = .ok s') : Move s cid ev s' := by
  unfold sslChangeCipher at h
  split at h
  · exact Except.ok.inj h ▸ .idle
  · rename_i te ht
    split at h
    · rename_i h1
      split at h
      · exact Except.ok.inj h ▸ .change te _ ht ⟨rfl, Or.inr (Or.inl ⟨h1, rfl⟩)⟩
      · exact doExpire_move_self h
    · split at h
      · rename_i h2
        exact Except.ok.inj h ▸ .change te _ ht ⟨rfl, Or.inr (Or.inr ⟨h2.1, rfl⟩)⟩
      · exact doExpire_move_self h

theorem telexSendInitData_sock {send : Bool} {d : InitData}
    (h : telexSendInitData cid te send = .ok (some d)) : ∃ sock, te.sock = some sock := by
  unfold telexSendInitData at h
  split at h
  · simp at h
  · simp at h
  · exact ⟨_, by assumption⟩

theorem sslHandshake_move {isOrig : Bool} {data : Str} {orig resp : Endpoint}
    {send blocker : Bool} (h : sslHandshake s cid isOrig data orig resp send blocker = .ok s') :
    Move s cid ev s' := by
  unfold sslHandshake at h
  split at h
  · exact Except.ok.inj h ▸ .idle
  · rename_i te ht
    have hch : Changes te (recordFinished te isOrig data orig resp) := recordFinished_changes
    simp only at h
    split at h
    · rename_i h4
      cases hd : telexSendInitData cid (recordFinished te isOrig data orig resp) send with
      | error f => simp [hd, bind, Except.bind] at h
      | ok r =>
        simp only [hd, bind, Except.bind] at h
        cases r with
        | none => exact doExpire_move _ ht hch.sock h
        | some d =>
          obtain ⟨sock, hs⟩ := telexSendInitData_sock hd
          simp only [hs, pure, Except.pure, Except.ok.injEq] at h
          subst h
          rw [set_did_set]
          exact .init te _ sock d ht (by simpa using h4) (hch.sock ▸ hs) rfl rfl
    · exact Except.ok.inj h ▸ .change te _ ht hch

theorem sslConnAttempt_move {isTagged : Bool} {diff : ℤ} {key : KeyInfo} {clientRandom : Str}
    {now : ℕ} {connect : Connect} {blocker : Bool}
    (h : sslConnAttempt s cid isTagged diff key clientRandom now connect blocker = .ok s') :
    Move s cid ev s' := by
  unfold sslConnAttempt at h
  split at h
  · exact Except.ok.inj h ▸ .idle
  · rename_i ht
    split at h
    · exact Except.ok.inj h ▸ .noted _ trivial
    · cases blocker
      · simp [telexModBlock, bind, Except.bind] at h
      · cases connect with
        | noSocket => simp [telexModBlock, telexInitBronnect, bind, Except.bind] at h
        | refused =>
          simp only [telexModBlock, telexInitBronnect, if_true, bind, Except.bind, pure, Except.pure,
            Except.ok.injEq] at h
          exact h ▸ .enter _ ht rfl rfl
        | connected =>
          simp only [telexModBlock, telexInitBronnect, if_true, bind, Except.bind, pure, Except.pure,
            Except.ok.injEq] at h
          exact h ▸ .connect _ ht rfl rfl

theorem newPacketFinal_move {now : ℕ} {pkt : Str} {send blocker : Bool}
    (h : newPacketFinal s cid now pkt send blocker = .ok s') :
    Move s cid (.newPacketFinal cid now pkt send blocker) s' := by
  unfold newPacketFinal at h
  split at h
  · exact Except.ok.inj h ▸ .idle
  · rename_i te ht
    split at h
    · rename_i hf
      split at h
      · rename_i hnow
        split at h
        · rename_i h5
          have he : s' = (cleanupTelexObj ((telexSendBronnectRawPkt s cid te pkt send).did (.rst cid))
              te).set cid none := (Except.ok.inj h).symm
          cases hs : te.sock with
          | none =>
            rw [he, show telexSendBronnectRawPkt s cid te pkt send = s by
              simp [telexSendBronnectRawPkt, hs]]
            exact .drop te now pkt send blocker ht hf hnow h5 (Or.inl hs) rfl
          | some sock =>
            cases send
            · rw [he, show telexSendBronnectRawPkt s cid te pkt false = s by
                simp [telexSendBronnectRawPkt, hs]]
              exact .drop te now pkt false blocker ht hf hnow h5 (Or.inr rfl) rfl
            · rw [he, show telexSendBronnectRawPkt s cid te pkt true =
                s.did (.send cid sock (.raw pkt)) by simp [telexSendBronnectRawPkt, hs]]
              exact .handOver te sock now pkt blocker ht h5 hs rfl
        · exact Except.ok.inj h ▸ .noted _ trivial
      · split at h
        · exact doExpire_move { te with doFwd := false, state := 7 } ht rfl h
        · exact Except.ok.inj h ▸ .idle
    · exact Except.ok.inj h ▸ .idle

theorem tcpOption_move {isOrig : Bool} {opt : ℕ} {ts : TcpTsInfo} :
    Move s cid ev (tcpOption s cid isOrig opt ts) := by
  unfold tcpOption
  split
  · exact .idle
  · rename_i te ht
    split
    · split
      · exact .change te _ ht ⟨rfl, Or.inl rfl⟩
      · exact .idle
    · split
      · split
        · exact .change te _ ht ⟨rfl, Or.inl rfl⟩
        · exact .idle
      · exact .idle

/-- Every handled event is one of the moves. -/
theorem step_move (h : step s ev = .ok s') : Move s ev.cid ev s' := by
  cases ev with
  | sslConnAttempt => exact sslConnAttempt_move h
  | sslConnServerReply cid serverRandom =>
    simp only [step] at h
    split at h
    · exact Except.ok.inj h ▸ .idle
    · rename_i te ht
      exact Except.ok.inj h ▸ .change te _ ht ⟨rfl, Or.inl rfl⟩
  | sslServerKeyExchange cid p g pubKey =>
    simp only [step] at h
    split at h
    · exact Except.ok.inj h ▸ .idle
    · rename_i te ht
      exact Except.ok.inj h ▸ .change te _ ht ⟨rfl, Or.inl rfl⟩
  | sslRecord cid isOrig typ data orig resp send blocker =>
    simp only [step] at h
    split_ifs at h
    · exact sslAppData_move h
    · exact sslChangeCipher_move h
    · exact sslHandshake_move h
    · exact Except.ok.inj h ▸ .idle
  | sslConnAlert cid isOrig =>
    simp only [step] at h
    split at h
    · exact Except.ok.inj h ▸ .idle
    · rename_i te ht
      cases isOrig
      · exact Except.ok.inj h ▸ .idle
      · exact Except.ok.inj h ▸ .abandon te ht rfl
  | newPacketFinal => exact newPacketFinal_move h
  | tcpOption => exact Except.ok.inj h ▸ tcpOption_move
  | expire => exact doExpire_move_self h
  | connectionStateRemove => exact doExpire_move_self h

@[simp]
theorem cleanupTelexObj_table : (cleanupTelexObj s te).table = s.table := by
  unfold cleanupTelexObj; split <;> rfl

@[simp]
theorem cleanupTelexObj_socks : (cleanupTelexObj s te).socks = s.socks := by
  unfold cleanupTelexObj; split <;> rfl

/-- An event leaves the entries of other connections as they were. -/
theorem Move.frame {c : ConnId} (h : Move s cid ev s') (hc : c ≠ cid) :
    s'.table c = s.table c := by
  cases h <;> simp [hc]

end Telex.Bro
