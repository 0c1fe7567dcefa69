import Mathlib.Logic.Function.Basic
import Mathlib.Data.Int.Notation
import Mathlib.Tactic.Common

/-! The forged accept: `tcp_sk_forge.c`

    An ioctl on a listening socket makes a connection of a handshake that another machine did. Four
    nested functions take the lock of the listening socket, look a route up, clone the socket and give
    the clone a port; each of the three kernel calls may fail. Of a socket the model has its two locks
    (`lock_sock` makes the caller the owner, `bh_lock_sock` takes the spinlock), its references and the
    route it holds; the fields of the connection are left out, no failure depends on them.

    What the kernel's own functions do is what they are documented to do. -/

namespace Telex.Linuxmod

/-- `-EINVAL` -/
def einval : ℤ := -22

/-- The kernel, with sockets and routes known by their addresses. -/
structure Kernel (Sock Dst : Type) where
  owned : Sock → Bool
  slock : Sock → Bool
  refcnt : Sock → ℕ
  dstCache : Sock → Option Dst
  /-- `cookie_values` is not `NULL`. -/
  cookieValues : Sock → Bool
  /-- How often softirqs are disabled. -/
  softirqs : ℕ
  /-- What `dst_release` was given. -/
  released : List Dst

/-- Why a call does not return. -/
inductive Stop
  | waits
  | bug
  deriving DecidableEq

/-- The outcomes of the kernel's calls: a clone is a socket of its own. `uninit` is what the stack has
    where `tcp_v4_forge_syn_recv_sock` keeps `dst`. -/
structure Outcomes {Sock : Type} (Dst : Type) (sk : Sock) where
  route : Option Dst
  clone : Option Sock
  fresh : ∀ newsk ∈ clone, newsk ≠ sk
  inheritPort : ℤ
  uninit : Option Dst

/-- A function of the kernel. -/
abbrev M (Sock Dst α : Type) := StateT (Kernel Sock Dst) (Except Stop) α

section
variable {Sock Dst α β : Type} {x : M Sock Dst α} {f : α → M Sock Dst β} {k k' : Kernel Sock Dst}

theorem bind_ok {a : α} (h : x k = .ok (a, k')) : (x >>= f) k = f a k' := by
  simp only [bind, StateT.bind, h]
  rfl

theorem bind_error {e : Stop} (h : x k = .error e) : (x >>= f) k = .error e := by
  simp only [bind, StateT.bind, h]
  rfl

/-- `BUG_ON` -/
def bugOn (condition : Kernel Sock Dst → Bool) : M Sock Dst Unit := fun k =>
  if condition k then .error .bug else .ok ((), k)

theorem bugOn_eq {condition : Kernel Sock Dst → Bool} (h : condition k = false) :
    bugOn condition k = .ok ((), k) := by
  rw [bugOn, h]
  rfl

theorem bugOn_bug {condition : Kernel Sock Dst → Bool} (h : condition k = true) :
    bugOn condition k = .error .bug := if_pos h

end

variable {Sock Dst : Type} [DecidableEq Sock] {sk newsk : Sock} {dst : Dst} {o : Outcomes Dst sk}
variable {k k' : Kernel Sock Dst}

/-! ### The kernel's functions -/

/-- Nobody has a lock of the socket. -/
def Kernel.Free (k : Kernel Sock Dst) (sk : Sock) : Prop := k.owned sk = false ∧ k.slock sk = false

instance : Decidable (k.Free sk) := inferInstanceAs (Decidable (_ ∧ _))

def Kernel.setOwned (k : Kernel Sock Dst) (sk : Sock) (b : Bool) : Kernel Sock Dst :=
  { k with owned := Function.update k.owned sk b }

def Kernel.setSlock (k : Kernel Sock Dst) (sk : Sock) (b : Bool) : Kernel Sock Dst :=
  { k with slock := Function.update k.slock sk b }

def lockSock (sk : Sock) : M Sock Dst Unit := fun k =>
  if k.Free sk then .ok ((), k.setOwned sk true) else .error .waits

def releaseSock (sk : Sock) : M Sock Dst Unit := modify fun k => k.setOwned sk false

def bhUnlockSock (sk : Sock) : M Sock Dst Unit := modify fun k => k.setSlock sk false

def localBhDisable : M Sock Dst Unit := modify fun k => { k with softirqs := k.softirqs + 1 }

def localBhEnable : M Sock Dst Unit := modify fun k => { k with softirqs := k.softirqs - 1 }

def sockPut (sk : Sock) : M Sock Dst Unit :=
  modify fun k => { k with refcnt := Function.update k.refcnt sk (k.refcnt sk - 1) }

/-- Of `NULL` nothing is released. -/
def dstRelease (dst : Option Dst) : M Sock Dst Unit :=
  modify fun k => { k with released := k.released ++ dst.toList }

def skSetupCaps (sk : Sock) (dst : Dst) : M Sock Dst Unit :=
  modify fun k => { k with dstCache := Function.update k.dstCache sk (some dst) }

/-- The socket that `sk_clone` makes at `newsk`: locked, with two references and no route. -/
def Kernel.cloned (k : Kernel Sock Dst) (sk newsk : Sock) : Kernel Sock Dst where
  owned := Function.update k.owned newsk false
  slock := Function.update k.slock newsk true
  refcnt := Function.update k.refcnt newsk 2
  dstCache := Function.update k.dstCache newsk none
  cookieValues := Function.update k.cookieValues newsk (k.cookieValues sk)
  softirqs := k.softirqs
  released := k.released

def skClone (o : Outcomes Dst sk) : M Sock Dst (Option Sock) :=
  match o.clone with
  | none => return none
  | some newsk => do
    modify fun k => k.cloned sk newsk
    return some newsk

/-! ### The module -/

def inetCskForge (o : Outcomes Dst sk) : M Sock Dst (Option Sock) := skClone o

def tcpForgeOpenreqChild (o : Outcomes Dst sk) : M Sock Dst (Option Sock) := do
  match ← inetCskForge o with
  | none => return none
  | some newsk =>
    bugOn fun k => k.cookieValues sk
    return some newsk

def fakeInetCskRouteReq (o : Outcomes Dst sk) : M Sock Dst (Option Dst) := return o.route

/-- `exit_nonewsk` releases `dst`, which has no value yet when there is no route. -/
def tcpV4ForgeSynRecvSock (o : Outcomes Dst sk) : M Sock Dst (Option Sock) := do
  match ← fakeInetCskRouteReq o with
  | none =>
    dstRelease o.uninit
    return none
  | some dst =>
    match ← tcpForgeOpenreqChild o with
    | none =>
      dstRelease (some dst)
      return none
    | some newsk =>
      skSetupCaps newsk dst
      return some newsk

/-- The new socket, or `NULL` with `*err`. -/
def fakeInetCskAccept (o : Outcomes Dst sk) : M Sock Dst (Except ℤ Sock) := do
  lockSock sk
  match ← tcpV4ForgeSynRecvSock o with
  | none => return .error einval
  | some newsk =>
    localBhDisable
    if o.inheritPort < 0 then
      sockPut newsk
      localBhEnable
      return .error einval
    else
      releaseSock sk
      localBhEnable
      return .ok newsk

/-- What is returned, and the socket that is grafted on `newsock`. -/
def fakeInetAccept (o : Outcomes Dst sk) : M Sock Dst (ℤ × Option Sock) := do
  match ← fakeInetCskAccept o with
  | .error err => return (err, none)
  | .ok sk2 =>
    bhUnlockSock sk2
    bugOn fun k => k.refcnt sk2 < 2
    sockPut sk2
    return (0, some sk2)

/-! ### What each function does -/

theorem lockSock_eq (h : k.Free sk) : lockSock sk k = .ok ((), k.setOwned sk true) := if_pos h

theorem lockSock_waits (h : ¬ k.Free sk) : lockSock sk k = .error .waits := if_neg h

theorem inetCskForge_eq (hc : o.clone = some newsk) :
    inetCskForge o k = .ok (some newsk, k.cloned sk newsk) := by
  rw [inetCskForge, skClone, hc]
  rfl

theorem cloned_cookieValues (k : Kernel Sock Dst) (sk newsk : Sock) :
    (k.cloned sk newsk).cookieValues sk = k.cookieValues sk := by
  rw [Kernel.cloned]
  rcases eq_or_ne sk newsk with rfl | hne
  · exact Function.update_self ..
  · exact Function.update_of_ne hne ..

theorem forge_no_route (hr : o.route = none) :
    tcpV4ForgeSynRecvSock o k =
      .ok (none, { k with released := k.released ++ o.uninit.toList }) := by
  rw [tcpV4ForgeSynRecvSock, fakeInetCskRouteReq, hr]
  rfl

theorem forge_no_clone (hr : o.route = some dst) (hc : o.clone = none) :
    tcpV4ForgeSynRecvSock o k = .ok (none, { k with released := k.released ++ [dst] }) := by
  have hchild : tcpForgeOpenreqChild o k = .ok (none, k) := by
    rw [tcpForgeOpenreqChild, inetCskForge, skClone, hc]
    rfl
  rw [tcpV4ForgeSynRecvSock, fakeInetCskRouteReq, hr, pure_bind]
  exact bind_ok hchild

/-- The kernel with a clone of the socket that has the route. -/
def Kernel.child (k : Kernel Sock Dst) (sk newsk : Sock) (dst : Dst) : Kernel Sock Dst :=
  { k.cloned sk newsk with
    dstCache := Function.update (k.cloned sk newsk).dstCache newsk (some dst) }

theorem forge_child (hr : o.route = some dst) (hc : o.clone = some newsk)
    (hb : k.cookieValues sk = false) :
    tcpV4ForgeSynRecvSock o k = .ok (some newsk, k.child sk newsk dst) := by
  have hchild : tcpForgeOpenreqChild o k = .ok (some newsk, k.cloned sk newsk) := by
    rw [tcpForgeOpenreqChild, bind_ok (inetCskForge_eq hc)]
    exact bind_ok (bugOn_eq ((cloned_cookieValues k sk newsk).trans hb))
  rw [tcpV4ForgeSynRecvSock, fakeInetCskRouteReq, hr, pure_bind]
  exact bind_ok hchild

theorem forge_bug (hr : o.route = some dst) (hc : o.clone = some newsk)
    (hb : k.cookieValues sk = true) : tcpV4ForgeSynRecvSock o k = .error .bug := by
  have hchild : tcpForgeOpenreqChild o k = .error .bug := by
    rw [tcpForgeOpenreqChild, bind_ok (inetCskForge_eq hc)]
    exact bind_error (bugOn_bug ((cloned_cookieValues k sk newsk).trans hb))
  rw [tcpV4ForgeSynRecvSock, fakeInetCskRouteReq, hr, pure_bind]
  exact bind_error hchild

/-- No new socket: the lock is not given back. -/
theorem accept_null (hf : k.Free sk)
    (h : tcpV4ForgeSynRecvSock o (k.setOwned sk true) = .ok (none, k')) :
    fakeInetCskAccept o k = .ok (.error einval, k') := by
  rw [fakeInetCskAccept, bind_ok (lockSock_eq hf), bind_ok h]
  rfl

/-- The kernel after a call whose clone got no port: the clone has its lock and a reference less. -/
def Kernel.noPort (k : Kernel Sock Dst) (sk newsk : Sock) (dst : Dst) : Kernel Sock Dst :=
  { k.child sk newsk dst with
    refcnt := Function.update (k.child sk newsk dst).refcnt newsk
      ((k.child sk newsk dst).refcnt newsk - 1) }

theorem accept_no_port (hf : k.Free sk) (hr : o.route = some dst) (hc : o.clone = some newsk)
    (hb : k.cookieValues sk = false) (hp : o.inheritPort < 0) :
    fakeInetCskAccept o k = .ok (.error einval, (k.setOwned sk true).noPort sk newsk dst) := by
  rw [fakeInetCskAccept, bind_ok (lockSock_eq hf),
    bind_ok (forge_child (k := k.setOwned sk true) hr hc hb)]
  simp only [hp, if_true]
  rfl

/-- The kernel after a call that succeeded. -/
def Kernel.accepted (k : Kernel Sock Dst) (sk newsk : Sock) (dst : Dst) : Kernel Sock Dst :=
  ((k.setOwned sk true).child sk newsk dst).setOwned sk false

theorem accept_ok (hf : k.Free sk) (hr : o.route = some dst) (hc : o.clone = some newsk)
    (hb : k.cookieValues sk = false) (hp : 0 ≤ o.inheritPort) :
    fakeInetCskAccept o k = .ok (.ok newsk, k.accepted sk newsk dst) := by
  rw [fakeInetCskAccept, bind_ok (lockSock_eq hf),
    bind_ok (forge_child (k := k.setOwned sk true) hr hc hb)]
  simp only [Int.not_lt.mpr hp, if_false]
  rfl

theorem accept_waits (h : ¬ k.Free sk) : fakeInetCskAccept o k = .error .waits :=
  bind_error (lockSock_waits h)

theorem accept_bug (hf : k.Free sk) (hr : o.route = some dst) (hc : o.clone = some newsk)
    (hb : k.cookieValues sk = true) : fakeInetCskAccept o k = .error .bug := by
  rw [fakeInetCskAccept, bind_ok (lockSock_eq hf),
    bind_error (forge_bug (k := k.setOwned sk true) hr hc hb)]

/-- The kernel when the new socket is handed over. -/
def Kernel.handed (k : Kernel Sock Dst) (newsk : Sock) : Kernel Sock Dst :=
  { k.setSlock newsk false with refcnt := Function.update k.refcnt newsk (k.refcnt newsk - 1) }

theorem fakeInetAccept_ok (hf : k.Free sk) (hr : o.route = some dst) (hc : o.clone = some newsk)
    (hb : k.cookieValues sk = false) (hp : 0 ≤ o.inheritPort) :
    fakeInetAccept o k = .ok ((0, some newsk), (k.accepted sk newsk dst).handed newsk) := by
  have hcount : ((k.accepted sk newsk dst).setSlock newsk false).refcnt newsk = 2 :=
    Function.update_self ..
  have hunlock : bhUnlockSock newsk (k.accepted sk newsk dst) =
      .ok ((), (k.accepted sk newsk dst).setSlock newsk false) := rfl
  have hbug : bugOn (fun k => decide (k.refcnt newsk < 2))
      ((k.accepted sk newsk dst).setSlock newsk false) =
      .ok ((), (k.accepted sk newsk dst).setSlock newsk false) := by
    apply bugOn_eq
    rw [hcount]
    rfl
  rw [fakeInetAccept, bind_ok (accept_ok hf hr hc hb hp)]
  simp only
  rw [bind_ok hunlock, bind_ok hbug]
  rfl

theorem fakeInetAccept_null {err : ℤ} (h : fakeInetCskAccept o k = .ok (.error err, k')) :
    fakeInetAccept o k = .ok ((err, none), k') := by
  rw [fakeInetAccept, bind_ok h]
  rfl

theorem fakeInetAccept_stop {e : Stop} (h : fakeInetCskAccept o k = .error e) :
    fakeInetAccept o k = .error e := bind_error h

/-! ### The locks -/

/-- Everything is as it was before the call. -/
structure Restored (o : Outcomes Dst sk) (k k' : Kernel Sock Dst) : Prop where
  listening : k'.owned sk = k.owned sk ∧ k'.slock sk = k.slock sk
  softirqs : k'.softirqs = k.softirqs
  clone : ∀ newsk, o.route.isSome → o.clone = some newsk → k'.Free newsk

/-- Only the new socket is locked. -/
structure OnlyNew (sk newsk : Sock) (k k' : Kernel Sock Dst) : Prop where
  new : k'.slock newsk = true
  listening : k'.Free sk
  others : ∀ s, s ≠ newsk → s ≠ sk → k'.owned s = k.owned s ∧ k'.slock s = k.slock s
  softirqs : k'.softirqs = k.softirqs

/-- What the forged accept should do about locks, softirqs and routes. -/
structure Disciplined (o : Outcomes Dst sk) (k : Kernel Sock Dst) : Prop where
  returns : k.Free sk → k.cookieValues sk = false → ∃ r, fakeInetCskAccept o k = .ok r
  null : ∀ err k', fakeInetCskAccept o k = .ok (.error err, k') → Restored o k k'
  route : ∀ k₁ k₂, lockSock sk k = .ok ((), k₁) → tcpV4ForgeSynRecvSock o k₁ = .ok (none, k₂) →
    k₂.released = k₁.released ++ o.route.toList
  success : ∀ newsk k', fakeInetCskAccept o k = .ok (.ok newsk, k') → OnlyNew sk newsk k k'
  accepted : ∀ err newsk k', fakeInetAccept o k = .ok ((err, some newsk), k') → Restored o k k'

/-- Nothing is to be shown of a call that does not return. -/
theorem disciplined_of_error {e : Stop} (h : fakeInetCskAccept o k = .error e)
    (hready : k.Free sk → k.cookieValues sk = true)
    (hroute : ∀ k₁ k₂, lockSock sk k = .ok ((), k₁) →
      tcpV4ForgeSynRecvSock o k₁ ≠ .ok (none, k₂)) : Disciplined o k where
  returns hf hb := by
    rw [hready hf] at hb
    cases hb
  null err k' hk := by
    rw [h] at hk
    cases hk
  route k₁ k₂ hl hk := absurd hk (hroute k₁ k₂ hl)
  success newsk k' hk := by
    rw [h] at hk
    cases hk
  accepted err newsk k' hk := by
    rw [fakeInetAccept_stop h] at hk
    cases hk

theorem onlyNew_accept (hf : k.Free sk) (hne : newsk ≠ sk) :
    OnlyNew sk newsk k (k.accepted sk newsk dst) where
  new := Function.update_self ..
  listening := ⟨Function.update_self .., (Function.update_of_ne hne.symm ..).trans hf.2⟩
  others s hn hs := by
    simp [Kernel.accepted, Kernel.setOwned, Kernel.child, Kernel.cloned, hn, hs]
  softirqs := rfl

theorem restored_handed (hf : k.Free sk) (hc : o.clone = some newsk) :
    Restored o k ((k.accepted sk newsk dst).handed newsk) where
  listening := by
    have hne : newsk ≠ sk := o.fresh newsk hc
    have hfree : (k.accepted sk newsk dst).Free sk := (onlyNew_accept hf hne).listening
    constructor
    · exact hfree.1.trans hf.1.symm
    · exact (Function.update_of_ne hne.symm ..).trans (hfree.2.trans hf.2.symm)
  softirqs := rfl
  clone newsk' _ hc' := by
    obtain rfl : newsk = newsk' := Option.some.inj (hc.symm.trans hc')
    constructor
    · exact (Function.update_of_ne (o.fresh newsk hc) ..).trans (Function.update_self ..)
    · exact Function.update_self ..

theorem disciplined_of_ok (hf : k.Free sk) (hr : o.route = some dst) (hc : o.clone = some newsk)
    (hb : k.cookieValues sk = false) (hp : 0 ≤ o.inheritPort) : Disciplined o k := by
  have hne : newsk ≠ sk := o.fresh newsk hc
  have hok := accept_ok hf hr hc hb hp
  have hacc := fakeInetAccept_ok hf hr hc hb hp
  constructor
  case returns =>
    intro _ _
    exact ⟨_, hok⟩
  case null =>
    intro err k' hk
    rw [hok] at hk
    cases hk
  case route =>
    intro k₁ k₂ hl hk
    rw [lockSock_eq hf] at hl
    cases hl
    rw [forge_child (k := k.setOwned sk true) hr hc hb] at hk
    cases hk
  case success =>
    intro newsk' k' hk
    rw [hok] at hk
    cases hk
    exact onlyNew_accept hf hne
  case accepted =>
    intro err newsk' k' hk
    rw [hacc] at hk
    cases hk
    exact restored_handed hf hc

/-- A failure of any of the three kernel calls leaves the listening socket locked. -/
theorem accept_fails (hf : k.Free sk) (h : ¬ (o.route.isSome ∧ o.clone.isSome ∧
    (k.cookieValues sk = false → 0 ≤ o.inheritPort))) :
    ∃ k', fakeInetCskAccept o k = .ok (.error einval, k') ∧ k'.owned sk = true := by
  have hlocked : (k.setOwned sk true).owned sk = true := Function.update_self ..
  cases hr : o.route with
  | none => exact ⟨_, accept_null hf (forge_no_route hr), hlocked⟩
  | some dst =>
    cases hc : o.clone with
    | none => exact ⟨_, accept_null hf (forge_no_clone hr hc), hlocked⟩
    | some newsk =>
      rw [hr, hc] at h
      simp only [Option.isSome_some, true_and, Classical.not_imp, Int.not_le] at h
      refine ⟨_, accept_no_port hf hr hc h.1 h.2, ?_⟩
      exact (Function.update_of_ne (o.fresh newsk hc).symm ..).trans hlocked

/-- The locks are kept in order exactly when every kernel call succeeds. -/
theorem disciplined_iff (o : Outcomes Dst sk) (k : Kernel Sock Dst) :
    Disciplined o k ↔ (k.Free sk → o.route.isSome ∧ o.clone.isSome ∧
      (k.cookieValues sk = false → 0 ≤ o.inheritPort)) := by
  constructor
  · intro hd hf
    by_contra hcond
    obtain ⟨k', hnull, howned⟩ := accept_fails hf hcond
    have hsame := (hd.null _ _ hnull).listening.1
    rw [howned, hf.1] at hsame
    cases hsame
  · intro h
    by_cases hf : k.Free sk
    · obtain ⟨hr, hc, hp⟩ := h hf
      obtain ⟨dst, hr⟩ := Option.isSome_iff_exists.mp hr
      obtain ⟨newsk, hc⟩ := Option.isSome_iff_exists.mp hc
      cases hb : k.cookieValues sk with
      | false => exact disciplined_of_ok hf hr hc hb (hp hb)
      | true =>
        refine disciplined_of_error (accept_bug hf hr hc hb) (fun _ => hb) ?_
        intro k₁ k₂ hl hk
        rw [lockSock_eq hf] at hl
        cases hl
        rw [forge_bug (k := k.setOwned sk true) hr hc hb] at hk
        cases hk
    · refine disciplined_of_error (accept_waits hf) (fun h => absurd h hf) ?_
      intro k₁ k₂ hl
      rw [lockSock_waits hf] at hl
      cases hl

/-- No route: the call returns `NULL`, and the listening socket stays locked. -/
theorem no_route_leaves_lock :
    ¬ Disciplined (⟨none, some 1, by decide, 0, none⟩ : Outcomes ℕ 0)
      (⟨fun _ => false, fun _ => false, fun _ => 1, fun _ => none, fun _ => false, 0, []⟩ :
        Kernel ℕ ℕ) := by
  intro hd
  have hnull := hd.null _ _ (accept_null ⟨rfl, rfl⟩ (forge_no_route rfl))
  exact absurd hnull.listening.1 (by decide)

/-! ### Calls one after another -/

/-- `-EFAULT` -/
def efault : ℤ := -14

/-- A call of the ioctl: whether the state was copied from the user, what `sock_create_lite` and
    `sock_map_fd` returned, and the outcomes in the accept. -/
structure Call {Sock : Type} (Dst : Type) (sk : Sock) where
  copied : Bool
  create : ℤ
  newfd : ℤ
  outcomes : Outcomes Dst sk

def fakeAcceptIoctl (c : Call Dst sk) : M Sock Dst ℤ :=
  if c.copied = false then return efault
  else if c.create < 0 then return c.create
  else if c.newfd < 0 then return c.newfd
  else do
    let r ← fakeInetAccept c.outcomes
    return if r.1 < 0 then r.1 else c.newfd

def serve (calls : List (Call Dst sk)) : M Sock Dst (List ℤ) := calls.mapM fakeAcceptIoctl

/-- The call gets to the accept. -/
def Call.Reaches (c : Call Dst sk) : Prop := c.copied = true ∧ 0 ≤ c.create ∧ 0 ≤ c.newfd

/-- It fails there. -/
def Call.Fails (c : Call Dst sk) : Prop :=
  c.Reaches ∧ ¬ (c.outcomes.route.isSome ∧ c.outcomes.clone.isSome ∧ 0 ≤ c.outcomes.inheritPort)

variable {c : Call Dst sk} {calls : List (Call Dst sk)}

theorem ioctl_early (h : ¬ c.Reaches) : ∃ err, fakeAcceptIoctl c k = .ok (err, k) := by
  rw [Call.Reaches] at h
  rw [fakeAcceptIoctl]
  split
  · exact ⟨_, rfl⟩
  · split
    · exact ⟨_, rfl⟩
    · split
      · exact ⟨_, rfl⟩
      · simp_all

theorem ioctl_accept (h : c.Reaches) : fakeAcceptIoctl c k =
    (do let r ← fakeInetAccept c.outcomes
        return if r.1 < 0 then r.1 else c.newfd : M Sock Dst ℤ) k := by
  obtain ⟨h1, h2, h3⟩ := h
  rw [fakeAcceptIoctl, h1, if_neg (by decide), if_neg (Int.not_lt.mpr h2), if_neg (Int.not_lt.mpr h3)]

theorem ioctl_waits (h : c.Reaches) (hf : ¬ k.Free sk) : fakeAcceptIoctl c k = .error .waits := by
  rw [ioctl_accept h]
  exact bind_error (fakeInetAccept_stop (accept_waits hf))

theorem ioctl_fails (h : c.Fails) (hf : k.Free sk) (hb : k.cookieValues sk = false) :
    ∃ err k', fakeAcceptIoctl c k = .ok (err, k') ∧ ¬ k'.Free sk := by
  have hcond : ¬ (c.outcomes.route.isSome ∧ c.outcomes.clone.isSome ∧
      (k.cookieValues sk = false → 0 ≤ c.outcomes.inheritPort)) := by
    rw [imp_iff_right hb]
    exact h.2
  obtain ⟨k', hnull, howned⟩ := accept_fails hf hcond
  refine ⟨einval, k', ?_, ?_⟩
  · rw [ioctl_accept h.1, bind_ok (fakeInetAccept_null hnull)]
    rfl
  · intro hfree
    rw [hfree.1] at howned
    cases howned

theorem ioctl_succeeds (h : c.Reaches) (hn : ¬ c.Fails) (hf : k.Free sk)
    (hb : k.cookieValues sk = false) :
    ∃ err k', fakeAcceptIoctl c k = .ok (err, k') ∧ k'.Free sk ∧ k'.cookieValues sk = false := by
  obtain ⟨hr, hc, hp⟩ := not_not.mp fun h' => hn ⟨h, h'⟩
  obtain ⟨dst, hr⟩ := Option.isSome_iff_exists.mp hr
  obtain ⟨newsk, hc⟩ := Option.isSome_iff_exists.mp hc
  have hne : newsk ≠ sk := c.outcomes.fresh newsk hc
  refine ⟨_, _, (ioctl_accept h).trans (bind_ok (fakeInetAccept_ok hf hr hc hb hp)), ?_, ?_⟩
  · have hrestored : Restored c.outcomes k ((k.accepted sk newsk dst).handed newsk) :=
      restored_handed hf hc
    have hlocks := hrestored.listening
    exact ⟨hlocks.1.trans hf.1, hlocks.2.trans hf.2⟩
  · exact (Function.update_of_ne hne.symm ..).trans hb

theorem serve_cons {err : ℤ} (h : fakeAcceptIoctl c k = .ok (err, k')) :
    (∃ r, serve (c :: calls) k = .ok r) ↔ ∃ r, serve calls k' = .ok r := by
  rw [serve, List.mapM_cons, bind_ok h]
  cases hs : serve calls k' with
  | error e =>
    rw [serve] at hs
    rw [bind_error hs]
  | ok r =>
    rw [serve] at hs
    rw [bind_ok hs]
    exact ⟨fun _ => ⟨r, rfl⟩, fun _ => ⟨_, rfl⟩⟩

theorem serve_cons_error {e : Stop} (h : fakeAcceptIoctl c k = .error e) :
    ¬ ∃ r, serve (c :: calls) k = .ok r := by
  rw [serve, List.mapM_cons, bind_error h]
  simp

/-- Once the socket stays locked, no call gets through the accept. -/
theorem serve_locked (hf : ¬ k.Free sk) :
    (∃ r, serve calls k = .ok r) ↔ ∀ c ∈ calls, ¬ c.Reaches := by
  induction calls with
  | nil => exact ⟨fun _ => List.forall_mem_nil _, fun _ => ⟨_, rfl⟩⟩
  | cons c calls ih =>
    rw [List.forall_mem_cons]
    by_cases hc : c.Reaches
    · exact iff_of_false (serve_cons_error (ioctl_waits hc hf)) fun h => h.1 hc
    · obtain ⟨err, hearly⟩ := ioctl_early (k := k) hc
      rw [serve_cons hearly, ih]
      exact (and_iff_right hc).symm

/-- A sequence of calls on one listening socket returns exactly when none gets to the accept after one
    that failed there. -/
theorem serve_iff (hf : k.Free sk) (hb : k.cookieValues sk = false) :
    (∃ r, serve calls k = .ok r) ↔ calls.Pairwise fun c d => c.Fails → ¬ d.Reaches := by
  induction calls generalizing k with
  | nil => exact ⟨fun _ => .nil, fun _ => ⟨_, rfl⟩⟩
  | cons c calls ih =>
    rw [List.pairwise_cons]
    by_cases hfail : c.Fails
    · obtain ⟨err, k', hk, hlocked⟩ := ioctl_fails hfail hf hb
      rw [serve_cons hk, serve_locked hlocked]
      constructor
      · intro hnone
        refine ⟨fun d hd _ => hnone d hd, ?_⟩
        exact List.pairwise_of_forall_mem_list fun _ _ d hd _ => hnone d hd
      · intro h d hd
        exact h.1 d hd hfail
    · rw [and_iff_right fun _ _ hc => absurd hc hfail]
      by_cases hc : c.Reaches
      · obtain ⟨err, k', hk, hf', hb'⟩ := ioctl_succeeds hc hfail hf hb
        rw [serve_cons hk, ih hf' hb']
      · obtain ⟨err, hearly⟩ := ioctl_early (k := k) hc
        rw [serve_cons hearly, ih hf hb]

end Telex.Linuxmod
