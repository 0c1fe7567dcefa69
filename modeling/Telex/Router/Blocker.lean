import Telex.Router.Refine
import Telex.FlowBlocker.Model

/-! The flow blocker over the kernel's hash table

    The flow blocker was modelled over a plain set of elements; its commands end in `call_ad` on a
    `hash:ip,port,ip` table, whose elements are hashed with `jhash2`. As long as memory does not run out
    and no twelve blocked flows share their hash with a thirteenth, one run is the other with the table
    read as a set. -/

namespace Telex.Router
open Runs FlowBlocker

/-- `__jhash_mix` -/
def jhashMix (a b c : BitVec 32) : BitVec 32 × BitVec 32 × BitVec 32 :=
  let a := a - c; let a := a ^^^ c.rotateLeft 4; let c := c + b
  let b := b - a; let b := b ^^^ a.rotateLeft 6; let a := a + c
  let c := c - b; let c := c ^^^ b.rotateLeft 8; let b := b + a
  let a := a - c; let a := a ^^^ c.rotateLeft 16; let c := c + b
  let b := b - a; let b := b ^^^ a.rotateLeft 19; let a := a + c
  let c := c - b; let c := c ^^^ b.rotateLeft 4; let b := b + a
  (a, b, c)

/-- `__jhash_final`, of which only `c` is used. -/
def jhashFinal (a b c : BitVec 32) : BitVec 32 :=
  let c := c ^^^ b; let c := c - b.rotateLeft 14
  let a := a ^^^ c; let a := a - c.rotateLeft 11
  let b := b ^^^ a; let b := b - a.rotateLeft 25
  let c := c ^^^ b; let c := c - b.rotateLeft 16
  let a := a ^^^ c; let a := a - c.rotateLeft 4
  let b := b ^^^ a; let b := b - a.rotateLeft 14
  let c := c ^^^ b; let c := c - b.rotateLeft 24
  c

/-- The loop of `jhash2` and its last words. -/
def jhash2Words (a b c : BitVec 32) : List (BitVec 32) → BitVec 32
  | [] => c
  | [k0] => jhashFinal (a + k0) b c
  | [k0, k1] => jhashFinal (a + k0) (b + k1) c
  | [k0, k1, k2] => jhashFinal (a + k0) (b + k1) (c + k2)
  | k0 :: k1 :: k2 :: ks =>
    let (a, b, c) := jhashMix (a + k0) (b + k1) (c + k2)
    jhash2Words a b c ks

def jhash2 (k : List (BitVec 32)) (initval : BitVec 32) : BitVec 32 :=
  let s := 0xdeadbeef#32 + BitVec.ofNat 32 (k.length <<< 2) + initval
  jhash2Words s s s k

/-- Four bytes of memory as the processor reads them. -/
def u32 (b0 b1 b2 b3 : Byte) : BitVec 32 := b3 ++ b2 ++ b1 ++ b0

/-- The words of a `struct hash_ipportip4_elem`, its port in network order and its padding zero. -/
def elemWords (d : Elem) : List (BitVec 32) :=
  [u32 d.ip.b0 d.ip.b1 d.ip.b2 d.ip.b3, u32 d.ip2.b0 d.ip2.b1 d.ip2.b2 d.ip2.b3,
    u32 (BitVec.ofNat 8 (d.port / 256)) (BitVec.ofNat 8 d.port) (BitVec.ofNat 8 d.proto) 0]

/-- `jhash2` of an element -/
def elemHash (d : Elem) (initval : BitVec 32) : BitVec 32 := jhash2 (elemWords d) initval

/-- `add_ipportip`, with the set after it and the result it returns. -/
def addIpportip (names : Names) (h : IpSetHash Elem) (ip1 : CText.Text) (port : ℕ) (ip2 : CText.Text)
    (block : Bool) (mem : Mem) : IpSetHash Elem × ℤ :=
  match ipsetParseElem names (ip1 ++ [','] ++ CText.decimal port ++ [','] ++ ip2) with
  | none => (h, 1)
  | some d =>
    match callAd elemHash h (if block then .add else .del) d false mem with
    | (h', none, _) => (h', 0)
    | (h', some _, _) => (h', -1)

/-- `telex_local_mod_flow` -/
def telexLocalModFlow (names : Names) (h : IpSetHash Elem) (f : Flow) (block : Bool) (mem : Mem) :
    IpSetHash Elem :=
  (addIpportip names h (inetNtop f.addr2) (ntohs f.port1) (inetNtop f.addr1) block mem).1

/-- The flow blocker and the kernel's table. -/
structure Blocker where
  ourset : IpSetHash Elem
  timers : List Timer
  now : ℕ
  executed : List (ℕ × Command)

/-- The flow blocker with the table read as a set. -/
def Blocker.router (b : Blocker) : FlowBlocker.Router :=
  ⟨⟨some b.ourset.maxelem.toNat, b.ourset.elems⟩, b.timers, b.now, b.executed⟩

/-- `on_read_ready` -/
def onReadReady (names : Names) (now : ℕ) (b : Blocker) (recvd : List Byte) (mem : Mem) : Blocker :=
  match fields recvd with
  | none => b
  | some c =>
    { b with
      ourset := telexLocalModFlow names b.ourset c.flow c.block mem
      timers := b.timers ++ [⟨c.flow, now + flowTimeout⟩]
      executed := b.executed ++ [(now, c)] }

/-- `unblock_flow` -/
def unblockFlow (names : Names) (b : Blocker) (i : ℕ) (timer : Timer) (mem : Mem) : Blocker :=
  { b with
    ourset := telexLocalModFlow names b.ourset timer.flow false mem
    timers := b.timers.eraseIdx i }

/-- A callback, with the outcomes of the allocations in it. -/
inductive BlockerStep (names : Names) : Blocker → Label × Mem → Blocker → Prop
  | recv {b now recvd mem} : b.now ≤ now → recvd.length ≤ blockFlowMsgLength →
      BlockerStep names b (.recv now recvd, mem) { onReadReady names now b recvd mem with now }
  | timer {b now i timer mem} : b.now ≤ now → b.timers[i]? = some timer → timer.due ≤ now →
      BlockerStep names b (.timer now i, mem) { unblockFlow names b i timer mem with now }

variable {names : Names} {h : IpSetHash Elem} {f : Flow} {block : Bool} {mem : Mem} {b b' : Blocker}

theorem telexLocalModFlow_eq (names : Names) (h : IpSetHash Elem) (f : Flow) (block : Bool) (mem : Mem) :
    telexLocalModFlow names h f block mem =
      (callAd elemHash h (if block then .add else .del) f.elem false mem).1 := by
  simp only [telexLocalModFlow, addIpportip, Flow.elem,
    ipsetParseElem_text names f.addr2 f.addr1 (ntohs_le f.port1)]
  generalize callAd elemHash h (if block then .add else .del) _ false mem = r
  rcases r with ⟨h', _ | e, mem'⟩ <;> rfl

theorem addIpportip_eq_zero_iff (names : Names) (h : IpSetHash Elem) (f : Flow) (block : Bool) (mem : Mem) :
    (addIpportip names h (inetNtop f.addr2) (ntohs f.port1) (inetNtop f.addr1) block mem).2 = 0 ↔
      (callAd elemHash h (if block then .add else .del) f.elem false mem).2.1 = none := by
  simp only [addIpportip, Flow.elem, ipsetParseElem_text names f.addr2 f.addr1 (ntohs_le f.port1)]
  generalize callAd elemHash h (if block then .add else .del) _ false mem = r
  rcases r with ⟨h', _ | e, mem'⟩ <;> simp

/-- A command as an operation of the set. -/
theorem refines_telexLocalModFlow (hi : h.Inv elemHash) (names : Names) (f : Flow) (block : Bool)
    (mem : Mem) :
    Refines elemHash h (.ad (if block then .add else .del) f.elem false)
      (telexLocalModFlow names h f block mem,
        .ret (callAd elemHash h (if block then .add else .del) f.elem false mem).2.1) := by
  rw [telexLocalModFlow_eq]
  exact exec_refines hi mem (.ad (if block then .add else .del) f.elem false)

/-- There is memory for the element of a flow, and not too many others have its hash. -/
def Roomy (h : IpSetHash Elem) (f : Flow) (mem : Mem) : Prop :=
  Granted mem ∧ ¬CrowdedSet elemHash h.initval (insert f.elem h.elems)

theorem elems_telexLocalModFlow (hi : h.Inv elemHash) (names : Names)
    (hroomy : block = true → Roomy h f mem) :
    (⟨some h.maxelem.toNat, (telexLocalModFlow names h f block mem).elems⟩ : OurSet) =
      (⟨some h.maxelem.toNat, h.elems⟩ : OurSet).mod f.elem block := by
  obtain ⟨-, -, hspec⟩ := refines_telexLocalModFlow hi names f block mem
  cases block with
  | false => simp only [OurSet.mod, Bool.false_eq_true, if_false, hspec.eq_erase]
  | true =>
    obtain ⟨hm, hc⟩ := hroomy rfl
    rcases hspec.add_cases with ⟨hlt, he⟩ | ⟨hle, he⟩ | ⟨hlt, hd, -, hret⟩
    · simp [OurSet.mod, OurSet.full, Nat.not_le.mpr hlt, he]
    · simp [OurSet.mod, OurSet.full, hle, he]
    · rcases callAd_add_granted hi hm hlt hd false with ⟨-, hnone, -⟩ | ⟨hcrowd, -⟩
      · exact absurd (congrArg Ret.ret hnone) hret
      · exact absurd hcrowd hc

/-- What every callback keeps. -/
theorem inv_telexLocalModFlow (hi : h.Inv elemHash) (names : Names) (f : Flow) (block : Bool) (mem : Mem) :
    (telexLocalModFlow names h f block mem).Inv elemHash ∧
      h.SameParams (telexLocalModFlow names h f block mem) :=
  ⟨(refines_telexLocalModFlow hi names f block mem).1, (refines_telexLocalModFlow hi names f block mem).2.1⟩

/-- Blocking asks for room. -/
def RoomyStep (b : Blocker) : Label × Mem → Prop
  | (.recv _ recvd, mem) => ∀ c, fields recvd = some c → c.block = true → Roomy b.ourset c.flow mem
  | (.timer _ _, _) => True

theorem step_ourset {l : Label × Mem} (hs : BlockerStep names b l b') :
    b'.ourset = b.ourset ∨
      ∃ f block, b'.ourset = telexLocalModFlow names b.ourset f block l.2 := by
  cases hs with
  | @recv now recvd mem _ _ =>
    cases hf : fields recvd with
    | none => exact .inl (by simp [onReadReady, hf])
    | some c => exact .inr ⟨c.flow, c.block, by simp [onReadReady, hf]⟩
  | @timer now i timer mem _ _ _ => exact .inr ⟨timer.flow, false, rfl⟩

/-- The table stays well formed over any callbacks. -/
theorem inv_step {l : Label × Mem} (hi : b.ourset.Inv elemHash) (hs : BlockerStep names b l b') :
    b'.ourset.Inv elemHash ∧ b.ourset.SameParams b'.ourset := by
  rcases step_ourset hs with he | ⟨f, block, he⟩
  · rw [he]
    exact ⟨hi, rfl, rfl⟩
  · rw [he]
    exact inv_telexLocalModFlow hi names f block l.2

theorem router_telexLocalModFlow (hi : b.ourset.Inv elemHash) (names : Names)
    (hroomy : block = true → Roomy b.ourset f mem) :
    (⟨some (telexLocalModFlow names b.ourset f block mem).maxelem.toNat,
        (telexLocalModFlow names b.ourset f block mem).elems⟩ : OurSet) =
      b.router.ourset.mod f.elem block := by
  rw [(inv_telexLocalModFlow hi names f block mem).2.1]
  exact elems_telexLocalModFlow hi names hroomy

/-- A callback with room is a callback of the flow blocker over a plain set. -/
theorem step_router {l : Label × Mem} (hi : b.ourset.Inv elemHash)
    (hs : BlockerStep names b l b') (hroomy : RoomyStep b l) :
    FlowBlocker.Step names b.router l.1 b'.router := by
  cases hs with
  | @recv now recvd mem hnow hlen =>
    have hstep := @FlowBlocker.Step.recv names b.router now recvd hnow hlen
    cases hf : fields recvd with
    | none =>
      rw [onReadReady_none hf] at hstep
      simpa [onReadReady, hf, Blocker.router] using hstep
    | some c =>
      have hmod := router_telexLocalModFlow hi names (hroomy c hf)
      rw [onReadReady_some hf, ← hmod] at hstep
      simpa [onReadReady, hf, Blocker.router] using hstep
  | @timer now i timer mem hnow ht hdue =>
    have hstep := @FlowBlocker.Step.timer names b.router now i timer hnow ht hdue
    have hmod := @router_telexLocalModFlow timer.flow false mem b hi names (fun h => by cases h)
    rw [unblockFlow_eq, ← hmod] at hstep
    exact hstep

/-- The labels of a run without what the allocations did. -/
theorem run_router {b₀ : Blocker} {ls : List (Label × Mem)} (hi : b₀.ourset.Inv elemHash)
    (hr : Run (When (BlockerStep names) RoomyStep) b₀ ls b) :
    b.ourset.Inv elemHash ∧ Run (FlowBlocker.Step names) b₀.router (ls.map Prod.fst) b.router := by
  induction hr with
  | nil => exact ⟨hi, .nil⟩
  | snoc _ hs ih =>
    obtain ⟨hib, hrun⟩ := ih
    rw [List.map_append, List.map_singleton]
    exact ⟨(inv_step hib hs.1).1, hrun.snoc (step_router hib hs.1 hs.2)⟩

/-- Every element of the set was asked for. -/
def Asked (b : Blocker) : Prop :=
  ∀ d ∈ b.ourset.elems, ∃ t c, (t, c) ∈ b.executed ∧ c.block = true ∧ c.flow.elem = d

theorem elems_telexLocalModFlow_subset (hi : h.Inv elemHash) (names : Names) {d : Elem}
    (hd : d ∈ (telexLocalModFlow names h f block mem).elems) :
    d ∈ h.elems ∨ (block = true ∧ f.elem = d) := by
  obtain ⟨-, -, hspec⟩ := refines_telexLocalModFlow hi names f block mem
  cases block with
  | false =>
    rw [hspec.eq_erase] at hd
    exact .inl (Finset.mem_of_mem_erase hd)
  | true =>
    rcases hspec.add_cases with ⟨-, he⟩ | ⟨-, he⟩ | ⟨-, -, he, -⟩
    · rw [he] at hd
      rcases Finset.mem_insert.mp hd with rfl | hd
      · exact .inr ⟨rfl, rfl⟩
      · exact .inl hd
    · exact .inl (he ▸ hd)
    · exact .inl (he ▸ hd)

theorem asked_step {l : Label × Mem} (hi : b.ourset.Inv elemHash) (ha : Asked b)
    (hs : BlockerStep names b l b') : Asked b' := by
  cases hs with
  | @recv now recvd mem _ _ =>
    cases hf : fields recvd with
    | none => simpa [onReadReady, hf, Asked] using ha
    | some c =>
      intro d hd
      simp only [onReadReady, hf] at hd ⊢
      rcases elems_telexLocalModFlow_subset hi names hd with hd | ⟨hb, he⟩
      · obtain ⟨t, c', hc, h'⟩ := ha d hd
        exact ⟨t, c', List.mem_append_left _ hc, h'⟩
      · exact ⟨now, c, List.mem_append_right _ (.head _), hb, he⟩
  | @timer now i timer mem _ _ _ =>
    intro d hd
    rcases elems_telexLocalModFlow_subset hi names hd with hd | ⟨hb, -⟩
    · exact ha d hd
    · cases hb

/-- A flow blocker that has just been started, over a set that has just been created. -/
def Blocker.init (ourset : IpSetHash Elem) : Blocker := ⟨ourset, [], 0, []⟩

/-- Whatever becomes of its memory, the table stays well formed and holds nothing that was not asked
    for. -/
theorem run_asked {hashsize maxelem : Option (BitVec 32)} {initval : BitVec 32} {mem : Mem}
    {ls : List (Label × Mem)} (hc : hashIpportipCreate hashsize maxelem initval mem = .ok h)
    (hr : Run (BlockerStep names) (.init h) ls b) : b.ourset.Inv elemHash ∧ Asked b := by
  obtain ⟨hi, hempty, -, -⟩ := hashIpportipCreate_ok elemHash hc
  refine hr.inv (fun b => b.ourset.Inv elemHash ∧ Asked b) ⟨hi, ?_⟩ ?_
  · intro d hd
    simp [Blocker.init, hempty] at hd
  · rintro b l b' ⟨hib, ha⟩ hs
    exact ⟨(inv_step hib hs).1, asked_step hib ha hs⟩

/-- The client's port of a sample connection. -/
def samplePort : NetPort := ⟨212, 49⟩

/-- The first command on a new table. -/
theorem exists_blocker_run : ∃ h b, hashIpportipCreate none none 0 [] = .ok h ∧
    Run (When (BlockerStep noNames) RoomyStep) (.init h)
      [(.recv 0 (msg ⟨true, sampleFlow samplePort⟩), [])] b ∧
    (sampleFlow samplePort).elem ∈ b.ourset.elems := by
  obtain ⟨h, hc⟩ : ∃ h : IpSetHash Elem, hashIpportipCreate none none 0 [] = .ok h := ⟨_, rfl⟩
  obtain ⟨hi, hempty, hmax, -⟩ := hashIpportipCreate_ok elemHash hc
  have hroomy : Roomy h (sampleFlow samplePort) [] :=
    ⟨granted_nil, not_crowdedSet_of_card_le (by simp [hempty, ahashMaxSize])⟩
  have hstep : When (BlockerStep noNames) RoomyStep (.init h)
      (.recv 0 (msg ⟨true, sampleFlow samplePort⟩), [])
      { onReadReady noNames 0 (.init h) (msg ⟨true, sampleFlow samplePort⟩) [] with now := 0 } := by
    refine ⟨.recv (Nat.le_refl 0) (Nat.le_of_eq (length_msg _)), fun c hf _ => ?_⟩
    rw [fields_msg] at hf
    exact Option.some.inj hf ▸ hroomy
  refine ⟨h, _, hc, run_one hstep, ?_⟩
  have hel := @elems_telexLocalModFlow h (sampleFlow samplePort) true [] hi noNames (fun _ => hroomy)
  simp only [onReadReady, fields_msg, Blocker.init]
  simp only [OurSet.mod, OurSet.full, hempty, hmax, if_true] at hel
  rw [(OurSet.mk.inj hel).2]
  simp

end Telex.Router
