import Telex.Router.Resize
import Telex.Lib.Runs

/-! The kernel's set as a set

    Whatever order the operations come in, and whatever the allocations do, the hash table behaves as a
    finite set with a bound on its size: it has the elements that were put in and not taken out again,
    each test is answered accordingly, and the counter is their number. Only that a new element is put
    in is not certain, for want of memory or of room in a bucket; it is then refused and nothing
    changes. -/

namespace Telex.Router
open Runs

variable {α : Type} [DecidableEq α] {jhash : α → BitVec 32 → BitVec 32} {h h' : IpSetHash α}

/-- What is done to a set: commands, which may grow the table; additions and removals by a packet, which
    may not; `ip_set_hash_flush`; and tests. -/
inductive Op (α : Type)
  | ad (adt : Adt) (d : α) (eexist : Bool)
  | kernelAd (adt : Adt) (d : α)
  | flush
  | test (d : α)

/-- What an operation returns: an error or zero, or the answer of a test. -/
inductive Ret
  | ret (e : Option Errno)
  | answer (found : Bool)
  deriving DecidableEq

/-- `ip_set_add` and `ip_set_del`, which try once. -/
def ipSetAd (jhash : α → BitVec 32 → BitVec 32) (h : IpSetHash α) (adt : Adt) (d : α) (mem : Mem) :
    IpSetHash α × Option Errno :=
  match adtfn jhash h adt d mem with
  | (.ok h', _) => (h', none)
  | (.error e, _) => (h, some e)

def exec (jhash : α → BitVec 32 → BitVec 32) (h : IpSetHash α) (mem : Mem) : Op α → IpSetHash α × Ret
  | .ad adt d eexist =>
    let (h', ret, _) := callAd jhash h adt d eexist mem
    (h', .ret ret)
  | .kernelAd adt d =>
    let (h', ret) := ipSetAd jhash h adt d mem
    (h', .ret ret)
  | .flush => (ipSetHashFlush h, .ret none)
  | .test d => (h, .answer (typePfTest jhash h d))

/-- An operation with its result, for some outcomes of the allocations. -/
def Step (jhash : α → BitVec 32 → BitVec 32) (h : IpSetHash α) (l : Op α × Ret) (h' : IpSetHash α) :
    Prop := ∃ mem, exec jhash h mem l.1 = (h', l.2)

/-- The elements of the set. -/
def IpSetHash.elems (h : IpSetHash α) : Finset α := h.table.data.toFinset

/-- What an operation is to do to a set of at most `maxelem` elements. -/
inductive Spec (maxelem : ℕ) : Finset α → Op α × Ret → Finset α → Prop
  | added {s d eexist} : s.card < maxelem → d ∉ s → Spec maxelem s (.ad .add d eexist, .ret none) (insert d s)
  | exist {s d eexist} : s.card < maxelem → d ∈ s →
      Spec maxelem s (.ad .add d eexist, .ret (if eexist then none else some .exist)) s
  | full {s d eexist} : maxelem ≤ s.card → Spec maxelem s (.ad .add d eexist, .ret (some .hashFull)) s
  | refused {s d eexist e} : s.card < maxelem → d ∉ s → e = .enomem ∨ e = .hashFull →
      Spec maxelem s (.ad .add d eexist, .ret (some e)) s
  | deleted {s d eexist} : d ∈ s → Spec maxelem s (.ad .del d eexist, .ret none) (s.erase d)
  | absent {s d eexist} : d ∉ s →
      Spec maxelem s (.ad .del d eexist, .ret (if eexist then none else some .exist)) s
  | kernelAdded {s d} : s.card < maxelem → d ∉ s → Spec maxelem s (.kernelAd .add d, .ret none) (insert d s)
  | kernelRefused {s d e} : maxelem ≤ s.card ∧ e = .hashFull ∨ s.card < maxelem ∧ d ∈ s ∧ e = .exist ∨
        s.card < maxelem ∧ d ∉ s ∧ (e = .eagain ∨ e = .enomem) →
      Spec maxelem s (.kernelAd .add d, .ret (some e)) s
  | kernelDeleted {s d} : d ∈ s → Spec maxelem s (.kernelAd .del d, .ret none) (s.erase d)
  | kernelAbsent {s d} : d ∉ s → Spec maxelem s (.kernelAd .del d, .ret (some .exist)) s
  | flush {s} : Spec maxelem s (.flush, .ret none) ∅
  | test {s d} : Spec maxelem s (.test d, .answer (d ∈ s)) s

theorem mem_elems {d : α} : d ∈ h.elems ↔ d ∈ h.table.data := List.mem_toFinset

theorem IpSetHash.Inv.card_elems (hi : h.Inv jhash) : h.elems.card = h.elements.toNat := by
  rw [IpSetHash.elems, List.toFinset_card_of_nodup hi.nodup, hi.elements]

theorem elems_of_perm (hp : h'.table.data.Perm h.table.data) : h'.elems = h.elems :=
  List.toFinset_eq_of_perm _ _ hp

theorem elems_insert {d : α} (hp : h'.table.data.Perm (d :: h.table.data)) :
    h'.elems = insert d h.elems := by
  rw [IpSetHash.elems, List.toFinset_eq_of_perm _ _ hp, List.toFinset_cons, IpSetHash.elems]

theorem IpSetHash.Inv.elems_erase (hi : h.Inv jhash) {d : α}
    (hp : h.table.data.Perm (d :: h'.table.data)) : h'.elems = h.elems.erase d := by
  have hnot : d ∉ h'.elems := by
    rw [mem_elems]
    exact (List.nodup_cons.mp (hp.nodup_iff.mp hi.nodup)).1
  rw [elems_insert (h := h') hp, Finset.erase_insert hnot]

theorem IpSetHash.Inv.lt_iff (hi : h.Inv jhash) : h.elements < h.maxelem ↔ h.elems.card < h.maxelem.toNat := by
  rw [hi.card_elems, BitVec.lt_def]

theorem IpSetHash.Inv.le_iff (hi : h.Inv jhash) : h.maxelem ≤ h.elements ↔ h.maxelem.toNat ≤ h.elems.card := by
  rw [hi.card_elems, BitVec.le_def]

/-- From `h` the operation leads to `h'` with the result `ret`, as it is to do. -/
def Refines (jhash : α → BitVec 32 → BitVec 32) (h : IpSetHash α) (op : Op α) (r : IpSetHash α × Ret) :
    Prop := r.1.Inv jhash ∧ h.SameParams r.1 ∧ Spec h.maxelem.toNat h.elems (op, r.2) r.1.elems

/-- An operation that changes nothing. -/
theorem refines_self (hi : h.Inv jhash) {op : Op α} {ret : Ret}
    (hs : Spec h.maxelem.toNat h.elems (op, ret) h.elems) : Refines jhash h op (h, ret) :=
  ⟨hi, ⟨rfl, rfl⟩, hs⟩

theorem refines_add (hi : h.Inv jhash) (mem : Mem) (d : α) (eexist : Bool) :
    Refines jhash h (.ad .add d eexist) (exec jhash h mem (.ad .add d eexist)) := by
  rcases typePfAdd_cases hi d mem with ⟨hfull, he⟩ | ⟨hroom, hd, he⟩ | ⟨hroom, hd, -⟩
  · have hc : callAd jhash h .add d eexist mem = (h, some .hashFull, mem) := by rw [callAd, adtfn, he]
    simp only [exec, hc]
    exact refines_self hi (.full (hi.le_iff.mp hfull))
  · have hc : callAd jhash h .add d eexist mem = (h, if eexist then none else some .exist, mem) := by
      rw [callAd, adtfn, he]
    simp only [exec, hc]
    exact refines_self hi (.exist (hi.lt_iff.mp hroom) (mem_elems.mpr hd))
  · have hlt := hi.lt_iff.mp hroom
    have hd' : d ∉ h.elems := fun hm => hd (mem_elems.mp hm)
    obtain ⟨h', ret, mem', hc, hi', hpar, hres⟩ := callAd_add_new hi hroom hd eexist mem
    simp only [exec, hc]
    refine ⟨hi', hpar, ?_⟩
    rcases hres with ⟨rfl, hp, -⟩ | ⟨hp, ⟨rfl, -⟩ | ⟨rfl, -⟩⟩
    · exact elems_insert hp ▸ .added hlt hd'
    · rw [elems_of_perm hp]
      exact .refused hlt hd' (.inl rfl)
    · rw [elems_of_perm hp]
      exact .refused hlt hd' (.inr rfl)

theorem refines_del (hi : h.Inv jhash) (mem : Mem) (d : α) (eexist : Bool) :
    Refines jhash h (.ad .del d eexist) (exec jhash h mem (.ad .del d eexist)) := by
  rcases typePfDel_cases hi d mem with ⟨hd, he⟩ | ⟨hd, h', mem', he, -, hi', hpar, hp, -⟩
  · have hc : callAd jhash h .del d eexist mem = (h, if eexist then none else some .exist, mem) := by
      rw [callAd, adtfn, he]
    simp only [exec, hc]
    exact refines_self hi (.absent fun hm => hd (mem_elems.mp hm))
  · have hc : callAd jhash h .del d eexist mem = (h', none, mem') := by rw [callAd, adtfn, he]
    simp only [exec, hc]
    exact ⟨hi', hpar, hi.elems_erase hp ▸ .deleted (mem_elems.mpr hd)⟩

theorem refines_kernelAdd (hi : h.Inv jhash) (mem : Mem) (d : α) :
    Refines jhash h (.kernelAd .add d) (exec jhash h mem (.kernelAd .add d)) := by
  rcases typePfAdd_cases hi d mem with ⟨hfull, he⟩ | ⟨hroom, hd, he⟩ | ⟨hroom, hd, hnew⟩
  · simp only [exec, ipSetAd, adtfn, he]
    exact refines_self hi (.kernelRefused (.inl ⟨hi.le_iff.mp hfull, rfl⟩))
  · simp only [exec, ipSetAd, adtfn, he]
    exact refines_self hi
      (.kernelRefused (.inr (.inl ⟨hi.lt_iff.mp hroom, mem_elems.mpr hd, rfl⟩)))
  · have hlt := hi.lt_iff.mp hroom
    have hd' : d ∉ h.elems := fun hm => hd (mem_elems.mp hm)
    rcases hnew with ⟨h', mem', he, -, hi', hpar, hp, -⟩ | ⟨he, -⟩ | ⟨mem', he, -⟩ <;>
      simp only [exec, ipSetAd, adtfn, he]
    · exact ⟨hi', hpar, elems_insert hp ▸ .kernelAdded hlt hd'⟩
    · exact refines_self hi (.kernelRefused (.inr (.inr ⟨hlt, hd', .inl rfl⟩)))
    · exact refines_self hi (.kernelRefused (.inr (.inr ⟨hlt, hd', .inr rfl⟩)))

theorem refines_kernelDel (hi : h.Inv jhash) (mem : Mem) (d : α) :
    Refines jhash h (.kernelAd .del d) (exec jhash h mem (.kernelAd .del d)) := by
  rcases typePfDel_cases hi d mem with ⟨hd, he⟩ | ⟨hd, h', mem', he, -, hi', hpar, hp, -⟩
  · simp only [exec, ipSetAd, adtfn, he]
    exact refines_self hi (.kernelAbsent fun hm => hd (mem_elems.mp hm))
  · simp only [exec, ipSetAd, adtfn, he]
    exact ⟨hi', hpar, hi.elems_erase hp ▸ .kernelDeleted (mem_elems.mpr hd)⟩

/-- Each operation keeps the invariant and the parameters, and does what it is to do. -/
theorem exec_refines (hi : h.Inv jhash) (mem : Mem) (op : Op α) :
    Refines jhash h op (exec jhash h mem op) := by
  rcases op with ⟨_ | _, d, eexist⟩ | ⟨_ | _, d⟩ | _ | d
  · exact refines_add hi mem d eexist
  · exact refines_del hi mem d eexist
  · exact refines_kernelAdd hi mem d
  · exact refines_kernelDel hi mem d
  · have hempty : (ipSetHashFlush h).elems = ∅ := by simp [IpSetHash.elems, ipSetHashFlush]
    exact ⟨inv_ipSetHashFlush h, ⟨rfl, rfl⟩, hempty ▸ .flush⟩
  · have hans : typePfTest jhash h d = decide (d ∈ h.elems) := by
      rw [Bool.eq_iff_iff, typePfTest_iff hi, decide_eq_true_iff, mem_elems]
    simp only [exec, hans]
    exact refines_self hi .test

theorem Spec.eq_erase {n : ℕ} {s s' : Finset α} {d : α} {eexist : Bool} {ret : Ret}
    (hs : Spec n s (.ad .del d eexist, ret) s') : s' = s.erase d := by
  cases hs with
  | deleted _ => rfl
  | absent hd => exact (Finset.erase_eq_of_notMem hd).symm

/-- An element that is there is taken out. -/
theorem Spec.ret_of_mem {n : ℕ} {s s' : Finset α} {d : α} {eexist : Bool} {ret : Ret}
    (hs : Spec n s (.ad .del d eexist, ret) s') (hd : d ∈ s) : ret = .ret none := by
  cases hs with
  | deleted _ => rfl
  | absent hnot => exact absurd hd hnot

theorem Spec.add_cases {n : ℕ} {s s' : Finset α} {d : α} {eexist : Bool} {ret : Ret}
    (hs : Spec n s (.ad .add d eexist, ret) s') :
    (s.card < n ∧ s' = insert d s) ∨ (n ≤ s.card ∧ s' = s) ∨
      (s.card < n ∧ d ∉ s ∧ s' = s ∧ ret ≠ .ret none) := by
  cases hs with
  | added hlt _ => exact .inl ⟨hlt, rfl⟩
  | exist hlt hd => exact .inl ⟨hlt, (Finset.insert_eq_of_mem hd).symm⟩
  | full hle => exact .inr (.inl ⟨hle, rfl⟩)
  | refused hlt hd _ => exact .inr (.inr ⟨hlt, hd, rfl, by simp⟩)

/-- A command that adds an element leaves it in the set if it succeeds or the element was there. -/
theorem Spec.add_eq {n : ℕ} {s s' : Finset α} {d : α} {eexist : Bool} {ret : Ret}
    (hs : Spec n s (.ad .add d eexist, ret) s') :
    s' = if d ∈ s ∨ ret = .ret none then insert d s else s := by
  cases hs with
  | added _ _ => rw [if_pos (.inr rfl)]
  | exist _ hd => rw [if_pos (.inl hd), Finset.insert_eq_of_mem hd]
  | full _ =>
    split
    · next h => rw [Finset.insert_eq_of_mem (h.resolve_right (by simp))]
    · rfl
  | refused _ hd _ => rw [if_neg (not_or.mpr ⟨hd, by simp⟩)]

/-- `fls` -/
def fls (n : ℕ) : ℕ := if n = 0 then 0 else n.log2 + 1

/-- `htable_bits` -/
def htableBits (hashsize : BitVec 32) : BitVec 8 :=
  let bits := BitVec.ofNat 8 (fls (hashsize - 1).toNat)
  if jhashSize bits ≠ hashsize.toNat then BitVec.ofNat 8 (fls hashsize.toNat) else bits

def ipsetDefaultHashsize : BitVec 32 := 1024#32

def ipsetMiminalHashsize : BitVec 32 := 64#32

def ipsetDefaultMaxelem : BitVec 32 := 65536#32

/-- `hash_ipportip_create` without a timeout, with the random number it draws. -/
def hashIpportipCreate (hashsize maxelem : Option (BitVec 32)) (initval : BitVec 32) (mem : Mem) :
    Except Errno (IpSetHash α) :=
  let hashsize := match hashsize with
    | some n => if n < ipsetMiminalHashsize then ipsetMiminalHashsize else n
    | none => ipsetDefaultHashsize
  match kzalloc mem with
  | (false, _) => .error .enomem
  | (true, mem) =>
    match kzalloc mem with
    | (false, _) => .error .enomem
    | (true, _) => .ok ⟨.alloc (htableBits hashsize), maxelem.getD ipsetDefaultMaxelem, 0, initval⟩

variable {hashsize maxelem : Option (BitVec 32)} {initval : BitVec 32} {mem : Mem}

theorem hashIpportipCreate_ok (jhash : α → BitVec 32 → BitVec 32)
    (hc : hashIpportipCreate hashsize maxelem initval mem = .ok h) :
    h.Inv jhash ∧ h.elems = ∅ ∧ h.maxelem = maxelem.getD ipsetDefaultMaxelem ∧ h.initval = initval := by
  unfold hashIpportipCreate at hc
  simp only at hc
  split at hc
  · cases hc
  · split at hc
    · cases hc
    · cases hc
      exact ⟨⟨Htable.placed_alloc jhash initval _, by simp, by simp, BitVec.le_def.mpr (by simp)⟩,
        by simp [IpSetHash.elems], rfl, rfl⟩

/-- Whether an element is in the set after an operation with its result, by whether it was before. -/
def heldAfter (d : α) (before : Bool) : Op α × Ret → Bool
  | (.ad adt d' _, .ret none) => if d' = d then adt = .add else before
  | (.kernelAd adt d', .ret none) => if d' = d then adt = .add else before
  | (.flush, _) => false
  | _ => before

/-- Whether the operations leave an element in the set, by their results alone. -/
def held (d : α) (ls : List (Op α × Ret)) : Bool := ls.foldl (heldAfter d) false

theorem mem_spec_iff {maxelem : ℕ} {s s' : Finset α} {l : Op α × Ret} (hs : Spec maxelem s l s') (d : α) :
    d ∈ s' ↔ heldAfter d (d ∈ s) l = true := by
  cases hs with
  | @added d' _ _ _ | @kernelAdded d' _ _ =>
    by_cases he : d' = d
    · simp [heldAfter, he]
    · simp [heldAfter, he, Ne.symm he]
  | @deleted d' _ _ | @kernelDeleted d' _ =>
    by_cases he : d' = d
    · simp [heldAfter, he]
    · simp [heldAfter, he, Ne.symm he]
  | @exist d' eexist _ hd =>
    by_cases he : d' = d <;> cases eexist <;> simp_all [heldAfter]
  | @absent d' eexist hd =>
    by_cases he : d' = d <;> cases eexist <;> simp_all [heldAfter]
  | full | refused | kernelRefused | kernelAbsent | flush | test => simp [heldAfter]

theorem held_of_spec {maxelem : ℕ} {ls : List (Op α × Ret)} {s : Finset α}
    (hr : Run (Spec maxelem) ∅ ls s) (d : α) : d ∈ s ↔ held d ls = true := by
  induction hr with
  | nil => simp [held]
  | snoc _ hs ih =>
    have hb : decide (d ∈ _) = held d _ := Bool.eq_iff_iff.mpr (decide_eq_true_iff.trans ih)
    rw [held, List.foldl_append, List.foldl_cons, List.foldl_nil, mem_spec_iff hs d, hb, held]

/-- A set that was created and then used in any way whatever. -/
theorem run_hashIpportip {h₀ : IpSetHash α} {ls : List (Op α × Ret)}
    (hc : hashIpportipCreate hashsize maxelem initval mem = .ok h₀) (hr : Run (Step jhash) h₀ ls h) :
    h.Inv jhash ∧ h₀.SameParams h ∧
      Run (Spec (maxelem.getD ipsetDefaultMaxelem).toNat) ∅ ls h.elems := by
  obtain ⟨hi₀, hempty, hmax, -⟩ := hashIpportipCreate_ok jhash hc
  have hstep : ∀ h l h', (h.Inv jhash ∧ h₀.SameParams h) → Step jhash h l h' →
      (h'.Inv jhash ∧ h₀.SameParams h') ∧ Spec h₀.maxelem.toNat h.elems l h'.elems := by
    rintro h ⟨op, ret⟩ h' ⟨hi, hpar⟩ ⟨mem, he⟩
    obtain ⟨hi', hpar', hs⟩ := exec_refines hi mem op
    rw [he] at hi' hpar' hs
    rw [hpar.1] at hs
    exact ⟨⟨hi', hpar'.1.trans hpar.1, hpar'.2.trans hpar.2⟩, hs⟩
  obtain ⟨⟨hi, hpar⟩, hspec⟩ := hr.simulate (fun h => h.Inv jhash ∧ h₀.SameParams h)
    IpSetHash.elems ⟨hi₀, rfl, rfl⟩ hstep
  rw [hempty, hmax] at hspec
  exact ⟨hi, hpar, hspec⟩

/-- More than a bucket's worth of the elements agree in 31 bits of their hash. -/
def CrowdedSet (jhash : α → BitVec 32 → BitVec 32) (initval : BitVec 32) (s : Finset α) : Prop :=
  ∃ i, ahashMaxSize < (s.filter fun x => (jhash x initval).toNat % 2 ^ 31 = i).card

theorem crowdedSet_toFinset {l : List α} (hl : l.Nodup) :
    CrowdedSet jhash initval l.toFinset ↔ Crowded jhash initval l := by
  refine exists_congr fun i => ?_
  have hf : (l.toFinset.filter fun x => (jhash x initval).toNat % 2 ^ 31 = i) =
      (l.filter fun x => (jhash x initval).toNat % 2 ^ 31 = i).toFinset := by
    ext x
    simp
  rw [hf, List.toFinset_card_of_nodup (hl.filter _), List.countP_eq_length_filter]

/-- Where memory does not run out, an element is put in unless the set is full or too many elements
    would have its hash. -/
theorem callAd_add_granted (hi : h.Inv jhash) (hm : Granted mem) (hroom : h.elems.card < h.maxelem.toNat)
    {d : α} (hd : d ∉ h.elems) (eexist : Bool) :
    (¬CrowdedSet jhash h.initval (insert d h.elems) ∧ (callAd jhash h .add d eexist mem).2.1 = none ∧
        (callAd jhash h .add d eexist mem).1.elems = insert d h.elems) ∨
      (CrowdedSet jhash h.initval (insert d h.elems) ∧
        (callAd jhash h .add d eexist mem).2.1 = some .hashFull ∧
        (callAd jhash h .add d eexist mem).1.elems = h.elems) := by
  have hd' : d ∉ h.table.data := fun hm => hd (mem_elems.mpr hm)
  have hcrowd : CrowdedSet jhash h.initval (insert d h.elems) ↔
      Crowded jhash h.initval (d :: h.table.data) := by
    rw [IpSetHash.elems, ← List.toFinset_cons]
    exact crowdedSet_toFinset (List.nodup_cons.mpr ⟨hd', hi.nodup⟩)
  obtain ⟨h', ret, mem', hc, -, -, hres⟩ := callAd_add_new hi (hi.lt_iff.mpr hroom) hd' eexist mem
  rw [hc, hcrowd]
  rcases hres with ⟨rfl, hp, b, hf⟩ | ⟨hp, ⟨-, hg⟩ | ⟨rfl, hall⟩⟩
  · exact .inl ⟨hf.not_crowded, rfl, elems_insert hp⟩
  · exact absurd hm hg
  · refine .inr ⟨?_, rfl, elems_of_perm hp⟩
    have htop : h.table.htableBits ≤ 255 := by
      have := h.table.htableBits.isLt
      bv_omega
    exact not_not.mp fun hn => hall 255 htop (fits_iff_not_crowded.mpr hn)

/-- What is in a table is not crowded. -/
theorem IpSetHash.Inv.not_crowdedSet (hi : h.Inv jhash) : ¬CrowdedSet jhash h.initval h.elems := by
  rw [IpSetHash.elems, crowdedSet_toFinset hi.nodup]
  exact hi.placed.fits.not_crowded

theorem not_crowdedSet_of_card_le {β : Type} {jhash : β → BitVec 32 → BitVec 32} {s : Finset β}
    (hs : s.card ≤ ahashMaxSize) : ¬CrowdedSet jhash initval s := by
  rintro ⟨i, hi⟩
  have := Finset.card_filter_le s fun x => (jhash x initval).toNat % 2 ^ 31 = i
  omega

theorem CrowdedSet.mono {β : Type} {jhash : β → BitVec 32 → BitVec 32} {s t : Finset β}
    (hc : CrowdedSet jhash initval s) (hst : s ⊆ t) : CrowdedSet jhash initval t := by
  obtain ⟨i, hi⟩ := hc
  exact ⟨i, hi.trans_le (Finset.card_le_card (Finset.filter_subset_filter _ hst))⟩

/-- Distinct elements can be put in one after another where they are not too many and not crowded. -/
theorem exists_run_adds {h₀ : IpSetHash α} (hi : h₀.Inv jhash) (hempty : h₀.elems = ∅) (ds : List α)
    (hnodup : ds.Nodup) (hroom : ds.length ≤ h₀.maxelem.toNat)
    (hsparse : ¬CrowdedSet jhash h₀.initval ds.toFinset) : ∃ h : IpSetHash α,
    Run (Step jhash) h₀ (ds.map fun d => (.ad .add d false, .ret none)) h ∧
      (h.Inv jhash ∧ h₀.SameParams h) ∧ h.elems = ds.toFinset := by
  induction ds using List.reverseRecOn with
  | nil => exact ⟨h₀, .nil, ⟨hi, rfl, rfl⟩, hempty⟩
  | append_singleton ds d ih =>
    have hset : (ds ++ [d]).toFinset = insert d ds.toFinset := by
      ext x
      simp
    rw [hset] at hsparse ⊢
    rw [List.length_append, List.length_singleton] at hroom
    obtain ⟨hds, -, hd⟩ := List.nodup_append'.mp hnodup
    have hnot : d ∉ ds.toFinset := fun hm => hd (List.mem_toFinset.mp hm) (List.mem_singleton_self d)
    obtain ⟨h, hr, ⟨hih, hmax, hinit⟩, hel⟩ :=
      ih hds (Nat.le_of_succ_le hroom) fun hc => hsparse (hc.mono (Finset.subset_insert d _))
    have hlt : h.elems.card < h.maxelem.toNat := by
      rw [hmax, hel, List.toFinset_card_of_nodup hds]
      exact hroom
    rw [← hel, ← hinit] at hsparse
    rcases callAd_add_granted hih granted_nil hlt (hel ▸ hnot) false with ⟨-, hnone, hins⟩ | ⟨hc, -⟩
    · obtain ⟨hi', hpar', -⟩ := refines_add hih [] d false
      refine ⟨(callAd jhash h .add d false []).1, ?_,
        ⟨hi', hpar'.1.trans hmax, hpar'.2.trans hinit⟩, hel ▸ hins⟩
      rw [List.map_append, List.map_singleton]
      refine hr.snoc ⟨[], ?_⟩
      rw [← hnone]
      rfl
    · exact absurd hc hsparse

/-- The first element of a new set. -/
theorem exists_run_add (jhash : α → BitVec 32 → BitVec 32) (d : α) : ∃ h₀ h : IpSetHash α,
    hashIpportipCreate none none 0 [] = .ok h₀ ∧
      Run (Step jhash) h₀ [(.ad .add d false, .ret none)] h := by
  obtain ⟨h₀, hc⟩ : ∃ h₀ : IpSetHash α, hashIpportipCreate none none 0 [] = .ok h₀ := ⟨_, rfl⟩
  obtain ⟨hi, hempty, hmax, -⟩ := hashIpportipCreate_ok jhash hc
  have hone : ¬CrowdedSet jhash h₀.initval [d].toFinset :=
    not_crowdedSet_of_card_le ((List.toFinset_card_le [d]).trans (by simp [ahashMaxSize]))
  obtain ⟨h, hr, -⟩ := exists_run_adds hi hempty [d] (List.nodup_singleton d)
    (by simp [hmax, ipsetDefaultMaxelem]) hone
  exact ⟨h₀, h, hc, hr⟩

/-- A table in which too many elements would share a bucket has another size. -/
theorem IpSetHash.Inv.htableBits_ne (hi : h.Inv jhash) {bits : BitVec 8} {i : ℕ}
    (hkeys : ∀ d ∈ h.elems, hkey jhash h.initval bits d = i) (hcard : ahashMaxSize < h.elems.card) :
    h.table.htableBits ≠ bits := by
  rintro rfl
  have hall : h.table.data.countP (hkey jhash h.initval h.table.htableBits · = i) =
      h.table.data.length := List.countP_eq_length.mpr fun d hd => decide_eq_true (hkeys d (mem_elems.mpr hd))
  have hle := hi.placed.fits i
  rw [hall, ← hi.elements, ← hi.card_elems] at hle
  exact absurd hle (Nat.not_le_of_lt hcard)

/-- Every run of the table is a run of a set with the same results, and these tell what is in it: a test
    finds exactly the elements that were put in and not taken out since, the counter is their number, and
    it never passes `maxelem`. -/
theorem hashset_refines_set {h₀ : IpSetHash α} {ls : List (Op α × Ret)}
    (hc : hashIpportipCreate hashsize maxelem initval mem = .ok h₀) (hr : Run (Step jhash) h₀ ls h) :
    Run (Spec (maxelem.getD ipsetDefaultMaxelem).toNat) ∅ ls h.elems ∧
      (∀ d, typePfTest jhash h d = held d ls) ∧ h.elements.toNat = h.elems.card ∧
      h.elems.card ≤ (maxelem.getD ipsetDefaultMaxelem).toNat := by
  obtain ⟨hi, hpar, hspec⟩ := run_hashIpportip hc hr
  have hheld : ∀ d, d ∈ h.elems ↔ held d ls = true := held_of_spec hspec
  have hmax := (hashIpportipCreate_ok jhash hc).2.2.1
  refine ⟨hspec, fun d => ?_, hi.card_elems.symm, ?_⟩
  · rw [Bool.eq_iff_iff, typePfTest_iff hi, ← mem_elems, hheld]
  · rw [hi.card_elems, ← hmax, ← hpar.1]
    exact BitVec.le_def.mp hi.bound

/-- A hash that puts every number into the first of 64 buckets. -/
def sampleHash (d : ℕ) (_ : BitVec 32) : BitVec 32 := BitVec.ofNat 32 (64 * d)

theorem sampleHash_toNat {d : ℕ} (hd : d < 14) (initval : BitVec 32) :
    (sampleHash d initval).toNat = 64 * d := by
  rw [sampleHash, BitVec.toNat_ofNat]
  omega

/-- Fourteen numbers go in, and one of them out again. -/
def sampleOps : List (Op ℕ × Ret) :=
  (List.range 14).map (fun d => (.ad .add d false, .ret none)) ++ [(.ad .del 7 false, .ret none)]

theorem exists_sample_ops : ∃ h₀ h : IpSetHash ℕ,
    hashIpportipCreate (some 64) none 0 [] = .ok h₀ ∧ h₀.table.htableBits = 6 ∧
      Run (Step sampleHash) h₀ sampleOps h := by
  obtain ⟨h₀, hc, hbits⟩ : ∃ h₀ : IpSetHash ℕ,
    hashIpportipCreate (some 64) none 0 [] = .ok h₀ ∧ h₀.table.htableBits = 6 := ⟨_, rfl, by decide⟩
  obtain ⟨hi, hempty, hmax, hinit⟩ := hashIpportipCreate_ok sampleHash hc
  have hsparse : ¬CrowdedSet sampleHash h₀.initval (List.range 14).toFinset := by
    rintro ⟨i, hlt⟩
    refine absurd hlt (Nat.not_lt_of_le (le_trans ?_ (by decide : 1 ≤ ahashMaxSize)))
    refine Finset.card_le_one.mpr ?_
    simp only [Finset.mem_filter, List.mem_toFinset, List.mem_range]
    rintro x ⟨hx, hxi⟩ y ⟨hy, hyi⟩
    rw [sampleHash_toNat hx] at hxi
    rw [sampleHash_toNat hy] at hyi
    omega
  obtain ⟨h, hr, ⟨hih, -⟩, hel⟩ := exists_run_adds hi hempty (List.range 14) List.nodup_range
    (by simp [hmax, ipsetDefaultMaxelem]) hsparse
  refine ⟨h₀, (exec sampleHash h [] (.ad .del 7 false)).1, hc, hbits, hr.snoc ⟨[], ?_⟩⟩
  have hmem : 7 ∈ h.elems := hel ▸ by decide
  obtain ⟨-, -, hspec⟩ := refines_del hih [] 7 false
  rw [← hspec.ret_of_mem hmem]

/-- The table of 64 buckets had to grow for them. -/
theorem hashset_refines_set_grown : ∃ h₀ h : IpSetHash ℕ,
    hashIpportipCreate (some 64) none 0 [] = .ok h₀ ∧ Run (Step sampleHash) h₀ sampleOps h ∧
      typePfTest sampleHash h 7 = false ∧ typePfTest sampleHash h 13 = true ∧
      h.elements.toNat = h.elems.card ∧ h.table.htableBits ≠ h₀.table.htableBits := by
  obtain ⟨h₀, h, hc, hbits, hr⟩ := exists_sample_ops
  obtain ⟨-, htest, hcount, -⟩ := hashset_refines_set hc hr
  obtain ⟨hi, -, hspec⟩ := run_hashIpportip hc hr
  have hsub : (Finset.range 14).erase 7 ⊆ h.elems := by
    intro d hd
    rw [held_of_spec hspec]
    revert d
    decide
  have hkeys : ∀ d ∈ h.elems, hkey sampleHash h.initval 6 d = 0 := by
    intro d _
    rw [hkey_eq_mod, sampleHash, BitVec.toNat_ofNat]
    change 64 * d % 2 ^ 32 % 2 ^ 6 = 0
    omega
  have hcard := Finset.card_le_card hsub
  refine ⟨h₀, h, hc, hr, htest 7, htest 13, hcount, ?_⟩
  rw [hbits]
  exact hi.htableBits_ne hkeys (lt_of_lt_of_le (by decide) hcard)

/-- When a command that adds an element succeeds: the table grows as often as it takes, and only more
    than twelve elements of one hash are too many. -/
theorem callAd_add_none_iff {h₀ : IpSetHash α} {ls : List (Op α × Ret)} {mem' : Mem}
    (hc : hashIpportipCreate hashsize maxelem initval mem = .ok h₀) (hr : Run (Step jhash) h₀ ls h)
    (hm : Granted mem') (d : α) (eexist : Bool) :
    ((callAd jhash h .add d eexist mem').2.1 = none ↔
      h.elems.card < (maxelem.getD ipsetDefaultMaxelem).toNat ∧ (d ∈ h.elems → eexist = true) ∧
        ¬CrowdedSet jhash initval (insert d h.elems)) ∧
    (callAd jhash h .add d eexist mem').1.elems =
      if (callAd jhash h .add d eexist mem').2.1 = none then insert d h.elems else h.elems := by
  obtain ⟨hi, hpar, -⟩ := run_hashIpportip hc hr
  obtain ⟨-, -, hmax, hinit⟩ := hashIpportipCreate_ok jhash hc
  rw [← hmax, ← hinit, ← hpar.1, ← hpar.2]
  rcases typePfAdd_cases hi d mem' with ⟨hfull, he⟩ | ⟨hroom, hd, he⟩ | ⟨hroom, hd, -⟩
  · rw [callAd, adtfn, he]
    have hle := hi.le_iff.mp hfull
    simp [Nat.not_lt.mpr hle]
  · have hd' := mem_elems.mpr hd
    have hlt := hi.lt_iff.mp hroom
    rw [callAd, adtfn, he, Finset.insert_eq_of_mem hd']
    cases eexist <;> simp [hd', hlt, hi.not_crowdedSet]
  · have hd' : d ∉ h.elems := fun hm => hd (mem_elems.mp hm)
    have hlt := hi.lt_iff.mp hroom
    rcases callAd_add_granted hi hm hlt hd' eexist with ⟨hn, hret, hel⟩ | ⟨hn, hret, hel⟩
    · simp [hret, hel, hlt, hd', hn]
    · simp [hret, hel, hn]

theorem callAd_add_none_iff_again : ∃ h₀ h : IpSetHash ℕ,
    hashIpportipCreate none none 0 [] = .ok h₀ ∧
      Run (Step fun d _ => BitVec.ofNat 32 d) h₀ [(.ad .add 7 false, .ret none)] h ∧
      (callAd (fun d _ => BitVec.ofNat 32 d) h .add 7 false []).2.1 ≠ none := by
  obtain ⟨h₀, h, hc, hr⟩ := exists_run_add (fun d _ => BitVec.ofNat 32 d) 7
  have hmem : 7 ∈ h.elems := (held_of_spec (run_hashIpportip hc hr).2.2 7).mpr rfl
  refine ⟨h₀, h, hc, hr, fun hn => ?_⟩
  have hiff := (callAd_add_none_iff hc hr granted_nil 7 false).1
  exact absurd ((hiff.mp hn).2.1 hmem) (by decide)

end Telex.Router
