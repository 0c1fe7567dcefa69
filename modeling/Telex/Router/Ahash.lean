import Telex.Lib.Buckets
import Mathlib.Tactic.Ring

/-! The kernel's hash sets: `ip_set_ahash.h`, without timeouts, and `call_ad` of `ip_set_core.c`

    The set of blocked flows lives in the router's kernel as a hash table whose buckets are arrays of
    up to twelve elements. An element that finds its bucket full makes `call_ad` build a table of twice
    the size, and again twice that, until every element has a place. Any allocation may fail; what the
    next ones do is a list of outcomes.

    The header is a template over the element type, with the hash of an element's words; so is the
    model. The first `pos` entries of a bucket's array are the list `value`. -/

namespace Telex.Router

/-- The outcomes of the allocations to come; past the end of the list they succeed. -/
abbrev Mem := List Bool

/-- `kzalloc` and `ip_set_alloc` -/
def kzalloc : Mem → Bool × Mem
  | [] => (true, [])
  | ok :: mem => (ok, mem)

inductive Errno
  | eagain
  | enomem
  | hashFull
  | exist
  deriving DecidableEq

def ahashInitSize : ℕ := 4

def ahashMaxSize : ℕ := 3 * 4

/-- `struct hbucket` -/
structure Hbucket (α : Type) where
  value : List α
  size : ℕ
  pos_le : value.length ≤ size
  size_le : size ≤ ahashMaxSize
  size_dvd : ahashInitSize ∣ size
  deriving DecidableEq

/-- `jhash_size`, the shift as the processor does it. -/
def jhashSize (bits : BitVec 8) : ℕ := 2 ^ (bits.toNat % 32)

def jhashMask (bits : BitVec 8) : ℕ := jhashSize bits - 1

/-- `struct htable` -/
structure Htable (α : Type) where
  htableBits : BitVec 8
  bucket : List (Hbucket α)
  length_bucket : bucket.length = jhashSize htableBits
  deriving DecidableEq

/-- `struct ip_set_hash` -/
structure IpSetHash (α : Type) where
  table : Htable α
  maxelem : BitVec 32
  elements : BitVec 32
  initval : BitVec 32
  deriving DecidableEq

section
variable {α : Type}

/-- A bucket of a table that was just allocated. -/
def Hbucket.zero : Hbucket α := ⟨[], 0, Nat.le_refl 0, Nat.zero_le _, Nat.dvd_zero _⟩

/-- `ip_set_alloc` of a table, where it succeeds. -/
def Htable.alloc (bits : BitVec 8) : Htable α :=
  ⟨bits, List.replicate (jhashSize bits) .zero, List.length_replicate⟩

/-- `hbucket (t, i)` -/
def Htable.hbucket (t : Htable α) (i : ℕ) : Hbucket α := t.bucket.getD i .zero

def Htable.setBucket (t : Htable α) (i : ℕ) (n : Hbucket α) : Htable α :=
  ⟨t.htableBits, t.bucket.set i n, List.length_set.trans t.length_bucket⟩

/-- The elements, bucket by bucket. -/
def Htable.data (t : Htable α) : List α := (t.bucket.map Hbucket.value).flatten

def Hbucket.push (n : Hbucket α) (d : α) (h : n.value.length < n.size) : Hbucket α :=
  ⟨n.value ++ [d], n.size, (List.length_append ..).trans_le h, n.size_le, n.size_dvd⟩

/-- The bucket with its entries copied into a larger array. -/
def Hbucket.grow (n : Hbucket α) (h : n.size < ahashMaxSize) : Hbucket α :=
  ⟨n.value, n.size + ahashInitSize, n.pos_le.trans (Nat.le_add_right _ _), by
    obtain ⟨k, hk⟩ := n.size_dvd
    simp only [ahashInitSize, ahashMaxSize] at *
    omega, Nat.dvd_add n.size_dvd (dvd_refl _)⟩

/-- `type_pf_elem_add` -/
def typePfElemAdd (mem : Mem) (n : Hbucket α) (d : α) : Except Errno (Hbucket α) × Mem :=
  if h : n.value.length < n.size then (.ok (n.push d h), mem)
  else if hs : ahashMaxSize ≤ n.size then (.error .eagain, mem)
  else
    match kzalloc mem with
    | (false, mem) => (.error .enomem, mem)
    | (true, mem) =>
      (.ok ((n.grow (Nat.lt_of_not_le hs)).push d
        (Nat.lt_of_le_of_lt n.pos_le (Nat.lt_add_of_pos_right (by decide)))), mem)

variable (jhash : α → BitVec 32 → BitVec 32)

/-- `HKEY` -/
def hkey (initval : BitVec 32) (bits : BitVec 8) (d : α) : ℕ :=
  (jhash d initval).toNat &&& jhashMask bits

/-- The two loops of `type_pf_resize`: the elements go into the new table one by one. -/
def rehash (initval : BitVec 32) : Mem → Htable α → List α → Except Errno (Htable α) × Mem
  | mem, t, [] => (.ok t, mem)
  | mem, t, data :: rest =>
    let key := hkey jhash initval t.htableBits data
    match typePfElemAdd mem (t.hbucket key) data with
    | (.ok m, mem) => rehash initval mem (t.setBucket key m) rest
    | (.error e, mem) => (.error e, mem)

/-- `type_pf_resize` from its label `retry`, with the value of `htable_bits` there. -/
def typePfResizeRetry (h : IpSetHash α) (bits : BitVec 8) (mem : Mem) :
    Except Errno (Htable α) × Mem :=
  if _hb : bits + 1 = 0 then (.error .hashFull, mem)
  else
    match kzalloc mem with
    | (false, mem) => (.error .enomem, mem)
    | (true, mem) =>
      match rehash jhash h.initval mem (.alloc (bits + 1)) h.table.data with
      | (.error .eagain, mem) => typePfResizeRetry h (bits + 1) mem
      | res => res
termination_by 255 - bits.toNat
decreasing_by
  have := bits.isLt
  bv_omega

def typePfResize (h : IpSetHash α) (mem : Mem) : Except Errno (IpSetHash α) × Mem :=
  match typePfResizeRetry jhash h h.table.htableBits mem with
  | (.ok t, mem) => (.ok { h with table := t }, mem)
  | (.error e, mem) => (.error e, mem)

variable [DecidableEq α]

/-- `type_pf_add` -/
def typePfAdd (h : IpSetHash α) (d : α) (mem : Mem) : Except Errno (IpSetHash α) × Mem :=
  if h.maxelem ≤ h.elements then (.error .hashFull, mem)
  else
    let key := hkey jhash h.initval h.table.htableBits d
    if d ∈ (h.table.hbucket key).value then (.error .exist, mem)
    else
      match typePfElemAdd mem (h.table.hbucket key) d with
      | (.error e, mem) => (.error e, mem)
      | (.ok n, mem) =>
        (.ok { h with table := h.table.setBucket key n, elements := h.elements + 1 }, mem)

/-- The bucket without its `i`-th entry. An array with more than a block of free places is given up
    for a smaller one, if that can be had. -/
def Hbucket.remove (n : Hbucket α) (i : ℕ) (mem : Mem) : Hbucket α × Mem :=
  let value := Buckets.swapRemove n.value i
  have hle : value.length ≤ n.size := (Buckets.length_swapRemove_le n.value i).trans n.pos_le
  if hs : value.length + ahashInitSize < n.size then
    match kzalloc mem with
    | (false, mem) => (⟨value, n.size, hle, n.size_le, n.size_dvd⟩, mem)
    | (true, mem) =>
      (⟨value, n.size - ahashInitSize, Nat.le_sub_of_add_le hs.le, (Nat.sub_le _ _).trans n.size_le,
        Nat.dvd_sub n.size_dvd (dvd_refl _)⟩, mem)
  else (⟨value, n.size, hle, n.size_le, n.size_dvd⟩, mem)

/-- `type_pf_del` -/
def typePfDel (h : IpSetHash α) (d : α) (mem : Mem) : Except Errno (IpSetHash α) × Mem :=
  let key := hkey jhash h.initval h.table.htableBits d
  let n := h.table.hbucket key
  if d ∈ n.value then
    let (n, mem) := n.remove (n.value.idxOf d) mem
    (.ok { h with table := h.table.setBucket key n, elements := h.elements - 1 }, mem)
  else (.error .exist, mem)

/-- `type_pf_test` -/
def typePfTest (h : IpSetHash α) (d : α) : Bool :=
  d ∈ (h.table.hbucket (hkey jhash h.initval h.table.htableBits d)).value

/-- `ip_set_hash_flush` -/
def ipSetHashFlush (h : IpSetHash α) : IpSetHash α :=
  { h with table := .alloc h.table.htableBits, elements := 0 }

/-- `enum ipset_adt` without the test. -/
inductive Adt
  | add
  | del
  deriving DecidableEq

/-- `set->variant->adt[adt]` -/
def adtfn (h : IpSetHash α) : Adt → α → Mem → Except Errno (IpSetHash α) × Mem
  | .add => typePfAdd jhash h
  | .del => typePfDel jhash h

end

/-- No allocation fails. -/
def Granted (mem : Mem) : Prop := ∀ ok ∈ mem, ok = true

theorem granted_nil : Granted [] := fun _ h => by cases h

theorem Granted.of_suffix {mem mem' : Mem} (h : Granted mem) (hs : mem' <:+ mem) : Granted mem' :=
  fun ok hok => h ok (hs.subset hok)

theorem kzalloc_cases (mem : Mem) :
    (∃ mem', kzalloc mem = (true, mem') ∧ mem' <:+ mem) ∨
      ∃ mem', kzalloc mem = (false, mem') ∧ mem = false :: mem' := by
  rcases mem with _ | ⟨_ | _, mem⟩
  · exact .inl ⟨[], rfl, List.suffix_rfl⟩
  · exact .inr ⟨mem, rfl, rfl⟩
  · exact .inl ⟨mem, rfl, List.suffix_cons _ _⟩

theorem suffix_of_kzalloc {mem mem' : Mem} {ok : Bool} (h : kzalloc mem = (ok, mem')) :
    mem' <:+ mem := by
  cases mem with
  | nil =>
    cases h
    exact List.suffix_rfl
  | cons ok' mem =>
    cases h
    exact List.suffix_cons _ _

theorem not_granted_cons_false {mem : Mem} : ¬Granted (false :: mem) := fun h => by
  simpa using h false (.head _)

theorem not_granted_of_kzalloc {mem mem' : Mem} (h : kzalloc mem = (false, mem')) : ¬Granted mem := by
  rcases kzalloc_cases mem with ⟨mem₁, hm, -⟩ | ⟨mem₁, -, rfl⟩
  · rw [h] at hm
    cases hm
  · exact not_granted_cons_false

section
variable {α : Type}

theorem Hbucket.length_value_le (n : Hbucket α) : n.value.length ≤ ahashMaxSize :=
  n.pos_le.trans n.size_le

theorem typePfElemAdd_cases (mem : Mem) (n : Hbucket α) (d : α) :
    (∃ n' mem', typePfElemAdd mem n d = (.ok n', mem') ∧ n'.value = n.value ++ [d] ∧ mem' <:+ mem ∧
      n.value.length < ahashMaxSize) ∨
    (typePfElemAdd mem n d = (.error .eagain, mem) ∧ n.value.length = ahashMaxSize) ∨
    ∃ mem', typePfElemAdd mem n d = (.error .enomem, mem') ∧ ¬Granted mem ∧ mem' <:+ mem := by
  unfold typePfElemAdd
  split
  · next h => exact .inl ⟨_, _, rfl, rfl, List.suffix_rfl, h.trans_le n.size_le⟩
  · next h =>
    split
    · next hs => exact .inr (.inl ⟨rfl, le_antisymm n.length_value_le (hs.trans (Nat.le_of_not_lt h))⟩)
    · next hs =>
      rcases kzalloc_cases mem with ⟨mem', hm, hsuf⟩ | ⟨mem', hm, rfl⟩
      · rw [hm]
        exact .inl ⟨_, _, rfl, rfl, hsuf, n.pos_le.trans_lt (Nat.lt_of_not_le hs)⟩
      · rw [hm]
        exact .inr (.inr ⟨mem', rfl, not_granted_cons_false, List.suffix_cons _ _⟩)

theorem Hbucket.value_remove (n : Hbucket α) (i : ℕ) (mem : Mem) :
    (n.remove i mem).1.value = Buckets.swapRemove n.value i ∧ (n.remove i mem).2 <:+ mem := by
  simp only [Hbucket.remove]
  by_cases hs : (Buckets.swapRemove n.value i).length + ahashInitSize < n.size
  · simp only [hs, dite_true]
    rcases kzalloc_cases mem with ⟨mem', hm, hsuf⟩ | ⟨mem', hm, rfl⟩
    · rw [hm]
      exact ⟨rfl, hsuf⟩
    · rw [hm]
      exact ⟨rfl, List.suffix_cons _ _⟩
  · simp only [hs, dite_false, List.suffix_rfl, and_self]

variable {jhash : α → BitVec 32 → BitVec 32} {initval : BitVec 32} {bits : BitVec 8} {t : Htable α}
  {d : α}

theorem jhashSize_pos (bits : BitVec 8) : 0 < jhashSize bits := Nat.two_pow_pos _

theorem hkey_lt (jhash : α → BitVec 32 → BitVec 32) (initval : BitVec 32) (bits : BitVec 8) (d : α) :
    hkey jhash initval bits d < jhashSize bits := by
  have hle : hkey jhash initval bits d ≤ jhashMask bits := Nat.and_le_right
  have hpos := jhashSize_pos bits
  simp only [jhashMask] at hle
  omega

/-- The values of the buckets. -/
def Htable.values (t : Htable α) : List (List α) := t.bucket.map Hbucket.value

theorem Htable.values_getElem? {i : ℕ} (hi : i < jhashSize t.htableBits) :
    t.values[i]? = some (t.hbucket i).value := by
  rw [← t.length_bucket] at hi
  simp [Htable.values, Htable.hbucket, List.getElem?_eq_getElem hi]

theorem Htable.values_setBucket (t : Htable α) (i : ℕ) (n : Hbucket α) :
    (t.setBucket i n).values = t.values.set i n.value := List.map_set

@[simp] theorem Htable.htableBits_setBucket (t : Htable α) (i : ℕ) (n : Hbucket α) :
    (t.setBucket i n).htableBits = t.htableBits := rfl

@[simp] theorem Htable.htableBits_alloc (bits : BitVec 8) :
    (Htable.alloc bits : Htable α).htableBits = bits := rfl

theorem Htable.values_alloc (bits : BitVec 8) :
    (Htable.alloc bits : Htable α).values = List.replicate (jhashSize bits) [] := List.map_replicate

@[simp] theorem Htable.data_alloc (bits : BitVec 8) : (Htable.alloc bits : Htable α).data = [] := by
  change (Htable.alloc bits : Htable α).values.flatten = []
  rw [Htable.values_alloc, List.flatten_replicate_nil]

/-- Each element is in the bucket of its hash. -/
def Htable.Placed (jhash : α → BitVec 32 → BitVec 32) (initval : BitVec 32) (t : Htable α) : Prop :=
  Buckets.Placed (hkey jhash initval t.htableBits) t.values

theorem Htable.placed_alloc (jhash : α → BitVec 32 → BitVec 32) (initval : BitVec 32) (bits : BitVec 8) :
    (Htable.alloc bits : Htable α).Placed jhash initval := by
  rw [Htable.Placed, Htable.values_alloc]
  exact Buckets.placed_replicate _

theorem Htable.Placed.mem_hbucket_iff (h : t.Placed jhash initval) :
    d ∈ (t.hbucket (hkey jhash initval t.htableBits d)).value ↔ d ∈ t.data :=
  (Buckets.Placed.mem_bucket_iff h (Htable.values_getElem? (hkey_lt ..))).symm

theorem Htable.Placed.length_hbucket (h : t.Placed jhash initval) {i : ℕ}
    (hi : i < jhashSize t.htableBits) :
    (t.hbucket i).value.length = t.data.countP (hkey jhash initval t.htableBits · = i) :=
  Buckets.Placed.length_bucket h (Htable.values_getElem? hi)

theorem Htable.Placed.hkey_of_mem (h : t.Placed jhash initval) {i : ℕ}
    (hi : i < jhashSize t.htableBits) (hd : d ∈ (t.hbucket i).value) :
    hkey jhash initval t.htableBits d = i :=
  h i _ (Htable.values_getElem? hi) d hd

theorem Htable.data_setBucket {i : ℕ} (hi : i < jhashSize t.htableBits) {n : Hbucket α}
    (hn : n.value.Perm (d :: (t.hbucket i).value)) : (t.setBucket i n).data.Perm (d :: t.data) := by
  change (t.setBucket i n).values.flatten.Perm _
  rw [Htable.values_setBucket]
  exact Buckets.flatten_set_perm (Htable.values_getElem? hi) hn

theorem Htable.perm_data_setBucket {i : ℕ} (hi : i < jhashSize t.htableBits) {n : Hbucket α}
    (hn : (t.hbucket i).value.Perm (d :: n.value)) : t.data.Perm (d :: (t.setBucket i n).data) := by
  change t.values.flatten.Perm (d :: (t.setBucket i n).values.flatten)
  rw [Htable.values_setBucket]
  exact Buckets.perm_flatten_set (Htable.values_getElem? hi) hn

/-- The bucket of an element with other contents, all of them of its hash. -/
theorem Htable.Placed.setBucket (h : t.Placed jhash initval) {n : Hbucket α}
    (hn : ∀ x ∈ n.value, x = d ∨ x ∈ (t.hbucket (hkey jhash initval t.htableBits d)).value) :
    (t.setBucket (hkey jhash initval t.htableBits d) n).Placed jhash initval := by
  rw [Htable.Placed, Htable.values_setBucket]
  refine Buckets.Placed.set h ?_
  intro x hx
  rcases hn x hx with rfl | hx
  · rfl
  · exact h.hkey_of_mem (hkey_lt ..) hx

variable {h h' : IpSetHash α}

/-- What every operation keeps: each element stands once, in the bucket of its hash, and the counter
    counts them. -/
structure IpSetHash.Inv (jhash : α → BitVec 32 → BitVec 32) (h : IpSetHash α) : Prop where
  placed : h.table.Placed jhash h.initval
  nodup : h.table.data.Nodup
  elements : h.elements.toNat = h.table.data.length
  bound : h.elements ≤ h.maxelem

/-- The parameters of the set, which stay as they are. -/
def IpSetHash.SameParams (h h' : IpSetHash α) : Prop :=
  h'.maxelem = h.maxelem ∧ h'.initval = h.initval

theorem inv_ipSetHashFlush (h : IpSetHash α) : (ipSetHashFlush h).Inv jhash where
  placed := Htable.placed_alloc jhash h.initval h.table.htableBits
  nodup := by simp [ipSetHashFlush]
  elements := by simp [ipSetHashFlush]
  bound := BitVec.le_def.mpr (by simp [ipSetHashFlush])

variable [DecidableEq α]

/-- `type_pf_add` in all its cases. -/
theorem typePfAdd_cases (hi : h.Inv jhash) (d : α) (mem : Mem) :
    (h.maxelem ≤ h.elements ∧ typePfAdd jhash h d mem = (.error .hashFull, mem)) ∨
    (h.elements < h.maxelem ∧ d ∈ h.table.data ∧ typePfAdd jhash h d mem = (.error .exist, mem)) ∨
    (h.elements < h.maxelem ∧ d ∉ h.table.data ∧
      ((∃ h' mem', typePfAdd jhash h d mem = (.ok h', mem') ∧ mem' <:+ mem ∧ h'.Inv jhash ∧
          h.SameParams h' ∧ h'.table.data.Perm (d :: h.table.data) ∧
          h'.table.htableBits = h.table.htableBits) ∨
        (typePfAdd jhash h d mem = (.error .eagain, mem) ∧
          h.table.data.countP (hkey jhash h.initval h.table.htableBits · =
            hkey jhash h.initval h.table.htableBits d) = ahashMaxSize) ∨
        ∃ mem', typePfAdd jhash h d mem = (.error .enomem, mem') ∧ ¬Granted mem ∧ mem' <:+ mem)) := by
  have hmem := hi.placed.mem_hbucket_iff (d := d)
  have hlt := hkey_lt jhash h.initval h.table.htableBits d
  unfold typePfAdd
  split
  · next hf => exact .inl ⟨hf, rfl⟩
  · next hf =>
    have hroom : h.elements < h.maxelem := BitVec.not_le.mp hf
    refine .inr ?_
    by_cases hd : d ∈ h.table.data
    · simp only [hmem.mpr hd, if_true]
      exact .inl ⟨hroom, hd, trivial⟩
    · simp only [hmem, hd, if_false]
      refine .inr ⟨hroom, not_false, ?_⟩
      rcases typePfElemAdd_cases mem
        (h.table.hbucket (hkey jhash h.initval h.table.htableBits d)) d with
        ⟨n, mem', he, hn, hsuf, -⟩ | ⟨he, hfull⟩ | ⟨mem', he, hg, hsuf⟩
      · rw [he]
        have hperm := Htable.data_setBucket hlt
          (n := n) (hn ▸ List.perm_append_singleton d _)
        have hcount : (h.elements + 1).toNat = h.elements.toNat + 1 := by
          have := h.maxelem.isLt
          bv_omega
        refine .inl ⟨_, _, rfl, hsuf, ⟨?_, ?_, ?_, ?_⟩, ⟨rfl, rfl⟩, hperm, rfl⟩
        · refine hi.placed.setBucket ?_
          intro x hx
          simpa [hn, or_comm] using hx
        · exact hperm.nodup_iff.mpr (List.nodup_cons.mpr ⟨hd, hi.nodup⟩)
        · rw [hperm.length_eq, List.length_cons, ← hi.elements, hcount]
        · bv_omega
      · rw [he]
        exact .inr (.inl ⟨rfl, (hi.placed.length_hbucket hlt).symm.trans hfull⟩)
      · rw [he]
        exact .inr (.inr ⟨mem', rfl, hg, hsuf⟩)

/-- `type_pf_del` in both its cases. -/
theorem typePfDel_cases (hi : h.Inv jhash) (d : α) (mem : Mem) :
    (d ∉ h.table.data ∧ typePfDel jhash h d mem = (.error .exist, mem)) ∨
    (d ∈ h.table.data ∧ ∃ h' mem', typePfDel jhash h d mem = (.ok h', mem') ∧ mem' <:+ mem ∧
      h'.Inv jhash ∧ h.SameParams h' ∧ h.table.data.Perm (d :: h'.table.data) ∧
      h'.table.htableBits = h.table.htableBits) := by
  have hmem := hi.placed.mem_hbucket_iff (d := d)
  have hlt := hkey_lt jhash h.initval h.table.htableBits d
  by_cases hd : d ∈ h.table.data
  · refine .inr ⟨hd, ?_⟩
    have hb := hmem.mpr hd
    simp only [typePfDel, hb, if_true]
    generalize hkd : hkey jhash h.initval h.table.htableBits d = key at *
    have hidx : (h.table.hbucket key).value[(h.table.hbucket key).value.idxOf d]? = some d :=
      List.getElem?_eq_some_iff.mpr ⟨List.idxOf_lt_length_of_mem hb, List.getElem_idxOf _⟩
    obtain ⟨hval, hsuf⟩ := (h.table.hbucket key).value_remove ((h.table.hbucket key).value.idxOf d) mem
    generalize (h.table.hbucket key).remove ((h.table.hbucket key).value.idxOf d) mem = r at hval hsuf
    have hswap : (h.table.hbucket key).value.Perm (d :: r.1.value) :=
      hval ▸ Buckets.perm_swapRemove hidx
    -- putting the element back gives the old contents
    have hperm : h.table.data.Perm (d :: (h.table.setBucket key r.1).data) :=
      Htable.perm_data_setBucket hlt hswap
    have hlen := hperm.length_eq
    have hpos := hi.elements
    have hnd := hperm.nodup_iff.mp hi.nodup
    have hbound := hi.bound
    rw [List.length_cons] at hlen
    have hsub : (h.elements - 1).toNat + 1 = h.elements.toNat := by bv_omega
    refine ⟨_, _, rfl, hsuf, ⟨?_, (List.nodup_cons.mp hnd).2, ?_, ?_⟩, ⟨rfl, rfl⟩, hperm, rfl⟩
    · subst hkd
      refine hi.placed.setBucket ?_
      intro x hx
      exact .inr (hswap.mem_iff.mpr (.tail _ hx))
    · change (h.elements - 1).toNat = (h.table.setBucket key r.1).data.length
      omega
    · change h.elements - 1 ≤ h.maxelem
      bv_omega
  · refine .inl ⟨hd, ?_⟩
    simp only [typePfDel, hmem, hd, if_false]

/-- `type_pf_test` looks in one bucket and answers for the whole table. -/
theorem typePfTest_iff (hi : h.Inv jhash) (d : α) : typePfTest jhash h d = true ↔ d ∈ h.table.data := by
  simpa [typePfTest] using hi.placed.mem_hbucket_iff

end

end Telex.Router
