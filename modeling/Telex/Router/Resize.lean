import Telex.Router.Ahash

/-! Growing the table

    `type_pf_resize` tries one size after the other until no bucket gets more than twelve elements, and
    `call_ad` grows the table and tries again as long as the new element itself finds no place. Nothing
    is lost or doubled on the way, and neither loop runs for ever: the sizes go up to the 255 that eight
    bits can hold. Where memory does not run out, the element is refused exactly when thirteen elements
    have the same hash at the finest division the masks can make. -/

namespace Telex.Router

section
variable {α : Type} {jhash : α → BitVec 32 → BitVec 32} {initval : BitVec 32} {bits : BitVec 8}
  {t : Htable α} {h : IpSetHash α}

/-- No bucket of a table of this size would get more elements than it can hold. -/
def Fits (jhash : α → BitVec 32 → BitVec 32) (initval : BitVec 32) (bits : BitVec 8) (l : List α) :
    Prop := ∀ i, l.countP (hkey jhash initval bits · = i) ≤ ahashMaxSize

theorem Fits.perm {l l' : List α} (hf : Fits jhash initval bits l) (hp : l.Perm l') :
    Fits jhash initval bits l' :=
  fun i => hp.countP_eq _ ▸ hf i

/-- What is in a table fits into it. -/
theorem Htable.Placed.fits (hp : t.Placed jhash initval) : Fits jhash initval t.htableBits t.data := by
  intro i
  by_cases hi : i < jhashSize t.htableBits
  · rw [← hp.length_hbucket hi]
    exact (t.hbucket i).length_value_le
  · have hnone : t.data.countP (hkey jhash initval t.htableBits · = i) = 0 := by
      rw [List.countP_eq_zero]
      intro x _
      have hx := hkey_lt jhash initval t.htableBits x
      simp
      omega
    omega

theorem not_fits_cons {d : α} {l : List α} (l' : List α)
    (hfull : l.countP (hkey jhash initval bits · = hkey jhash initval bits d) = ahashMaxSize) :
    ¬Fits jhash initval bits (d :: l' ++ l) := by
  intro hf
  have hle := hf (hkey jhash initval bits d)
  rw [List.cons_append, List.countP_cons_of_pos (by simp), List.countP_append] at hle
  omega

/-- Rehashing in all its cases. -/
theorem rehash_cases (hp : t.Placed jhash initval) (mem : Mem) (l : List α) :
    (∃ t' mem', rehash jhash initval mem t l = (.ok t', mem') ∧ mem' <:+ mem ∧
      t'.Placed jhash initval ∧ t'.data.Perm (l ++ t.data) ∧ t'.htableBits = t.htableBits) ∨
    (∃ mem', rehash jhash initval mem t l = (.error .eagain, mem') ∧ mem' <:+ mem ∧
      ¬Fits jhash initval t.htableBits (l ++ t.data)) ∨
    ∃ mem', rehash jhash initval mem t l = (.error .enomem, mem') ∧ mem' <:+ mem ∧ ¬Granted mem := by
  induction l generalizing mem t with
  | nil => exact .inl ⟨t, mem, rfl, List.suffix_rfl, hp, .refl _, rfl⟩
  | cons d l ih =>
    have hlt := hkey_lt jhash initval t.htableBits d
    simp only [rehash]
    rcases typePfElemAdd_cases mem (t.hbucket (hkey jhash initval t.htableBits d)) d with
      ⟨n, mem', he, hn, hsuf, -⟩ | ⟨he, hfull⟩ | ⟨mem', he, hg, hsuf⟩
    · have hp' : (t.setBucket (hkey jhash initval t.htableBits d) n).Placed jhash initval := by
        refine hp.setBucket ?_
        intro x hx
        simpa [hn, or_comm] using hx
      have hdata : (t.setBucket (hkey jhash initval t.htableBits d) n).data.Perm (d :: t.data) :=
        Htable.data_setBucket hlt (hn ▸ List.perm_append_singleton d _)
      have hall : (l ++ (t.setBucket (hkey jhash initval t.htableBits d) n).data).Perm
          (d :: l ++ t.data) := (hdata.append_left l).trans List.perm_middle
      rw [he]
      rcases ih hp' mem' with ⟨t', mem'', hr, hs, hq, hd, hb⟩ | ⟨mem'', hr, hs, hf⟩ |
        ⟨mem'', hr, hs, hg⟩
      · exact .inl ⟨t', mem'', hr, hs.trans hsuf, hq, hd.trans hall, hb⟩
      · exact .inr (.inl ⟨mem'', hr, hs.trans hsuf, fun h' => hf (h'.perm hall.symm)⟩)
      · exact .inr (.inr ⟨mem'', hr, hs.trans hsuf, fun h' => hg (h'.of_suffix hsuf)⟩)
    · rw [he]
      refine .inr (.inl ⟨mem, rfl, List.suffix_rfl, not_fits_cons l ?_⟩)
      rw [← hp.length_hbucket hlt, hfull]
    · rw [he]
      exact .inr (.inr ⟨mem', rfl, hsuf, hg⟩)

/-- `type_pf_resize` from its label `retry`: the first size after `bits` at which the elements fit. -/
theorem typePfResizeRetry_cases (jhash : α → BitVec 32 → BitVec 32) (h : IpSetHash α) (bits : BitVec 8) (mem : Mem) :
    (∃ t mem', typePfResizeRetry jhash h bits mem = (.ok t, mem') ∧ mem' <:+ mem ∧
      t.Placed jhash h.initval ∧ t.data.Perm h.table.data ∧ bits < t.htableBits ∧
      ∀ b, bits < b → b < t.htableBits → ¬Fits jhash h.initval b h.table.data) ∨
    (∃ mem', typePfResizeRetry jhash h bits mem = (.error .hashFull, mem') ∧ mem' <:+ mem ∧
      ∀ b, bits < b → ¬Fits jhash h.initval b h.table.data) ∨
    ∃ mem', typePfResizeRetry jhash h bits mem = (.error .enomem, mem') ∧ mem' <:+ mem ∧
      ¬Granted mem := by
  fun_induction typePfResizeRetry jhash h bits mem with
  | case1 bits mem hb =>
    refine .inr (.inl ⟨mem, rfl, List.suffix_rfl, fun b hlt => ?_⟩)
    have := b.isLt
    bv_omega
  | case2 bits mem hb mem' hm =>
    exact .inr (.inr ⟨mem', rfl, suffix_of_kzalloc hm, not_granted_of_kzalloc hm⟩)
  | case3 bits mem hb mem' hm mem'' hr ih =>
    -- the next size is too small as well
    rcases rehash_cases (Htable.placed_alloc jhash h.initval (bits + 1)) mem' h.table.data with
      ⟨t, _, hr', -⟩ | ⟨_, hr', hs, hf⟩ | ⟨_, hr', -⟩ <;> rw [hr] at hr' <;> cases hr'
    rw [Htable.data_alloc, List.append_nil, Htable.htableBits_alloc] at hf
    have hs' := hs.trans (suffix_of_kzalloc hm)
    have hnext : ∀ b, bits < b → ¬b = bits + 1 → bits + 1 < b := by
      intro b hlt hne
      bv_omega
    rcases ih with ⟨t, mem₃, he, hs₃, hp, hd, hlt, hmin⟩ | ⟨mem₃, he, hs₃, hall⟩ | ⟨mem₃, he, hs₃, hg⟩
    · refine .inl ⟨t, mem₃, he, hs₃.trans hs', hp, hd, by bv_omega, fun b hb' hbt => ?_⟩
      by_cases hbe : b = bits + 1
      · exact hbe ▸ hf
      · exact hmin b (hnext b hb' hbe) hbt
    · refine .inr (.inl ⟨mem₃, he, hs₃.trans hs', fun b hb' => ?_⟩)
      by_cases hbe : b = bits + 1
      · exact hbe ▸ hf
      · exact hall b (hnext b hb' hbe)
    · exact .inr (.inr ⟨mem₃, he, hs₃.trans hs', fun h' => hg (h'.of_suffix hs')⟩)
  | case4 bits mem hb mem' hm hr =>
    have hs := suffix_of_kzalloc hm
    rcases rehash_cases (Htable.placed_alloc jhash h.initval (bits + 1)) mem' h.table.data with
      ⟨t, mem₂, he, hs₂, hp, hd, hbits⟩ | ⟨mem₂, he, -⟩ | ⟨mem₂, he, hs₂, hg⟩
    · rw [Htable.data_alloc, List.append_nil] at hd
      rw [Htable.htableBits_alloc] at hbits
      refine .inl ⟨t, mem₂, he, hs₂.trans hs, hp, hd, ?_, fun b hlt hbt => ?_⟩
      · rw [hbits]
        bv_omega
      · rw [hbits] at hbt
        bv_omega
    · exact absurd he (hr mem₂)
    · exact .inr (.inr ⟨mem₂, he, hs₂.trans hs, fun h' => hg (h'.of_suffix hs)⟩)

/-- The same set in a larger table. -/
structure Resized (jhash : α → BitVec 32 → BitVec 32) (h h' : IpSetHash α) : Prop where
  placed : h'.table.Placed jhash h'.initval
  data : h'.table.data.Perm h.table.data
  params : h.SameParams h'
  elements : h'.elements = h.elements
  larger : h.table.htableBits < h'.table.htableBits
  /-- No size in between would do. -/
  first : ∀ b, h.table.htableBits < b → b < h'.table.htableBits →
    ¬Fits jhash h.initval b h.table.data

theorem Resized.inv {h' : IpSetHash α} (hr : Resized jhash h h') (hi : h.Inv jhash) : h'.Inv jhash where
  placed := hr.placed
  nodup := hr.data.nodup_iff.mpr hi.nodup
  elements := by rw [hr.elements, hr.data.length_eq, hi.elements]
  bound := by rw [hr.elements, hr.params.1]; exact hi.bound

theorem typePfResize_cases (jhash : α → BitVec 32 → BitVec 32) (h : IpSetHash α) (mem : Mem) :
    (∃ h' mem', typePfResize jhash h mem = (.ok h', mem') ∧ mem' <:+ mem ∧ Resized jhash h h') ∨
    (∃ mem', typePfResize jhash h mem = (.error .hashFull, mem') ∧ mem' <:+ mem ∧
      ∀ b, h.table.htableBits < b → ¬Fits jhash h.initval b h.table.data) ∨
    ∃ mem', typePfResize jhash h mem = (.error .enomem, mem') ∧ mem' <:+ mem ∧ ¬Granted mem := by
  unfold typePfResize
  rcases typePfResizeRetry_cases jhash h h.table.htableBits mem with
    ⟨t, mem', he, hs, hp, hd, hlt, hmin⟩ | ⟨mem', he, hs, hall⟩ | ⟨mem', he, hs, hg⟩
  · rw [he]
    exact .inl ⟨_, mem', rfl, hs, hp, hd, ⟨rfl, rfl⟩, rfl, hlt, hmin⟩
  · rw [he]
    exact .inr (.inl ⟨mem', rfl, hs, hall⟩)
  · rw [he]
    exact .inr (.inr ⟨mem', rfl, hs, hg⟩)

theorem larger_of_typePfResize {h' : IpSetHash α} {mem mem' : Mem}
    (hr : typePfResize jhash h mem = (.ok h', mem')) : h.table.htableBits < h'.table.htableBits := by
  rcases typePfResize_cases jhash h mem with ⟨h₁, mem₁, he, -, hR⟩ | ⟨_, he, -⟩ | ⟨_, he, -⟩
  · rw [hr] at he
    cases he
    exact hR.larger
  · rw [hr] at he
    cases he
  · rw [hr] at he
    cases he

theorem Fits.of_cons {d : α} {l : List α} (hf : Fits jhash initval bits (d :: l)) :
    Fits jhash initval bits l :=
  fun i => (List.sublist_cons_self d l).countP_le.trans (hf i)

theorem hkey_eq_mod (jhash : α → BitVec 32 → BitVec 32) (initval : BitVec 32) (bits : BitVec 8) (d : α) :
    hkey jhash initval bits d = (jhash d initval).toNat % 2 ^ (bits.toNat % 32) := by
  rw [hkey, jhashMask, jhashSize, Nat.and_two_pow_sub_one_eq_mod]

/-- More than a bucket's worth of elements agree in 31 bits of their hash, which no mask tells
    apart. -/
def Crowded (jhash : α → BitVec 32 → BitVec 32) (initval : BitVec 32) (l : List α) : Prop :=
  ∃ i, ahashMaxSize < l.countP fun x => (jhash x initval).toNat % 2 ^ 31 = i

/-- The largest size has the finest division. -/
theorem fits_iff_not_crowded {l : List α} :
    Fits jhash initval 255 l ↔ ¬Crowded jhash initval l := by
  simp only [Fits, Crowded, hkey_eq_mod, not_exists, not_lt]
  exact Iff.rfl

theorem Fits.not_crowded {l : List α} (hf : Fits jhash initval bits l) : ¬Crowded jhash initval l := by
  rintro ⟨i, hi⟩
  have hle := hf (i % 2 ^ (bits.toNat % 32))
  have hmono : (l.countP fun x => (jhash x initval).toNat % 2 ^ 31 = i) ≤
      l.countP (hkey jhash initval bits · = i % 2 ^ (bits.toNat % 32)) := by
    refine List.countP_mono_left ?_
    intro x _ hx
    simp only [decide_eq_true_eq] at hx ⊢
    have hdvd : 2 ^ (bits.toNat % 32) ∣ 2 ^ 31 := Nat.pow_dvd_pow 2 (by omega)
    rw [hkey_eq_mod, ← hx, Nat.mod_mod_of_dvd _ hdvd]
  omega

variable [DecidableEq α]

/-- `call_ad` with the set after it and what it returns, no error being zero. -/
def callAd (jhash : α → BitVec 32 → BitVec 32) (h : IpSetHash α) (adt : Adt) (d : α) (eexist : Bool)
    (mem : Mem) : IpSetHash α × Option Errno × Mem :=
  match adtfn jhash h adt d mem with
  | (.ok h', mem) => (h', none, mem)
  | (.error .exist, mem) => (h, if eexist then none else some .exist, mem)
  | (.error .eagain, mem) =>
    match _hr : typePfResize jhash h mem with
    | (.ok h', mem) => callAd jhash h' adt d eexist mem
    | (.error e, mem) => (h, some e, mem)
  | (.error e, mem) => (h, some e, mem)
termination_by 255 - h.table.htableBits.toNat
decreasing_by
  have hlt := larger_of_typePfResize _hr
  have := h'.table.htableBits.isLt
  bv_omega

variable {adt : Adt} {d : α} {eexist : Bool} {mem mem' mem'' : Mem}

theorem callAd_resized {h' : IpSetHash α} (ha : adtfn jhash h adt d mem = (.error .eagain, mem'))
    (hr : typePfResize jhash h mem' = (.ok h', mem'')) :
    callAd jhash h adt d eexist mem = callAd jhash h' adt d eexist mem'' := by
  rw [callAd, ha]
  simp only
  split
  · next he =>
    rw [hr] at he
    cases he
    rfl
  · next he =>
    rw [hr] at he
    cases he

theorem callAd_not_resized {e : Errno} (ha : adtfn jhash h adt d mem = (.error .eagain, mem'))
    (hr : typePfResize jhash h mem' = (.error e, mem'')) :
    callAd jhash h adt d eexist mem = (h, some e, mem'') := by
  rw [callAd, ha]
  simp only
  split
  · next he =>
    rw [hr] at he
    cases he
  · next he =>
    rw [hr] at he
    cases he
    rfl

/-- A new element for a set with room: it is put in, or the set stays as it was, for want of memory or
    because it fits at no size from the present one on. -/
theorem callAd_add_new (hi : h.Inv jhash) (hroom : h.elements < h.maxelem)
    (hd : d ∉ h.table.data) (eexist : Bool) (mem : Mem) :
    ∃ h' ret mem', callAd jhash h .add d eexist mem = (h', ret, mem') ∧ h'.Inv jhash ∧
      h.SameParams h' ∧
      ((ret = none ∧ h'.table.data.Perm (d :: h.table.data) ∧
          ∃ b, Fits jhash h.initval b (d :: h.table.data)) ∨
        (h'.table.data.Perm h.table.data ∧
          ((ret = some .enomem ∧ ¬Granted mem) ∨
            (ret = some .hashFull ∧
              ∀ b, h.table.htableBits ≤ b → ¬Fits jhash h.initval b (d :: h.table.data))))) := by
  induction hn : 255 - h.table.htableBits.toNat using Nat.strong_induction_on generalizing h mem with
  | _ n ih =>
  subst hn
  rcases typePfAdd_cases hi d mem with ⟨hfull, -⟩ | ⟨-, hd', -⟩ | ⟨-, -, hadd⟩
  · exact absurd hfull (BitVec.not_le.mpr hroom)
  · exact absurd hd' hd
  rcases hadd with ⟨h', mem', he, hs, hi', hpar, hperm, hbits⟩ | ⟨he, hcount⟩ | ⟨mem', he, hg, hs⟩
  · have hfits : Fits jhash h.initval h'.table.htableBits (d :: h.table.data) := by
      have := hi'.placed.fits.perm hperm
      rwa [hpar.2] at this
    rw [callAd, adtfn, he]
    exact ⟨h', none, mem', rfl, hi', hpar, .inl ⟨rfl, hperm, _, hfits⟩⟩
  · -- the bucket is full
    have hnow : ¬Fits jhash h.initval h.table.htableBits (d :: h.table.data) :=
      not_fits_cons [] hcount
    have ha : adtfn jhash h .add d mem = (.error .eagain, mem) := he
    rcases typePfResize_cases jhash h mem with
      ⟨h₁, mem₁, hr, hs₁, hR⟩ | ⟨mem₁, hr, hs₁, hall⟩ | ⟨mem₁, hr, hs₁, hg⟩
    · have hlt := hR.larger
      have hd₁ : d ∉ h₁.table.data := fun hm => hd (hR.data.mem_iff.mp hm)
      have hroom₁ : h₁.elements < h₁.maxelem := by rw [hR.elements, hR.params.1]; exact hroom
      have hdec : 255 - h₁.table.htableBits.toNat < 255 - h.table.htableBits.toNat := by
        have := h₁.table.htableBits.isLt
        bv_omega
      obtain ⟨h', ret, mem', hc, hi', hpar, hres⟩ := ih _ hdec (hR.inv hi) hroom₁ hd₁ mem₁ rfl
      have hpar' : h.SameParams h' := ⟨hpar.1.trans hR.params.1, hpar.2.trans hR.params.2⟩
      rw [hR.params.2] at hres
      rw [callAd_resized ha hr]
      refine ⟨h', ret, mem', hc, hi', hpar', ?_⟩
      rcases hres with ⟨hret, hp, b, hf⟩ | ⟨hp, ⟨hret, hg⟩ | ⟨hret, hall⟩⟩
      · exact .inl ⟨hret, hp.trans (hR.data.cons d), b, hf.perm (hR.data.cons d)⟩
      · exact .inr ⟨hp.trans hR.data, .inl ⟨hret, fun h'' => hg (h''.of_suffix hs₁)⟩⟩
      · refine .inr ⟨hp.trans hR.data, .inr ⟨hret, fun b hb hf => ?_⟩⟩
        -- the sizes before the new one are too small even without the element
        by_cases hbb : b = h.table.htableBits
        · exact hnow (hbb ▸ hf)
        · by_cases hlt₁ : b < h₁.table.htableBits
          · exact hR.first b (by bv_omega) hlt₁ hf.of_cons
          · exact hall b (BitVec.not_lt.mp hlt₁) (hf.perm (hR.data.cons d).symm)
    · rw [callAd_not_resized ha hr]
      refine ⟨h, _, mem₁, rfl, hi, ⟨rfl, rfl⟩, .inr ⟨.refl _, .inr ⟨rfl, fun b hb hf => ?_⟩⟩⟩
      by_cases hbb : b = h.table.htableBits
      · exact hnow (hbb ▸ hf)
      · exact hall b (by bv_omega) hf.of_cons
    · rw [callAd_not_resized ha hr]
      exact ⟨h, _, mem₁, rfl, hi, ⟨rfl, rfl⟩, .inr ⟨.refl _, .inl ⟨rfl, hg⟩⟩⟩
  · rw [callAd, adtfn, he]
    exact ⟨h, _, mem', rfl, hi, ⟨rfl, rfl⟩, .inr ⟨.refl _, .inl ⟨rfl, hg⟩⟩⟩

end

end Telex.Router
