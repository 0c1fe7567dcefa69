import Telex.Ptwist.FelemSpec

/-! Minimal representations

    `felem_contract` and `felem_neg` are the only places where the representative matters and not
    just the residue. `felem_contract` is exact on what `felem_reduce` leaves. `felem_neg` contracts
    `3p - in`, whose top slice can be up to three times as large; for `in` between `p - 513` and
    `p - 257` the folded value lands on `2^168 .. 2^168 + 256` and keeps `out[2] = 2^56`. -/

namespace Telex.Ptwist

variable {a : Felem} {x : ZMod p}

theorem toNat_add_hi64 {o y : Fslice} (h : o.toNat + y.toNat / 2 ^ 56 < 2 ^ 64) :
    (o + (y >>> 56)).toNat = o.toNat + y.toNat / 2 ^ 56 := by
  rw [BitVec.toNat_add_of_lt (by rwa [toNat_hi64]), toNat_hi64]

/-- What `felem_contract` makes of the value `v` left after the top of `in[2]` is folded in. -/
def contractVal (v : ℕ) : ℕ := if p ≤ v ∧ v < 2 ^ 168 then v - p else v

/-- `felem_contract` on slices up to `2^58`: the minimal representation unless the folded value
    reaches `2^168`, which stays as it is with `out[2] = 2^56`. -/
theorem felemContract_val (h0 : a.l0.toNat < 2 ^ 56) (h1 : a.l1.toNat < 2 ^ 56)
    (h2 : a.l2.toNat < 2 ^ 58) :
    (felemContract a).l0.toNat < 2 ^ 56 ∧ (felemContract a).l1.toNat < 2 ^ 56 ∧
      (felemContract a).l2.toNat ≤ 2 ^ 56 ∧
      (felemContract a).val = contractVal (a.l0.toNat + 257 * (a.l2.toNat / 2 ^ 56) +
        2 ^ 56 * a.l1.toNat + 2 ^ 112 * (a.l2.toNat % 2 ^ 56)) := by
  unfold felemContract
  extract_lets m m257' o0 o2 o1 o0' o2' o1' f
  have d0 : o0.toNat = a.l0.toNat + 257 * (a.l2.toNat / 2 ^ 56) := by
    have e : (m257 (a.l2 >>> 56)).toNat = 257 * (a.l2.toNat / 2 ^ 56) := by
      rw [← toNat_hi64]; exact toNat_m257 (by rw [toNat_hi64]; omega)
    rw [← e]; exact BitVec.toNat_add_of_lt (by omega)
  have d2 : o2.toNat = a.l2.toNat % 2 ^ 56 := toNat_lo64 _
  have d1 : o1.toNat = a.l1.toNat + o0.toNat / 2 ^ 56 := toNat_add_hi64 (by omega)
  have d0' : o0'.toNat = o0.toNat % 2 ^ 56 := toNat_lo64 _
  have d2' : o2'.toNat = o2.toNat + o1.toNat / 2 ^ 56 := toNat_add_hi64 (by omega)
  have d1' : o1'.toNat = o1.toNat % 2 ^ 56 := toNat_lo64 _
  have hv : a.l0.toNat + 257 * (a.l2.toNat / 2 ^ 56) + 2 ^ 56 * a.l1.toNat +
      2 ^ 112 * (a.l2.toNat % 2 ^ 56) = o0'.toNat + 2 ^ 56 * o1'.toNat + 2 ^ 112 * o2'.toNat := by
    omega
  have b0 : o0'.toNat < 2 ^ 56 := d0' ▸ Nat.mod_lt _ (by decide)
  have b1 : o1'.toNat < 2 ^ 56 := d1' ▸ Nat.mod_lt _ (by decide)
  have b2 : o2'.toNat ≤ 2 ^ 56 := by omega
  have cm : m.toNat = 2 ^ 56 - 1 := by decide
  have cm' : m257'.toNat = 2 ^ 56 - 257 := by decide
  rw [hv]
  clear hv d0 d2 d1 d0' d2' d1' h0 h1 h2
  clear_value o0' o1' o2' m m257'
  have hcond : (o2' = m ∧ o1' = m ∧ m257' ≤ o0') ↔
      p ≤ o0'.toNat + 2 ^ 56 * o1'.toNat + 2 ^ 112 * o2'.toNat ∧
        o0'.toNat + 2 ^ 56 * o1'.toNat + 2 ^ 112 * o2'.toNat < 2 ^ 168 := by
    rw [← BitVec.toNat_inj, ← BitVec.toNat_inj, BitVec.le_def, cm, cm', p]
    omega
  by_cases hc : o2' = m ∧ o1' = m ∧ m257' ≤ o0'
  · have hf : f = 1#64 := if_pos hc
    rw [hf, contractVal, if_pos (hcond.mp hc)]
    obtain ⟨c2, c1, c0⟩ := hc
    have e0 : (o0' - m257' * 1#64).toNat = o0'.toNat - (2 ^ 56 - 257) := by
      rw [BitVec.mul_one, BitVec.toNat_sub_of_le c0, cm']
    have e1 : (o1' - m * 1#64).toNat = 0 := by rw [BitVec.mul_one, c1, BitVec.sub_self]; rfl
    have e2 : (o2' - m * 1#64).toNat = 0 := by rw [BitVec.mul_one, c2, BitVec.sub_self]; rfl
    rw [BitVec.le_def, cm'] at c0
    rw [Felem.val, e0, e1, e2, c1, c2, cm, p]
    omega
  · have hf : f = 0#64 := if_neg hc
    rw [hf, contractVal, if_neg (fun h => hc (hcond.mpr h)), BitVec.mul_zero, BitVec.mul_zero,
      BitVec.sub_zero, BitVec.sub_zero, BitVec.sub_zero]
    exact ⟨b0, b1, b2, rfl⟩

/-- The minimal representation: slices below `2^56` and a value below `p`. -/
structure IsMin (a : Felem) (x : ZMod p) : Prop where
  h0 : a.l0.toNat < 2 ^ 56
  h1 : a.l1.toNat < 2 ^ 56
  h2 : a.l2.toNat < 2 ^ 56
  lt : a.val < p
  eq : (a.val : ZMod p) = x

theorem IsMin.is56 (h : IsMin a x) : Is56 a x := ⟨h.h0, h.h1, h.h2.le, h.eq⟩

/-- `felem_contract` reaches the minimal representation from the range of `felem_reduce`. -/
theorem Is56.contract (h : Is56 a x) : IsMin (felemContract a) x := by
  obtain ⟨h0, h1, h2, he⟩ := h
  obtain ⟨c0, c1, c2, cv⟩ := felemContract_val h0 h1 (by omega)
  have hlt : (felemContract a).val < p := by
    rw [cv, contractVal, p]; split <;> omega
  refine ⟨c0, c1, by rw [Felem.val, p] at hlt; omega, hlt, ?_⟩
  rw [← he]
  obtain ⟨k, hk⟩ : ∃ k, (felemContract a).val + p * k = a.val := by
    refine ⟨a.l2.toNat / 2 ^ 56 + if p ≤ a.l0.toNat + 257 * (a.l2.toNat / 2 ^ 56) +
      2 ^ 56 * a.l1.toNat + 2 ^ 112 * (a.l2.toNat % 2 ^ 56) then 1 else 0, ?_⟩
    rw [cv, contractVal, Felem.val, p]; split <;> split <;> omega
  exact cast_eq_of_add_mul hk

/-- The value `felem_neg` returns. Between `p - 513` and `p - 257` the folded value reaches
    `2^168` and is not contracted. -/
def negVal (v : ℕ) : ℕ :=
  if v = 0 then 0
  else if v ≤ p ∧ ¬(p - 513 ≤ v ∧ v ≤ p - 257) then p - v else 2 * p - v

theorem felemNeg_val (h0 : a.l0.toNat < 2 ^ 56) (h1 : a.l1.toNat < 2 ^ 56)
    (h2 : a.l2.toNat ≤ 2 ^ 56) :
    (felemNeg a).l0.toNat < 2 ^ 56 ∧ (felemNeg a).l1.toNat < 2 ^ 56 ∧
      (felemNeg a).l2.toNat ≤ 2 ^ 56 ∧ (felemNeg a).val = negVal a.val := by
  unfold felemNeg
  extract_lets ca cb m t0 t1 t2 t1' t0' t2' t1''
  have dca : ca.toNat = 3 * 2 ^ 56 - 3 := by decide
  have dcb : cb.toNat = 3 * 2 ^ 56 - 771 := by decide
  have d0 : t0.toNat = 3 * 2 ^ 56 - 771 - a.l0.toNat := by
    rw [← dcb]; exact BitVec.toNat_sub_of_le (by rw [BitVec.le_def]; omega)
  have d1 : t1.toNat = 3 * 2 ^ 56 - 3 - a.l1.toNat := by
    rw [← dca]; exact BitVec.toNat_sub_of_le (by rw [BitVec.le_def]; omega)
  have d2 : t2.toNat = 3 * 2 ^ 56 - 3 - a.l2.toNat := by
    rw [← dca]; exact BitVec.toNat_sub_of_le (by rw [BitVec.le_def]; omega)
  have d1' : t1'.toNat = t1.toNat + t0.toNat / 2 ^ 56 := toNat_add_hi64 (by omega)
  have d0' : t0'.toNat = t0.toNat % 2 ^ 56 := toNat_lo64 _
  have d2' : t2'.toNat = t2.toNat + t1'.toNat / 2 ^ 56 := toNat_add_hi64 (by omega)
  have d1'' : t1''.toNat = t1'.toNat % 2 ^ 56 := toNat_lo64 _
  have b0 : t0'.toNat < 2 ^ 56 := d0' ▸ Nat.mod_lt _ (by decide)
  have b1 : t1''.toNat < 2 ^ 56 := d1'' ▸ Nat.mod_lt _ (by decide)
  have b2 : t2'.toNat < 2 ^ 58 := by omega
  -- the carried slices hold `3p - in`
  have hs : t0'.toNat + 2 ^ 56 * t1''.toNat + 2 ^ 112 * t2'.toNat + a.val = 3 * p := by
    rw [Felem.val, p]; omega
  have hv : a.val < 2 ^ 168 + 2 ^ 112 := by rw [Felem.val]; omega
  obtain ⟨c0, c1, c2, cv⟩ := felemContract_val (a := ⟨t0', t1'', t2'⟩) b0 b1 b2
  refine ⟨c0, c1, c2, ?_⟩
  rw [cv]
  simp only
  generalize a.val = v at hs hv
  clear cv c0 c1 c2 d0 d1 d2 d1' d0' d2' d1'' h0 h1 h2 dca dcb
  rw [p] at hs
  rw [contractVal, negVal, p]
  split_ifs <;> omega

/-- `felem_neg` negates, whatever representation it leaves. -/
theorem Is56.neg (h : Is56 a x) : Is56 (felemNeg a) (-x) := by
  obtain ⟨h0, h1, h2, he⟩ := h
  obtain ⟨c0, c1, c2, cv⟩ := felemNeg_val h0 h1 h2
  refine ⟨c0, c1, c2, ?_⟩
  have hv : a.val < 2 * p := by rw [Felem.val, p]; omega
  rw [cv, ← he, eq_neg_iff_add_eq_zero, ← Nat.cast_add, ZMod.natCast_eq_zero_iff]
  rw [negVal]
  split_ifs with hz hp
  · simp [hz]
  · exact ⟨1, by omega⟩
  · exact ⟨2, by omega⟩

/-- On the range of `felem_reduce` the zero check is exact. -/
theorem Is56.isZero_iff (h : Is56 a x) : felemIsZero a = true ↔ x = 0 := by
  obtain ⟨h0, h1, h2, he⟩ := h
  have key : felemIsZero a = true ↔ a.val = 0 ∨ a.val = p := by
    have c1 : (1#64 <<< 56 - 1).toNat = 2 ^ 56 - 1 := by decide
    have c2 : (1#64 <<< 56 - 257).toNat = 2 ^ 56 - 257 := by decide
    have c3 : (1#64 <<< 57 - 1).toNat = 2 ^ 57 - 1 := by decide
    have c4 : (0 : Fslice).toNat = 0 := rfl
    simp only [felemIsZero, Bool.or_eq_true, Bool.and_eq_true, beq_iff_eq, ← BitVec.toNat_inj,
      c1, c2, c3, c4]
    rw [Felem.val, p]; omega
  rw [key, ← he, ZMod.natCast_eq_zero_iff]
  constructor
  · rintro (h | h) <;> rw [h]
    exact dvd_zero _
  · rintro ⟨k, hk⟩
    have hv : a.val < 2 * p := by rw [Felem.val, p]; omega
    have hk2 : k < 2 := by
      by_contra hge
      have := Nat.mul_le_mul_left p (not_lt.mp hge)
      omega
    rcases (show k = 0 ∨ k = 1 by omega) with rfl | rfl <;> omega

end Telex.Ptwist
