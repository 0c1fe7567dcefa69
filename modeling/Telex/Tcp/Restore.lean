import Telex.Tcp.Forge

/-! What `telex_tcp_forge_xmit` returns and what it leaves in the flow record

    After the recursive call the sequence number is set back, the IP identifier is not, and the result
    is that of the deepest call alone. -/

namespace Telex.Tcp
open Bro (Byte)

/-- The `k`th segment was sent completely. -/
def Complete (env : ℕ → Outcome) (fl : Flow) (payload : List Byte) (k : ℕ) : Prop :=
  (env k).sendto = totLen fl (chunk payload k).length

/-- The deepest of the calls is the one number `l`: it finds no memory, or it sends the last segment. -/
structure Deepest (env : ℕ → Outcome) (payload : List Byte) (l : ℕ) : Prop where
  lt : l < segments payload.length
  before : ∀ k < l, (env k).malloc ≠ none
  stop : (env l).malloc = none ∨ l + 1 = segments payload.length

/-- The flow record that `l` recursive calls leave. -/
def Flow.skipped (fl : Flow) (l : ℕ) : Flow :=
  { fl with lastIpId := fl.lastIpId + BitVec.ofNat 16 l }

theorem setBack_skipped (fl : Flow) (l : ℕ) :
    (fl.advance.skipped l).setBack = fl.skipped (l + 1) := by
  have hid : fl.lastIpId + 1 + BitVec.ofNat 16 l = fl.lastIpId + BitVec.ofNat 16 (l + 1) := by
    rw [BitVec.ofNat_add, BitVec.add_assoc, BitVec.add_comm 1]
    rfl
  simp only [Flow.skipped, Flow.advance, Flow.setBack, hid, BitVec.add_sub_cancel]

theorem skipped_eq_iff (fl : Flow) (l : ℕ) : fl.skipped l = fl ↔ 65536 ∣ l := by
  have hid := fl.lastIpId.isLt
  have heq : fl.skipped l = fl ↔ fl.lastIpId + BitVec.ofNat 16 l = fl.lastIpId :=
    ⟨fun h => congrArg Flow.lastIpId h, fun h => by rw [Flow.skipped, h]⟩
  rw [heq, ← BitVec.toNat_inj, BitVec.toNat_add, BitVec.toNat_ofNat]
  omega

theorem totLen_advance (fl : Flow) (len : ℕ) : totLen fl.advance len = totLen fl len := by
  have h : fl.advance.tcp.optionTs = fl.tcp.optionTs := by simp only [Flow.advance]
  rw [totLen, totLen, tcpLen, tcpLen, h]

/-- How `telex_tcp_forge_xmit` ends. -/
theorem ending_spec (env : ℕ → Outcome) (fl : Flow) (payload : List Byte) :
    ((telexTcpForgeXmit env fl payload).ending = .sigfpe ∧ (env 0).malloc ≠ none ∧ ¬Clocked fl) ∨
    ((Clocked fl ∨ (env 0).malloc = none) ∧ ∃ l res, Deepest env payload l ∧
      (telexTcpForgeXmit env fl payload).ending = .ret res (fl.skipped l) ∧
      (res = 0 ↔ (env l).malloc ≠ none ∧ Complete env fl payload l)) := by
  fun_induction telexTcpForgeXmit env fl payload with
  | case1 env fl payload hm =>
    refine .inr ⟨.inr hm, 0, 1, ⟨segments_pos _, by simp, .inl hm⟩, ?_, by simp [hm]⟩
    simp [Flow.skipped]
  | case2 env fl payload heap hm ho =>
    refine .inl ⟨rfl, by simp [hm], fun hc => ?_⟩
    obtain ⟨opts, hopts⟩ := (exists_options_iff fl (env 0).now).mpr hc
    rw [ho] at hopts
    cases hopts
  | case3 env fl payload heap hm opts ho data sent hlt x ih =>
    have hc : Clocked fl := (exists_options_iff fl (env 0).now).mp ⟨opts, ho⟩
    have hseg : segments (payload.drop 1448).length + 1 = segments payload.length := by
      rw [List.length_drop, segments_of_lt hlt]
    rcases ih with ⟨_, _, hn⟩ | ⟨_, l, res, hd, he, hres⟩
    · exact absurd ((clocked_advance fl).mpr hc) hn
    · refine .inr ⟨.inl hc, l + 1, res, ⟨?_, ?_, ?_⟩, ?_, ?_⟩
      · exact hseg ▸ Nat.succ_lt_succ hd.lt
      · rintro (_ | k) hk
        · simp [hm]
        · exact hd.before k (Nat.lt_of_succ_lt_succ hk)
      · exact hd.stop.imp id fun h => by rw [h, hseg]
      · rw [← setBack_skipped]
        exact congrArg Ending.setBack he
      · rw [hres, Complete, Complete, totLen_advance, chunk_succ]
  | case4 env fl payload heap hm opts ho data sent hlt =>
    have hc : Clocked fl := (exists_options_iff fl (env 0).now).mp ⟨opts, ho⟩
    have hone : segments payload.length = 1 := segments_of_le (Nat.le_of_not_lt hlt)
    refine .inr ⟨.inl hc, 0, if (env 0).sendto = totLen fl data.length then 0 else 1,
      ⟨segments_pos _, by simp, .inr hone.symm⟩, ?_, ?_⟩
    · rw [(skipped_eq_iff fl 0).mpr (dvd_zero _)]
    · simp [hm, Complete, chunk, data]

/-- The result says whether every segment was sent completely, and the flow record is left as it was. -/
structure Restores (env : ℕ → Outcome) (fl : Flow) (payload : List Byte) : Prop where
  result : (∃ fl', (telexTcpForgeXmit env fl payload).ending = .ret 0 fl') ↔
    (telexTcpForgeXmit env fl payload).sent.length = segments payload.length ∧
    ∀ k s, (telexTcpForgeXmit env fl payload).sent[k]? = some s → (env k).sendto = s.pkt.length
  flow : ∀ res fl', (telexTcpForgeXmit env fl payload).ending = .ret res fl' → fl' = fl

theorem length_sent_pkt {env : ℕ → Outcome} {fl : Flow} {payload : List Byte} {k : ℕ} {s : Sent}
    (h : (telexTcpForgeXmit env fl payload).sent[k]? = some s) :
    s.pkt.length = totLen fl (chunk payload k).length := by
  obtain ⟨heap, opts, -, ho, rfl⟩ := sent_spec env fl payload k s h
  have hlen := totLen_chunk_le (fl.advanced k) (payload.drop (1448 * k))
  have hlength := (packet_headers heap (length_options ho) hlen).length
  have htot : ∀ len, totLen (fl.advanced k) len = totLen fl len := fun _ => rfl
  rw [← htot]
  exact hlength

variable {env : ℕ → Outcome} {fl : Flow} {payload : List Byte} {l : ℕ}

/-- Every segment was sent completely exactly when the deepest call found memory and each of the calls
    sent its segment. -/
theorem all_sent_iff (hc : Clocked fl ∨ (env 0).malloc = none) (hd : Deepest env payload l) :
    ((telexTcpForgeXmit env fl payload).sent.length = segments payload.length ∧
      ∀ k s, (telexTcpForgeXmit env fl payload).sent[k]? = some s → (env k).sendto = s.pkt.length) ↔
    (env l).malloc ≠ none ∧ ∀ k ≤ l, Complete env fl payload k := by
  rw [(length_sent env fl payload).2]
  constructor
  · rintro ⟨⟨hm, hclk⟩, hs⟩
    have hl := hd.stop.resolve_left (hm l hd.lt)
    refine ⟨hm l hd.lt, fun k hk => ?_⟩
    have hlen := (length_sent env fl payload).2.mpr ⟨hm, hclk⟩
    have hget := List.getElem?_eq_getElem (l := (telexTcpForgeXmit env fl payload).sent)
      (i := k) (by omega)
    rw [Complete, hs k _ hget, length_sent_pkt hget]
  · rintro ⟨hm, hk⟩
    have hl := hd.stop.resolve_left hm
    have hmem : ∀ k < segments payload.length, (env k).malloc ≠ none := by
      intro k hk
      rcases Nat.lt_or_eq_of_le (show k ≤ l by omega) with h | rfl
      · exact hd.before k h
      · exact hm
    refine ⟨⟨hmem, hc.resolve_right (hmem 0 (segments_pos _))⟩, fun k s hs => ?_⟩
    have hlt := (List.getElem?_eq_some_iff.mp hs).1
    have hle := (length_sent env fl payload).1
    rw [length_sent_pkt hs]
    exact hk k (by omega)

theorem Deepest.unique {l' : ℕ} (h : Deepest env payload l) (h' : Deepest env payload l') : l = l' := by
  have hlt := h.lt
  have hlt' := h'.lt
  rcases Nat.lt_trichotomy l l' with hl | hl | hl
  · rcases h.stop with hs | hs
    · exact absurd hs (h'.before l hl)
    · omega
  · exact hl
  · rcases h'.stop with hs | hs
    · exact absurd hs (h.before l' hl)
    · omega

/-- The two halves of the property for a call that returns. -/
theorem restores_iff_of_ret {res : ℕ} (hc : Clocked fl ∨ (env 0).malloc = none)
    (hd : Deepest env payload l)
    (he : (telexTcpForgeXmit env fl payload).ending = .ret res (fl.skipped l))
    (hres : res = 0 ↔ (env l).malloc ≠ none ∧ Complete env fl payload l) :
    Restores env fl payload ↔ 65536 ∣ l ∧
      ((env l).malloc ≠ none → Complete env fl payload l → ∀ k < l, Complete env fl payload k) := by
  have hzero : (∃ fl', (telexTcpForgeXmit env fl payload).ending = .ret 0 fl') ↔
      (env l).malloc ≠ none ∧ Complete env fl payload l := by
    rw [he, ← hres]
    constructor
    · rintro ⟨fl', h⟩
      exact (Ending.ret.inj h).1
    · rintro rfl
      exact ⟨_, rfl⟩
  constructor
  · intro h
    refine ⟨(skipped_eq_iff fl l).mp (h.flow _ _ he), fun hm hl k hk => ?_⟩
    exact ((all_sent_iff hc hd).mp (h.result.mp (hzero.mpr ⟨hm, hl⟩))).2 k hk.le
  · rintro ⟨hdvd, hlast⟩
    refine ⟨?_, ?_⟩
    · rw [hzero, all_sent_iff hc hd]
      refine and_congr_right fun hm => ⟨fun hl k hk => ?_, fun h => h l le_rfl⟩
      rcases Nat.lt_or_eq_of_le hk with hk | rfl
      · exact hlast hm hl k hk
      · exact hl
    · intro res' fl' h
      rw [he] at h
      rw [← (Ending.ret.inj h).2]
      exact (skipped_eq_iff fl l).mpr hdvd

/-- The result and the flow record are right exactly when the program does not return at all, or when
    the number of recursive calls is a multiple of `2 ^ 16` and the last segment is not sent completely
    after one that was not. -/
theorem restores_iff (env : ℕ → Outcome) (fl : Flow) (payload : List Byte) :
    Restores env fl payload ↔
      ((env 0).malloc ≠ none ∧ fl.tcp.optionTs ≠ 0 ∧ ZeroRate fl.tcp.lastTs fl.tcp.curTs) ∨
      ∃ l, Deepest env payload l ∧ 65536 ∣ l ∧
        ((env l).malloc ≠ none → Complete env fl payload l → ∀ k < l, Complete env fl payload k) := by
  have hcrash : (fl.tcp.optionTs ≠ 0 ∧ ZeroRate fl.tcp.lastTs fl.tcp.curTs) ↔ ¬Clocked fl := by
    rw [Clocked, not_or, not_not]
  rw [hcrash]
  rcases ending_spec env fl payload with ⟨he, hm, hc⟩ | ⟨hc, l, res, hd, he, hres⟩
  · refine iff_of_true ⟨?_, ?_⟩ (.inl ⟨hm, hc⟩)
    · rw [he, (length_sent env fl payload).2]
      refine iff_of_false (by simp) fun h => hc h.1.2
    · intro res fl' h
      rw [he] at h
      cases h
  · have hno : ¬((env 0).malloc ≠ none ∧ ¬Clocked fl) := fun h => hc.elim h.2 h.1
    rw [restores_iff_of_ret hc hd he hres, or_iff_right hno]
    constructor
    · rintro ⟨hdvd, hlast⟩
      exact ⟨l, hd, hdvd, hlast⟩
    · rintro ⟨l', hd', hdvd, hlast⟩
      obtain rfl := hd.unique hd'
      exact ⟨hdvd, hlast⟩

/-- The first of two segments is not sent: the result is 0 and the identifier has moved on. -/
theorem early_failure_lost :
    (telexTcpForgeXmit (sampleEnv [0] 41) (sampleFlow 0 (sampleTs 0 0 0) (sampleTs 0 0 0))
      (List.replicate 1449 0)).ending =
        .ret 0 { sampleFlow 0 (sampleTs 0 0 0) (sampleTs 0 0 0) with lastIpId := 8 } ∧
    ¬Restores (sampleEnv [0] 41) (sampleFlow 0 (sampleTs 0 0 0) (sampleTs 0 0 0))
      (List.replicate 1449 0) := by
  have hlen : (List.replicate 1449 (0 : Byte)).length = 1449 := List.length_replicate
  have hd : Deepest (sampleEnv [0] 41) (List.replicate 1449 (0 : Byte)) 1 :=
    ⟨by rw [hlen]; decide, fun _ _ => by simp [sampleEnv], .inr (by rw [hlen]; decide)⟩
  have hcomplete : Complete (sampleEnv [0] 41) (sampleFlow 0 (sampleTs 0 0 0) (sampleTs 0 0 0))
      (List.replicate 1449 0) 1 := by
    rw [Complete, chunk, List.length_take, List.length_drop, hlen]
    rfl
  rcases ending_spec (sampleEnv [0] 41) (sampleFlow 0 (sampleTs 0 0 0) (sampleTs 0 0 0))
    (List.replicate 1449 0) with ⟨_, _, hc⟩ | ⟨hc, l, res, hd', he, hres⟩
  · exact absurd (.inl rfl) hc
  · obtain rfl := hd.unique hd'
    obtain rfl := hres.mpr ⟨by simp [sampleEnv], hcomplete⟩
    refine ⟨he, fun h => ?_⟩
    have hflow := h.flow _ _ he
    exact absurd (congrArg Flow.lastIpId hflow) (by decide)

end Telex.Tcp
