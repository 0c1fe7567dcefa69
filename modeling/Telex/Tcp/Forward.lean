import Telex.Tcp.Checksum

/-! Forwarding a packet: `telex_fwd_pkt`

    The packet crossed a router on its way to the station, so its time to live is raised by one. The
    checksum is then computed over a header that still holds the old one, where a new header has a zero:
    the result is short of the old checksum, which is only harmless when that was a zero of one's
    complement arithmetic. -/

namespace Telex.Tcp
open Bro (Byte ntohs)
open Checksum (words wordSum complement)

/-- The time to live of a packet. -/
def ttl (pkt : List Byte) : Byte := pkt.getD 8 0

/-- The header checksum of a packet. -/
def checkOf (pkt : List Byte) : ℕ := 256 * (pkt.getD 10 0).toNat + (pkt.getD 11 0).toNat

/-- An IPv4 packet with a whole header, whose checksum is right. -/
structure IsIpv4 (pkt : List Byte) : Prop where
  version : (pkt.getD 0 0).toNat / 16 = 4
  ihl : 5 ≤ ihl pkt
  whole : 4 * Tcp.ihl pkt ≤ pkt.length
  checked : Checksum.Valid (ipHeader pkt)

/-- What is sent is the packet with one more hop to live and a right checksum. -/
structure Forwards (pkt sent : List Byte) : Prop where
  ttl : (ttl sent).toNat = (Tcp.ttl pkt).toNat + 1
  checked : Checksum.Valid (ipHeader sent)
  length : sent.length = pkt.length
  rest : ∀ i, i ≠ 8 → i ≠ 10 → i ≠ 11 → sent[i]? = pkt[i]?

/-- The sum of a header whose first byte is not zero: what the time to live and the checksum add to
    the rest of it. -/
theorem exists_wordSum {pkt : List Byte} {n : ℕ} (h : 12 ≤ n) (hn : n ≤ pkt.length)
    (h0 : pkt.getD 0 0 ≠ 0) : ∃ a, 0 < a ∧
      (∀ t, wordSum ((pkt.set 8 t).take n) = a + 256 * t.toNat + checkOf pkt) ∧
      ∀ t c0 c1, wordSum ((((pkt.set 8 t).set 10 c0).set 11 c1).take n) =
        a + 256 * t.toNat + (256 * c0.toNat + c1.toNat) := by
  obtain ⟨k, rfl⟩ := Nat.exists_eq_add_of_le' h
  match pkt, hn with
  | b0 :: b1 :: b2 :: b3 :: b4 :: b5 :: b6 :: b7 :: b8 :: b9 :: b10 :: b11 :: rest, _ =>
    have hz : (0 : Byte).toNat = 0 := rfl
    have hsplit : ∀ t c0 c1 : Byte, wordSum (b0 :: b1 :: b2 :: b3 :: b4 :: b5 :: b6 :: b7 :: t :: b9 ::
        c0 :: c1 :: rest.take k) = wordSum (b0 :: b1 :: b2 :: b3 :: b4 :: b5 :: b6 :: b7 :: 0 :: b9 ::
        rest.take k) + 256 * t.toNat + (256 * c0.toNat + c1.toNat) := by
      intro t c0 c1
      simp only [wordSum, words, List.sum_cons, hz]
      omega
    exact ⟨_, Checksum.wordSum_pos h0, fun t => hsplit t b10 b11, hsplit⟩

/-- The packet with the time to live `t` and the header checksum `c`. -/
def withTtl (pkt : List Byte) (t : Byte) (c : BitVec 16) : List Byte :=
  ((pkt.set 8 t).set 10 ((c >>> 8).setWidth 8)).set 11 (c.setWidth 8)

section
variable {pkt : List Byte} (t : Byte) (c : BitVec 16)

theorem length_withTtl : (withTtl pkt t c).length = pkt.length := by
  rw [withTtl, List.length_set, List.length_set, List.length_set]

theorem getElem?_withTtl {i : ℕ} (h8 : i ≠ 8) (h10 : i ≠ 10) (h11 : i ≠ 11) :
    (withTtl pkt t c)[i]? = pkt[i]? := by
  rw [withTtl, List.getElem?_set_ne h11.symm, List.getElem?_set_ne h10.symm,
    List.getElem?_set_ne h8.symm]

theorem ihl_withTtl : ihl (withTtl pkt t c) = ihl pkt := by
  rw [ihl, List.getD_eq_getElem?_getD, getElem?_withTtl t c (by decide) (by decide) (by decide),
    ← List.getD_eq_getElem?_getD, ihl]

theorem ttl_withTtl (h : 8 < pkt.length) : ttl (withTtl pkt t c) = t := by
  rw [ttl, withTtl, List.getD_eq_getElem?_getD, List.getElem?_set_ne (by decide),
    List.getElem?_set_ne (by decide), List.getElem?_set_self h]
  rfl

end

/-- The packet that `telex_fwd_pkt` sends, and the checksum it computes. -/
theorem telexFwdPkt_spec {pkt : List Byte} (beyond : ℕ → Byte) (sendto : ℤ) (h5 : 5 ≤ ihl pkt)
    (hw : 4 * ihl pkt ≤ pkt.length) :
    ∃ c : BitVec 16, (telexFwdPkt beyond sendto pkt).1.pkt = withTtl pkt (ttl pkt + 1) c ∧
      c.toNat = complement (wordSum ((pkt.set 8 (ttl pkt + 1)).take (4 * ihl pkt))) := by
  have hmem : ∀ i < 12, written pkt beyond i = pkt.getD i 0 := fun i hi => by
    rw [written_of_lt (by omega), List.getD_eq_getElem _ _ (by omega)]
  have hihl : ihlAt (written pkt beyond) = ihl pkt := by
    rw [ihlAt, hmem 0 (by omega), ihl]
  have hlen : ihl pkt < 16 := Nat.mod_lt _ (by decide)
  have hbytes := fun c : BitVec 16 => List.cons.inj (le16_ntohs c)
  have hsum := Checksum.wordSum_le ((pkt.set 8 (ttl pkt + 1)).take (4 * ihl pkt))
  refine ⟨csum (written (pkt.set 8 (ttl pkt + 1)) beyond) (ihl pkt * 2) 0, ?_, ?_⟩
  · simp only [telexFwdPkt, withTtl, hihl, hmem 8 (by omega), ttl]
    rw [(hbytes _).1, (List.cons.inj (hbytes _).2).1]
  · rw [csum_toNat, addWords_toNat (by rw [List.length_set]; omega), Nat.mod_eq_of_lt,
      show 2 * (ihl pkt * 2) = 4 * ihl pkt by omega]
    · exact congrArg complement (Nat.zero_add _)
    · have h0 : (0 : BitVec 32).toNat = 0 := rfl
      rw [List.length_take, List.length_set] at hsum
      rw [show 2 * (ihl pkt * 2) = 4 * ihl pkt by omega]
      omega

/-- A sum `s` that includes its checksum `c` is a multiple of `0xFFFF`, and so is the sum with `c`
    replaced by the complement of the whole, only when `c` is a zero. -/
theorem dvd_sub_complement_iff {s c : ℕ} (hs : s < 2 ^ 32) (hle : c ≤ s) (hc : c < 65536) :
    65535 ∣ s - c + complement s ↔ c = 0 ∨ c = 0xFFFF := by
  obtain ⟨k, hk⟩ := Checksum.dvd_complement_add hs
  constructor
  · rintro ⟨m, hm⟩
    omega
  · rintro (rfl | rfl)
    · exact ⟨k, by omega⟩
    · exact ⟨k - 1, by omega⟩

theorem checkOf_lt (pkt : List Byte) : checkOf pkt < 65536 := by
  have hb := (pkt.getD 10 0).isLt
  have hb' := (pkt.getD 11 0).isLt
  rw [checkOf]
  omega

/-- A checksum over a header that still has the old one is right only when that was a zero. -/
theorem valid_withTtl_iff {pkt : List Byte} (h : IsIpv4 pkt) {t : Byte} {c : BitVec 16}
    (hc : c.toNat = complement (wordSum ((pkt.set 8 t).take (4 * ihl pkt)))) :
    Checksum.Valid (ipHeader (withTtl pkt t c)) ↔ checkOf pkt = 0 ∨ checkOf pkt = 0xFFFF := by
  have h5 := h.ihl
  have h15 : ihl pkt < 16 := Nat.mod_lt _ (by decide)
  have h0 : pkt.getD 0 0 ≠ 0 := by
    intro h0
    have hver := h.version
    rw [h0] at hver
    cases hver
  obtain ⟨a, ha, hmid, hout⟩ := exists_wordSum (by omega) h.whole h0
  have hsum := Checksum.wordSum_le ((pkt.set 8 t).take (4 * ihl pkt))
  rw [List.length_take, hmid] at hsum
  rw [ipHeader, ihl_withTtl, Checksum.valid_iff, withTtl, hout, bytes_toNat, hc, hmid,
    ← dvd_sub_complement_iff (s := a + 256 * t.toNat + checkOf pkt) (by omega) (by omega)
      (checkOf_lt pkt), Nat.add_sub_cancel, and_iff_right (by omega)]

/-- The time to live wraps at 255. -/
theorem succ_toNat_iff (t : Byte) : (t + 1).toNat = t.toNat + 1 ↔ t ≠ 255 := by
  have h1 : (1 : Byte).toNat = 1 := rfl
  have h255 : (255 : Byte).toNat = 255 := rfl
  have hb := t.isLt
  rw [BitVec.toNat_add, h1, Ne, ← BitVec.toNat_inj, h255]
  omega

/-- The packet is forwarded as it should be exactly when its time to live has room and its checksum was
    a zero of one's complement arithmetic. -/
theorem forwards_iff {pkt : List Byte} (h : IsIpv4 pkt) (beyond : ℕ → Byte) (sendto : ℤ) :
    Forwards pkt (telexFwdPkt beyond sendto pkt).1.pkt ↔
      ttl pkt ≠ 255 ∧ (checkOf pkt = 0 ∨ checkOf pkt = 0xFFFF) := by
  obtain ⟨c, hsent, hc⟩ := telexFwdPkt_spec beyond sendto h.ihl h.whole
  have hvalid := valid_withTtl_iff h hc
  have h8 : 8 < pkt.length := by
    have h5 := h.ihl
    have hwhole := h.whole
    omega
  have httl := ttl_withTtl (ttl pkt + 1) c h8
  rw [hsent]
  constructor
  · intro hf
    have hnext := hf.ttl
    rw [httl] at hnext
    exact ⟨(succ_toNat_iff _).mp hnext, hvalid.mp hf.checked⟩
  · rintro ⟨ht, hcheck⟩
    refine ⟨?_, hvalid.mpr hcheck, length_withTtl _ _, ?_⟩
    · rw [httl]
      exact (succ_toNat_iff _).mpr ht
    · intro i h8 h10 h11
      exact getElem?_withTtl _ _ h8 h10 h11

/-- A header without options, from 10.0.0.1 to 10.0.0.2. -/
def sampleHeader : List Byte :=
  [0x45, 0, 0, 20, 0, 0, 0x40, 0, 64, 6, 0x26, 0xe2, 10, 0, 0, 1, 10, 0, 0, 2]

theorem isIpv4_sampleHeader : IsIpv4 sampleHeader := ⟨by decide, by decide, by decide, by decide⟩

theorem forwards_iff_sampleHeader : IsIpv4 sampleHeader ∧
    (Forwards sampleHeader (telexFwdPkt (fun _ => 0) 20 sampleHeader).1.pkt ↔
      ttl sampleHeader ≠ 255 ∧ (checkOf sampleHeader = 0 ∨ checkOf sampleHeader = 0xFFFF)) :=
  ⟨isIpv4_sampleHeader, forwards_iff isIpv4_sampleHeader _ _⟩

/-- Its sum is no longer `0xFFFF` after it was forwarded. -/
theorem forwarded_checksum_wrong : IsIpv4 sampleHeader ∧
    ¬Forwards sampleHeader (telexFwdPkt (fun _ => 0) 20 sampleHeader).1.pkt := by
  refine ⟨isIpv4_sampleHeader, fun h => ?_⟩
  exact absurd h.checked (by decide)

end Telex.Tcp
