import Telex.Tcp.Checksum
import Telex.Tcp.Timestamp

/-! A payload in segments: `telex_tcp_forge_xmit`

    Each call sends the first 1448 bytes and calls itself for the rest, with the sequence number and the
    IP identifier moved on. What the calls do is said once, for the packet of each call; the rest
    follows by induction on the payload. -/

namespace Telex.Tcp
open Bro (Byte ntohs)

/-! ### What a packet says -/

/-- A number of two bytes in network order. -/
def be16At (pkt : List Byte) (i : ℕ) : BitVec 16 := pkt.getD i 0 ++ pkt.getD (i + 1) 0

/-- A number of four bytes in network order. -/
def be32At (pkt : List Byte) (i : ℕ) : BitVec 32 := be16At pkt i ++ be16At pkt (i + 2)

/-- Where the TCP header starts. -/
def tcpAt (pkt : List Byte) : ℕ := 4 * ihl pkt

/-- `th_off` -/
def thOffOf (pkt : List Byte) : ℕ := (pkt.getD (tcpAt pkt + 12) 0).toNat / 16

/-- The TCP payload. -/
def tcpData (pkt : List Byte) : List Byte := pkt.drop (tcpAt pkt + 4 * thOffOf pkt)

/-- The packet is the `k`th segment of what is sent for `fl`. -/
structure Segment (fl : Flow) (k : ℕ) (s : Sent) : Prop where
  seq : be32At s.pkt (tcpAt s.pkt + 4) = fl.tcp.seq + BitVec.ofNat 32 (1448 * k)
  ack : be32At s.pkt (tcpAt s.pkt + 8) = fl.tcp.ack
  id : be16At s.pkt 4 = fl.lastIpId + 1 + BitVec.ofNat 16 k
  source : (s.pkt.drop 12).take 4 = le32 fl.respH ∧ (s.pkt.drop (tcpAt s.pkt)).take 2 = le16 fl.respP
  destination : (s.pkt.drop 16).take 4 = le32 fl.origH ∧
    (s.pkt.drop (tcpAt s.pkt + 2)).take 2 = le16 fl.origP
  sin : s.addr = fl.origH ∧ s.port = fl.origP
  headers : s.pkt.length = tcpAt s.pkt + 4 * thOffOf s.pkt + (tcpData s.pkt).length
  total : (be16At s.pkt 2).toNat = s.pkt.length
  short : s.pkt.length ≤ 1500

variable {fl : Flow} {opts data : List Byte}

theorem thOff_toNat (fl : Flow) :
    4 * ((BitVec.ofNat 4 (tcpLen fl >>> 2) ++ (0 : BitVec 4)).toNat / 16) = tcpLen fl := by
  rcases tcpLen_cases fl with h | h <;> rw [h] <;> decide

/-- What the headers of a packet say. -/
structure Headers (fl : Flow) (data pkt : List Byte) : Prop where
  tcpAt : tcpAt pkt = 20
  thOff : 4 * thOffOf pkt = tcpLen fl
  seq : be32At pkt 24 = fl.tcp.seq
  ack : be32At pkt 28 = fl.tcp.ack
  id : be16At pkt 4 = fl.lastIpId + 1
  source : (pkt.drop 12).take 4 = le32 fl.respH ∧ (pkt.drop 20).take 2 = le16 fl.respP
  destination : (pkt.drop 16).take 4 = le32 fl.origH ∧ (pkt.drop 22).take 2 = le16 fl.origP
  length : pkt.length = totLen fl data.length
  total : (be16At pkt 2).toNat = totLen fl data.length
  data : tcpData pkt = data

theorem be16At_ntohs {pkt : List Byte} {i : ℕ} {x : BitVec 16}
    (h : [pkt.getD i 0, pkt.getD (i + 1) 0] = le16 (ntohs x)) : be16At pkt i = x := by
  rw [le16_ntohs] at h
  simp only [List.cons.injEq, and_true] at h
  rw [be16At, h.1, h.2, be16_bytes]

theorem be32At_htonl {pkt : List Byte} {i : ℕ} {x : BitVec 32}
    (h : [pkt.getD i 0, pkt.getD (i + 1) 0, pkt.getD (i + 2) 0, pkt.getD (i + 3) 0] =
      le32 (htonl x)) : be32At pkt i = x := by
  rw [le32_htonl] at h
  simp only [List.cons.injEq, and_true] at h
  rw [be32At, be16At, be16At, h.1, h.2.1, h.2.2.1, h.2.2.2, be32_bytes]

theorem packet_headers (heap : ℕ → Byte) (hopts : 20 + opts.length = tcpLen fl)
    (hlen : totLen fl data.length ≤ 1500) : Headers fl data (packet fl heap opts data) := by
  obtain ⟨c, t, hpkt, -, -⟩ := packet_spec heap hopts hlen
  have hat : tcpAt (packet fl heap opts data) = 20 := by
    rw [tcpAt, hpkt, ihl_bytes]
    rfl
  have hoff : 4 * thOffOf (packet fl heap opts data) = tcpLen fl := by
    rw [thOffOf, hat, hpkt]
    exact thOff_toNat fl
  have hlength : (packet fl heap opts data).length = totLen fl data.length := by
    rw [hpkt, List.length_append, List.length_append, List.length_append, length_ip_bytes,
      length_tcp_bytes, totLen]
    omega
  refine ⟨hat, hoff, ?_, ?_, ?_, ?_, ?_, hlength, ?_, ?_⟩
  · exact be32At_htonl (by rw [hpkt]; rfl)
  · exact be32At_htonl (by rw [hpkt]; rfl)
  · exact be16At_ntohs (by rw [hpkt]; rfl)
  · rw [hpkt]
    exact ⟨rfl, rfl⟩
  · rw [hpkt]
    exact ⟨rfl, rfl⟩
  · rw [be16At_ntohs (x := BitVec.ofNat 16 (totLen fl data.length)) (by rw [hpkt]; rfl),
      BitVec.toNat_ofNat]
    omega
  · rw [tcpData, hat, hoff, hpkt, ← List.append_assoc, ← List.append_assoc]
    apply List.drop_left'
    rw [List.length_append, List.length_append, length_ip_bytes, length_tcp_bytes]
    omega

/-! ### The recursion -/

/-- The flow has a time stamp when it needs one. -/
def Clocked (fl : Flow) : Prop := fl.tcp.optionTs = 0 ∨ ¬ZeroRate fl.tcp.lastTs fl.tcp.curTs

/-- The number of segments of a payload of `n` bytes. -/
def segments (n : ℕ) : ℕ := max 1 ((n + 1447) / 1448)

/-- The flow record of the `k`th call. -/
def Flow.advanced (fl : Flow) (k : ℕ) : Flow :=
  { fl with
    lastIpId := fl.lastIpId + BitVec.ofNat 16 k
    tcp := { fl.tcp with seq := fl.tcp.seq + BitVec.ofNat 32 (1448 * k) } }

/-- The payload of the `k`th call's packet. -/
def chunk (payload : List Byte) (k : ℕ) : List Byte := (payload.drop (1448 * k)).take 1448

theorem segments_pos (n : ℕ) : 0 < segments n := lt_max_of_lt_left Nat.one_pos

theorem segments_of_le {n : ℕ} (h : n ≤ 1448) : segments n = 1 := by
  rw [segments]
  omega

theorem segments_of_lt {n : ℕ} (h : 1448 < n) : segments n = segments (n - 1448) + 1 := by
  rw [segments, segments]
  omega

theorem advanced_zero (fl : Flow) : fl.advanced 0 = fl := by
  simp [Flow.advanced]

theorem advanced_advance (fl : Flow) (k : ℕ) : fl.advance.advanced k = fl.advanced (k + 1) := by
  have hid : fl.lastIpId + 1 + BitVec.ofNat 16 k = fl.lastIpId + BitVec.ofNat 16 (k + 1) := by
    rw [BitVec.ofNat_add, BitVec.add_assoc, BitVec.add_comm 1]
    rfl
  have hseq : fl.tcp.seq + 1448 + BitVec.ofNat 32 (1448 * k) =
      fl.tcp.seq + BitVec.ofNat 32 (1448 * (k + 1)) := by
    rw [Nat.mul_add_one, BitVec.ofNat_add, BitVec.add_assoc, BitVec.add_comm 1448]
    rfl
  simp only [Flow.advanced, Flow.advance, hid, hseq]

theorem clocked_advance (fl : Flow) : Clocked fl.advance ↔ Clocked fl := by
  simp only [Clocked, Flow.advance]

theorem exists_options_iff (fl : Flow) (now : Timeval) :
    (∃ opts, options fl now = some opts) ↔ Clocked fl := by
  rw [options, Clocked, telexFillTs]
  by_cases h : fl.tcp.optionTs = 0
  · simp [h]
  · rw [if_pos h, or_iff_right h, ← telexGetNextTsval_eq_none_iff _ _ now,
      ← Option.ne_none_iff_exists', ne_eq, Option.map_eq_none_iff]

theorem length_options {now : Timeval} (h : options fl now = some opts) :
    20 + opts.length = tcpLen fl := by
  rw [options] at h
  by_cases hts : fl.tcp.optionTs = 0
  · rw [if_neg (not_not.mpr hts)] at h
    obtain rfl := Option.some.inj h
    rw [tcpLen, if_neg (not_not.mpr hts)]
    rfl
  · rw [if_pos hts] at h
    obtain ⟨_, _, rfl⟩ := Option.map_eq_some_iff.mp h
    rw [tcpLen, if_pos hts]
    rfl

/-- A packet never exceeds 1500 bytes. -/
theorem totLen_chunk_le (fl : Flow) (payload : List Byte) :
    totLen fl (payload.take 1448).length ≤ 1500 := by
  rw [totLen, List.length_take]
  rcases tcpLen_cases fl with h | h <;> omega

theorem chunk_succ (payload : List Byte) (k : ℕ) :
    chunk (payload.drop 1448) k = chunk payload (k + 1) := by
  rw [chunk, chunk, List.drop_drop, Nat.mul_add_one, Nat.add_comm]

variable {env : ℕ → Outcome} {payload : List Byte}

/-- The packet of the `k`th call. -/
theorem sent_spec (env : ℕ → Outcome) (fl : Flow) (payload : List Byte) :
    ∀ k s, (telexTcpForgeXmit env fl payload).sent[k]? = some s → ∃ heap opts,
      (env k).malloc = some heap ∧ options (fl.advanced k) (env k).now = some opts ∧
      s = ⟨fl.origP, fl.origH, packet (fl.advanced k) heap opts (chunk payload k)⟩ := by
  fun_induction telexTcpForgeXmit env fl payload with
  | case1 => simp
  | case2 => simp
  | case3 env fl payload heap hm opts ho data sent hlt x ih =>
    rintro (_ | k) s h
    · rw [List.getElem?_cons_zero] at h
      obtain rfl := Option.some.inj h
      exact ⟨heap, opts, hm, by rwa [advanced_zero], by rw [advanced_zero]; rfl⟩
    · rw [List.getElem?_cons_succ] at h
      obtain ⟨heap', opts', hm', ho', hs⟩ := ih k s h
      rw [advanced_advance] at ho' hs
      rw [chunk_succ] at hs
      exact ⟨heap', opts', hm', ho', hs⟩
  | case4 env fl payload heap hm opts ho data sent hlt =>
    rintro (_ | k) s h
    · rw [List.getElem?_cons_zero] at h
      obtain rfl := Option.some.inj h
      exact ⟨heap, opts, hm, by rwa [advanced_zero], by rw [advanced_zero]; rfl⟩
    · simp at h

/-- Every segment is sent when every call finds memory and the flow has a time stamp, and only then. -/
theorem length_sent (env : ℕ → Outcome) (fl : Flow) (payload : List Byte) :
    (telexTcpForgeXmit env fl payload).sent.length ≤ segments payload.length ∧
    ((telexTcpForgeXmit env fl payload).sent.length = segments payload.length ↔
      (∀ k < segments payload.length, (env k).malloc ≠ none) ∧ Clocked fl) := by
  fun_induction telexTcpForgeXmit env fl payload with
  | case1 env fl payload hm =>
    have hpos := segments_pos payload.length
    refine ⟨Nat.zero_le _, iff_of_false (Nat.ne_of_lt hpos) ?_⟩
    exact fun h => h.1 0 hpos hm
  | case2 env fl payload heap hm ho =>
    have hpos := segments_pos payload.length
    refine ⟨Nat.zero_le _, iff_of_false (Nat.ne_of_lt hpos) ?_⟩
    rintro ⟨_, hc⟩
    obtain ⟨opts, hopts⟩ := (exists_options_iff fl (env 0).now).mpr hc
    rw [ho] at hopts
    cases hopts
  | case3 env fl payload heap hm opts ho data sent hlt x ih =>
    obtain ⟨hle, hiff⟩ := ih
    rw [List.length_drop] at hle hiff
    rw [segments_of_lt hlt, List.length_cons]
    refine ⟨Nat.succ_le_succ hle, ?_⟩
    rw [Nat.add_right_cancel_iff, hiff, clocked_advance]
    refine and_congr_left fun _ => ⟨?_, fun h k hk => h (k + 1) (Nat.succ_lt_succ hk)⟩
    rintro h (_ | k) hk
    · simp [hm]
    · exact h k (Nat.lt_of_succ_lt_succ hk)
  | case4 env fl payload heap hm opts ho data sent hlt =>
    rw [segments_of_le (Nat.le_of_not_lt hlt)]
    refine ⟨Nat.le_refl 1, iff_of_true rfl ⟨?_, ?_⟩⟩
    · rintro k hk
      obtain rfl := Nat.lt_one_iff.mp hk
      simp [hm]
    · exact (exists_options_iff fl (env 0).now).mp ⟨opts, ho⟩

/-- When all segments are sent, their payloads are the payload. -/
theorem flatten_sent (env : ℕ → Outcome) (fl : Flow) (payload : List Byte) :
    (telexTcpForgeXmit env fl payload).sent.length = segments payload.length →
    ((telexTcpForgeXmit env fl payload).sent.map fun s => tcpData s.pkt).flatten = payload := by
  fun_induction telexTcpForgeXmit env fl payload with
  | case1 env fl payload => exact fun h => absurd h (Nat.ne_of_lt (segments_pos _))
  | case2 env fl payload => exact fun h => absurd h (Nat.ne_of_lt (segments_pos _))
  | case3 env fl payload heap hm opts ho data sent hlt x ih =>
    have hdata : tcpData sent.pkt = data :=
      (packet_headers heap (length_options ho) (totLen_chunk_le fl payload)).data
    intro h
    rw [segments_of_lt hlt, List.length_cons, Nat.add_right_cancel_iff] at h
    rw [List.length_drop] at ih
    rw [List.map_cons, List.flatten_cons, ih h, hdata, List.take_append_drop]
  | case4 env fl payload heap hm opts ho data sent hlt =>
    have hdata : tcpData sent.pkt = data :=
      (packet_headers heap (length_options ho) (totLen_chunk_le fl payload)).data
    intro _
    rw [List.map_singleton, List.flatten_singleton, hdata]
    exact List.take_of_length_le (Nat.le_of_not_lt hlt)

/-! ### Segments -/

/-- The payload is sent in segments, as many as it needs. -/
structure Segmented (fl : Flow) (payload : List Byte) (x : Xmit) : Prop where
  count : x.sent.length = segments payload.length
  payload : (x.sent.map fun s => tcpData s.pkt).flatten = payload
  each : ∀ k s, x.sent[k]? = some s → Segment fl k s

theorem segment_of_headers {k : ℕ} {pkt : List Byte} (h : Headers (fl.advanced k) data pkt)
    (hlen : totLen (fl.advanced k) data.length ≤ 1500) : Segment fl k ⟨fl.origP, fl.origH, pkt⟩ where
  seq := by
    rw [h.tcpAt]
    exact h.seq
  ack := by
    rw [h.tcpAt]
    exact h.ack
  id := by
    rw [h.id, BitVec.add_assoc, BitVec.add_comm 1, ← BitVec.add_assoc]
    rfl
  source := by
    rw [h.tcpAt]
    exact h.source
  destination := by
    rw [h.tcpAt]
    exact h.destination
  sin := ⟨rfl, rfl⟩
  headers := by
    rw [h.tcpAt, h.thOff, h.data, h.length, totLen]
    omega
  total := by rw [h.total, h.length]
  short := by rw [h.length]; exact hlen

/-- The payload is sent as it should be exactly when memory never runs out and the flow, if it has time
    stamps, does not show a rate of zero. -/
theorem segmented_iff (env : ℕ → Outcome) (fl : Flow) (payload : List Byte) :
    Segmented fl payload (telexTcpForgeXmit env fl payload) ↔
      (∀ k < segments payload.length, (env k).malloc ≠ none) ∧
      (fl.tcp.optionTs = 0 ∨ ¬ZeroRate fl.tcp.lastTs fl.tcp.curTs) := by
  have hall := (length_sent env fl payload).2
  constructor
  · exact fun h => hall.mp h.count
  · intro h
    have hcount := hall.mpr h
    refine ⟨hcount, flatten_sent env fl payload hcount, ?_⟩
    intro k s hs
    obtain ⟨heap, opts, -, ho, rfl⟩ := sent_spec env fl payload k s hs
    have hlen := totLen_chunk_le (fl.advanced k) (payload.drop (1448 * k))
    exact segment_of_headers (packet_headers heap (length_options ho) hlen) hlen

/-! ### Checksums -/

/-- Only the last segment can have an odd length. -/
theorem segments_of_odd {payload : List Byte} {k : ℕ} (hk : k < segments payload.length)
    (h : (chunk payload k).length % 2 = 1) : k + 1 = segments payload.length := by
  rw [chunk, List.length_take, List.length_drop] at h
  rw [segments] at hk ⊢
  omega

/-- The checksums of all packets are right unless the last segment is sent and the sign of its last byte
    makes it wrong. -/
theorem all_checked_iff (env : ℕ → Outcome) (fl : Flow) (payload : List Byte) :
    (∀ s ∈ (telexTcpForgeXmit env fl payload).sent, Checked s.pkt) ↔
      ¬((∀ k < segments payload.length, (env k).malloc ≠ none) ∧ ∃ l opts,
        l + 1 = segments payload.length ∧ options (fl.advanced l) (env l).now = some opts ∧
        SignError (fl.advanced l) opts (chunk payload l)) := by
  have hle := (length_sent env fl payload).1
  have hall := (length_sent env fl payload).2
  constructor
  · rintro h ⟨hm, l, opts, hl, ho, hsign⟩
    have hc : Clocked fl := (exists_options_iff (fl.advanced l) (env l).now).mp ⟨opts, ho⟩
    have hlen := hall.mpr ⟨hm, hc⟩
    obtain ⟨s, hs⟩ : ∃ s, (telexTcpForgeXmit env fl payload).sent[l]? = some s :=
      ⟨_, List.getElem?_eq_getElem (by omega)⟩
    have hcheck := h s (List.mem_of_getElem? hs)
    obtain ⟨heap, opts', -, ho', rfl⟩ := sent_spec env fl payload l s hs
    obtain rfl : opts = opts' := Option.some.inj (ho.symm.trans ho')
    exact (packet_checked_iff heap (length_options ho) (totLen_chunk_le _ _)).mp hcheck hsign
  · intro h s hs
    obtain ⟨k, hk, rfl⟩ := List.mem_iff_getElem.mp hs
    obtain ⟨heap, opts, -, ho, hpkt⟩ := sent_spec env fl payload k _ (List.getElem?_eq_getElem hk)
    rw [hpkt]
    refine (packet_checked_iff heap (length_options ho) (totLen_chunk_le _ _)).mpr fun hsign => h ?_
    have hlast := segments_of_odd (by omega) hsign.1
    exact ⟨(hall.mp (by omega)).1, k, opts, hlast, ho, hsign⟩

/-! ### Samples -/

/-- A flow from 10.0.0.2:443 to 10.0.0.1:80, with the time stamps `last` and `cur` if `optionTs` is
    not zero. -/
def sampleFlow (optionTs : Byte) (last cur : TcpTs) : Flow :=
  ⟨0x0100000a, 0x0200000a, 0x5000, 0xbb01, 64, 7,
    ⟨1000, 2000, 5000, 0, 5000, 0, last, cur, optionTs, 0, 0⟩⟩

/-- A time stamp at the given time. -/
def sampleTs (sec usec : BitVec 64) (tsval : BitVec 32) : TcpTs := ⟨⟨sec, usec⟩, tsval, 0⟩

/-- Memory is there and what is sent is sent completely, but for the calls in `fails`. -/
def sampleEnv (fails : List ℕ) (len : ℤ) (k : ℕ) : Outcome :=
  ⟨some fun _ => 0, ⟨101, 0⟩, if k ∈ fails then -1 else len⟩

/-- The payload is one byte with its sign set. -/
theorem odd_byte_unchecked :
    ¬∀ s ∈ (telexTcpForgeXmit (sampleEnv [] 41) (sampleFlow 0 (sampleTs 0 0 0) (sampleTs 0 0 0))
      [0x80]).sent, Checked s.pkt := by
  have hsent : (telexTcpForgeXmit (sampleEnv [] 41) (sampleFlow 0 (sampleTs 0 0 0) (sampleTs 0 0 0))
      [0x80]).sent = [⟨0x5000, 0x0100000a, packet (sampleFlow 0 (sampleTs 0 0 0) (sampleTs 0 0 0))
        (fun _ => 0) [] [0x80]⟩] := by
    rw [telexTcpForgeXmit]
    rfl
  intro h
  rw [hsent] at h
  have hcheck := h _ (List.mem_singleton.mpr rfl)
  rw [packet_checked_iff _ rfl (by decide)] at hcheck
  exact hcheck ⟨by decide, by decide, by decide⟩

/-- The last two time stamps came within a microsecond and are two ticks apart. -/
theorem zero_rate_sends_nothing :
    (telexTcpForgeXmit (sampleEnv [] 52) (sampleFlow 1 (sampleTs 100 0 1000) (sampleTs 100 1 1002))
      []).ending = .sigfpe ∧
    ¬Segmented (sampleFlow 1 (sampleTs 100 0 1000) (sampleTs 100 1 1002)) []
      (telexTcpForgeXmit (sampleEnv [] 52)
        (sampleFlow 1 (sampleTs 100 0 1000) (sampleTs 100 1 1002)) []) := by
  have hx : telexTcpForgeXmit (sampleEnv [] 52)
      (sampleFlow 1 (sampleTs 100 0 1000) (sampleTs 100 1 1002)) [] = ⟨[], .sigfpe⟩ := by
    rw [telexTcpForgeXmit]
    rfl
  rw [hx]
  refine ⟨rfl, fun h => ?_⟩
  exact absurd h.count (by decide)

end Telex.Tcp
