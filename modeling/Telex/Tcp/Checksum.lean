import Telex.Lib.Checksum
import Telex.Tcp.Model

/-! The checksums of `telex_tcp.c` against the Internet checksum

    `csum` is right for every 32-bit sum. `tcp_csum` adds an odd last byte with its sign: the byte then
    counts `0x10000` too little, which one's complement arithmetic notices as an error of one. -/

namespace Telex.Tcp
open Bro (Byte ntohs)
open Checksum (words wordSum complement)

/-! ### Bytes in memory -/

variable {l m : List Byte} {mem : ℕ → Byte}

theorem ntohs_toNat (a b : Byte) : (ntohs (b ++ a)).toNat = 256 * a.toNat + b.toNat := by
  have ha := a.isLt
  have hb := b.isLt
  have hw : ntohs (b ++ a) = a ++ b := by
    apply BitVec.eq_of_getLsbD_eq
    intro i hi
    simp only [ntohs, BitVec.getLsbD_or, BitVec.getLsbD_shiftLeft, BitVec.getLsbD_ushiftRight,
      BitVec.getLsbD_append]
    by_cases h8 : i < 8
    · simp [h8]
    · have h16 : ¬8 + i < 8 := by omega
      have hz : b.getLsbD (8 + i - 8) = b.getLsbD i := by rw [Nat.add_sub_cancel_left]
      have hb : b.getLsbD i = false := BitVec.getLsbD_of_ge _ _ (by omega)
      have h : i - 8 < 8 := by omega
      simp [h8, hi, hb, h]
  rw [hw, BitVec.toNat_append, ← Nat.shiftLeft_add_eq_or_of_lt hb, Nat.shiftLeft_eq]
  omega

/-- A number in network order is in memory with its most significant byte first. -/
theorem le16_ntohs (x : BitVec 16) : le16 (ntohs x) = [(x >>> 8).setWidth 8, x.setWidth 8] := by
  simp only [le16, ntohs, List.cons.injEq, and_true]
  constructor
  · apply BitVec.eq_of_getLsbD_eq
    intro i hi
    simp [hi]
  · apply BitVec.eq_of_getLsbD_eq
    intro i hi
    have h : 8 + i < 16 := by omega
    have hge : x.getLsbD (8 + (8 + i)) = false := BitVec.getLsbD_of_ge _ _ (by omega)
    simp [hi, h, hge, BitVec.getLsbD_eq_getElem (show i < 16 by omega)]

theorem bytes_toNat (x : BitVec 16) :
    256 * ((x >>> 8).setWidth 8).toNat + (x.setWidth 8).toNat = x.toNat := by
  have hx := x.isLt
  simp only [BitVec.toNat_setWidth, BitVec.toNat_ushiftRight, Nat.shiftRight_eq_div_pow]
  omega

theorem written_drop (i : ℕ) : written (l ++ m) mem (l.length + i) =
    written m (fun j => mem (l.length + j)) i := by
  rw [written, List.getD_append_right _ _ _ _ (by omega), Nat.add_sub_cancel_left, written]

theorem written_of_lt {i : ℕ} (h : i < l.length) : written l mem i = l[i] :=
  List.getD_eq_getElem _ _ h

theorem written_append_of_lt {i : ℕ} (h : i < l.length) :
    written (l ++ m) mem i = written l mem i := by
  rw [written, List.getD_append _ _ _ _ h, written]

/-- The bytes behind the last one. -/
theorem setWidth_shift_append {w : ℕ} (x : BitVec w) (b : Byte) (k : ℕ) :
    ((x ++ b) >>> (8 + k)).setWidth 8 = (x >>> k).setWidth 8 := by
  have hb := b.isLt
  apply BitVec.eq_of_toNat_eq
  rw [BitVec.toNat_setWidth, BitVec.toNat_setWidth, BitVec.toNat_ushiftRight, BitVec.toNat_ushiftRight,
    BitVec.toNat_append, ← Nat.shiftLeft_add_eq_or_of_lt hb, Nat.shiftRight_add,
    Nat.shiftRight_eq_div_pow _ 8, Nat.shiftLeft_eq, Nat.mul_comm, Nat.mul_add_div (by decide),
    Nat.div_eq_of_lt hb, Nat.add_zero]

theorem setWidth_append_byte {w : ℕ} (x : BitVec w) (b : Byte) : (x ++ b).setWidth 8 = b := by
  have hb := b.isLt
  apply BitVec.eq_of_toNat_eq
  rw [BitVec.toNat_setWidth, BitVec.toNat_append, ← Nat.shiftLeft_add_eq_or_of_lt hb, Nat.shiftLeft_eq]
  omega

theorem le32_htonl (x : BitVec 32) : le32 (htonl x) =
    [(x >>> 24).setWidth 8, (x >>> 16).setWidth 8, (x >>> 8).setWidth 8, x.setWidth 8] := by
  have h1 := setWidth_shift_append (x.setWidth 8 ++ (x >>> 8).setWidth 8 ++ (x >>> 16).setWidth 8)
    ((x >>> 24).setWidth 8)
  have h2 := setWidth_shift_append (x.setWidth 8 ++ (x >>> 8).setWidth 8) ((x >>> 16).setWidth 8)
  have h3 := setWidth_shift_append (x.setWidth 8) ((x >>> 8).setWidth 8)
  rw [le32, htonl, setWidth_append_byte, h1 0, h1 8, h1 16, h2 0, h2 8, h3 0]
  simp only [BitVec.ushiftRight_zero, setWidth_append_byte, BitVec.setWidth_eq]

theorem append_setWidth {w : ℕ} (y : BitVec w) (m n : ℕ) :
    (y >>> n).setWidth m ++ y.setWidth n = y.setWidth (m + n) := by
  apply BitVec.eq_of_getLsbD_eq
  intro i hi
  rw [BitVec.getLsbD_append, BitVec.getLsbD_setWidth, BitVec.getLsbD_setWidth, BitVec.getLsbD_setWidth,
    BitVec.getLsbD_ushiftRight]
  by_cases h : i < n
  · simp [h, hi]
  · have hm : i - n < m := by omega
    have hs : n + (i - n) = i := by omega
    simp [h, hi, hm, hs]

/-- The number whose bytes, most significant first, are these. -/
theorem be32_bytes (x : BitVec 32) : ((x >>> 24).setWidth 8 ++ (x >>> 16).setWidth 8 : BitVec 16) ++
    ((x >>> 8).setWidth 8 ++ x.setWidth 8 : BitVec 16) = x := by
  have hhigh := append_setWidth (x >>> 16) 8 8
  rw [← BitVec.shiftRight_add] at hhigh
  rw [hhigh, append_setWidth x 8 8, append_setWidth x 16 16, BitVec.setWidth_eq]

theorem be16_bytes (x : BitVec 16) : ((x >>> 8).setWidth 8 ++ x.setWidth 8 : BitVec 16) = x := by
  rw [append_setWidth x 8 8, BitVec.setWidth_eq]

/-! ### `csum` -/

theorem addWords_toNat {n : ℕ} (h : 2 * n ≤ l.length) (sum : BitVec 32) :
    (addWords n (written l mem) sum).toNat = (sum.toNat + wordSum (l.take (2 * n))) % 2 ^ 32 := by
  induction n generalizing l mem sum with
  | zero => simp [addWords, wordSum, words, Nat.mod_eq_of_lt sum.isLt]
  | succ n ih =>
    rcases l with _ | ⟨a, _ | ⟨b, l⟩⟩
    · rw [List.length_nil] at h
      omega
    · rw [List.length_singleton] at h
      omega
    · have hrest : (fun i => written (a :: b :: l) mem (i + 2)) = written l fun i => mem (i + 2) := rfl
      have hword : (ntohs (load16 (written (a :: b :: l) mem) 0)).toNat = 256 * a.toNat + b.toNat :=
        ntohs_toNat a b
      simp only [List.length_cons] at h
      rw [addWords, hrest, ih (by omega)]
      simp only [BitVec.toNat_add, BitVec.toNat_setWidth, hword, Nat.mul_succ, List.take_succ_cons,
        wordSum, words, List.sum_cons]
      omega

theorem csum_toNat (buf : ℕ → Byte) (n : ℕ) (init : BitVec 32) :
    (csum buf n init).toNat = complement (addWords n buf init).toNat := by
  have h := (addWords n buf init).isLt
  have hand : ∀ x : BitVec 32, (x &&& 0xffff).toNat = x.toNat % 65536 := fun x =>
    Nat.and_two_pow_sub_one_eq_mod x.toNat 16
  simp only [csum, complement, BitVec.toNat_setWidth, BitVec.toNat_not, BitVec.toNat_add,
    BitVec.toNat_ushiftRight, hand, Nat.shiftRight_eq_div_pow]
  omega

/-! ### Right checksums -/

/-- The header length of a packet, in words of four bytes. -/
def ihl (pkt : List Byte) : ℕ := (pkt.getD 0 0).toNat % 16

/-- The IP header. -/
def ipHeader (pkt : List Byte) : List Byte := pkt.take (4 * ihl pkt)

/-- The TCP segment. -/
def segment (pkt : List Byte) : List Byte := pkt.drop (4 * ihl pkt)

/-- A number of two bytes in network order. -/
def be16 (n : ℕ) : List Byte := [BitVec.ofNat 8 (n / 256), BitVec.ofNat 8 n]

/-- What TCP's checksum covers of the IP header: the addresses, the protocol and the length. -/
def pseudoHeader (pkt : List Byte) : List Byte :=
  (pkt.drop 12).take 8 ++ [0, pkt.getD 9 0] ++ be16 (segment pkt).length

/-- Both checksums of a packet are right. -/
structure Checked (pkt : List Byte) : Prop where
  ip : Checksum.Valid (ipHeader pkt)
  tcp : Checksum.Valid (pseudoHeader pkt ++ segment pkt)

theorem length_ip_bytes (h : Iphdr) : h.bytes.length = 20 := rfl

theorem length_tcp_bytes (h : Tcphdr) : h.bytes.length = 20 := rfl

theorem wordSum_ntohs (c : BitVec 16) : wordSum (le16 (ntohs c)) = c.toNat := by
  rw [le16_ntohs, ← bytes_toNat c]
  rfl

theorem wordSum_ip (h : Iphdr) (c : BitVec 16) : wordSum { h with check := ntohs c }.bytes =
    wordSum { h with check := 0 }.bytes + c.toNat := by
  have hsplit : ∀ check, wordSum { h with check }.bytes = wordSum ([h.version ++ h.ihl, h.tos] ++
      le16 h.totLen ++ le16 h.id ++ le16 h.fragOff ++ [h.ttl, h.protocol]) + wordSum (le16 check) +
      wordSum (le32 h.saddr ++ le32 h.daddr) := fun check => by
    rw [← Checksum.wordSum_append ⟨5, rfl⟩, ← Checksum.wordSum_append ⟨6, rfl⟩]
    rfl
  rw [hsplit, hsplit, wordSum_ntohs]
  exact Nat.add_right_comm _ _ _

theorem wordSum_tcp (h : Tcphdr) (c : BitVec 16) : wordSum { h with thSum := ntohs c }.bytes =
    wordSum { h with thSum := 0 }.bytes + c.toNat := by
  have hsplit : ∀ thSum, wordSum { h with thSum }.bytes = wordSum (le16 h.thSport ++ le16 h.thDport ++
      le32 h.thSeq ++ le32 h.thAck ++ [h.thOff ++ h.thX2, h.thFlags] ++ le16 h.thWin) +
      wordSum (le16 thSum) + wordSum (le16 h.thUrp) := fun thSum => by
    rw [← Checksum.wordSum_append ⟨8, rfl⟩, ← Checksum.wordSum_append ⟨9, rfl⟩]
    rfl
  rw [hsplit, hsplit, wordSum_ntohs]
  exact Nat.add_right_comm _ _ _

/-! ### `tcp_csum` -/

/-- A byte that is widened with its sign counts `0x10000` too little when its sign is set. -/
theorem signed_byte (b : Byte) : (b.signExtend 32 <<< 8).toNat =
    if 128 ≤ b.toNat then 256 * b.toNat + (2 ^ 32 - 65536) else 256 * b.toNat := by
  have hb := b.isLt
  rw [BitVec.toNat_shiftLeft, BitVec.toNat_signExtend, BitVec.msb_eq_decide, BitVec.toNat_setWidth,
    Nat.shiftLeft_eq]
  simp only [decide_eq_true_eq]
  split <;> omega

/-- A number that was stored in network order is read back. -/
theorem load16_ntohs {i : ℕ} {x : BitVec 16} (h : [mem i, mem (i + 1)] = le16 (ntohs x)) :
    (ntohs (load16 mem i)).toNat = x.toNat := by
  rw [le16_ntohs] at h
  simp only [List.cons.injEq, and_true] at h
  rw [load16, ntohs_toNat, h.1, h.2, bytes_toNat]

theorem wordSum_le32 {i : ℕ} {x : BitVec 32}
    (h : [mem i, mem (i + 1), mem (i + 2), mem (i + 3)] = le32 x) :
    (ntohs (load16 mem i)).toNat + (ntohs (load16 mem (i + 2))).toNat = wordSum (le32 x) := by
  rw [← h, load16, load16, ntohs_toNat, ntohs_toNat]
  rfl

/-- What `tcp_csum` adds up, for the sum `s` of the segment `seg` and its pseudo header. -/
def signedSum (seg : List Byte) (s : ℕ) : ℕ :=
  if seg.length % 2 = 1 ∧ 128 ≤ (seg.getD (seg.length - 1) 0).toNat then
    (s + (2 ^ 32 - 65536)) % 2 ^ 32
  else s

/-- The sum of a segment with its pseudo header. -/
def pseudoSum (src dst : BitVec 32) (seg : List Byte) : ℕ :=
  wordSum (le32 src ++ le32 dst ++ [0, 6] ++ be16 seg.length ++ seg)

theorem pseudoSum_eq (src dst : BitVec 32) {seg : List Byte} (h : seg.length < 65536) :
    pseudoSum src dst seg =
      wordSum (le32 src) + wordSum (le32 dst) + 6 + seg.length + wordSum seg := by
  have hlen : wordSum (be16 seg.length) = seg.length := by
    simp only [be16, wordSum, words, BitVec.toNat_ofNat, List.sum_cons, List.sum_nil]
    omega
  rw [pseudoSum, Checksum.wordSum_append ⟨6, rfl⟩, Checksum.wordSum_append ⟨5, rfl⟩,
    Checksum.wordSum_append ⟨4, rfl⟩, Checksum.wordSum_append ⟨2, rfl⟩, hlen]
  rfl

theorem pseudo_toNat (a b c d : BitVec 16) {n : ℕ} (hn : n ≤ 1480) :
    (0 + (a.setWidth 32 + b.setWidth 32) + (c.setWidth 32 + d.setWidth 32) + 0x06 +
      BitVec.ofNat 32 n : BitVec 32).toNat = a.toNat + b.toNat + (c.toNat + d.toNat) + 6 + n := by
  have ha := a.isLt
  have hb := b.isLt
  have hc := c.isLt
  have hd := d.isLt
  have h0 : (0 : BitVec 32).toNat = 0 := rfl
  have h6 : (0x06 : BitVec 32).toNat = 6 := rfl
  simp only [BitVec.toNat_add, BitVec.toNat_setWidth, BitVec.toNat_ofNat, h0, h6]
  omega

theorem tcpCsum_toNat {seg : List Byte} {beyond : ℕ → Byte} {src dst : BitVec 32}
    (htot : (ntohs (load16 mem 2)).toNat = 20 + seg.length) (hihl : ihlAt mem = 5)
    (hsrc : [mem 12, mem 13, mem 14, mem 15] = le32 src)
    (hdst : [mem 16, mem 17, mem 18, mem 19] = le32 dst)
    (hsum : mem 36 = 0 ∧ mem 37 = 0) (hseg : ∀ i, mem (20 + i) = written seg beyond i)
    (hlen : seg.length ≤ 1480) :
    (tcpCsum mem).toNat = complement (signedSum seg (pseudoSum src dst seg)) := by
  have hstore : store16 mem (4 * 5 + 16) 0 = mem := by
    funext j
    rw [store16]
    split
    · subst j; exact hsum.1.symm
    · split
      · subst j; exact hsum.2.symm
      · rfl
  have htake := Checksum.wordSum_take seg
  have hsrc' := wordSum_le32 hsrc
  have hdst' := wordSum_le32 hdst
  have hw := Checksum.wordSum_le seg
  have hw1 := Checksum.wordSum_le (le32 src)
  have hw2 := Checksum.wordSum_le (le32 dst)
  have hl : ∀ x, (le32 x).length = 4 := fun _ => rfl
  have hfun : (fun i => mem (4 * 5 + i)) = written seg beyond := funext hseg
  rw [hl] at hw1 hw2
  simp only [tcpCsum, htot, hihl, hstore, Nat.add_sub_cancel_left, hfun, csum_toNat]
  rw [addWords_toNat (by omega), pseudoSum_eq _ _ (by omega), signedSum]
  congr 1
  by_cases hodd : seg.length % 2 = 1
  · have hlast : mem (4 * 5 + (seg.length - 1)) = seg.getD (seg.length - 1) 0 := by
      rw [hseg, written_of_lt (by omega), List.getD_eq_getElem _ _ (by omega)]
    rw [if_pos hodd] at htake ⊢
    rw [BitVec.toNat_add, pseudo_toNat _ _ _ _ hlen, signed_byte, hlast, htake, hsrc', hdst']
    rw [htake] at hw
    clear htot hsrc' hdst'
    by_cases hneg : 128 ≤ (seg.getD (seg.length - 1) 0).toNat
    · simp only [hodd, hneg, true_and, if_true]
      omega
    · simp only [hodd, hneg, true_and, if_false]
      omega
  · rw [if_neg hodd] at htake ⊢
    rw [if_neg (by simp [hodd]), pseudo_toNat _ _ _ _ hlen, hsrc', hdst', htake,
      Nat.mod_eq_of_lt (by omega)]
    rfl

/-! ### The packet -/

/-- The segment before its checksum is set. -/
def bareSegment (fl : Flow) (opts data : List Byte) : List Byte :=
  (tcpHdr fl data.length).bytes ++ opts ++ data

/-- The last byte of an odd payload has its sign set, and the sum is large enough to tell. -/
def SignError (fl : Flow) (opts data : List Byte) : Prop :=
  data.length % 2 = 1 ∧ 128 ≤ (data.getD (data.length - 1) 0).toNat ∧
    65536 ≤ pseudoSum fl.respH fl.origH (bareSegment fl opts data)

theorem length_bareSegment (fl : Flow) (opts data : List Byte) :
    (bareSegment fl opts data).length = 20 + opts.length + data.length := by
  rw [bareSegment, List.length_append, List.length_append, length_tcp_bytes]

variable {fl : Flow} {opts data : List Byte}

/-- The packet is its two headers with checksums, the options and the data. -/
theorem packet_spec (heap : ℕ → Byte) (hopts : 20 + opts.length = tcpLen fl) (hlen : totLen fl data.length ≤ 1500) :
    ∃ c t : BitVec 16, packet fl heap opts data =
      { ipHdr fl data.length with check := ntohs c }.bytes ++
        ({ tcpHdr fl data.length with thSum := ntohs t }.bytes ++ opts ++ data) ∧
      c.toNat = complement (wordSum (ipHdr fl data.length).bytes) ∧
      t.toNat = complement (signedSum (bareSegment fl opts data)
        (pseudoSum fl.respH fl.origH (bareSegment fl opts data))) := by
  refine ⟨_, _, by rw [← List.append_assoc, ← List.append_assoc]; rfl, ?_, ?_⟩
  · have hw := Checksum.wordSum_le (ipHdr fl data.length).bytes
    rw [length_ip_bytes] at hw
    rw [csum_toNat, addWords_toNat (by simp only [List.length_append, length_ip_bytes]; omega),
      List.append_assoc, List.append_assoc, List.take_append_of_le_length (Nat.le_refl 20),
      List.take_of_length_le (Nat.le_refl 20), Nat.mod_eq_of_lt]
    · exact congrArg complement (Nat.zero_add _)
    · have h0 : (0 : BitVec 32).toNat = 0 := rfl
      omega
  · have htot : totLen fl data.length = 20 + (bareSegment fl opts data).length := by
      rw [length_bareSegment, totLen]
      omega
    rw [List.append_assoc, List.append_assoc, ← List.append_assoc _ opts]
    apply tcpCsum_toNat
    · rw [load16_ntohs (x := BitVec.ofNat 16 (totLen fl data.length)) rfl, BitVec.toNat_ofNat]
      omega
    · exact (by decide : ((4 : BitVec 4) ++ (5 : BitVec 4)).toNat % 16 = 5)
    · rfl
    · rfl
    · exact (by decide : (0 : BitVec 16).setWidth 8 = (0 : Byte) ∧
        ((0 : BitVec 16) >>> 8).setWidth 8 = (0 : Byte))
    · exact fun i => written_drop i
    · omega

/-- The sum with its sign error differs from the right one, up to multiples of `0xFFFF`, exactly when
    the right one is larger than what the byte counts too little. -/
theorem dvd_signedSum_iff {seg : List Byte} {s : ℕ} (hs : s < 2 ^ 31) :
    65535 ∣ complement (signedSum seg s) + s ↔
      ¬(seg.length % 2 = 1 ∧ 128 ≤ (seg.getD (seg.length - 1) 0).toNat ∧ 65536 ≤ s) := by
  rw [signedSum]
  split
  next h =>
    simp only [h.1, h.2, true_and, not_le]
    by_cases hlt : s < 65536
    · have hmod : (s + (2 ^ 32 - 65536)) % 2 ^ 32 = s + 65535 * 65536 := by omega
      obtain ⟨k, hk⟩ := Checksum.dvd_complement_add (s := s + 65535 * 65536) (by omega)
      rw [hmod, iff_true_right hlt]
      exact ⟨k - 65536, by omega⟩
    · obtain ⟨k, hk⟩ := Checksum.dvd_complement_add (s := s - 65536) (by omega)
      have hmod : (s + (2 ^ 32 - 65536)) % 2 ^ 32 = s - 65536 := by omega
      rw [hmod, iff_false_right hlt]
      rintro ⟨m, hm⟩
      omega
  next h =>
    have hd := Checksum.dvd_complement_add (s := s) (by omega)
    simp only [hd, true_iff]
    exact fun hn => h ⟨hn.1, hn.2.1⟩

section Parts

variable {h : Iphdr} {seg : List Byte}

theorem ihl_bytes : ihl (h.bytes ++ seg) = h.ihl.toNat := by
  have hi := h.ihl.isLt
  have hb : (h.version ++ h.ihl).toNat = 16 * h.version.toNat + h.ihl.toNat := by
    rw [BitVec.toNat_append, ← Nat.shiftLeft_add_eq_or_of_lt hi, Nat.shiftLeft_eq]
    omega
  have hfirst : ihl (h.bytes ++ seg) = (h.version ++ h.ihl).toNat % 16 := rfl
  rw [hfirst, hb]
  omega

theorem ipHeader_bytes (h5 : h.ihl = 5) : ipHeader (h.bytes ++ seg) = h.bytes := by
  rw [ipHeader, ihl_bytes, h5]
  exact List.take_left' (length_ip_bytes h)

theorem segment_bytes (h5 : h.ihl = 5) : segment (h.bytes ++ seg) = seg := by
  rw [segment, ihl_bytes, h5]
  exact List.drop_left' (length_ip_bytes h)

theorem pseudoHeader_bytes (h5 : h.ihl = 5) : pseudoHeader (h.bytes ++ seg) =
    le32 h.saddr ++ le32 h.daddr ++ [0, h.protocol] ++ be16 seg.length := by
  rw [pseudoHeader, segment_bytes h5]
  rfl

end Parts

/-- The IP checksum is always right. -/
theorem ip_valid {c : BitVec 16} (hc : c.toNat = complement (wordSum (ipHdr fl data.length).bytes)) :
    Checksum.Valid { ipHdr fl data.length with check := ntohs c }.bytes := by
  have hw := Checksum.wordSum_le (ipHdr fl data.length).bytes
  have hpos : 0 < wordSum (ipHdr fl data.length).bytes :=
    Checksum.wordSum_pos (by decide : (4 : BitVec 4) ++ (5 : BitVec 4) ≠ (0 : BitVec 8))
  have hd := Checksum.dvd_complement_add (s := wordSum (ipHdr fl data.length).bytes)
    (by rw [length_ip_bytes] at hw; omega)
  have hsum : wordSum { ipHdr fl data.length with check := ntohs c }.bytes =
      wordSum (ipHdr fl data.length).bytes + c.toNat := wordSum_ip _ c
  rw [Checksum.valid_iff, hsum, hc, Nat.add_comm]
  exact ⟨by omega, hd⟩

theorem tcpLen_cases (fl : Flow) : tcpLen fl = 20 ∨ tcpLen fl = 32 := by
  rw [tcpLen]
  split
  · exact .inr rfl
  · exact .inl rfl

theorem wordSum_segment (t : BitVec 16) :
    wordSum ({ tcpHdr fl data.length with thSum := ntohs t }.bytes ++ opts ++ data) =
      wordSum (bareSegment fl opts data) + t.toNat := by
  have hsum : wordSum { tcpHdr fl data.length with thSum := ntohs t }.bytes =
      wordSum (tcpHdr fl data.length).bytes + t.toNat := wordSum_tcp _ t
  have hsplit : ∀ h : Tcphdr, wordSum (h.bytes ++ opts ++ data) =
      wordSum h.bytes + wordSum (opts ++ data) := fun h => by
    rw [List.append_assoc, Checksum.wordSum_append ⟨10, rfl⟩]
  rw [bareSegment, hsplit, hsplit, hsum]
  omega

/-- The last byte of the segment is that of the data. -/
theorem getD_bareSegment (h : 0 < data.length) :
    (bareSegment fl opts data).getD ((bareSegment fl opts data).length - 1) 0 =
      data.getD (data.length - 1) 0 := by
  have hl : ((tcpHdr fl data.length).bytes ++ opts).length = 20 + opts.length := by
    rw [List.length_append, length_tcp_bytes]
  rw [length_bareSegment, bareSegment, List.getD_append_right _ _ _ _ (by omega), hl]
  congr 1
  omega

/-- A packet is right unless the sign of its last byte makes it wrong. -/
theorem packet_checked_iff (heap : ℕ → Byte) (hopts : 20 + opts.length = tcpLen fl)
    (hlen : totLen fl data.length ≤ 1500) :
    Checked (packet fl heap opts data) ↔ ¬SignError fl opts data := by
  obtain ⟨c, t, hpkt, hc, ht⟩ := packet_spec heap hopts hlen
  have hseg := length_bareSegment fl opts data
  have hbound : 20 + opts.length + data.length ≤ 1480 := by
    rw [totLen] at hlen
    omega
  have hP : pseudoSum fl.respH fl.origH (bareSegment fl opts data) = _ :=
    pseudoSum_eq _ _ (by omega)
  have htcp : wordSum (pseudoHeader (packet fl heap opts data) ++ segment (packet fl heap opts data)) =
      pseudoSum fl.respH fl.origH (bareSegment fl opts data) + t.toNat := by
    rw [hpkt, pseudoHeader_bytes rfl, segment_bytes rfl]
    refine (pseudoSum_eq fl.respH fl.origH ?_).trans ?_
    · rw [List.length_append, List.length_append, length_tcp_bytes]
      omega
    · rw [wordSum_segment, hP, List.length_append, List.length_append, length_tcp_bytes, hseg]
      omega
  have hparity : (bareSegment fl opts data).length % 2 = data.length % 2 := by
    rcases tcpLen_cases fl with h | h <;> omega
  have hw := Checksum.wordSum_le (bareSegment fl opts data)
  have hw1 := Checksum.wordSum_le (le32 fl.respH)
  have hw2 := Checksum.wordSum_le (le32 fl.origH)
  have hl : ∀ x, (le32 x).length = 4 := fun _ => rfl
  rw [hl] at hw1 hw2
  have hvalid : Checksum.Valid (pseudoHeader (packet fl heap opts data) ++
      segment (packet fl heap opts data)) ↔ ¬SignError fl opts data := by
    rw [Checksum.valid_iff, htcp, ht, Nat.add_comm, dvd_signedSum_iff (by omega), hparity, SignError,
      and_iff_right (by omega)]
    exact not_congr (and_congr_right fun hodd => by rw [getD_bareSegment (by omega)])
  constructor
  · exact fun h => hvalid.mp h.tcp
  · intro h
    refine ⟨?_, hvalid.mpr h⟩
    rw [hpkt, ipHeader_bytes rfl]
    exact ip_valid hc

end Telex.Tcp
