import Telex.Binpac.FlowBuffer

/-! A flow is a queue

    Between two deliveries a flow holds the bytes of a unit that is not complete. Wherever these bytes
    lie, in the buffer, in the segment or cut between both, no assertion fails, each loop ends, and the
    units that are parsed are the records of the queue of bytes. -/

namespace Telex.Binpac
open Bro (Byte)
open Framing (Format)

/-! ### The buffer -/

/-- The buffer holds the bytes `q` and has marked the frame of the first `n`, in place or copied; as
    long as there are fewer than `n`, all are copied. -/
structure Marked (n : ℕ) (q : List Byte) (b : FlowBuffer) : Prop where
  content : b.buffer ++ b.orig = q
  frameLength : b.frameLength = n
  mode : b.mode = .frame
  pending : b.havePendingRequest = true
  complete : b.messageComplete = decide (n ≤ q.length)
  buffered : b.buffer = q.take n ∨ b.buffer = [] ∧ n ≤ q.length

variable {n m : ℕ} {q : List Byte} {b : FlowBuffer}

theorem appendToBuffer_all (b : FlowBuffer) :
    b.appendToBuffer b.orig.length = some { b with buffer := b.buffer ++ b.orig, orig := [] } := by
  rw [FlowBuffer.appendToBuffer]
  rcases horig : b.orig with _ | ⟨x, l⟩
  · cases b
    simp_all
  · rw [if_neg (by simp), if_pos (Int.le_refl _)]
    simp

theorem markOrCopyFrame_marked (hl : b.frameLength = n) (hm : b.mode = .frame)
    (hp : b.havePendingRequest = true) (hb : b.buffer.length ≤ n) :
    ∃ b', b.markOrCopyFrame = some b' ∧ Marked n (b.buffer ++ b.orig) b' := by
  have h0 : (0 : ℤ) ≤ b.frameLength := hl ▸ Int.natCast_nonneg n
  by_cases hnil : b.buffer = []
  · by_cases hn : n ≤ b.orig.length
    · refine ⟨{ b with messageComplete := true }, ?_, ?_, hl, hm, hp, ?_, ?_⟩
      · rw [FlowBuffer.markOrCopyFrame, if_pos hnil, if_pos ⟨h0, by omega⟩]
      · rfl
      · simp [hnil, hn]
      · exact .inr ⟨hnil, by simp [hnil, hn]⟩
    · refine ⟨{ b with buffer := b.buffer ++ b.orig, orig := [], messageComplete := false }, ?_, ?_, hl,
        hm, hp, ?_, ?_⟩
      · rw [FlowBuffer.markOrCopyFrame, if_pos hnil, if_neg (by omega), appendToBuffer_all]
        rfl
      · simp
      · simp [hnil, hn]
      · refine .inl (List.take_of_length_le ?_).symm
        simp [hnil]
        omega
  · by_cases hn : n ≤ b.buffer.length + b.orig.length
    · have hk : ((n : ℤ) - b.buffer.length).toNat = n - b.buffer.length := by omega
      refine ⟨{ b with buffer := b.buffer ++ b.orig.take (n - b.buffer.length)
                       orig := b.orig.drop (n - b.buffer.length), messageComplete := true },
        ?_, ?_, hl, hm, hp, ?_, ?_⟩
      · rw [FlowBuffer.markOrCopyFrame, if_neg hnil, if_pos ⟨h0, by omega⟩, FlowBuffer.appendToBuffer, hl]
        split_ifs with h1 h2
        · have hz : n - b.buffer.length = 0 := by omega
          simp [hz]
        · rw [hk]
        · exact absurd (show (n : ℤ) - b.buffer.length ≤ b.orig.length by omega) h2
      · simp
      · simp [hn]
      · refine .inl ?_
        rw [List.take_append, List.take_of_length_le hb]
    · refine ⟨{ b with buffer := b.buffer ++ b.orig, orig := [], messageComplete := false }, ?_, ?_, hl,
        hm, hp, ?_, ?_⟩
      · rw [FlowBuffer.markOrCopyFrame, if_neg hnil, if_neg (by omega)]
        exact appendToBuffer_all { b with messageComplete := false }
      · simp
      · simp only [List.length_append, hn, decide_false]
      · refine .inl (List.take_of_length_le ?_).symm
        rw [List.length_append]
        omega

namespace Marked

theorem ready_iff (h : Marked n q b) : b.ready = true ↔ n ≤ q.length := by
  simp [FlowBuffer.ready, h.complete, h.mode]

theorem not_ready (h : Marked n q b) (hn : ¬n ≤ q.length) : b.ready = false := by
  rw [Bool.eq_false_iff, Ne, h.ready_iff]
  exact hn

theorem buffer_length (h : Marked n q b) : b.buffer.length ≤ n := by
  rcases h.buffered with hb | ⟨hb, -⟩
  · rw [hb]
    exact List.length_take_le n q
  · simp [hb]

theorem frame (h : Marked n q b) (hn : n ≤ q.length) : b.frame = some (q.take n) := by
  have hl := h.frameLength
  rw [FlowBuffer.frame, if_pos (h.ready_iff.mpr hn)]
  by_cases hnil : b.buffer = []
  · have hq : b.orig = q := by simpa [hnil] using h.content
    rw [if_pos hnil, if_pos ⟨by omega, by rw [hq]; omega⟩, hq, hl, Int.toNat_natCast]
  · rw [if_neg hnil]
    rcases h.buffered with hb | ⟨hb, -⟩
    · rw [hb]
    · exact absurd hb hnil

theorem length_eq_held (h : Marked n q b) : q.length = b.held := by
  rw [← h.content, List.length_append, FlowBuffer.held]

/-- While the frame is not complete, nothing is left in the segment. -/
theorem waiting (h : Marked n q b) (hn : ¬n ≤ q.length) : b.buffer = q ∧ b.orig = [] := by
  rcases h.buffered with hb | ⟨-, hle⟩
  · have hq : b.buffer = q := by rw [hb, List.take_of_length_le (by omega)]
    have hc := h.content
    rw [hq] at hc
    exact ⟨hq, List.append_right_eq_self.mp hc⟩
  · exact absurd hle hn

theorem available (h : Marked n q b) (hn : n ≤ q.length) (h0 : 0 < n) : b.dataAvailable = true := by
  have hq : b.buffer ++ b.orig ≠ [] := by
    rw [h.content]
    intro hq
    simp [hq] at hn
    omega
  by_contra hf
  simp [FlowBuffer.dataAvailable] at hf
  exact hq (by simp [hf])

/-- A new frame begins behind the frame that was marked. -/
theorem newFrame (h : Marked n q b) (hn : n ≤ q.length) (m : ℕ) :
    ∃ b', b.newFrame m = some b' ∧ Marked m (q.drop n) b' := by
  have hl := h.frameLength
  have hmsg : b.newMessage =
      some { b with orig := q.drop n, buffer := [], messageComplete := false } := by
    rw [FlowBuffer.newMessage, FlowBuffer.bytesToAdvance, h.mode]
    by_cases hnil : b.buffer = []
    · have hq : b.orig = q := by simpa [hnil] using h.content
      rw [if_pos hnil, hl, hq, if_pos ⟨by omega, by simpa using hn⟩, Int.toNat_natCast]
    · have hb : b.buffer = q.take n := by
        rcases h.buffered with hb | ⟨hb, -⟩
        · exact hb
        · exact absurd hb hnil
      have ho : b.orig = q.drop n := by
        have hc : q.take n ++ b.orig = q.take n ++ q.drop n := by
          rw [List.take_append_drop, ← hb, h.content]
        exact List.append_cancel_left hc
      rw [if_neg hnil, if_pos ⟨by omega, by omega⟩, ho]
      rfl
  obtain ⟨b', hb', hm'⟩ := markOrCopyFrame_marked (n := m)
    (b := { b with orig := q.drop n, buffer := [], messageComplete := false, mode := .frame
                   frameLength := m, havePendingRequest := true }) rfl rfl rfl (Nat.zero_le _)
  exact ⟨b', by rw [FlowBuffer.newFrame, hmsg]; exact hb', hm'⟩

theorem growFrame (h : Marked n q b) (length : ℤ) :
    ∃ b', b.growFrame length = some b' ∧ Marked (max n length.toNat) q b' := by
  have hl := h.frameLength
  rw [FlowBuffer.growFrame, if_pos (by omega)]
  by_cases hle : length ≤ n
  · have hmax : max n length.toNat = n := by omega
    rw [hmax]
    exact ⟨b, by rw [if_pos (by omega)], h⟩
  · have hmax : max n length.toNat = length.toNat := by omega
    have hb := h.buffer_length
    obtain ⟨b', hb', hm'⟩ := markOrCopyFrame_marked (n := length.toNat)
      (b := { b with mode := .frame, frameLength := length }) (by simp; omega) rfl h.pending
      (by simp; omega)
    rw [if_neg (by omega), hmax]
    exact ⟨b', hb', h.content ▸ hm'⟩

/-- A segment arrives while the frame is not complete. -/
theorem newData (h : Marked n q b) (hn : ¬n ≤ q.length) (c : List Byte) :
    ∃ b', b.newData c = some b' ∧ Marked n (q ++ c) b' := by
  obtain ⟨hq, ho⟩ := h.waiting hn
  obtain ⟨b', hb', hm'⟩ := markOrCopyFrame_marked (n := n) (b := { b with orig := c }) h.frameLength
    h.mode h.pending h.buffer_length
  refine ⟨b', ?_, by simpa [hq] using hm'⟩
  have hc : b.messageComplete = false := by simpa [hn] using h.complete
  simpa [FlowBuffer.newData, FlowBuffer.clearPreviousData, FlowBuffer.markOrCopy, ho, hc, h.mode] using hb'

theorem newGap (h : Marked n q b) (hn : ¬n ≤ q.length) : ∃ b', b.newGap = some b' ∧ Marked n q b' := by
  obtain ⟨-, ho⟩ := h.waiting hn
  obtain ⟨b', hb', hm'⟩ := h.newData hn []
  refine ⟨b', ?_, by simpa using hm'⟩
  -- nothing is left in the segment, so a gap is an empty segment
  simpa [FlowBuffer.newGap, FlowBuffer.newData, FlowBuffer.clearPreviousData, ho] using hb'

theorem setEof (h : Marked n q b) : b.setEof = b := by
  have hl := h.frameLength
  rw [FlowBuffer.setEof, if_neg (by omega)]

end Marked

/-! ### The loops -/

variable {σ : Type} {U : UnitType σ} {u : BufferingState} {s : σ}

namespace UnitType

variable (U : UnitType σ)

/-- A frame never shrinks below the header, whatever length the header gives. -/
def format : Format Byte where
  header := U.initialBufferLength
  size h := max U.initialBufferLength (U.length h).toNat
  pos := U.pos
  header_le _ := le_max_left ..

/-- Parses a whole unit; what is left of the queue stays unless it was discarded or an exception
    ended the flow's loop. -/
def step (s : σ) (r : List Byte) : σ × Bool := ((U.parse s r).1, (U.parse s r).2 = .done)

end UnitType

/-- How the calls of `ParseBuffer` end on the bytes `q`. -/
inductive Ends (U : UnitType σ) (q : List Byte) (s : σ) : Call σ → Prop
  | header {b : FlowBuffer} : Marked U.initialBufferLength q b → q.length < U.initialBufferLength →
      Ends U q s ⟨.header, b, s, .incomplete⟩
  | frame {b : FlowBuffer} : Marked (U.format.first q) q b → U.initialBufferLength ≤ q.length →
      ¬U.format.Full q → Ends U q s ⟨.frame, b, s, .incomplete⟩
  | done {b : FlowBuffer} : Marked (U.format.first q) q b → U.format.Full q →
      (U.parse s (q.take (U.format.first q))).2 = .done →
      Ends U q s ⟨.start, b, (U.parse s (q.take (U.format.first q))).1, .complete⟩
  | discarded : U.format.Full q →
      (U.parse s (q.take (U.format.first q))).2 = .discarded →
      Ends U q s ⟨.start, .init, (U.parse s (q.take (U.format.first q))).1, .complete⟩
  | thrown {b : FlowBuffer} : U.format.Full q →
      (U.parse s (q.take (U.format.first q))).2 = .thrown →
      Ends U q s ⟨.frame, b, (U.parse s (q.take (U.format.first q))).1, .thrown⟩

theorem bufferingLoop_of_not_ready (h : b.ready = false) (rounds : ℕ) :
    bufferingLoop U (rounds + 1) u b s = some ⟨u, b, s, .incomplete⟩ := by
  rw [bufferingLoop, h]
  rfl

theorem bufferingLoop_frame (h : Marked (U.format.first q) q b)
    (hq : U.initialBufferLength ≤ q.length) (rounds : ℕ) :
    ∃ c, bufferingLoop U (rounds + 1) .frame b s = some c ∧ Ends U q s c := by
  by_cases hf : U.format.Full q
  · rw [bufferingLoop, if_pos (h.ready_iff.mpr hf), parseBuffer, h.frame hf]
    rcases hp : (U.parse s (q.take (U.format.first q))).2 with _ | _ | _
    · exact ⟨_, by simp [hp], .done h hf hp⟩
    · exact ⟨_, by simp [hp, FlowBuffer.discardData, FlowBuffer.init], .discarded hf hp⟩
    · exact ⟨_, by simp [hp], .thrown (b := b) hf hp⟩
  · exact ⟨_, bufferingLoop_of_not_ready (h.not_ready hf) rounds, .frame h hq hf⟩

theorem bufferingLoop_header (h : Marked U.initialBufferLength q b) (rounds : ℕ) :
    ∃ c, bufferingLoop U (rounds + 2) .header b s = some c ∧ Ends U q s c := by
  by_cases hq : U.initialBufferLength ≤ q.length
  · obtain ⟨b', hb', hm'⟩ := h.growFrame (U.length (q.take U.initialBufferLength))
    obtain ⟨c, hc, he⟩ := bufferingLoop_frame (s := s) hm' hq rounds
    refine ⟨c, ?_, he⟩
    rw [bufferingLoop, if_pos (h.ready_iff.mpr hq), parseBuffer, h.frame hq]
    simpa [hb'] using hc
  · exact ⟨_, bufferingLoop_of_not_ready (h.not_ready hq) (rounds + 1), .header h (by omega)⟩

theorem bufferingLoop_start (h : Marked 0 q b) :
    ∃ c, bufferingLoop U 3 .start b s = some c ∧ Ends U q s c := by
  obtain ⟨b', hb', hm'⟩ := h.newFrame (Nat.zero_le _) U.initialBufferLength
  obtain ⟨c, hc, he⟩ := bufferingLoop_header (s := s) hm' 0
  refine ⟨c, ?_, he⟩
  rw [bufferingLoop, if_pos (h.ready_iff.mpr (Nat.zero_le _)), parseBuffer, h.frame (Nat.zero_le _)]
  simpa [hb'] using hc

/-! ### The flow -/

/-- A flow between two deliveries, with the bytes it has not handed on. -/
inductive Rest (U : UnitType σ) : Flow σ → σ × List Byte → Prop
  | idle {s : σ} : Rest U ⟨.init, none, s⟩ (s, [])
  | header {b : FlowBuffer} {q : List Byte} {s : σ} : Marked U.initialBufferLength q b →
      q.length < U.initialBufferLength → Rest U ⟨b, some .header, s⟩ (s, q)
  | frame {b : FlowBuffer} {q : List Byte} {s : σ} : Marked (U.format.first q) q b →
      U.initialBufferLength ≤ q.length → ¬U.format.Full q → Rest U ⟨b, some .frame, s⟩ (s, q)

/-- A flow before a round of its loop, with the bytes that no complete unit holds. -/
inductive Round (U : UnitType σ) : Flow σ → List Byte → Prop
  | fresh {q : List Byte} {s : σ} : Round U ⟨{ FlowBuffer.init with orig := q }, none, s⟩ q
  | behind {b : FlowBuffer} {n : ℕ} {q : List Byte} {s : σ} : Marked n q b → n ≤ q.length → 0 < n →
      Round U ⟨b, none, s⟩ (q.drop n)
  | header {b : FlowBuffer} {q : List Byte} {s : σ} : Marked U.initialBufferLength q b →
      Round U ⟨b, some .header, s⟩ q
  | frame {b : FlowBuffer} {q : List Byte} {s : σ} : Marked (U.format.first q) q b →
      U.initialBufferLength ≤ q.length → Round U ⟨b, some .frame, s⟩ q

variable {fl : Flow σ}

theorem Round.stops (h : Round U fl q) (hn : fl.flowBuffer.again = false) :
    ¬U.format.Full q ∧ Rest U fl (fl.analyzer, q) := by
  cases h with
  | fresh =>
    have hq : q = [] := by simpa [FlowBuffer.again, FlowBuffer.dataAvailable, FlowBuffer.init] using hn
    subst hq
    exact ⟨Format.not_full_of_length U.pos, .idle⟩
  | behind hm hle h0 => simp [FlowBuffer.again, hm.available hle h0, hm.ready_iff.mpr hle] at hn
  | header hm =>
    have hlt : q.length < U.initialBufferLength := by
      by_contra hge
      rw [not_lt] at hge
      simp [FlowBuffer.again, hm.available hge U.pos, hm.ready_iff.mpr hge] at hn
    exact ⟨Format.not_full_of_length hlt, .header hm hlt⟩
  | frame hm hq =>
    have hf : ¬U.format.Full q := by
      intro hf
      simp [FlowBuffer.again, hm.available hf Format.pos_first, hm.ready_iff.mpr hf] at hn
    exact ⟨hf, .frame hm hq hf⟩

theorem Round.parses (h : Round U fl q) :
    ∃ p c, newDataUnit fl.dataunit fl.flowBuffer = some p ∧
      bufferingLoop U 3 p.1 p.2 fl.analyzer = some c ∧ Ends U q fl.analyzer c := by
  cases h with
  | @fresh q s =>
    obtain ⟨b, hb, hm⟩ := markOrCopyFrame_marked (n := 0)
      (b := { FlowBuffer.init with orig := q, mode := .frame, havePendingRequest := true }) rfl rfl rfl
      (Nat.zero_le _)
    obtain ⟨c, hc, he⟩ := bufferingLoop_start (s := s) hm
    refine ⟨(.start, b), c, ?_, hc, he⟩
    have hf : { FlowBuffer.init with orig := q }.newFrame 0 = some b := by
      simpa [FlowBuffer.newFrame, FlowBuffer.newMessage, FlowBuffer.bytesToAdvance,
        FlowBuffer.init] using hb
    rw [newDataUnit, hf]
    rfl
  | @behind b n q s hm hle h0 =>
    obtain ⟨b', hb', hm'⟩ := hm.newFrame hle 0
    obtain ⟨c, hc, he⟩ := bufferingLoop_start (s := s) hm'
    refine ⟨(.start, b'), c, ?_, hc, he⟩
    have hf : b.newFrame 0 = some b' := hb'
    rw [newDataUnit, hf]
    rfl
  | @header b q s hm =>
    obtain ⟨c, hc, he⟩ := bufferingLoop_header (s := s) hm 1
    exact ⟨(.header, b), c, rfl, hc, he⟩
  | @frame b q s hm hq =>
    obtain ⟨c, hc, he⟩ := bufferingLoop_frame (s := s) hm hq 2
    exact ⟨(.frame, b), c, rfl, hc, he⟩

theorem drain_done (h : U.format.Full q) (hd : (U.parse s (q.take (U.format.first q))).2 = .done) :
    U.format.drain U.step s q = U.format.drain U.step (U.parse s (q.take (U.format.first q))).1
      (q.drop (U.format.first q)) := by
  rw [Format.drain, if_pos h, UnitType.step, if_pos (decide_eq_true hd)]

theorem drain_ended (h : U.format.Full q) (hd : (U.parse s (q.take (U.format.first q))).2 ≠ .done) :
    U.format.drain U.step s q = ((U.parse s (q.take (U.format.first q))).1, []) := by
  rw [Format.drain, if_pos h, UnitType.step, if_neg (by simpa using hd)]

/-- The loop ends, no assertion fails in it, and it hands on the records of the queue. -/
theorem flowLoop_drain {rounds : ℕ} (h : Round U fl q) (hq : q.length < rounds) :
    ∃ fl', flowLoop U rounds fl = some fl' ∧ Rest U fl' (U.format.drain U.step fl.analyzer q) := by
  induction rounds generalizing fl q with
  | zero => exact absurd hq (Nat.not_lt_zero _)
  | succ rounds ih =>
    rw [flowLoop]
    by_cases hagain : fl.flowBuffer.again = true
    · obtain ⟨p, c, hp, hc, he⟩ := h.parses
      rw [if_pos hagain, hp, Option.bind_eq_bind, Option.bind_some, hc, Option.bind_eq_bind,
        Option.bind_some]
      cases he with
      | header hm hlt =>
        rw [Format.drain_of_not_full (Format.not_full_of_length hlt)]
        exact ⟨_, by simp [hm.not_ready (by omega)], .header hm hlt⟩
      | frame hm hle hf =>
        rw [Format.drain_of_not_full hf]
        exact ⟨_, by simp [hm.not_ready hf], .frame hm hle hf⟩
      | done hm hf hd =>
        rw [drain_done hf hd]
        have hlt := hf.length_drop_lt
        exact ih (.behind hm hf Format.pos_first) (by omega)
      | discarded hf hd =>
        -- the data are gone, so the next round is the last
        obtain ⟨rounds, rfl⟩ : ∃ n, rounds = n + 1 := by
          have hlt := hf.length_drop_lt
          exact ⟨rounds - 1, by omega⟩
        rw [drain_ended hf (by simp [hd])]
        exact ⟨_, rfl, .idle⟩
      | thrown hf hd =>
        rw [drain_ended hf (by simp [hd])]
        exact ⟨_, rfl, .idle⟩
    · have hstop : fl.flowBuffer.again = false := by simpa using hagain
      obtain ⟨hf, hr⟩ := h.stops hstop
      rw [if_neg hagain, Format.drain_of_not_full hf]
      exact ⟨fl, rfl, hr⟩

theorem Rest.newData {w : σ × List Byte} (h : Rest U fl w) (c : List Byte) :
    ∃ b, fl.flowBuffer.newData c = some b ∧ Round U { fl with flowBuffer := b } (w.2 ++ c) ∧
      (w.2 ++ c).length = b.held := by
  cases h with
  | idle =>
    refine ⟨{ FlowBuffer.init with orig := c }, rfl, .fresh, ?_⟩
    simp [FlowBuffer.held, FlowBuffer.init]
  | header hm hlt =>
    obtain ⟨b', hb', hm'⟩ := hm.newData (by omega) c
    exact ⟨b', hb', .header hm', hm'.length_eq_held⟩
  | frame hm hq hf =>
    obtain ⟨b', hb', hm'⟩ := hm.newData hf c
    have hfirst := Format.first_append (f := U.format) hq c
    exact ⟨b', hb', .frame (hfirst ▸ hm') (by simp; omega), hm'.length_eq_held⟩

theorem Rest.analyzer {w : σ × List Byte} (h : Rest U fl w) : fl.analyzer = w.1 := by
  cases h <;> rfl

/-- A flow at rest takes a segment as the queue does. -/
theorem Rest.newData_flowLoop {w : σ × List Byte} (h : Rest U fl w) (c : List Byte) :
    ∃ b fl', fl.flowBuffer.newData c = some b ∧
      flowLoop U (b.held + 1) { fl with flowBuffer := b } = some fl' ∧
      Rest U fl' (U.format.drain U.step w.1 (w.2 ++ c)) := by
  obtain ⟨b, hb, hr, hlen⟩ := h.newData c
  obtain ⟨fl', hfl', hrest⟩ := flowLoop_drain hr (Nat.lt_succ_of_le (Nat.le_of_eq hlen))
  exact ⟨b, fl', hb, hfl', h.analyzer ▸ hrest⟩

theorem Rest.not_full {w : σ × List Byte} (h : Rest U fl w) : ¬U.format.Full w.2 := by
  cases h with
  | idle => exact Format.not_full_of_length U.pos
  | header hm hlt => exact Format.not_full_of_length hlt
  | frame hm hq hf => exact hf

/-- A flow at rest holds its bytes in the buffer. -/
theorem Rest.held {w : σ × List Byte} (h : Rest U fl w) :
    fl.flowBuffer.buffer = w.2 ∧ fl.flowBuffer.orig = [] := by
  cases h with
  | idle => exact ⟨rfl, rfl⟩
  | header hm hlt => exact hm.waiting (by omega)
  | frame hm hq hf => exact hm.waiting hf

/-- The bytes a flow holds do not depend on the state of the analyzer. -/
theorem Rest.of_analyzer {w : σ × List Byte} (h : Rest U fl w) (s : σ) :
    Rest U { fl with analyzer := s } (s, w.2) := by
  cases h with
  | idle => exact .idle
  | header hm hlt => exact .header hm hlt
  | frame hm hq hf => exact .frame hm hq hf

theorem Rest.setEof {w : σ × List Byte} (h : Rest U fl w) : fl.flowBuffer.setEof = fl.flowBuffer := by
  cases h with
  | idle => rfl
  | header hm hlt => exact hm.setEof
  | frame hm hq hf => exact hm.setEof

theorem Rest.newGap {w : σ × List Byte} (h : Rest U fl w) :
    ∃ b, fl.flowBuffer.newGap = some b ∧ Rest U { fl with flowBuffer := b } w := by
  cases h with
  | idle => exact ⟨.init, rfl, .idle⟩
  | header hm hlt =>
    obtain ⟨b', hb', hm'⟩ := hm.newGap (by omega)
    exact ⟨b', hb', .header hm' hlt⟩
  | frame hm hq hf =>
    obtain ⟨b', hb', hm'⟩ := hm.newGap hf
    exact ⟨b', hb', .frame hm' hq hf⟩

/-- Whatever is delivered, a flow at rest comes to rest again with what the queue holds then. A gap
    and the end of the flow change nothing: the bytes behind a gap follow those before it. -/
theorem Rest.receive {w : σ × List Byte} (h : Rest U fl w) (d : Delivery) :
    ∃ fl', fl.receive U d = some fl' ∧ Rest U fl' (U.format.drain U.step w.1 (w.2 ++ d.bytes)) := by
  cases d with
  | data c =>
    obtain ⟨b, fl', hb, hfl', hrest⟩ := h.newData_flowLoop c
    refine ⟨fl', ?_, hrest⟩
    rw [Flow.receive, hb]
    exact hfl'
  | gap =>
    obtain ⟨b, hb, hr⟩ := h.newGap
    refine ⟨{ fl with flowBuffer := b }, ?_, ?_⟩
    · rw [Flow.receive, hb]
      rfl
    · rw [Delivery.bytes, List.append_nil, Format.drain_of_not_full h.not_full]
      exact hr
  | eof =>
    obtain ⟨b, fl', hb, hfl', hrest⟩ := h.newData_flowLoop []
    refine ⟨fl', ?_, hrest⟩
    rw [Flow.receive, h.setEof, hb]
    exact hfl'

end Telex.Binpac
