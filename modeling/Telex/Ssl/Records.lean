import Mathlib.Algebra.Group.Nat.Defs
import Telex.Binpac.Queue

/-! The record layer: `ssl-record-layer.pac` and `next_record` of `ssl-protocol.pac`

    Each direction of a connection is a flow of records. Five bytes tell the version and with it the
    length. A record of version 3 is handed to the SSL analyzer as it is; of a record of version 2 the
    third byte is the type and the two bytes behind it belong to the data. A header of no known
    version is reported as an empty record, and what came in the same segment is discarded.

    The SSL analyzer itself is a parameter: a function that takes a record in some state and may throw
    an exception. What it reports first, the event `ssl_record`, is part of the model, since the
    policy is driven by it. What is said below holds while memory lasts. -/

namespace Telex.Ssl
open Bro (Byte)
open Binpac (Parsed UnitType FlowBuffer BufferingState Delivery Rest)
open Framing (Format)

def UNKNOWN_VERSION : ℕ := 0x0000

def SSLv20 : ℕ := 0x0002

def UNKNOWN_OR_V2_ENCRYPTED : ℕ := 400

def determineSslVersion (head0 head1 head2 : Byte) : ℕ :=
  if 20 ≤ head0.toNat ∧ head0.toNat ≤ 23 ∧ head1 = 0x03 ∧ head2.toNat < 0x03 then
    head1.toNat <<< 8 ||| head2.toNat
  else if 128 ≤ head0.toNat ∧ head2.toNat < 5 ∧ head2 ≠ 3 then SSLv20
  else UNKNOWN_VERSION

/-- `length` of an `SSLPDU`, which may be negative. -/
def recordLength (head0 head1 head2 head3 head4 : Byte) : ℤ :=
  if determineSslVersion head0 head1 head2 = UNKNOWN_VERSION then 0
  else if determineSslVersion head0 head1 head2 = SSLv20 then
    (((head0 &&& 0x7f).toNat <<< 8 ||| head1.toNat : ℕ) : ℤ) - 3
  else ((head3.toNat <<< 8 ||| head4.toNat : ℕ) : ℤ)

/-- The `&length` of an `SSLPDU`. The buffer never asks for it with less than the header. -/
def sslpduLength : List Byte → ℤ
  | head0 :: head1 :: head2 :: head3 :: head4 :: _ => 5 + recordLength head0 head1 head2 head3 head4
  | _ => 0

structure SslRecord where
  isOrig : Bool
  typ : ℕ
  data : List Byte
  deriving DecidableEq

/-- What `next_record` keeps of a record for the analyzer. -/
structure CurrentRecord where
  typ : ℕ
  version : ℕ
  length : ℕ
  isOrig : Bool

/-- The SSL analyzer: how it takes the data of a record, and whether it returns. -/
abbrev SslAnalyzer (σ : Type) := σ → CurrentRecord → List Byte → σ × Bool

/-- The SSL analyzer's state and the events `ssl_record` so far, oldest first. -/
structure Analyzed (σ : Type) where
  events : List SslRecord
  ssl : σ

variable {σ : Type} (A : SslAnalyzer σ)

def nextRecord (s : Analyzed σ) (rec : List Byte) (typ version : ℕ) (isOrig : Bool) : Analyzed σ × Bool :=
  (⟨s.events ++ [⟨isOrig, typ, rec⟩], (A s.ssl ⟨typ, version, rec.length, isOrig⟩ rec).1⟩,
    (A s.ssl ⟨typ, version, rec.length, isOrig⟩ rec).2)

def forwardRecord (s : Analyzed σ) (fragment : List Byte) (typ version : ℕ) (isOrig : Bool) :
    Analyzed σ × Bool :=
  nextRecord A s fragment typ version isOrig

def forwardV2Record (s : Analyzed σ) (b1 b2 b3 : Byte) (fragment : List Byte) (isOrig : Bool) :
    Analyzed σ × Bool :=
  nextRecord A s (b2 :: b3 :: fragment) (300 + b1.toNat) SSLv20 isOrig

/-- How the parse code of a unit ends after its record was forwarded. -/
def forwarded (r : Analyzed σ × Bool) (returned : Parsed) : Analyzed σ × Parsed :=
  (r.1, if r.2 then returned else .thrown)

/-- The parse code of an `SSLPDU`. A frame without a whole header throws. -/
def parseSslpdu (isOrig : Bool) (s : Analyzed σ) : List Byte → Analyzed σ × Parsed
  | head0 :: head1 :: head2 :: head3 :: head4 :: fragment =>
    if determineSslVersion head0 head1 head2 = UNKNOWN_VERSION then
      forwarded (forwardRecord A s [] UNKNOWN_OR_V2_ENCRYPTED UNKNOWN_VERSION isOrig) .discarded
    else if determineSslVersion head0 head1 head2 = SSLv20 then
      forwarded (forwardV2Record A s head2 head3 head4 fragment isOrig) .done
    else
      forwarded (forwardRecord A s fragment head0.toNat (head1.toNat <<< 8 ||| head2.toNat) isOrig) .done
  | _ => (s, .thrown)

def sslpdu (isOrig : Bool) : UnitType (Analyzed σ) where
  initialBufferLength := 5
  pos := by decide
  length := sslpduLength
  parse := parseSslpdu A isOrig

/-- The record layer of a connection. The flow of a direction is `true` from the originator. -/
structure RecordLayer (σ : Type) where
  flowBuffer : Bool → FlowBuffer
  dataunit : Bool → Option BufferingState
  analyzed : Analyzed σ

def RecordLayer.init (s : σ) : RecordLayer σ := ⟨fun _ => .init, fun _ => none, ⟨[], s⟩⟩

/-- Data, a gap or the end reaches one of the flows. -/
def RecordLayer.receive (l : RecordLayer σ) (d : Bool × Delivery) : Option (RecordLayer σ) := do
  let fl ← (Binpac.Flow.mk (l.flowBuffer d.1) (l.dataunit d.1) l.analyzed).receive (sslpdu A d.1) d.2
  return ⟨Function.update l.flowBuffer d.1 fl.flowBuffer, Function.update l.dataunit d.1 fl.dataunit,
    fl.analyzer⟩

/-! ### Both flows are queues -/

/-- Where a record ends. -/
def recordFormat : Format Byte where
  header := 5
  size h := max 5 (sslpduLength h).toNat
  pos := by decide
  header_le _ := le_max_left ..

/-- The bytes of the deliveries. -/
def segments (ds : List (Bool × Delivery)) : List (Bool × List Byte) := ds.map fun d => (d.1, d.2.bytes)

/-- Both flows are at rest, with the bytes they have not handed on. -/
def Rests (l : RecordLayer σ) (w : Analyzed σ × (Bool → List Byte)) : Prop :=
  ∀ d, Rest (sslpdu A d) ⟨l.flowBuffer d, l.dataunit d, l.analyzed⟩ (w.1, w.2 d)

variable {A} {l : RecordLayer σ} {w : Analyzed σ × (Bool → List Byte)}

theorem Rests.receive (h : Rests A l w) (d : Bool × Delivery) :
    ∃ l', l.receive A d = some l' ∧
      Rests A l' (recordFormat.deliver (fun o => (sslpdu A o).step) w (d.1, d.2.bytes)) := by
  obtain ⟨fl, hfl, hrest⟩ := (h d.1).receive d.2
  refine ⟨_, by rw [RecordLayer.receive, hfl]; rfl, fun o => ?_⟩
  by_cases ho : o = d.1
  · subst ho
    simp only [Function.update_self, Format.deliver]
    exact hrest
  · have hs : fl.analyzer = _ := hrest.analyzer
    simp only [Function.update_of_ne ho, Format.deliver]
    rw [hs]
    exact (h o).of_analyzer _

theorem run_rests (ds : List (Bool × Delivery)) (h : Rests A l w) :
    ∃ l', ds.foldlM (RecordLayer.receive A) l = some l' ∧
      Rests A l' ((segments ds).foldl (recordFormat.deliver fun o => (sslpdu A o).step) w) := by
  induction ds generalizing l w with
  | nil => exact ⟨l, rfl, h⟩
  | cons d ds ih =>
    obtain ⟨l₁, hl₁, h₁⟩ := h.receive d
    obtain ⟨l', hl', h'⟩ := ih h₁
    exact ⟨l', by rw [List.foldlM_cons, hl₁]; exact hl', h'⟩

theorem rests_init (A : SslAnalyzer σ) (s : σ) : Rests A (.init s) (⟨[], s⟩, fun _ => []) := fun _ => .idle

/-- Whatever arrives on the two flows, in whatever pieces and order, no assertion of the buffers fails
    and every loop ends. The events are those of two plain queues of bytes, and between deliveries a
    buffer holds its queue. -/
theorem record_layer_is_queues (A : SslAnalyzer σ) (s : σ) (ds : List (Bool × Delivery)) :
    ∃ l w, ds.foldlM (RecordLayer.receive A) (.init s) = some l ∧
      (segments ds).foldl (recordFormat.deliver fun o => (sslpdu A o).step) (⟨[], s⟩, fun _ => []) = w ∧
      l.analyzed = w.1 ∧ ∀ d, (l.flowBuffer d).buffer = w.2 d ∧ (l.flowBuffer d).orig = [] := by
  obtain ⟨l, hl, hr⟩ := run_rests ds (rests_init A s)
  exact ⟨l, _, hl, rfl, (hr true).analyzer, fun d => (hr d).held⟩

/-! ### Streams of records -/

/-- A record as its sender writes it. Of a record of version 2 the length counts the type too. -/
inductive Record
  | v3 (typ minor : Byte) (fragment : List Byte) (typ_ok : 20 ≤ typ.toNat ∧ typ.toNat ≤ 23)
      (minor_lt : minor.toNat < 3) (length_lt : fragment.length < 2 ^ 16)
  | v2 (typ b2 b3 : Byte) (fragment : List Byte) (typ_ok : typ.toNat < 5 ∧ typ ≠ 3)
      (length_lt : fragment.length + 3 < 2 ^ 15)

namespace Record

def typ : Record → ℕ
  | v3 typ .. => typ.toNat
  | v2 typ .. => 300 + typ.toNat

def version : Record → ℕ
  | v3 _ minor .. => 3 <<< 8 ||| minor.toNat
  | v2 .. => SSLv20

def data : Record → List Byte
  | v3 _ _ fragment .. => fragment
  | v2 _ b2 b3 fragment .. => b2 :: b3 :: fragment

def wire : Record → List Byte
  | v3 typ minor fragment .. => typ :: 3 :: minor :: BitVec.ofNat 8 (fragment.length / 2 ^ 8) ::
      BitVec.ofNat 8 fragment.length :: fragment
  | v2 typ b2 b3 fragment .. => BitVec.ofNat 8 (2 ^ 7 + (fragment.length + 3) / 2 ^ 8) ::
      BitVec.ofNat 8 (fragment.length + 3) :: typ :: b2 :: b3 :: fragment

def current (r : Record) (isOrig : Bool) : CurrentRecord := ⟨r.typ, r.version, r.data.length, isOrig⟩

/-- The event `ssl_record` of a record. -/
def event (isOrig : Bool) (r : Record) : SslRecord := ⟨isOrig, r.typ, r.data⟩

end Record

/-- Two bytes of the header give back the length they were written from. -/
theorem two_bytes (n : ℕ) : (n / 2 ^ 8) <<< 8 ||| n % 2 ^ 8 = n := by
  rw [← Nat.shiftLeft_add_eq_or_of_lt (Nat.mod_lt _ (by decide)), Nat.shiftLeft_eq]
  omega

theorem version_v3 {typ minor : Byte} (ht : 20 ≤ typ.toNat ∧ typ.toNat ≤ 23) (hm : minor.toNat < 3) :
    determineSslVersion typ 3 minor = 3 <<< 8 ||| minor.toNat := by
  rw [determineSslVersion, if_pos ⟨ht.1, ht.2, rfl, hm⟩]
  rfl

theorem version_v3_known {minor : Byte} (hm : minor.toNat < 3) :
    3 <<< 8 ||| minor.toNat ≠ UNKNOWN_VERSION ∧ 3 <<< 8 ||| minor.toNat ≠ SSLv20 := by
  rw [← Nat.shiftLeft_add_eq_or_of_lt (by omega), UNKNOWN_VERSION, SSLv20, Nat.shiftLeft_eq]
  omega

theorem version_v2 {head0 head1 typ : Byte} (h : 128 ≤ head0.toNat) (ht : typ.toNat < 5 ∧ typ ≠ 3) :
    determineSslVersion head0 head1 typ = SSLv20 := by
  rw [determineSslVersion, if_neg (by omega), if_pos ⟨h, ht⟩]

theorem head_v2 {n : ℕ} (h : n < 2 ^ 15) :
    (BitVec.ofNat 8 (2 ^ 7 + n / 2 ^ 8)).toNat = 2 ^ 7 + n / 2 ^ 8 ∧
      (BitVec.ofNat 8 (2 ^ 7 + n / 2 ^ 8) &&& 0x7f).toNat = n / 2 ^ 8 := by
  have h0 : (BitVec.ofNat 8 (2 ^ 7 + n / 2 ^ 8)).toNat = 2 ^ 7 + n / 2 ^ 8 := by
    rw [BitVec.toNat_ofNat]
    omega
  refine ⟨h0, ?_⟩
  rw [BitVec.toNat_and, h0]
  exact (Nat.and_two_pow_sub_one_eq_mod _ 7).trans (by omega)

/-- The header of a record gives the size of the record. -/
theorem Record.isRecord (r : Record) : recordFormat.IsRecord r.wire := by
  cases r with
  | v3 typ minor fragment ht hm hl =>
    have hlen : recordLength typ 3 minor (BitVec.ofNat 8 (fragment.length / 2 ^ 8))
        (BitVec.ofNat 8 fragment.length) = fragment.length := by
      obtain ⟨h0, h2⟩ := version_v3_known hm
      rw [recordLength, version_v3 ht hm, if_neg h0, if_neg h2, BitVec.toNat_ofNat, BitVec.toNat_ofNat,
        Nat.mod_eq_of_lt (by omega), two_bytes]
    change max 5 (5 + recordLength _ _ _ _ _).toNat = fragment.length + 5
    rw [hlen]
    omega
  | v2 typ b2 b3 fragment ht hl =>
    have hlen : recordLength (BitVec.ofNat 8 (2 ^ 7 + (fragment.length + 3) / 2 ^ 8))
        (BitVec.ofNat 8 (fragment.length + 3)) typ b2 b3 = fragment.length := by
      obtain ⟨h0, h7⟩ := head_v2 hl
      rw [recordLength, version_v2 (by omega) ht, if_neg (by decide), if_pos rfl, h7,
        BitVec.toNat_ofNat, two_bytes]
      omega
    change max 5 (5 + recordLength _ _ _ _ _).toNat = fragment.length + 5
    rw [hlen]
    omega

theorem Record.parse_wire (r : Record) (isOrig : Bool) (s : Analyzed σ) :
    parseSslpdu A isOrig s r.wire = forwarded (nextRecord A s r.data r.typ r.version isOrig) .done := by
  cases r with
  | v3 typ minor fragment ht hm hl =>
    obtain ⟨h0, h2⟩ := version_v3_known hm
    rw [wire, parseSslpdu, version_v3 ht hm, if_neg h0, if_neg h2]
    rfl
  | v2 typ b2 b3 fragment ht hl =>
    obtain ⟨h0, -⟩ := head_v2 hl
    rw [wire, parseSslpdu, version_v2 (by omega) ht, if_neg (by decide), if_pos rfl]
    rfl

theorem Record.step_events (r : Record) (isOrig : Bool) (s : Analyzed σ) :
    ((sslpdu A isOrig).step s r.wire).1.events = s.events ++ [r.event isOrig] := by
  change (parseSslpdu A isOrig s r.wire).1.events = _
  rw [r.parse_wire]
  rfl

theorem Record.kept (r : Record) (isOrig : Bool)
    (h : ∀ s, (A s (r.current isOrig) r.data).2 = true) : Format.Kept (sslpdu A isOrig).step r.wire := by
  intro s
  change decide ((parseSslpdu A isOrig s r.wire).2 = .done) = true
  rw [r.parse_wire, decide_eq_true_eq]
  exact if_pos (h s.ssl)

/-- The events of one direction are those of its records, however the records of both mix. -/
theorem events_of {ps : List (Bool × List Byte)} {rs : Bool → List Record}
    (h : ∀ d, Format.of d ps = (rs d).map Record.wire) (s : Analyzed σ) (d : Bool) :
    (Format.stepAll (fun o => (sslpdu A o).step) s ps).events.filter (·.isOrig = d) =
      s.events.filter (·.isOrig = d) ++ (rs d).map (Record.event d) := by
  induction ps generalizing s rs with
  | nil =>
    have hd : (rs d).map Record.wire = [] := (h d).symm
    rw [List.map_eq_nil_iff.mp hd]
    simp [Format.stepAll]
  | cons p ps ih =>
    obtain ⟨o, b⟩ := p
    have ho := h o
    rw [Format.of_cons_self] at ho
    obtain ⟨r, l, hrs, rfl, hl⟩ := List.map_eq_cons_iff.mp ho.symm
    have hrest : ∀ d, Format.of d ps = (Function.update rs o l d).map Record.wire := by
      intro d
      by_cases hd : d = o
      · subst hd
        rw [Function.update_self, hl]
      · rw [Function.update_of_ne hd, ← h d, Format.of_cons_ne (Ne.symm hd)]
    have hstep : Format.stepAll (fun o => (sslpdu A o).step) s ((o, r.wire) :: ps) =
        Format.stepAll (fun o => (sslpdu A o).step) ((sslpdu A o).step s r.wire).1 ps := rfl
    rw [hstep, ih hrest, r.step_events, List.filter_append]
    by_cases hd : d = o
    · subst hd
      simp [hrs, Record.event]
    · simp [hd, Ne.symm hd, Record.event]

/-- Take two streams of records, one in each direction, each followed by an incomplete record or
    nothing. However their bytes are cut into segments and however the segments of both interleave,
    with gaps reported between them or not, the record layer raises `ssl_record` for exactly these
    records, those of each direction in their order, provided the SSL analyzer throws on none. -/
theorem ssl_records_of_streams {ds : List (Bool × Delivery)} {rs : Bool → List Record}
    {t : Bool → List Byte} (s : σ) (ht : ∀ d, ¬recordFormat.Full (t d))
    (hA : ∀ d, ∀ r ∈ rs d, ∀ s, (A s (r.current d) r.data).2 = true)
    (hds : ∀ d, (Format.of d (segments ds)).flatten = (rs d).flatMap Record.wire ++ t d) :
    ∃ l, ds.foldlM (RecordLayer.receive A) (.init s) = some l ∧
      ∀ d, l.analyzed.events.filter (·.isOrig = d) = (rs d).map (Record.event d) := by
  obtain ⟨l, hl, hr⟩ := run_rests ds (rests_init A s)
  have hrec : ∀ d, ∀ b ∈ (rs d).map Record.wire, recordFormat.IsRecord b := by
    intro d b hb
    obtain ⟨r, -, rfl⟩ := List.mem_map.mp hb
    exact r.isRecord
  have hkept : ∀ d, ∀ b ∈ (rs d).map Record.wire, Format.Kept (sslpdu A d).step b := by
    intro d b hb
    obtain ⟨r, hr, rfl⟩ := List.mem_map.mp hb
    exact r.kept d (hA d r hr)
  obtain ⟨ps, hps, hfold⟩ := Format.deliver_streams hrec hkept ht
    (fun _ => Format.not_full_of_length recordFormat.pos)
    (w := (⟨[], s⟩, fun _ => [])) (fun d => by rw [List.nil_append, hds, List.flatMap_def])
  refine ⟨l, hl, fun d => ?_⟩
  have hs : l.analyzed = Format.stepAll (fun o => (sslpdu A o).step) ⟨[], s⟩ ps :=
    (hr true).analyzer.trans (by rw [hfold])
  rw [hs, events_of hps]
  rfl

/-- A change of ciphers from the client and the same in the old format from the server. -/
def sampleRecords : Bool → List Record
  | true => [.v3 20 1 [1] (by decide) (by decide) (by decide)]
  | false => [.v2 2 0 0 [] (by decide) (by decide)]

theorem ssl_records_of_streams_sample : ∃ l,
    [(true, .data [20, 3, 1]), (false, .data [128, 3, 2, 0, 0]), (true, .gap), (true, .data [0, 1, 1])].foldlM
      (RecordLayer.receive fun (s : Unit) _ _ => (s, true)) (.init ()) = some l ∧
    ∀ d, l.analyzed.events.filter (·.isOrig = d) = (sampleRecords d).map (Record.event d) :=
  ssl_records_of_streams (t := fun _ => []) () (fun _ => by decide) (fun _ _ _ _ => rfl)
    (fun d => by cases d <;> decide)

end Telex.Ssl
