import Telex.FlowBlocker.Model

/-! Commands on the stream

    `on_read_ready` drops what a call of `recv` read when it is less than a message. The bytes are gone
    and the next message is read from the middle of one. A stream that is read to its end gives back
    the commands written to it exactly when every call of `recv` reads a whole message. -/

namespace Telex.FlowBlocker

/-- The flow blocker after calls of `on_read_ready` on a connection with `stream` ahead; each call has
    its time and the number of bytes that `recv` reads. -/
def readStream (names : Names) : Router → List Byte → List (ℕ × ℕ) → Router
  | r, _, [] => r
  | r, stream, (now, k) :: reads =>
    readStream names (onReadReady names now r (stream.take k)).1 (stream.drop k) reads

/-- The commands that have been carried out. -/
def Router.commands (r : Router) : List Command := r.executed.map Prod.snd

variable {names : Names} {r : Router} {stream : List Byte} {reads : List (ℕ × ℕ)}

theorem commands_onReadReady (now : ℕ) (recvd : List Byte) :
    (onReadReady names now r recvd).1.commands = r.commands ++ (fields recvd).toList := by
  cases h : fields recvd with
  | none => simp [onReadReady_none h]
  | some c => simp [onReadReady_some h, Router.commands]

/-- Reads of whole messages carry out one command each, in order. -/
theorem commands_readStream_whole (msgs : List Command) (hr : ∀ k ∈ reads, k.2 = blockFlowMsgLength)
    (hlen : reads.length ≤ msgs.length) :
    (readStream names r (msgs.flatMap msg) reads).commands = r.commands ++ msgs.take reads.length := by
  induction reads generalizing r msgs with
  | nil => simp [readStream]
  | cons k reads ih =>
    obtain ⟨now, k⟩ := k
    obtain rfl : k = blockFlowMsgLength := hr _ (.head _)
    cases msgs with
    | nil => simp at hlen
    | cons c msgs =>
      rw [List.flatMap_cons, readStream, List.take_left' (length_msg c), List.drop_left' (length_msg c),
        ih msgs (fun k hk => hr k (.tail _ hk)) (by simpa using hlen), commands_onReadReady, fields_msg]
      simp

/-- No more commands are carried out than whole messages are read. -/
theorem length_commands_readStream (hr : ∀ k ∈ reads, k.2 ≤ blockFlowMsgLength) (names : Names)
    (r : Router) (stream : List Byte) :
    (readStream names r stream reads).commands.length ≤
      r.commands.length + (reads.map Prod.snd).count blockFlowMsgLength := by
  induction reads generalizing r stream with
  | nil => simp [readStream]
  | cons k reads ih =>
    obtain ⟨now, k⟩ := k
    have h := ih (fun k hk => hr k (.tail _ hk)) (onReadReady names now r (stream.take k)).1
      (stream.drop k)
    rw [commands_onReadReady, List.length_append] at h
    rw [readStream, List.map_cons, List.count_cons]
    cases hf : fields (stream.take k) with
    | none => simp only [hf, Option.toList_none, List.length_nil] at h; omega
    | some c =>
      simp only [hf, Option.toList_some, List.length_singleton] at h
      have hk := length_of_fields hf
      have hk' : k ≤ blockFlowMsgLength := hr _ (.head _)
      rw [List.length_take] at hk
      have he : k = blockFlowMsgLength := by omega
      simp only [he, beq_self_eq_true, if_true] at h ⊢
      omega

theorem mul_count_le_sum (n : ℕ) (l : List ℕ) : n * l.count n ≤ l.sum := by
  induction l with
  | nil => simp
  | cons k l ih =>
    rw [List.count_cons, List.sum_cons]
    split
    · next h => rw [beq_iff_eq.mp h, Nat.mul_add]; omega
    · rw [Nat.add_zero]; omega

/-- Positive numbers whose sum is made up by those equal to `n` are all equal to `n`. -/
theorem eq_of_sum_le {n : ℕ} {l : List ℕ} (hpos : ∀ k ∈ l, 1 ≤ k) (h : l.sum ≤ n * l.count n) :
    ∀ k ∈ l, k = n := by
  induction l with
  | nil => simp
  | cons k l ih =>
    have hle := mul_count_le_sum n l
    have hk := hpos k (.head _)
    rw [List.count_cons, List.sum_cons] at h
    split at h
    · next he =>
      obtain rfl := beq_iff_eq.mp he
      rw [Nat.mul_add] at h
      intro m hm
      rcases List.mem_cons.mp hm with rfl | hm
      · rfl
      · exact ih (fun k hk => hpos k (.tail _ hk)) (by omega) m hm
    · rw [Nat.add_zero] at h; omega

theorem sum_of_eq {n : ℕ} {l : List ℕ} (h : ∀ k ∈ l, k = n) : l.sum = n * l.length := by
  rw [List.eq_replicate_of_mem h, List.sum_replicate_nat, List.length_replicate, Nat.mul_comm]

theorem length_flatMap_msg (msgs : List Command) :
    (msgs.flatMap msg).length = blockFlowMsgLength * msgs.length := by
  induction msgs with
  | nil => rfl
  | cons c msgs ih =>
    rw [List.flatMap_cons, List.length_append, ih, length_msg, List.length_cons, Nat.mul_succ]
    omega

/-- A stream of messages that is read to its end gives, at each point, commands that were sent first,
    and in the end all of them, exactly when no call of `recv` comes back with less than a message. -/
theorem stream_decoded_iff {calls : List (Command × List ℤ)} (hw : written calls = some stream)
    (hr : ∀ k ∈ reads, 1 ≤ k.2 ∧ k.2 ≤ blockFlowMsgLength)
    (hall : (reads.map Prod.snd).sum = stream.length) (names : Names) (maxelem : Option ℕ) :
    ((∀ j, (readStream names (.init maxelem) stream (reads.take j)).commands <+: calls.map Prod.fst) ∧
      (readStream names (.init maxelem) stream reads).commands = calls.map Prod.fst) ↔
    ∀ k ∈ reads, k.2 = blockFlowMsgLength := by
  obtain rfl := written_eq hw
  rw [length_flatMap_msg] at hall
  constructor
  · rintro ⟨-, h⟩
    have hlen := length_commands_readStream (fun k hk => (hr k hk).2) names (.init maxelem)
      ((calls.map Prod.fst).flatMap msg)
    rw [h] at hlen
    refine List.forall_mem_map.mp (eq_of_sum_le (List.forall_mem_map.mpr fun k hk => (hr k hk).1) ?_)
    rw [hall]
    exact Nat.mul_le_mul_left _ (by simpa [Router.init, Router.commands] using hlen)
  · intro h
    have hlen : reads.length = (calls.map Prod.fst).length := by
      have hs := sum_of_eq (List.forall_mem_map.mpr h)
      rw [hs, List.length_map] at hall
      exact Nat.eq_of_mul_eq_mul_left (by decide) hall
    refine ⟨fun j => ?_, ?_⟩
    · rw [commands_readStream_whole _ (fun k hk => h k (List.mem_of_mem_take hk))
        (by rw [List.length_take]; omega)]
      exact List.take_prefix _ _
    · rw [commands_readStream_whole _ h hlen.le, hlen, List.take_length]
      rfl

/-- Two flows are blocked; the first message goes out in two pieces. -/
def sampleCalls : List (Command × List ℤ) :=
  [(⟨true, sampleFlow ⟨39, 16⟩⟩, [6, 7]), (⟨true, sampleFlow ⟨39, 17⟩⟩, [13])]

theorem stream_decoded_two :
    (readStream noNames (.init (some ipsetDefaultMaxelem)) ((sampleCalls.map Prod.fst).flatMap msg)
      [(0, 13), (1, 13)]).commands = sampleCalls.map Prod.fst :=
  have hw : written sampleCalls = some ((sampleCalls.map Prod.fst).flatMap msg) := rfl
  ((stream_decoded_iff hw (by decide) rfl noNames _).mpr (by decide)).2

/-- After a short read the next command names a flow that nobody asked to block. -/
theorem short_read_misaligns :
    written sampleCalls = some ((sampleCalls.map Prod.fst).flatMap msg) ∧
    (∀ k ∈ [(0, 12), (1, 13), (2, 1)], 1 ≤ k.2 ∧ k.2 ≤ blockFlowMsgLength) ∧
    ([(0, 12), (1, 13), (2, 1)].map Prod.snd).sum = ((sampleCalls.map Prod.fst).flatMap msg).length ∧
    (readStream noNames (.init (some ipsetDefaultMaxelem)) ((sampleCalls.map Prod.fst).flatMap msg)
      [(0, 12), (1, 13), (2, 1)]).commands =
        [⟨true, ⟨⟨1, 10, 2, 0⟩, ⟨1, 39⟩, ⟨17, 10, 3, 0⟩, ⟨2, 1⟩⟩⟩] ∧
    ¬(readStream noNames (.init (some ipsetDefaultMaxelem)) ((sampleCalls.map Prod.fst).flatMap msg)
      [(0, 12), (1, 13), (2, 1)]).commands <+: sampleCalls.map Prod.fst := by
  refine ⟨rfl, by decide, rfl, rfl, ?_⟩
  rintro ⟨rest, h⟩
  have h0 : (⟨true, ⟨⟨1, 10, 2, 0⟩, ⟨1, 39⟩, ⟨17, 10, 3, 0⟩, ⟨2, 1⟩⟩⟩ : Command) =
      ⟨true, sampleFlow ⟨39, 16⟩⟩ := (List.cons.inj h).1
  exact absurd h0 (by decide)

end Telex.FlowBlocker
