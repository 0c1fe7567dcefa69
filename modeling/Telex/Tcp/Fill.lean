import Telex.Tcp.Forge

/-! Packets of the policy: `telex_fill_flow`, `telex_send_ack` and `telex_send_rst` of `bro.bif`

    Both builtins have a `struct flow` on the stack, fill it from the table entry and forge a packet
    without payload. The entry gives the fields of the time stamps only if some were seen, and the flag
    that says so is set and never cleared: what the stack held before decides about the rest.

    The arrival of a time stamp is a `time` of Bro, unset until one arrives; how it is taken apart into
    seconds and microseconds is a parameter. -/

namespace Telex.Tcp
open Bro (Byte ConnId TelexInfo TcpTsInfo ntohs)

variable {Time : Type}

/-- `recv_time` of `cur_ts` and `last_ts`. -/
structure Arrivals (Time : Type) where
  cur : Option Time
  last : Option Time
  deriving DecidableEq

/-- A time stamp of the entry over the one in the flow. -/
def fillTs (toTimeval : Time → Timeval) (ts : TcpTsInfo) (recvTime : Option Time) (old : TcpTs) :
    TcpTs :=
  match recvTime with
  | none => old
  | some t => ⟨toTimeval t, BitVec.ofNat 32 ts.tsval, BitVec.ofNat 32 ts.tsecr⟩

/-- `telex_fill_flow`, on a flow that holds `fl`. -/
def telexFillFlow (toTimeval : Time → Timeval) (cid : ConnId) (te : TelexInfo)
    (arrivals : Arrivals Time) (fl : Flow) (toOrig : Bool) : Flow where
  origH := if toOrig then cid.origH else cid.respH
  respH := if toOrig then cid.respH else cid.origH
  origP := ntohs (if toOrig then cid.origP else cid.respP)
  respP := ntohs (if toOrig then cid.respP else cid.origP)
  lastTtl := BitVec.ofNat 8 te.lastTtl
  lastIpId := BitVec.ofNat 16 te.lastIpId
  tcp :=
    { seq := BitVec.ofNat 32 (if toOrig then te.tcp.seq else te.tcp.ack)
      ack := BitVec.ofNat 32 (if toOrig then te.tcp.ack else te.tcp.seq)
      rcvWindow := BitVec.ofNat 16 (if toOrig then te.tcp.rcvWindow else te.tcp.sndWindow)
      rcvWindowScale :=
        BitVec.ofNat 16 (if toOrig then te.tcp.rcvWindowScale else te.tcp.sndWindowScale)
      sndWindow := BitVec.ofNat 16 (if toOrig then te.tcp.sndWindow else te.tcp.rcvWindow)
      sndWindowScale :=
        BitVec.ofNat 16 (if toOrig then te.tcp.sndWindowScale else te.tcp.rcvWindowScale)
      lastTs := if te.tcp.tsOption then fillTs toTimeval te.tcp.lastTs arrivals.last fl.tcp.lastTs
        else fl.tcp.lastTs
      curTs := if te.tcp.tsOption then fillTs toTimeval te.tcp.curTs arrivals.cur fl.tcp.curTs
        else fl.tcp.curTs
      optionTs := if te.tcp.tsOption then 1 else fl.tcp.optionTs
      optionSack := if te.tcp.sackOption then 1 else fl.tcp.optionSack
      flags := 0 }

/-- `telex_send_ack`, with what its stack held before. -/
def telexSendAck (env : ℕ → Outcome) (toTimeval : Time → Timeval) (cid : ConnId) (te : TelexInfo)
    (arrivals : Arrivals Time) (stack : Flow) : Xmit :=
  telexTcpForgeXmit env (telexFillFlow toTimeval cid te arrivals stack true) []

/-- The flow with `flags` set. -/
def Flow.withFlags (fl : Flow) (flags : Byte) : Flow := { fl with tcp := { fl.tcp with flags } }

/-- `telex_send_rst`, with what its stack held before; `TH_RST` is 4. -/
def telexSendRst (env : ℕ → Outcome) (toTimeval : Time → Timeval) (cid : ConnId) (te : TelexInfo)
    (arrivals : Arrivals Time) (stack : Flow) : Xmit :=
  telexTcpForgeXmit env ((telexFillFlow toTimeval cid te arrivals stack false).withFlags 0x04) []

/-- The part of `tcp_option` that stores the server's time stamps; `ts` is the one it was called with
    and `now` is `network_time()`. -/
def tcpOptionTs (te : TelexInfo) (arrivals : Arrivals Time) (ts : TcpTsInfo) (now : Time) :
    TelexInfo × Arrivals Time :=
  if te.tcp.curTs.tsval ≠ ts.tsval then
    ({ te with tcp := { te.tcp with tsOption := true, lastTs := te.tcp.curTs, curTs := ts } },
      ⟨some now, arrivals.cur⟩)
  else ({ te with tcp := { te.tcp with tsOption := true } }, arrivals)

/-- The packets do not depend on what the stack held before. -/
def Independent (env : ℕ → Outcome) (toTimeval : Time → Timeval) (cid : ConnId) (te : TelexInfo)
    (arrivals : Arrivals Time) : Prop :=
  ∀ stack stack' : Flow,
    (telexSendAck env toTimeval cid te arrivals stack).sent =
      (telexSendAck env toTimeval cid te arrivals stack').sent ∧
    (telexSendRst env toTimeval cid te arrivals stack).sent =
      (telexSendRst env toTimeval cid te arrivals stack').sent

/-! ### One packet -/

variable {env : ℕ → Outcome} {fl : Flow} {heap : ℕ → Byte} {opts : List Byte}

theorem sent_of_no_memory (hm : (env 0).malloc = none) (fl : Flow) (payload : List Byte) :
    (telexTcpForgeXmit env fl payload).sent = [] := by
  rw [telexTcpForgeXmit, hm]

/-- Without a payload there is one packet, if its options can be filled in. -/
theorem sent_nil (hm : (env 0).malloc = some heap) (fl : Flow) : (telexTcpForgeXmit env fl []).sent =
    ((options fl (env 0).now).map fun opts =>
      (⟨fl.origP, fl.origH, packet fl heap opts []⟩ : Sent)).toList := by
  rw [telexTcpForgeXmit, hm]
  cases options fl (env 0).now <;> rfl

/-- The flow with `option_sack` set. -/
def Flow.withSack (fl : Flow) (optionSack : Byte) : Flow :=
  { fl with tcp := { fl.tcp with optionSack } }

/-- The selective acknowledgement flag is not read. -/
theorem sent_sack (env : ℕ → Outcome) (fl : Flow) (optionSack : Byte) :
    (telexTcpForgeXmit env (fl.withSack optionSack) []).sent = (telexTcpForgeXmit env fl []).sent := by
  cases hm : (env 0).malloc with
  | none => rw [sent_of_no_memory hm, sent_of_no_memory hm]
  | some heap =>
    rw [sent_nil hm, sent_nil hm]
    rfl

/-- Equal time stamps are sent on. -/
theorem options_of_eq (hts : fl.tcp.optionTs ≠ 0) (h : fl.tcp.lastTs.tsval = fl.tcp.curTs.tsval)
    (now : Timeval) : options fl now = some (le16 0x0101 ++ [0x08, 0x0a] ++
      le32 (htonl fl.tcp.curTs.tsval) ++ le32 (htonl fl.tcp.curTs.tsecr)) := by
  rw [options, if_pos hts, telexFillTs, telexGetNextTsval_eq, if_pos h]
  rfl

/-- The options are where they were put. -/
theorem drop_packet (ho : 20 + opts.length = tcpLen fl) : (packet fl heap opts []).drop 40 = opts := by
  have hlen : totLen fl ([] : List Byte).length ≤ 1500 := by
    rcases tcpLen_cases fl with h | h <;> rw [totLen, h] <;> decide
  obtain ⟨c, t, hpkt, -, -⟩ := packet_spec heap ho hlen
  rw [hpkt, List.append_nil, ← List.append_assoc]
  exact List.drop_left' rfl

/-! ### What the stack decides -/

/-- A stack with these time stamps. -/
def stackWith (optionTs : Byte) (last cur : TcpTs) : Flow :=
  ⟨0, 0, 0, 0, 0, 0, ⟨0, 0, 0, 0, 0, 0, last, cur, optionTs, 0, 0⟩⟩

variable {toTimeval : Time → Timeval} {cid : ConnId} {te : TelexInfo} {arrivals : Arrivals Time}

theorem fill_optionTs (ht : te.tcp.tsOption = true) (stack : Flow) (toOrig : Bool) :
    (telexFillFlow toTimeval cid te arrivals stack toOrig).tcp.optionTs = 1 := if_pos ht

theorem fill_lastTs (ht : te.tcp.tsOption = true) (stack : Flow) (toOrig : Bool) :
    (telexFillFlow toTimeval cid te arrivals stack toOrig).tcp.lastTs =
      fillTs toTimeval te.tcp.lastTs arrivals.last stack.tcp.lastTs := if_pos ht

theorem fill_curTs (ht : te.tcp.tsOption = true) (stack : Flow) (toOrig : Bool) :
    (telexFillFlow toTimeval cid te arrivals stack toOrig).tcp.curTs =
      fillTs toTimeval te.tcp.curTs arrivals.cur stack.tcp.curTs := if_pos ht

/-- Packets that do not depend on the stack have options that do not. -/
theorem Independent.options_eq (h : Independent env toTimeval cid te arrivals)
    (hm : (env 0).malloc = some heap) (stack stack' : Flow) :
    options (telexFillFlow toTimeval cid te arrivals stack true) (env 0).now =
      options (telexFillFlow toTimeval cid te arrivals stack' true) (env 0).now := by
  have hack := (h stack stack').1
  rw [telexSendAck, telexSendAck, sent_nil hm, sent_nil hm] at hack
  cases ho : options (telexFillFlow toTimeval cid te arrivals stack true) (env 0).now with
  | none =>
    cases ho' : options (telexFillFlow toTimeval cid te arrivals stack' true) (env 0).now with
    | none => rfl
    | some opts' => simp [ho, ho'] at hack
  | some opts =>
    cases ho' : options (telexFillFlow toTimeval cid te arrivals stack' true) (env 0).now with
    | none => simp [ho, ho'] at hack
    | some opts' =>
      rw [ho, ho'] at hack
      have hpkt := congrArg (List.drop 40) (congrArg Sent.pkt (List.cons.inj hack).1)
      rw [drop_packet (length_options ho), drop_packet (length_options ho')] at hpkt
      rw [hpkt]

/-- No time stamps were seen: the flag on the stack decides whether there is one in the packet. -/
theorem not_independent_of_no_option (hm : (env 0).malloc = some heap) (ht : te.tcp.tsOption = false) :
    ¬Independent env toTimeval cid te arrivals := by
  intro h
  have ho := h.options_eq hm (stackWith 0 ⟨⟨0, 0⟩, 0, 0⟩ ⟨⟨0, 0⟩, 0, 0⟩)
    (stackWith 1 ⟨⟨0, 0⟩, 0, 0⟩ ⟨⟨0, 0⟩, 0, 0⟩)
  have h0 : options (telexFillFlow toTimeval cid te arrivals
      (stackWith 0 ⟨⟨0, 0⟩, 0, 0⟩ ⟨⟨0, 0⟩, 0, 0⟩) true) (env 0).now = some [] := by
    simp [options, telexFillFlow, ht, stackWith]
  rw [h0, options_of_eq (by simp [telexFillFlow, ht, stackWith])
    (by simp [telexFillFlow, ht, stackWith])] at ho
  cases ho

/-- The current time stamp has not arrived: the echo in the packet is from the stack. -/
theorem not_independent_of_no_cur (hm : (env 0).malloc = some heap) (ht : te.tcp.tsOption = true)
    (hc : arrivals.cur = none) : ¬Independent env toTimeval cid te arrivals := by
  intro h
  obtain ⟨v, hv⟩ : ∃ v, v = (fillTs toTimeval te.tcp.lastTs arrivals.last ⟨⟨0, 0⟩, 0, 0⟩).tsval :=
    ⟨_, rfl⟩
  have hlast : (fillTs toTimeval te.tcp.lastTs arrivals.last ⟨⟨0, 0⟩, v, 0⟩).tsval = v := by
    rw [hv]
    cases arrivals.last <;> rfl
  have hopts : ∀ tsecr, options (telexFillFlow toTimeval cid te arrivals
      (stackWith 0 ⟨⟨0, 0⟩, v, 0⟩ ⟨⟨0, 0⟩, v, tsecr⟩) true) (env 0).now =
      some (le16 0x0101 ++ [0x08, 0x0a] ++ le32 (htonl v) ++ le32 (htonl tsecr)) := by
    intro tsecr
    have hcur : (telexFillFlow toTimeval cid te arrivals
        (stackWith 0 ⟨⟨0, 0⟩, v, 0⟩ ⟨⟨0, 0⟩, v, tsecr⟩) true).tcp.curTs = ⟨⟨0, 0⟩, v, tsecr⟩ := by
      rw [fill_curTs ht, hc]
      rfl
    rw [options_of_eq (by rw [fill_optionTs ht]; decide), hcur]
    rw [fill_lastTs ht, hcur]
    exact hlast
  have ho := h.options_eq hm (stackWith 0 ⟨⟨0, 0⟩, v, 0⟩ ⟨⟨0, 0⟩, v, 0⟩)
    (stackWith 0 ⟨⟨0, 0⟩, v, 0⟩ ⟨⟨0, 0⟩, v, 1⟩)
  rw [hopts, hopts] at ho
  have hecho := List.append_cancel_left (Option.some.inj ho)
  exact absurd hecho (by decide)

theorem zeroRate_of_tick (cur : TcpTs) : ZeroRate ⟨cur.tv, cur.tsval - 1, 0⟩ cur := by
  have hlt := cur.tsval.isLt
  have h1 : (1 : BitVec 32).toNat = 1 := rfl
  have hticks : ticks ⟨cur.tv, cur.tsval - 1, 0⟩ cur = 1 := by
    rw [ticks, BitVec.toNat_sub, h1]
    omega
  refine ⟨fun h => ?_, 0, ?_⟩
  · have hval := congrArg BitVec.toNat h
    rw [BitVec.toNat_sub, h1] at hval
    omega
  · rw [hticks, elapsed, Int.sub_self, Int.sub_self]
    decide

/-- The last time stamp but one has not arrived: the one on the stack can make the rate zero. -/
theorem not_independent_of_no_last (hm : (env 0).malloc = some heap) (ht : te.tcp.tsOption = true)
    (hl : arrivals.last = none) : ¬Independent env toTimeval cid te arrivals := by
  intro h
  obtain ⟨cur, hcur⟩ : ∃ cur, cur = fillTs toTimeval te.tcp.curTs arrivals.cur ⟨⟨0, 0⟩, 0, 0⟩ :=
    ⟨_, rfl⟩
  have hlast : ∀ last, (telexFillFlow toTimeval cid te arrivals
      (stackWith 0 last ⟨⟨0, 0⟩, 0, 0⟩) true).tcp.lastTs = last := by
    intro last
    rw [fill_lastTs ht, hl]
    rfl
  have hcur' : ∀ last, (telexFillFlow toTimeval cid te arrivals
      (stackWith 0 last ⟨⟨0, 0⟩, 0, 0⟩) true).tcp.curTs = cur := by
    intro last
    rw [fill_curTs ht, hcur]
    rfl
  have ho := h.options_eq hm (stackWith 0 cur ⟨⟨0, 0⟩, 0, 0⟩)
    (stackWith 0 ⟨cur.tv, cur.tsval - 1, 0⟩ ⟨⟨0, 0⟩, 0, 0⟩)
  rw [options_of_eq (by rw [fill_optionTs ht]; decide) (by rw [hlast, hcur'])] at ho
  have hclk := (exists_options_iff _ _).mp ⟨_, ho.symm⟩
  rw [Clocked, fill_optionTs ht, hlast, hcur'] at hclk
  rcases hclk with h1 | h1
  · exact absurd h1 (by decide)
  · exact h1 (zeroRate_of_tick cur)

/-- With two time stamps in the entry only the selective acknowledgement flag is from the stack. -/
theorem fill_eq (toTimeval : Time → Timeval) (cid : ConnId) (ht : te.tcp.tsOption = true)
    (hc : arrivals.cur ≠ none) (hl : arrivals.last ≠ none) (stack stack' : Flow) (toOrig : Bool) :
    ∃ optionSack : Byte, telexFillFlow toTimeval cid te arrivals stack toOrig =
      (telexFillFlow toTimeval cid te arrivals stack' toOrig).withSack optionSack := by
  obtain ⟨t, ht'⟩ := Option.ne_none_iff_exists'.mp hc
  obtain ⟨t', hl'⟩ := Option.ne_none_iff_exists'.mp hl
  refine ⟨(telexFillFlow toTimeval cid te arrivals stack toOrig).tcp.optionSack, ?_⟩
  simp only [telexFillFlow, Flow.withSack, ht, ht', hl', fillTs, if_true]

/-- The packets of `telex_send_ack` and `telex_send_rst` depend on the connection only, if there are
    any, exactly when time stamps were seen and two have arrived. -/
theorem independent_iff (env : ℕ → Outcome) (toTimeval : Time → Timeval) (cid : ConnId)
    (te : TelexInfo) (arrivals : Arrivals Time) :
    Independent env toTimeval cid te arrivals ↔ (env 0).malloc = none ∨
      te.tcp.tsOption = true ∧ arrivals.cur ≠ none ∧ arrivals.last ≠ none := by
  constructor
  · intro h
    cases hm : (env 0).malloc with
    | none => exact .inl rfl
    | some heap =>
      have ht : te.tcp.tsOption = true := by
        by_contra ht
        exact not_independent_of_no_option hm (Bool.eq_false_iff.mpr ht) h
      exact .inr ⟨ht, fun hc => not_independent_of_no_cur hm ht hc h,
        fun hl => not_independent_of_no_last hm ht hl h⟩
  · rintro (hm | ⟨ht, hc, hl⟩) stack stack'
    · simp only [telexSendAck, telexSendRst, sent_of_no_memory hm, and_self]
    · obtain ⟨sack, hack⟩ := fill_eq toTimeval cid ht hc hl stack stack' true
      obtain ⟨sack', hrst⟩ := fill_eq toTimeval cid ht hc hl stack stack' false
      have hcomm : ((telexFillFlow toTimeval cid te arrivals stack' false).withSack sack').withFlags 4 =
          ((telexFillFlow toTimeval cid te arrivals stack' false).withFlags 4).withSack sack' := rfl
      rw [telexSendAck, telexSendAck, telexSendRst, telexSendRst, hack, hrst, hcomm, sent_sack, sent_sack]
      exact ⟨rfl, rfl⟩

/-- An entry as it is made for a tagged connection. -/
def sampleEntry : TelexInfo := Bro.newTelexInfo ⟨[], 3128⟩ [] 0

def sampleConn : ConnId := ⟨0x0100000a, 80, 0x0200000a, 443⟩

/-- A time in microseconds. -/
def ofMicros (t : ℕ) : Timeval := ⟨BitVec.ofNat 64 (t / 1000000), BitVec.ofNat 64 (t % 1000000)⟩

/-- Before any time stamp is seen. -/
theorem stack_decides_options :
    ¬Independent (sampleEnv [] 40) ofMicros sampleConn sampleEntry ⟨none, none⟩ :=
  not_independent_of_no_option rfl rfl

/-! ### The policy -/

/-- `tcp_option` of the policy does this to the entry. -/
theorem tcpOption_eq {s : Bro.State} (h : s.table cid = some te) (ts : TcpTsInfo) (now : Time) :
    Bro.tcpOption s cid false 8 ts = s.set cid (some (tcpOptionTs te arrivals ts now).1) := by
  rw [Bro.tcpOption, h, tcpOptionTs]
  by_cases hne : te.tcp.curTs.tsval = ts.tsval
  · simp [hne]
  · simp [hne]

/-- The flow as it goes to bronnect. -/
def Flow.toBro (fl : Flow) : Bro.Flow where
  origH := fl.origH
  respH := fl.respH
  origP := fl.origP
  respP := fl.respP
  lastTtl := fl.lastTtl
  lastIpId := fl.lastIpId
  seq := fl.tcp.seq
  ack := fl.tcp.ack
  rcvWindow := fl.tcp.rcvWindow
  rcvWindowScale := fl.tcp.rcvWindowScale
  sndWindow := fl.tcp.sndWindow
  sndWindowScale := fl.tcp.sndWindowScale
  curTs := (fl.tcp.curTs.tsval, fl.tcp.curTs.tsecr)
  lastTs := (fl.tcp.lastTs.tsval, fl.tcp.lastTs.tsecr)
  optionTs := fl.tcp.optionTs ≠ 0
  optionSack := fl.tcp.optionSack ≠ 0

/-- A time stamp that has not arrived is zero. -/
structure Stamped (te : TelexInfo) (arrivals : Arrivals Time) : Prop where
  cur : arrivals.cur = none → te.tcp.curTs = ⟨0, 0⟩
  last : arrivals.last = none → te.tcp.lastTs = ⟨0, 0⟩

theorem Stamped.tcpOptionTs (h : Stamped te arrivals) (ts : TcpTsInfo) (now : Time) :
    Stamped (tcpOptionTs te arrivals ts now).1 (tcpOptionTs te arrivals ts now).2 := by
  rw [Tcp.tcpOptionTs]
  split
  · exact ⟨fun hc => by simp at hc, h.cur⟩
  · exact ⟨h.cur, h.last⟩

/-- In a flow that was zeroed, `telex_fill_flow` leaves what the policy's model sends to bronnect. -/
theorem toBro_fill (h : Stamped te arrivals) : (telexFillFlow toTimeval cid te arrivals
    (stackWith 0 ⟨⟨0, 0⟩, 0, 0⟩ ⟨⟨0, 0⟩, 0, 0⟩) true).toBro = Bro.telexFillFlow cid te := by
  have hts : ∀ (ts : TcpTsInfo) (recvTime : Option Time), (recvTime = none → ts = ⟨0, 0⟩) →
      ((fillTs toTimeval ts recvTime ⟨⟨0, 0⟩, 0, 0⟩).tsval,
        (fillTs toTimeval ts recvTime ⟨⟨0, 0⟩, 0, 0⟩).tsecr) =
      (BitVec.ofNat 32 ts.tsval, BitVec.ofNat 32 ts.tsecr) := by
    intro ts recvTime hz
    cases recvTime with
    | none => rw [hz rfl]; rfl
    | some t => rfl
  have hcur := hts te.tcp.curTs arrivals.cur h.cur
  have hlast := hts te.tcp.lastTs arrivals.last h.last
  cases ht : te.tcp.tsOption <;> cases hs : te.tcp.sackOption <;>
    simp_all [Flow.toBro, telexFillFlow, Bro.telexFillFlow, stackWith]

/-- The entry after two segments that came within a microsecond, with time stamps two ticks apart. -/
def sampleStored : TelexInfo × Arrivals ℕ :=
  let first := tcpOptionTs sampleEntry ⟨none, none⟩ ⟨1000, 0⟩ 100000000
  tcpOptionTs first.1 first.2 ⟨1002, 0⟩ 100000001

/-- The flow that `telex_send_ack` makes of it. -/
def sampleStoredFlow : Flow :=
  telexFillFlow ofMicros sampleConn sampleStored.1 sampleStored.2
    (stackWith 0 ⟨⟨0, 0⟩, 0, 0⟩ ⟨⟨0, 0⟩, 0, 0⟩) true

theorem stored_pair_divides_by_zero :
    sampleStoredFlow.tcp.lastTs.tsval ≠ sampleStoredFlow.tcp.curTs.tsval ∧
    ¬∃ tsval, telexGetNextTsval sampleStoredFlow.tcp.lastTs sampleStoredFlow.tcp.curTs ⟨101, 0⟩ =
      some tsval := by
  refine ⟨by decide, ?_⟩
  rintro ⟨_, h⟩
  cases h

end Telex.Tcp
