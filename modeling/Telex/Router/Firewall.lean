import Telex.Router.Blocker

/-! What the router drops: `router.fw`, `xt_set.c`, `ip_set_getport.c` and `hash_ipportip4_kadt`

    The `FORWARD` chain lets everything through that comes from the station, and drops a packet from or
    to port 443 when the set has an element for it. Which element is looked for depends on the direction:
    `src,dst,dst` for packets of the server and `dst,src,src` for those of the client. Both come to the
    element that the flow blocker put in for the connection.

    The tcp match in front of the set is the kernel's and a parameter. Where a packet holds a whole TCP
    header it compares the port; other packets it may drop by itself, and the set matches none of
    these. -/

namespace Telex.Router
open Runs FlowBlocker

/-- What the chain reads of an IPv4 packet: whether it came in on `eth2`, its addresses, its protocol,
    the field `frag_off` in host order, and what follows the IP header. -/
structure Packet where
  fromStation : Bool
  saddr : InAddr
  daddr : InAddr
  protocol : BitVec 8
  fragOff : BitVec 16
  payload : List Byte
  deriving DecidableEq

def ipOffset : BitVec 16 := 0x1fff#16

/-- A packet that is not a later fragment. -/
def Packet.first (p : Packet) : Bool := p.fragOff &&& ipOffset = 0

/-- `skb_header_pointer` at the end of the IP header -/
def Packet.header (p : Packet) (len : ℕ) : Option (List Byte) :=
  if len ≤ p.payload.length then some (p.payload.take len) else none

/-- Two bytes at an offset, in network order. -/
def be16At (bytes : List Byte) (i : ℕ) : NetPort := ⟨bytes.getD i 0, bytes.getD (i + 1) 0⟩

def ipprotoIcmp : ℕ := 1

def ipprotoUdp : ℕ := 17

def ipprotoIcmpv6 : ℕ := 58

/-- `get_port`, with the port as a number. -/
def getPort (p : Packet) (src : Bool) : Option ℕ :=
  let proto := p.protocol.toNat
  if proto = ipprotoTcp then
    (p.header 20).map fun th => ntohs (if src then be16At th 0 else be16At th 2)
  else if proto = ipprotoUdp then
    (p.header 8).map fun uh => ntohs (if src then be16At uh 0 else be16At uh 2)
  else if proto = ipprotoIcmp ∨ proto = ipprotoIcmpv6 then
    (p.header 8).map fun ic => ntohs (be16At ic 0)
  else some 0

/-- `ip_set_get_ip4_port` -/
def ipSetGetIp4Port (p : Packet) (src : Bool) : Option ℕ :=
  if p.protocol = 0 ∨ p.first = false then none else getPort p src

/-- The flags of a `--match-set` with three dimensions: which of them are taken from the source. -/
structure MatchFlags where
  oneSrc : Bool
  twoSrc : Bool
  threeSrc : Bool

/-- `match_set` by `ip_set_test` and `hash_ipportip4_kadt`, where a packet without a port is no match. -/
def matchSet (h : IpSetHash Elem) (p : Packet) (flags : MatchFlags) : Bool :=
  match ipSetGetIp4Port p flags.twoSrc with
  | none => false
  | some port =>
    typePfTest elemHash h
      ⟨if flags.oneSrc then p.saddr else p.daddr, if flags.threeSrc then p.saddr else p.daddr, port,
        p.protocol.toNat⟩

/-- The ports of a packet that begins its datagram and holds a whole TCP header. -/
def tcpPorts (p : Packet) : Option (NetPort × NetPort) :=
  if p.protocol.toNat = ipprotoTcp ∧ p.first = true then
    (p.header 20).map fun th => (be16At th 0, be16At th 2)
  else none

/-- What a match says of a packet: `hotdrop` drops it whatever the rest of the rule is. -/
inductive MatchResult
  | no
  | yes
  | hotdrop
  deriving DecidableEq

/-- `--sport` or `--dport` with one port. -/
inductive PortOption
  | sport (port : NetPort)
  | dport (port : NetPort)
  deriving DecidableEq

/-- The option allows these ports. -/
def PortOption.Allows : PortOption → NetPort × NetPort → Prop
  | .sport port, ports => ports.1 = port
  | .dport port, ports => ports.2 = port

/-- The kernel's `-p tcp -m tcp` with such an option. -/
abbrev TcpMatch := PortOption → Packet → MatchResult

/-- `-p tcp` is for TCP only, and where there is a whole header the match compares the port in it. What
    it does with other fragments and with short packets is left open. -/
structure TcpMatch.Lawful (tcp : TcpMatch) : Prop where
  other : ∀ opt p, p.protocol.toNat ≠ ipprotoTcp → tcp opt p = .no
  yes : ∀ opt p ports, tcpPorts p = some ports → opt.Allows ports → tcp opt p = .yes
  no : ∀ opt p ports, tcpPorts p = some ports → ¬opt.Allows ports → tcp opt p = .no

inductive Verdict
  | accept
  | drop
  deriving DecidableEq

/-- The port of TLS, 443. -/
def httpsPort : NetPort := ⟨1, 187⟩

/-- A rule `-p tcp -m tcp .. -m set --match-set OURSET .. -j DROP`: its verdict, or nothing where the
    next rule is asked. -/
def dropRule (tcp : TcpMatch) (h : IpSetHash Elem) (opt : PortOption) (flags : MatchFlags) (p : Packet) :
    Option Verdict :=
  match tcp opt p with
  | .no => none
  | .yes => if matchSet h p flags then some .drop else none
  | .hotdrop => some .drop

/-- The `FORWARD` chain of `router.fw`. -/
def forwardChain (tcp : TcpMatch) (h : IpSetHash Elem) (p : Packet) : Verdict :=
  if p.fromStation then .accept
  else
    match dropRule tcp h (.sport httpsPort) ⟨true, false, false⟩ p with
    | some verdict => verdict
    | none => (dropRule tcp h (.dport httpsPort) ⟨false, true, true⟩ p).getD .accept

/-- A packet of a connection, in either direction. -/
def Packet.Of (p : Packet) (f : Flow) : Prop :=
  (p.saddr = f.addr1 ∧ p.daddr = f.addr2 ∧ tcpPorts p = some (f.port1, f.port2)) ∨
    (p.saddr = f.addr2 ∧ p.daddr = f.addr1 ∧ tcpPorts p = some (f.port2, f.port1))

/-- A packet that the tcp match itself has dropped, which has no whole header. -/
def Packet.Hotdropped (tcp : TcpMatch) (p : Packet) : Prop :=
  tcpPorts p = none ∧
    (tcp (.sport httpsPort) p = .hotdrop ∨ tcp (.dport httpsPort) p = .hotdrop)

variable {tcp : TcpMatch} {h : IpSetHash Elem} {p : Packet} {sport dport : NetPort}

theorem tcpPorts_some (hp : tcpPorts p = some (sport, dport)) :
    p.protocol.toNat = ipprotoTcp ∧ p.first = true ∧
      ∃ th, p.header 20 = some th ∧ be16At th 0 = sport ∧ be16At th 2 = dport := by
  unfold tcpPorts at hp
  split at hp
  · next hc =>
    obtain ⟨th, hth, he⟩ := Option.map_eq_some_iff.mp hp
    exact ⟨hc.1, hc.2, th, hth, (Prod.ext_iff.mp he).1, (Prod.ext_iff.mp he).2⟩
  · cases hp

/-- Where the ports are compared, the set finds the same ones. -/
theorem ipSetGetIp4Port_tcp (hp : tcpPorts p = some (sport, dport)) (src : Bool) :
    ipSetGetIp4Port p src = some (ntohs (if src then sport else dport)) := by
  obtain ⟨hproto, hfirst, th, hth, hs, hd⟩ := tcpPorts_some hp
  have hne : p.protocol ≠ 0 := by
    intro h0
    simp [h0, ipprotoTcp] at hproto
  simp only [ipSetGetIp4Port, hne, hfirst, getPort, hproto, hth, false_or, Bool.true_eq_false, if_false,
    if_true, Option.map_some, hs, hd]

theorem matchSet_tcp (hi : h.Inv elemHash) (hp : tcpPorts p = some (sport, dport)) (flags : MatchFlags) :
    matchSet h p flags = true ↔
      (⟨if flags.oneSrc then p.saddr else p.daddr, if flags.threeSrc then p.saddr else p.daddr,
        ntohs (if flags.twoSrc then sport else dport), ipprotoTcp⟩ : Elem) ∈ h.elems := by
  simp only [matchSet, ipSetGetIp4Port_tcp hp, (tcpPorts_some hp).1]
  rw [typePfTest_iff hi, mem_elems]

/-- A TCP packet without a whole header is in no set. -/
theorem matchSet_of_no_ports (hproto : p.protocol.toNat = ipprotoTcp) (hp : tcpPorts p = none)
    (flags : MatchFlags) : matchSet h p flags = false := by
  have hport : ipSetGetIp4Port p flags.twoSrc = none := by
    cases hfirst : p.first with
    | false => rw [ipSetGetIp4Port, if_pos (.inr hfirst)]
    | true =>
      rw [tcpPorts, if_pos ⟨hproto, hfirst⟩, Option.map_eq_none_iff] at hp
      simp [ipSetGetIp4Port, hfirst, getPort, hproto, hp]
  rw [matchSet, hport]

theorem dropRule_eq_drop {opt : PortOption} {flags : MatchFlags} :
    dropRule tcp h opt flags p = some .drop ↔
      tcp opt p = .hotdrop ∨ (tcp opt p = .yes ∧ matchSet h p flags = true) := by
  unfold dropRule
  cases tcp opt p with
  | no => simp
  | yes => simp
  | hotdrop => simp

theorem dropRule_cases (tcp : TcpMatch) (h : IpSetHash Elem) (opt : PortOption) (flags : MatchFlags)
    (p : Packet) : dropRule tcp h opt flags p = some .drop ∨ dropRule tcp h opt flags p = none := by
  unfold dropRule
  cases tcp opt p with
  | no => exact .inr rfl
  | yes =>
    cases matchSet h p flags with
    | true => exact .inl rfl
    | false => exact .inr rfl
  | hotdrop => exact .inl rfl

/-- The two rules of the chain. -/
theorem forwardChain_eq_drop :
    forwardChain tcp h p = .drop ↔ p.fromStation = false ∧
      (dropRule tcp h (.sport httpsPort) ⟨true, false, false⟩ p = some .drop ∨
        dropRule tcp h (.dport httpsPort) ⟨false, true, true⟩ p = some .drop) := by
  unfold forwardChain
  cases p.fromStation with
  | true => simp
  | false =>
    rcases dropRule_cases tcp h (.sport httpsPort) ⟨true, false, false⟩ p with h1 | h1 <;>
      rcases dropRule_cases tcp h (.dport httpsPort) ⟨false, true, true⟩ p with h2 | h2 <;>
      simp [h1, h2]

/-- A rule drops a packet with a whole header by its port and the set. -/
theorem dropRule_tcp (ht : tcp.Lawful) (hi : h.Inv elemHash) (hp : tcpPorts p = some (sport, dport))
    (opt : PortOption) (flags : MatchFlags) :
    dropRule tcp h opt flags p = some .drop ↔ opt.Allows (sport, dport) ∧
      (⟨if flags.oneSrc then p.saddr else p.daddr, if flags.threeSrc then p.saddr else p.daddr,
        ntohs (if flags.twoSrc then sport else dport), ipprotoTcp⟩ : Elem) ∈ h.elems := by
  rw [dropRule_eq_drop, matchSet_tcp hi hp]
  by_cases ha : opt.Allows (sport, dport)
  · simp [ht.yes opt p _ hp ha, ha]
  · simp [ht.no opt p _ hp ha, ha]

/-- Without one, only the tcp match itself drops it. -/
theorem dropRule_of_no_ports (ht : tcp.Lawful) (hp : tcpPorts p = none) (opt : PortOption)
    (flags : MatchFlags) : dropRule tcp h opt flags p = some .drop ↔ tcp opt p = .hotdrop := by
  rw [dropRule_eq_drop]
  by_cases hproto : p.protocol.toNat = ipprotoTcp
  · simp [matchSet_of_no_ports hproto hp]
  · simp [ht.other opt p hproto]

/-- The chain drops the packets of connections to port 443 that have an element, unless they come from
    the station, and what the tcp match drops by itself. -/
theorem forwardChain_drop_iff (ht : tcp.Lawful) (hi : h.Inv elemHash) :
    forwardChain tcp h p = .drop ↔ p.fromStation = false ∧
      ((∃ f : Flow, f.port2 = httpsPort ∧ p.Of f ∧ f.elem ∈ h.elems) ∨ p.Hotdropped tcp) := by
  rw [forwardChain_eq_drop]
  refine and_congr_right fun _ => ?_
  cases hp : tcpPorts p with
  | none => simp [dropRule_of_no_ports ht hp, Packet.Hotdropped, Packet.Of, hp]
  | some ports =>
    obtain ⟨sport, dport⟩ := ports
    rw [dropRule_tcp ht hi hp, dropRule_tcp ht hi hp]
    constructor
    · rintro (⟨hport, hm⟩ | ⟨hport, hm⟩)
      · -- from the server
        obtain rfl : sport = httpsPort := hport
        exact .inl ⟨⟨p.daddr, dport, p.saddr, httpsPort⟩, rfl, .inr ⟨rfl, rfl, hp⟩, hm⟩
      · obtain rfl : dport = httpsPort := hport
        exact .inl ⟨⟨p.saddr, sport, p.daddr, httpsPort⟩, rfl, .inl ⟨rfl, rfl, hp⟩, hm⟩
    · rintro (⟨⟨addr1, port1, addr2, port2⟩, rfl, ⟨rfl, rfl, hof⟩ | ⟨rfl, rfl, hof⟩, hm⟩ | ⟨hnone, -⟩)
      · cases Option.some.inj (hp.symm.trans hof)
        exact .inr ⟨rfl, hm⟩
      · cases Option.some.inj (hp.symm.trans hof)
        exact .inl ⟨rfl, hm⟩
      · rw [hp] at hnone
        cases hnone

/-- Nothing but TCP is dropped. -/
theorem tcp_of_drop (ht : tcp.Lawful) (hd : forwardChain tcp h p = .drop) :
    p.protocol.toNat = ipprotoTcp := by
  by_contra hproto
  have hno : ∀ opt flags, dropRule tcp h opt flags p ≠ some .drop := by
    intro opt flags hdrop
    rw [dropRule_eq_drop, ht.other opt p hproto] at hdrop
    simp at hdrop
  rcases (forwardChain_eq_drop.mp hd).2 with hdrop | hdrop
  · exact hno _ _ hdrop
  · exact hno _ _ hdrop

variable {names : Names} {b : Blocker} {hashsize maxelem : Option (BitVec 32)} {initval : BitVec 32}
  {mem : Mem} {ls : List (Label × Mem)}

/-- A packet of the sample connection, from the client. -/
def samplePacket : Packet :=
  ⟨false, (sampleFlow samplePort).addr1, (sampleFlow samplePort).addr2, 6, 0,
    [212, 49, 1, 187] ++ List.replicate 16 0⟩

theorem samplePacket_of : samplePacket.Of (sampleFlow samplePort) := .inl ⟨rfl, rfl, by decide⟩

/-- The kernel's match as it is for a whole header, with what it does to fragments and short packets. -/
def sampleTcp : TcpMatch := fun opt p =>
  if p.protocol.toNat ≠ ipprotoTcp then .no
  else if p.first = false then if p.fragOff &&& ipOffset = 1 then .hotdrop else .no
  else
    match tcpPorts p with
    | none => .hotdrop
    | some ports =>
      match opt with
      | .sport port => if ports.1 = port then .yes else .no
      | .dport port => if ports.2 = port then .yes else .no

theorem sampleTcp_lawful : sampleTcp.Lawful := by
  have hwhole : ∀ opt p ports, tcpPorts p = some ports →
      (opt.Allows ports → sampleTcp opt p = .yes) ∧ (¬opt.Allows ports → sampleTcp opt p = .no) := by
    rintro opt p ⟨sport, dport⟩ hp
    obtain ⟨hproto, hfirst, -⟩ := tcpPorts_some hp
    cases opt <;> simp [sampleTcp, hproto, hfirst, hp, PortOption.Allows]
  constructor
  · intro opt p hproto
    simp [sampleTcp, hproto]
  · exact fun opt p ports hp => (hwhole opt p ports hp).1
  · exact fun opt p ports hp => (hwhole opt p ports hp).2

/-- Every packet the router drops is a TCP packet that does not come from the station. It belongs to a
    connection to port 443 that the flow blocker was told to block, or it has no whole TCP header and the
    tcp match has dropped it. -/
theorem dropped_was_asked (ht : tcp.Lawful) (hc : hashIpportipCreate hashsize maxelem initval mem = .ok h)
    (hr : Run (BlockerStep names) (.init h) ls b) (hd : forwardChain tcp b.ourset p = .drop) :
    p.fromStation = false ∧ p.protocol.toNat = ipprotoTcp ∧
      ((∃ f : Flow, f.port2 = httpsPort ∧ p.Of f ∧
        ∃ t c, (t, c) ∈ b.executed ∧ c.block = true ∧ c.flow.Same f) ∨ p.Hotdropped tcp) := by
  obtain ⟨hi, ha⟩ := run_asked hc hr
  obtain ⟨hst, hdrop⟩ := (forwardChain_drop_iff ht hi).mp hd
  refine ⟨hst, tcp_of_drop ht hd, hdrop.imp_left ?_⟩
  rintro ⟨f, hport, hof, hm⟩
  obtain ⟨t, c, hmem, hb, he⟩ := ha _ hm
  exact ⟨f, hport, hof, t, c, hmem, hb, Flow.elem_eq_iff.mp he⟩

theorem dropped_was_asked_one : ∃ h b, hashIpportipCreate none none 0 [] = .ok h ∧
    Run (BlockerStep noNames) (.init h) [(.recv 0 (msg ⟨true, sampleFlow samplePort⟩), [])] b ∧
    forwardChain sampleTcp b.ourset samplePacket = .drop ∧
    ∃ t c, (t, c) ∈ b.executed ∧ c.block = true := by
  obtain ⟨h, b, hc, hr, hm⟩ := exists_blocker_run
  have hr' := hr.mono (Q := BlockerStep noNames) fun _ _ _ hs => hs.1
  have hd : forwardChain sampleTcp b.ourset samplePacket = .drop :=
    (forwardChain_drop_iff sampleTcp_lawful (run_asked hc hr').1).mpr
      ⟨rfl, .inl ⟨_, rfl, samplePacket_of, hm⟩⟩
  obtain ⟨-, -, ⟨f, -, -, t, c, hmem, hb, -⟩ | ⟨hnone, -⟩⟩ :=
    dropped_was_asked sampleTcp_lawful hc hr' hd
  · exact ⟨h, b, hc, hr', hd, t, c, hmem, hb⟩
  · exact absurd hnone (by decide)

/-- With room in the table, the packets dropped are those of the connections that the flow blocker over
    a plain set has blocked after the same callbacks, and those without a whole TCP header that the tcp
    match has dropped. -/
theorem dropped_iff_blocked (ht : tcp.Lawful)
    (hc : hashIpportipCreate hashsize maxelem initval mem = .ok h)
    (hr : Run (When (BlockerStep names) RoomyStep) (.init h) ls b) :
    Run (FlowBlocker.Step names) (.init (some (maxelem.getD ipsetDefaultMaxelem).toNat))
        (ls.map Prod.fst) b.router ∧
      ∀ p, forwardChain tcp b.ourset p = .drop ↔ p.fromStation = false ∧
        ((∃ f : Flow, f.port2 = httpsPort ∧ p.Of f ∧ b.router.Blocked f) ∨ p.Hotdropped tcp) := by
  obtain ⟨hi, hempty, hmax, -⟩ := hashIpportipCreate_ok elemHash hc
  obtain ⟨hib, hrun⟩ := @run_router names b (.init h) ls hi hr
  have hinit : (Blocker.init h).router = .init (some (maxelem.getD ipsetDefaultMaxelem).toNat) := by
    simp [Blocker.router, Blocker.init, hempty, hmax, FlowBlocker.Router.init]
  rw [hinit] at hrun
  exact ⟨hrun, fun p => forwardChain_drop_iff ht hib⟩

theorem dropped_iff_blocked_one : ∃ h b, hashIpportipCreate none none 0 [] = .ok h ∧
    Run (When (BlockerStep noNames) RoomyStep) (.init h)
      [(.recv 0 (msg ⟨true, sampleFlow samplePort⟩), [])] b ∧
    forwardChain sampleTcp b.ourset samplePacket = .drop := by
  obtain ⟨h, b, hc, hr, hm⟩ := exists_blocker_run
  exact ⟨h, b, hc, hr, ((dropped_iff_blocked sampleTcp_lawful hc hr).2 samplePacket).mpr
    ⟨rfl, .inl ⟨_, rfl, samplePacket_of, hm⟩⟩⟩

end Telex.Router
