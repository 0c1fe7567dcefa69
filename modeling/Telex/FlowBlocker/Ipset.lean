import Telex.Lib.Text
import Mathlib.Data.Finset.Card

/-! The router's set of blocked flows: `telex_ipset.c`, `libaddipportip.c` and what they use of ipset

    A flow is blocked by an element of the kernel's `hash:ip,port,ip` set `OURSET`. The element goes
    to ipset as a text, the destination address, the source port and the source address with commas
    between them, which ipset takes apart again. The destination port is not part of it: the firewall
    looks for the element only in packets from and to port 443.

    The set itself is a plain one here, with at most a bound on its size. The kernel's hash table, which
    may refuse an element for other reasons too, takes its place in `Telex.Router`. -/

namespace Telex.FlowBlocker
open CText

abbrev Byte := BitVec 8

/-- `struct in_addr`, its four bytes in memory. -/
structure InAddr where
  b0 : Byte
  b1 : Byte
  b2 : Byte
  b3 : Byte
  deriving DecidableEq

/-- A `uint16_t` port in network order, its two bytes in memory. -/
structure NetPort where
  b0 : Byte
  b1 : Byte
  deriving DecidableEq

def ntohs (p : NetPort) : ℕ := 256 * p.b0.toNat + p.b1.toNat

/-- `inet_ntop (AF_INET, ..)` -/
def inetNtop (a : InAddr) : Text :=
  ['.'].intercalate [decimal a.b0.toNat, decimal a.b1.toNat, decimal a.b2.toNat, decimal a.b3.toNat]

/-- `struct hash_ipportip4_elem` -/
structure Elem where
  ip : InAddr
  ip2 : InAddr
  port : ℕ
  proto : ℕ
  deriving DecidableEq

def ipprotoTcp : ℕ := 6

/-- The names the router's resolver knows; no number is looked up in it. -/
structure Names where
  host : Text → Option InAddr
  service : Text → Option ℕ

/-- `ipset_strchr`: the text before and after the first separator, unless the text starts or ends
    with one. -/
def ipsetStrchr (sep : Char) (str : Text) : Option (Text × Text) :=
  if sep ∈ str ∧ str.head? ≠ some sep ∧ str.getLast? ≠ some sep then
    some (str.takeWhile (· ≠ sep), (str.dropWhile (· ≠ sep)).tail)
  else none

/-- `string_to_u16`, by `string_to_number_ll` with the range 0 to `USHRT_MAX`. -/
def stringToU16 (str : Text) : Option ℕ :=
  match strtoull str with
  | some (n, false, []) => if n ≤ 65535 then some n else none
  | _ => none

/-- One number of an address in numbers-and-dots notation. -/
def atonPart (t : Text) : Option ℕ :=
  if (t.head?.map Char.isDigit) = some true then
    match strtoull t with
    | some (n, false, []) => some n
    | _ => none
  else none

/-- The address whose bytes are those of `n`, most significant first. -/
def addrOfNat (n : ℕ) : InAddr :=
  ⟨BitVec.ofNat 8 (n / 2 ^ 24), BitVec.ofNat 8 (n / 2 ^ 16), BitVec.ofNat 8 (n / 2 ^ 8),
    BitVec.ofNat 8 n⟩

/-- `inet_aton`: up to four numbers, the last of which stands for all the bytes that are left. -/
def inetAton (str : Text) : Option InAddr :=
  match (str.splitOn '.').mapM atonPart with
  | some [d] => if d < 2 ^ 32 then some (addrOfNat d) else none
  | some [a, d] => if a < 256 ∧ d < 2 ^ 24 then some (addrOfNat (a * 2 ^ 24 + d)) else none
  | some [a, b, d] =>
    if a < 256 ∧ b < 256 ∧ d < 2 ^ 16 then some (addrOfNat (a * 2 ^ 24 + b * 2 ^ 16 + d)) else none
  | some [a, b, c, d] =>
    if a < 256 ∧ b < 256 ∧ c < 256 ∧ d < 256 then
      some (addrOfNat (a * 2 ^ 24 + b * 2 ^ 16 + c * 2 ^ 8 + d))
    else none
  | _ => none

/-- `getaddrinfo` with `AF_INET`: a text that is not an address is looked up as a name. -/
def getaddrinfo (names : Names) (str : Text) : Option InAddr :=
  match inetAton str with
  | some a => some a
  | none => names.host str

/-- `parse_ip`. Netblocks and ranges, which stand for many elements, are not followed further. -/
def parseIp (names : Names) (str : Text) : Option InAddr :=
  if (ipsetStrchr '/' str).isSome || (ipsetStrchr '-' str).isSome then none
  else getaddrinfo names str

/-- `ipset_parse_proto_port` without a protocol, which is then TCP, and without a range. -/
def ipsetParseProtoPort (names : Names) (str : Text) : Option ℕ :=
  if (ipsetStrchr ':' str).isSome || (ipsetStrchr '-' str).isSome then none
  else
    match stringToU16 str with
    | some n => some n
    | none => names.service str

/-- `ipset_parse_elem` for the type `hash:ip,port,ip`. -/
def ipsetParseElem (names : Names) (str : Text) : Option Elem := do
  let (ip, a) ← ipsetStrchr ',' str
  let (port, ip2) ← ipsetStrchr ',' a
  if (ipsetStrchr ',' ip2).isSome then none
  let ip ← parseIp names ip
  let port ← ipsetParseProtoPort names port
  let ip2 ← parseIp names ip2
  some ⟨ip, ip2, port, ipprotoTcp⟩

/-- `OURSET` as a plain set; no `maxelem` is a set without a bound on its size. -/
structure OurSet where
  maxelem : Option ℕ
  elems : Finset Elem
  deriving DecidableEq

def ipsetDefaultMaxelem : ℕ := 65536

inductive IpsetErr
  | hashFull
  | exist
  deriving DecidableEq

def OurSet.full (s : OurSet) : Bool := s.maxelem.any (· ≤ s.elems.card)

/-- An addition; a full set is refused before the element is looked for. -/
def OurSet.add (s : OurSet) (d : Elem) : Except IpsetErr OurSet :=
  if s.full then .error .hashFull
  else if d ∈ s.elems then .error .exist
  else .ok { s with elems := insert d s.elems }

def OurSet.del (s : OurSet) (d : Elem) : Except IpsetErr OurSet :=
  if d ∈ s.elems then .ok { s with elems := s.elems.erase d } else .error .exist

/-- `add_ipportip`, with the result it returns; an error is reported and otherwise forgotten. -/
def addIpportip (names : Names) (s : OurSet) (ip1 : Text) (port : ℕ) (ip2 : Text) (block : Bool) :
    OurSet × ℤ :=
  match ipsetParseElem names (ip1 ++ [','] ++ decimal port ++ [','] ++ ip2) with
  | none => (s, 1)
  | some d =>
    match (if block then s.add d else s.del d) with
    | .ok s' => (s', 0)
    | .error _ => (s, -1)

/-- `send_iptables_flow_command`; it has no use for the destination port. -/
def sendIptablesFlowCommand (names : Names) (s : OurSet) (sip : Text) (sport : ℕ) (dip : Text)
    (_dport : ℕ) (block : Bool) : OurSet :=
  (addIpportip names s dip sport sip block).1

def telexLocalModFlow (names : Names) (s : OurSet) (srcInAddr : InAddr) (sport : NetPort)
    (destInAddr : InAddr) (dport : NetPort) (block : Bool) : OurSet :=
  sendIptablesFlowCommand names s (inetNtop srcInAddr) (ntohs sport) (inetNtop destInAddr)
    (ntohs dport) block

theorem not_mem_decimal {c : Char} (h : c.isDigit = false) (n : ℕ) : c ∉ decimal n :=
  fun hc => by simp [isDigit_of_mem_decimal hc] at h

theorem atonPart_decimal {n : ℕ} (h : n < 256) : atonPart (decimal n) = some n := by
  have hs := strtoull_decimal (n := n) (by omega)
  cases hd : decimal n with
  | nil => exact absurd hd (decimal_ne_nil n)
  | cons c t =>
    have hc : c.isDigit = true := isDigit_of_mem_decimal (n := n) (by simp [hd])
    rw [hd] at hs
    simp [atonPart, hc, hs]

theorem addrOfNat_bytes (a : InAddr) :
    addrOfNat (a.b0.toNat * 2 ^ 24 + a.b1.toNat * 2 ^ 16 + a.b2.toNat * 2 ^ 8 + a.b3.toNat) = a := by
  obtain ⟨a0, a1, a2, a3⟩ := a
  have h0 := a0.isLt
  have h1 := a1.isLt
  have h2 := a2.isLt
  have h3 := a3.isLt
  simp only [addrOfNat, InAddr.mk.injEq]
  refine ⟨?_, ?_, ?_, ?_⟩ <;> apply BitVec.eq_of_toNat_eq <;> simp only [BitVec.toNat_ofNat] <;> omega

/-- An address is read back from its text. -/
theorem inetAton_inetNtop (a : InAddr) : inetAton (inetNtop a) = some a := by
  have hsplit : (inetNtop a).splitOn '.' =
      [decimal a.b0.toNat, decimal a.b1.toNat, decimal a.b2.toNat, decimal a.b3.toNat] := by
    refine List.splitOn_intercalate _ ?_ (by simp)
    intro l hl
    simp only [List.mem_cons, List.not_mem_nil, or_false] at hl
    rcases hl with rfl | rfl | rfl | rfl <;> exact not_mem_decimal rfl _
  have hb := addrOfNat_bytes a
  simp only [inetAton, hsplit, List.mapM_cons, List.mapM_nil, atonPart_decimal a.b0.isLt,
    atonPart_decimal a.b1.isLt, atonPart_decimal a.b2.isLt, atonPart_decimal a.b3.isLt, pure,
    Option.bind_eq_bind, Option.bind_some]
  rw [if_pos ⟨a.b0.isLt, a.b1.isLt, a.b2.isLt, a.b3.isLt⟩, hb]

theorem ipsetStrchr_of_not_mem {sep : Char} {s : Text} (h : sep ∉ s) : ipsetStrchr sep s = none :=
  if_neg fun hs => h hs.1

theorem ipsetStrchr_append {sep : Char} {u v : Text} (hu : sep ∉ u) (hu0 : u ≠ [])
    (hv : v.getLast? ≠ some sep) (hv0 : v ≠ []) : ipsetStrchr sep (u ++ sep :: v) = some (u, v) := by
  have hne : ∀ c ∈ u, decide (c ≠ sep) = true := fun c hc => by simp; rintro rfl; exact hu hc
  have hhead : (u ++ sep :: v).head? ≠ some sep := by
    cases u with
    | nil => exact absurd rfl hu0
    | cons c t => simp; rintro rfl; exact hu (.head _)
  have hlast : (u ++ sep :: v).getLast? ≠ some sep := by
    rw [List.getLast?_append_of_ne_nil _ (by simp), List.getLast?_cons_of_ne_nil hv0]
    exact hv
  rw [ipsetStrchr, if_pos ⟨by simp, hhead, hlast⟩, List.takeWhile_append_of_pos hne,
    List.dropWhile_append_of_pos hne]
  simp

theorem mem_inetNtop {a : InAddr} {c : Char} (h : c ∈ inetNtop a) : c.isDigit = true ∨ c = '.' := by
  simp only [inetNtop, List.intercalate, List.intersperse, List.flatten_cons, List.flatten_nil,
    List.mem_append, List.mem_singleton, List.not_mem_nil, or_false] at h
  rcases h with h | h | h | h | h | h | h
  all_goals first | exact .inl (isDigit_of_mem_decimal h) | exact .inr h

theorem not_mem_inetNtop {c : Char} (h : c.isDigit = false) (hd : c ≠ '.') (a : InAddr) :
    c ∉ inetNtop a := fun hc =>
  (mem_inetNtop hc).elim (fun h' => by simp [h] at h') hd

theorem inetNtop_ne_nil (a : InAddr) : inetNtop a ≠ [] := by
  simp [inetNtop, List.intercalate, decimal_ne_nil]

theorem parseIp_inetNtop (names : Names) (a : InAddr) : parseIp names (inetNtop a) = some a := by
  simp [parseIp, getaddrinfo, inetAton_inetNtop,
    ipsetStrchr_of_not_mem (not_mem_inetNtop (c := '/') rfl (by decide) a),
    ipsetStrchr_of_not_mem (not_mem_inetNtop (c := '-') rfl (by decide) a)]

theorem ipsetParseProtoPort_decimal (names : Names) {n : ℕ} (h : n ≤ 65535) :
    ipsetParseProtoPort names (decimal n) = some n := by
  have hs := strtoull_decimal (n := n) (by omega)
  simp [ipsetParseProtoPort, stringToU16, hs, h, ipsetStrchr_of_not_mem (not_mem_decimal (c := ':') rfl n),
    ipsetStrchr_of_not_mem (not_mem_decimal (c := '-') rfl n)]

/-- The element of the text that `add_ipportip` writes. -/
theorem ipsetParseElem_text (names : Names) (a b : InAddr) {n : ℕ} (h : n ≤ 65535) :
    ipsetParseElem names (inetNtop a ++ [','] ++ decimal n ++ [','] ++ inetNtop b) =
      some ⟨a, b, n, ipprotoTcp⟩ := by
  have ha : ',' ∉ inetNtop a := not_mem_inetNtop rfl (by decide) a
  have hb : ',' ∉ inetNtop b := not_mem_inetNtop rfl (by decide) b
  have hlast : ∀ u : Text, (u ++ inetNtop b).getLast? ≠ some ',' := fun u he => by
    rw [List.getLast?_append_of_ne_nil _ (inetNtop_ne_nil b)] at he
    exact hb (List.mem_of_getLast? he)
  have h1 := ipsetStrchr_append ha (inetNtop_ne_nil a)
    (v := decimal n ++ [','] ++ inetNtop b) (hlast _) (by simp)
  have h2 := ipsetStrchr_append (not_mem_decimal (c := ',') rfl n) (decimal_ne_nil n)
    (v := inetNtop b) (hlast []) (inetNtop_ne_nil b)
  simp only [List.append_assoc, List.singleton_append] at h1 ⊢
  simp [ipsetParseElem, h1, h2, ipsetStrchr_of_not_mem hb, parseIp_inetNtop,
    ipsetParseProtoPort_decimal names h]

theorem ntohs_le (p : NetPort) : ntohs p ≤ 65535 := by
  have h0 := p.b0.isLt
  have h1 := p.b1.isLt
  simp only [ntohs]
  omega

theorem ntohs_injective : Function.Injective ntohs := by
  rintro ⟨a, b⟩ ⟨c, d⟩ h
  have hb := b.isLt
  have hd := d.isLt
  simp only [ntohs] at h
  simp only [NetPort.mk.injEq]
  exact ⟨BitVec.eq_of_toNat_eq (by omega), BitVec.eq_of_toNat_eq (by omega)⟩

/-- What a command does to the set. -/
def OurSet.mod (s : OurSet) (d : Elem) (block : Bool) : OurSet :=
  if block then if s.full then s else { s with elems := insert d s.elems }
  else { s with elems := s.elems.erase d }

theorem telexLocalModFlow_eq (names : Names) (s : OurSet) (src dest : InAddr) (sport dport : NetPort)
    (block : Bool) :
    telexLocalModFlow names s src sport dest dport block =
      s.mod ⟨dest, src, ntohs sport, ipprotoTcp⟩ block := by
  simp only [telexLocalModFlow, sendIptablesFlowCommand, addIpportip,
    ipsetParseElem_text names dest src (ntohs_le sport), OurSet.mod]
  generalize (⟨dest, src, ntohs sport, ipprotoTcp⟩ : Elem) = d
  cases block with
  | true =>
    cases hf : s.full with
    | true => simp [OurSet.add, hf]
    | false =>
      -- an element that is there already is left as it is
      by_cases hm : d ∈ s.elems <;> simp [OurSet.add, hf, hm]
  | false => by_cases hm : d ∈ s.elems <;> simp [OurSet.del, hm]

end Telex.FlowBlocker
