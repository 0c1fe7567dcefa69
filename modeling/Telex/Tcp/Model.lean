import Telex.Bro.Model
import Mathlib.Data.List.GetD
import Mathlib.Tactic.Ring

/-! Packets that the station makes itself: `telex-station/common/telex_tcp.c`

    `telex_tcp_forge_xmit` speaks for a server: it sends the client a payload in segments, with the
    headers of a `struct flow` that was filled from what the station saw of the connection. It calls
    itself for what does not fit one packet. `telex_fwd_pkt` sends on a packet that was held up at the
    station. The machine is little-endian, `char` is signed and `long` has 64 bits; a division by zero
    ends the program with `SIGFPE`. -/

namespace Telex.Tcp
open Bro (Byte ntohs)

/-- `struct timeval` -/
structure Timeval where
  tvSec : BitVec 64
  tvUsec : BitVec 64
  deriving DecidableEq

/-- `struct telex_tcp_ts` -/
structure TcpTs where
  tv : Timeval
  tsval : BitVec 32
  tsecr : BitVec 32
  deriving DecidableEq

/-- `struct telex_tcp_info` -/
structure TcpInfo where
  seq : BitVec 32
  ack : BitVec 32
  rcvWindow : BitVec 16
  rcvWindowScale : BitVec 16
  sndWindow : BitVec 16
  sndWindowScale : BitVec 16
  lastTs : TcpTs
  curTs : TcpTs
  optionTs : Byte
  optionSack : Byte
  flags : Byte
  deriving DecidableEq

/-- `struct flow`; addresses and ports are in network order. -/
structure Flow where
  origH : BitVec 32
  respH : BitVec 32
  origP : BitVec 16
  respP : BitVec 16
  lastTtl : Byte
  lastIpId : BitVec 16
  tcp : TcpInfo
  deriving DecidableEq

/-! ### Memory -/

/-- The bytes of a `uint16_t` in memory. -/
def le16 (x : BitVec 16) : List Byte := [x.setWidth 8, (x >>> 8).setWidth 8]

/-- The bytes of a `uint32_t` in memory. -/
def le32 (x : BitVec 32) : List Byte :=
  [x.setWidth 8, (x >>> 8).setWidth 8, (x >>> 16).setWidth 8, (x >>> 24).setWidth 8]

/-- `htonl` -/
def htonl (x : BitVec 32) : BitVec 32 :=
  x.setWidth 8 ++ (x >>> 8).setWidth 8 ++ (x >>> 16).setWidth 8 ++ (x >>> 24).setWidth 8

/-- Memory with `bytes` at its start. -/
def written (bytes : List Byte) (mem : ℕ → Byte) (i : ℕ) : Byte := bytes.getD i (mem i)

/-- The `uint16_t` at `i`. -/
def load16 (mem : ℕ → Byte) (i : ℕ) : BitVec 16 := mem (i + 1) ++ mem i

/-- Memory with a `uint16_t` at `i`. -/
def store16 (mem : ℕ → Byte) (i : ℕ) (x : BitVec 16) (j : ℕ) : Byte :=
  if j = i then x.setWidth 8 else if j = i + 1 then (x >>> 8).setWidth 8 else mem j

/-! ### Checksums -/

/-- The loop of `csum`. -/
def addWords : ℕ → (ℕ → Byte) → BitVec 32 → BitVec 32
  | 0, _, sum => sum
  | nwords + 1, buf, sum =>
    addWords nwords (fun i => buf (i + 2)) (sum + (ntohs (load16 buf 0)).setWidth 32)

/-- `csum` -/
def csum (buf : ℕ → Byte) (nwords : ℕ) (initSum : BitVec 32) : BitVec 16 :=
  let sum := addWords nwords buf initSum
  let sum := (sum >>> 16) + (sum &&& 0xffff)
  let sum := sum + (sum >>> 16)
  (~~~sum).setWidth 16

/-- `ihl` of the header at the start of memory. -/
def ihlAt (mem : ℕ → Byte) : ℕ := (mem 0).toNat % 16

/-- `tcp_csum` on the packet at the start of memory. What it leaves in `th_sum` is not seen: its caller
    stores there what it returns. -/
def tcpCsum (mem : ℕ → Byte) : BitVec 16 :=
  let tcpSize := (ntohs (load16 mem 2)).toNat - 20
  let tcph := 4 * ihlAt mem
  let sum : BitVec 32 := 0
  let sum := sum + ((ntohs (load16 mem 12)).setWidth 32 + (ntohs (load16 mem 14)).setWidth 32)
  let sum := sum + ((ntohs (load16 mem 16)).setWidth 32 + (ntohs (load16 mem 18)).setWidth 32)
  let sum := sum + 0x06
  let sum := sum + BitVec.ofNat 32 tcpSize
  let mem := store16 mem (tcph + 16) 0
  -- the last byte is a `char`, so it is widened with its sign
  let sum := if tcpSize % 2 = 1 then sum + (mem (tcph + (tcpSize - 1))).signExtend 32 <<< 8 else sum
  csum (fun i => mem (tcph + i)) (tcpSize / 2) sum

/-! ### Time stamps -/

/-- `telex_get_tv_diff` -/
def telexGetTvDiff (a b : Timeval) : BitVec 64 :=
  let secDiff : BitVec 32 := (b.tvSec - a.tvSec).setWidth 32
  let usecDiff : BitVec 32 := (b.tvUsec - a.tvUsec).setWidth 32
  secDiff.signExtend 64 * 1000000 + usecDiff.signExtend 64

/-- An unsigned division; nothing is `SIGFPE`. -/
def udiv (x y : BitVec 64) : Option (BitVec 64) := if y = 0 then none else some (x / y)

/-- `telex_get_next_tsval` at the time `now`, without its warning. -/
def telexGetNextTsval (last cur : TcpTs) (now : Timeval) : Option (BitVec 32) :=
  let tvDiff := telexGetTvDiff last.tv cur.tv
  let tsDiff : BitVec 64 := (cur.tsval - last.tsval).setWidth 64
  if tsDiff = 0 then some cur.tsval
  else (udiv tvDiff tsDiff).bind fun quot =>
    let usPerTsval : BitVec 32 := quot.setWidth 32
    let tvDiff := telexGetTvDiff cur.tv now
    (udiv tvDiff (usPerTsval.setWidth 64)).map fun quot =>
      (cur.tsval.setWidth 64 + quot).setWidth 32

/-- `telex_fill_ts`: the option it puts behind the TCP header. -/
def telexFillTs (tcp : TcpInfo) (now : Timeval) : Option (List Byte) :=
  (telexGetNextTsval tcp.lastTs tcp.curTs now).map fun nextTsval =>
    le16 0x0101 ++ [0x08, 0x0a] ++ le32 (htonl nextTsval) ++ le32 (htonl tcp.curTs.tsecr)

/-! ### Forging -/

/-- `struct iphdr` -/
structure Iphdr where
  ihl : BitVec 4
  version : BitVec 4
  tos : Byte
  totLen : BitVec 16
  id : BitVec 16
  fragOff : BitVec 16
  ttl : Byte
  protocol : Byte
  check : BitVec 16
  saddr : BitVec 32
  daddr : BitVec 32

def Iphdr.bytes (h : Iphdr) : List Byte :=
  [h.version ++ h.ihl, h.tos] ++ le16 h.totLen ++ le16 h.id ++ le16 h.fragOff ++
    [h.ttl, h.protocol] ++ le16 h.check ++ le32 h.saddr ++ le32 h.daddr

/-- `struct tcphdr` -/
structure Tcphdr where
  thSport : BitVec 16
  thDport : BitVec 16
  thSeq : BitVec 32
  thAck : BitVec 32
  thX2 : BitVec 4
  thOff : BitVec 4
  thFlags : Byte
  thWin : BitVec 16
  thSum : BitVec 16
  thUrp : BitVec 16

def Tcphdr.bytes (h : Tcphdr) : List Byte :=
  le16 h.thSport ++ le16 h.thDport ++ le32 h.thSeq ++ le32 h.thAck ++ [h.thOff ++ h.thX2, h.thFlags] ++
    le16 h.thWin ++ le16 h.thSum ++ le16 h.thUrp

/-- `tcp_len` -/
def tcpLen (fl : Flow) : ℕ := 20 + if fl.tcp.optionTs ≠ 0 then 12 else 0

/-- `tot_len` of a packet with `len` bytes of payload. -/
def totLen (fl : Flow) (len : ℕ) : ℕ := len + tcpLen fl + 20

/-- The IP header before its checksum is set. -/
def ipHdr (fl : Flow) (len : ℕ) : Iphdr where
  ihl := 5
  version := 4
  tos := 0
  totLen := ntohs (BitVec.ofNat 16 (totLen fl len))
  id := ntohs (fl.lastIpId + 1)
  fragOff := ntohs 0x4000
  ttl := fl.lastTtl
  protocol := 6
  check := 0
  saddr := fl.respH
  daddr := fl.origH

/-- `th_flags`: `TH_ACK`, with `TH_PUSH` for a payload, unless the flow has flags of its own. -/
def thFlags (fl : Flow) (len : ℕ) : Byte :=
  if fl.tcp.flags ≠ 0 then fl.tcp.flags else if len ≠ 0 then 0x10 ||| 0x08 else 0x10

/-- The TCP header before its checksum is set. -/
def tcpHdr (fl : Flow) (len : ℕ) : Tcphdr where
  thSport := fl.respP
  thDport := fl.origP
  thSeq := htonl fl.tcp.seq
  thAck := htonl fl.tcp.ack
  thX2 := 0
  thOff := BitVec.ofNat 4 (tcpLen fl >>> 2)
  thFlags := thFlags fl len
  thWin := ntohs fl.tcp.sndWindow
  thSum := 0
  thUrp := 0

/-- The time stamp option, when the flow has one. -/
def options (fl : Flow) (now : Timeval) : Option (List Byte) :=
  if fl.tcp.optionTs ≠ 0 then telexFillTs fl.tcp now else some []

/-- The packet in the allocated memory, which holds `heap` before: the checksums are set last, that of
    TCP first. -/
def packet (fl : Flow) (heap : ℕ → Byte) (opts data : List Byte) : List Byte :=
  let ip := ipHdr fl data.length
  let tcp := tcpHdr fl data.length
  let thSum := ntohs (tcpCsum (written (ip.bytes ++ tcp.bytes ++ opts ++ data) heap))
  let tcp := { tcp with thSum }
  let check := ntohs (csum (written (ip.bytes ++ tcp.bytes ++ opts ++ data) heap) 10 0)
  let ip := { ip with check }
  ip.bytes ++ tcp.bytes ++ opts ++ data

/-- What one call of `telex_tcp_forge_xmit` meets: the memory `malloc` gives, if any, the time and the
    result of `sendto`. -/
structure Outcome where
  malloc : Option (ℕ → Byte)
  now : Timeval
  sendto : ℤ

/-- A call of `sendto`: `sin` and the packet. -/
structure Sent where
  port : BitVec 16
  addr : BitVec 32
  pkt : List Byte
  deriving DecidableEq

/-- How `telex_tcp_forge_xmit` ends, and the flow it leaves. -/
inductive Ending
  | sigfpe
  | ret (res : ℕ) (fl : Flow)
  deriving DecidableEq

/-- The calls of `sendto`, oldest first, and the end. -/
structure Xmit where
  sent : List Sent
  ending : Ending
  deriving DecidableEq

/-- The flow record for the recursive call. -/
def Flow.advance (fl : Flow) : Flow :=
  { fl with lastIpId := fl.lastIpId + 1, tcp := { fl.tcp with seq := fl.tcp.seq + 1448 } }

/-- What is undone of it afterwards. -/
def Flow.setBack (fl : Flow) : Flow := { fl with tcp := { fl.tcp with seq := fl.tcp.seq - 1448 } }

def Ending.setBack : Ending → Ending
  | .sigfpe => .sigfpe
  | .ret res fl => .ret res fl.setBack

/-- `telex_tcp_forge_xmit`; `env k` is what its `k`th call in the recursion meets. -/
def telexTcpForgeXmit (env : ℕ → Outcome) (fl : Flow) (payload : List Byte) : Xmit :=
  match (env 0).malloc with
  | none => ⟨[], .ret 1 fl⟩
  | some heap =>
    match options fl (env 0).now with
    | none => ⟨[], .sigfpe⟩
    | some opts =>
      let data := payload.take 1448
      let sent := ⟨fl.origP, fl.origH, packet fl heap opts data⟩
      if 1448 < payload.length then
        let x := telexTcpForgeXmit (fun k => env (k + 1)) fl.advance (payload.drop 1448)
        ⟨sent :: x.sent, x.ending.setBack⟩
      else ⟨[sent], .ret (if (env 0).sendto = totLen fl data.length then 0 else 1) fl⟩
termination_by payload.length

/-! ### Forwarding -/

/-- `telex_fwd_pkt`: the call of `sendto` and the return value. `beyond` is the memory after the packet,
    and `sendto` the result of the call. -/
def telexFwdPkt (beyond : ℕ → Byte) (sendto : ℤ) (pkt : List Byte) : Sent × ℕ :=
  let mem := written pkt beyond
  let ihl := ihlAt mem
  let port := load16 mem (4 * ihl + 2)
  let addr := load16 mem 18 ++ load16 mem 16
  let pkt := pkt.set 8 (mem 8 + 1)
  let check := ntohs (csum (written pkt beyond) (ihl * 2) 0)
  let pkt := (pkt.set 10 (check.setWidth 8)).set 11 ((check >>> 8).setWidth 8)
  (⟨port, addr, pkt⟩, if sendto = pkt.length then 0 else 1)

end Telex.Tcp
