import Xmhf.Lib.Custody
import Xmhf.Lib.Memory

/-!
# The router's receive loop

`app_main_loop_rx` of the test router: what one iteration does with the buffers that it gets from the
driver and from the pool.

A run is given by what DPDK answers in each iteration (`Burst`): the buffers received, the buffer
allocated, how many buffers the driver accepted, and how each attempt to enqueue went. An iteration
gives the log of its events; it is `none` where it does not end, or reads through a pointer that is not set.
-/

namespace Xmhf.Router

open Memory

/-! ## Buffers and headers -/

/-- `struct rte_mbuf` at `addr`, with the bytes from `rte_pktmbuf_mtod` on. -/
structure Mbuf where
  addr : Nat
  dataLen : BitVec 16
  pktLen : BitVec 32
  port : BitVec 8
  data : Mem

/-- `struct ip_port_conf` -/
structure IpPortConf where
  portId : BitVec 8
  ip : BitVec 32
  macAddr : BitVec 48
  deriving DecidableEq, Repr

/-- `struct app_params`, as far as it is used. `ipPorts` has an entry where the pointer is set. -/
structure AppParams where
  ports : List (BitVec 32)
  nPorts : BitVec 32
  ipPorts : BitVec 32 → Option IpPortConf

/-- The 2-byte word at `a`. -/
def load16 (d : Mem) (a : Nat) : BitVec 16 := BitVec.ofNat 16 (readLE d a 2)

/-- `RTE_BE_TO_CPU_16`, `rte_cpu_to_be_16` (as `rte_byteorder.h` of DPDK documents them) and `htons`, on a CPU of
little endian -/
def swap16 (v : BitVec 16) : BitVec 16 := ((v &&& 0xFF) <<< 8) ||| (v >>> 8)

/-- `IPv4(a,b,c,d)`, which `rte_ip.h` of DPDK documents: the address a.b.c.d in the order of the CPU -/
def ipv4 (a b c d : BitVec 8) : BitVec 32 :=
  (a.setWidth 32 <<< 24) ||| (b.setWidth 32 <<< 16) ||| (c.setWidth 32 <<< 8) ||| d.setWidth 32

/-- `ETHER_TYPE_ARP` -/
def etherTypeArp : BitVec 16 := 0x0806

/-- `ETHER_TYPE_IPv4` -/
def etherTypeIPv4 : BitVec 16 := 0x0800

/-- `IPPROTO_ICMP` -/
def ipprotoIcmp : BitVec 8 := 1

/-- `IP_ICMP_ECHO_REQUEST` -/
def ipIcmpEchoRequest : BitVec 8 := 8

/-- `IP_ICMP_ECHO_REPLY` -/
def ipIcmpEchoReply : BitVec 8 := 0

/-- `initialize_eth_header`; the VLAN arguments are not used. -/
def initializeEthHeader (d : Mem) (srcMac dstMac : Nat) (etherType : BitVec 16) : Mem :=
  let d := writeLE d 0 6 dstMac
  let d := writeLE d 6 6 srcMac
  writeLE d 12 2 (swap16 etherType).toNat

/-- `initialize_arp_header`, with the ARP header after the Ethernet header -/
def initializeArpHeader (d : Mem) (srcMac dstMac srcIp dstIp : Nat) (opcode : BitVec 16) : Mem :=
  let d := writeLE d 14 2 (swap16 1).toNat
  let d := writeLE d 16 2 (swap16 etherTypeIPv4).toNat
  let d := writeLE d 18 1 6
  let d := writeLE d 19 1 4
  let d := writeLE d 20 2 (swap16 opcode).toNat
  let d := writeLE d 22 6 srcMac
  let d := writeLE d 28 4 srcIp
  let d := writeLE d 32 6 dstMac
  writeLE d 38 4 dstIp

/-- The ARP reply, built in `pkt`, to the request in `m` that came in on the port `self` -/
def arpReply (self : IpPortConf) (i : BitVec 32) (m pkt : Mbuf) : Mbuf :=
  let pktSize := 14 + 28
  let ethPkt := initializeEthHeader pkt.data self.macAddr.toNat (readLE m.data 6 6) etherTypeArp
  { pkt with
    dataLen := BitVec.ofNat 16 pktSize
    pktLen := BitVec.ofNat 32 pktSize
    port := i.setWidth 8
    data := initializeArpHeader ethPkt self.macAddr.toNat (readLE m.data 6 6) self.ip.toNat
      (readLE m.data 28 4) 2 }

/-- The checksum of the echo reply, from that of the request -/
def echoReplyCksum (icmpCksum : BitVec 16) : BitVec 16 :=
  let request := swap16 (ipIcmpEchoRequest.setWidth 16 <<< 8)
  let reply := swap16 (ipIcmpEchoReply.setWidth 16 <<< 8)
  let cksum : BitVec 32 := ~~~(icmpCksum.setWidth 32) &&& 0xffff
  let cksum := cksum + (~~~(request.setWidth 32) &&& 0xffff)
  let cksum := cksum + reply.setWidth 32
  let cksum := (cksum &&& 0xffff) + (cksum >>> 16)
  let cksum := (cksum &&& 0xffff) + (cksum >>> 16)
  (~~~cksum).setWidth 16

/-- The echo reply, built in place -/
def echoReply (m : Mbuf) : Mbuf :=
  let ethAddr := readLE m.data 6 6
  let d := writeLE m.data 6 6 (readLE m.data 0 6)
  let d := writeLE d 0 6 ethAddr
  let ipAddr := readLE d 26 4
  let d := writeLE d 26 4 (readLE d 30 4)
  let d := writeLE d 30 4 ipAddr
  let d := writeLE d 34 1 ipIcmpEchoReply.toNat
  { m with data := writeLE d 36 2 (echoReplyCksum (load16 d 36)).toNat }

/-! ## Classification -/

/-- `eth_type == ETHER_TYPE_ARP` -/
def isArp (m : Mbuf) : Bool := swap16 (load16 m.data 12) = etherTypeArp

/-- The condition for an echo request to one of the router's addresses; `app.ip_ports[i^1]` is read only
when the first address differs. -/
def isEchoRequest (app : AppParams) (i : BitVec 32) (m : Mbuf) : Option Bool :=
  if m.data 23 = ipprotoIcmp ∧ m.data 34 = ipIcmpEchoRequest ∧ m.data 35 = 0 then do
    let self ← app.ipPorts i
    if load32 m.data 30 = self.ip then
      return true
    else
      let other ← app.ipPorts (i ^^^ 1)
      return decide (load32 m.data 30 = other.ip)
  else
    some false

/-! ## The loop -/

/-- What is done with a buffer. -/
inductive Event
  /-- `rte_eth_rx_burst` returned the buffer. -/
  | received (port : BitVec 32) (m : Mbuf)
  /-- `rte_pktmbuf_alloc` returned it. -/
  | allocated (m : Mbuf)
  /-- `rte_eth_tx_burst` on a port, with its result -/
  | tx (port : BitVec 32) (m : Mbuf) (sent : Nat)
  /-- `rte_pktmbuf_free` -/
  | free (m : Mbuf)
  /-- The buffer was put on `app.rings_rx[i]`. -/
  | enqueued (i : BitVec 32) (m : Mbuf)

/-- One call of `rte_ring_sp_enqueue_bulk`: its result, and whether the buffers are on the ring. -/
structure Attempt where
  ret : Int
  put : Bool
  deriving DecidableEq, Repr

/-- What DPDK answers in one iteration. -/
structure Burst where
  /-- The `n_mbufs` buffers that `rte_eth_rx_burst` put into the array -/
  rx : List Mbuf
  /-- The result of `rte_pktmbuf_alloc`; `none` is `NULL`. -/
  alloc : Option Mbuf
  /-- The result of `rte_eth_tx_burst` -/
  sent : Nat
  /-- The calls of `rte_ring_sp_enqueue_bulk` -/
  attempts : List Attempt

/-- `do { ret = rte_ring_sp_enqueue_bulk(..); } while (ret < 0)`; `none` when it goes on. -/
def enqueueLoop (i : BitVec 32) (ms : List Mbuf) : List Attempt → Option (List Event)
  | [] => none
  | a :: as =>
    let events := if a.put then ms.map (.enqueued i) else []
    if a.ret < 0 then (enqueueLoop i ms as).map (events ++ ·) else some events

/-- The body of the loop after `rte_eth_rx_burst`: the events of the iteration. -/
def rxDispose (app : AppParams) (i : BitVec 32) (b : Burst) : Option (List Event) :=
  match b.rx with
  | [] => some []
  | m :: _ =>
    if isArp m then do
      let pkt ← b.alloc
      let self ← app.ipPorts i
      return [.allocated pkt, .tx i (arpReply self i m pkt) b.sent, .free pkt]
    else do
      if ← isEchoRequest app i m then
        return [.tx i (echoReply m) b.sent, .free m]
      else
        enqueueLoop i b.rx b.attempts

/-- One iteration. -/
def rxStep (app : AppParams) (i : BitVec 32) (b : Burst) : Option (List Event) := do
  let port ← app.ports[i.toNat]?
  let events ← rxDispose app i b
  return b.rx.map (.received port) ++ events

/-- `i = ((i + 1) & (app.n_ports - 1))` -/
def nextPort (app : AppParams) (i : BitVec 32) : BitVec 32 := (i + 1) &&& (app.nPorts - 1)

/-- `app_main_loop_rx` from `i` on: a log for each iteration. -/
def appMainLoopRx (app : AppParams) : BitVec 32 → List Burst → Option (List (List Event))
  | _, [] => some []
  | i, b :: bs => do
    let log ← rxStep app i b
    let logs ← appMainLoopRx app (nextPort app i) bs
    return log :: logs

/-! ## Custody of the buffers -/

/-- The event gives the router the buffer at `a`. -/
def Event.Acquires (a : Nat) : Event → Prop
  | .received _ m | .allocated m => m.addr = a
  | _ => False

/-- The event is an operation on the buffer at `a`. -/
def Event.Mentions (a : Nat) : Event → Prop
  | .received .. | .allocated .. => False
  | .tx _ m _ | .free m | .enqueued _ m => m.addr = a

/-- The event takes the buffer at `a` from the router: `rte_eth_tx_burst` takes as many of its buffers,
of which there is one, as it returns. -/
def Event.Takes (a : Nat) : Event → Prop
  | .received .. | .allocated .. => False
  | .tx _ m sent => ∃ m' ∈ [m].take sent, m'.addr = a
  | .free m | .enqueued _ m => m.addr = a

/-- The custody of the buffers, by address -/
def rxCustody : Custody Event Nat where
  mentions e a := e.Mentions a
  takes e a := e.Takes a
  mentions_of_takes {e a} h := by
    cases e with
    | received | allocated => exact h
    | free | enqueued => exact h
    | tx port m sent =>
      obtain ⟨m', hm', ha⟩ := h
      rwa [List.mem_singleton.mp (List.mem_of_mem_take hm')] at ha

/-- Each buffer that the iteration got is handed over once and then left alone. -/
def OwnsOnce (log : List Event) : Prop :=
  ∀ a, (∃ e ∈ log, e.Acquires a) → rxCustody.Once log a

/-- What the documentation of DPDK promises, on rings without a watermark: the buffers are different
ones, and a bulk is enqueued just when the result is not negative. -/
structure Burst.Lawful (b : Burst) : Prop where
  nodup : (b.rx.map Mbuf.addr).Nodup
  fresh : ∀ pkt, b.alloc = some pkt → pkt.addr ∉ b.rx.map Mbuf.addr
  put_iff : ∀ a ∈ b.attempts, a.put = true ↔ 0 ≤ a.ret

/-- DPDK keeps its promise in each iteration before which the router has not misused a buffer. -/
def DpdkLawful (app : AppParams) : BitVec 32 → List Burst → Prop
  | _, [] => True
  | i, b :: bs => b.Lawful ∧
    ∀ log, rxStep app i b = some log → OwnsOnce log → DpdkLawful app (nextPort app i) bs

end Xmhf.Router
