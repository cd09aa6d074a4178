import Xmhf.Lib.CString
import Xmhf.Router.Forward

/-!
# The router's ports

`app_parse_port_mask` and `app_init` of the test router: the port ids from the argument `-p`, and what is set up for
each of them. A run of the router (`Run`) is what DPDK answers during initialisation and to the three loops.
-/

namespace Xmhf.Router

open CString Memory

/-! ## The port mask -/

/-- The ports in `struct app_params` -/
structure PortIds where
  ports : List (BitVec 32)
  nPorts : BitVec 32
  deriving DecidableEq, Repr

/-- The loop over the bits of the mask -/
def portMaskLoop (portMask : BitVec 64) (app : PortIds) : List Nat → Except Int PortIds
  | [] => .ok app
  | i :: is =>
    if portMask &&& (1#64 <<< i) = 0 then portMaskLoop portMask app is
    else if appMaxPorts ≤ app.nPorts.toNat then .error (-4)
    else
      let ports := app.ports.set app.nPorts.toNat (BitVec.ofNat 32 i)
      portMaskLoop portMask { ports, nPorts := app.nPorts + 1 } is

/-- `rte_is_power_of_2`, which `rte_common.h` of DPDK documents: is `n` a power of 2? 0 is none. -/
def rteIsPowerOf2 (n : BitVec 32) : Bool := n ≠ 0 && n &&& (n - 1) = 0

/-- The mask that `strtoul` reads, for an `unsigned long` of `bits` bits -/
def portMask (bits : Nat) (arg : CStr) : BitVec 64 := BitVec.ofNat 64 (strtoul bits 16 arg).val

/-- `app_parse_port_mask`, with the ports that `app` has before -/
def appParsePortMask (bits : Nat) (app : PortIds) (arg : CStr) : Except Int PortIds :=
  if arg = [] then .error (-1)
  else if (strtoul bits 16 arg).rest ≠ [] then .error (-2)
  else if portMask bits arg = 0 then .error (-3)
  else do
    let app ← portMaskLoop (portMask bits arg) { app with nPorts := 0 } (List.range 64)
    if rteIsPowerOf2 app.nPorts then return app else throw (-5)

/-! ## Initialisation -/

/-- What a device answers: whether each call succeeds, its address, and its link. -/
structure Nic where
  configure : Bool
  rxQueueSetup : Bool
  txQueueSetup : Bool
  start : Bool
  macAddr : BitVec 48
  linkUp : Bool

/-- What DPDK answers during initialisation: which of the pool and the rings could be created, and the devices. -/
structure Dpdk where
  pool : Bool
  ringRx : Nat → Bool
  ringTx : Nat → Bool
  nic : BitVec 8 → Nic

/-- What ends the initialisation: `rte_panic`, or an access to an entry of `app.ip_ports` that is not set. -/
inductive InitStop
  | rtePanic
  | undefined
  deriving DecidableEq, Repr

/-- `if (!cond) rte_panic(..);` -/
def orPanic (cond : Bool) : Except InitStop Unit := if cond then .ok () else .error .rtePanic

/-- `rte_cpu_to_be_32`, which `rte_byteorder.h` of DPDK documents: from the order of the CPU, here little endian, to
big endian -/
def rteCpuToBe32 (v : BitVec 32) : BitVec 32 :=
  ((v &&& 0xFF) <<< 24) ||| ((v &&& 0xFF00) <<< 8) ||| ((v >>> 8) &&& 0xFF00) ||| (v >>> 24)

/-- `app.ip_ports`, which has two entries -/
abbrev IpPorts := BitVec 32 → Option IpPortConf

/-- `app.ip_ports` after the IP information was set for the port -/
def setIpPort (ipPorts : IpPorts) (macAddr : BitVec 48) (port : BitVec 8) : IpPorts :=
  if port = 0 then
    Function.update ipPorts 0 (some { portId := 0, ip := rteCpuToBe32 (ipv4 192 168 3 1), macAddr })
  else if port = 1 then
    Function.update ipPorts 1 (some { portId := 1, ip := rteCpuToBe32 (ipv4 192 168 4 1), macAddr })
  else
    ipPorts

/-- An iteration of the loop of `app_init_ports` -/
def appInitPort (dpdk : Dpdk) (ipPorts : IpPorts) (id : BitVec 32) : Except InitStop IpPorts := do
  let port : BitVec 8 := id.setWidth 8
  let nic := dpdk.nic port
  orPanic nic.configure
  orPanic nic.rxQueueSetup
  orPanic nic.txQueueSetup
  let ipPorts := setIpPort ipPorts nic.macAddr port
  -- the address is printed for every port
  match ipPorts (port.setWidth 32) with
  | none => throw .undefined
  | some _ =>
    orPanic nic.start
    return ipPorts

/-- `app_ports_check_link` -/
def appPortsCheckLink (dpdk : Dpdk) (ids : List (BitVec 32)) : Except InitStop Unit :=
  orPanic (ids.all fun id => (dpdk.nic (id.setWidth 8)).linkUp)

/-- `app` as `init.c` defines it, with the ports and their addresses -/
def appParams (app : PortIds) (ipPorts : IpPorts) : ForwardParams where
  ports := app.ports
  nPorts := app.nPorts
  ipPorts := ipPorts
  burstSizeWorkerRead := 1
  burstSizeWorkerWrite := 1
  burstSizeTxRead := 1
  burstSizeTxWrite := 1

/-- `app_init` -/
def appInit (dpdk : Dpdk) (app : PortIds) : Except InitStop ForwardParams := do
  let n := app.nPorts.toNat
  let ids := app.ports.take n
  orPanic dpdk.pool
  orPanic ((List.range n).all dpdk.ringRx)
  orPanic ((List.range n).all dpdk.ringTx)
  let ipPorts ← ids.foldlM (appInitPort dpdk) fun _ => none
  appPortsCheckLink dpdk ids
  return appParams app ipPorts

/-! ## Runs -/

/-- A run of the router: the answers during initialisation and to the receive loop, and the steps of the other two
loops, from the state that `rings` is. -/
structure Run where
  dpdk : Dpdk
  bursts : List Burst
  rings : Forward Mbuf
  acts : List (ForwardAct Mbuf)

/-- DPDK serves the burst: the pool has a buffer, and the ring has room in the end. -/
structure Burst.Served (b : Burst) : Prop where
  alloc : b.alloc.isSome = true
  room : ∃ t ∈ b.attempts, 0 ≤ t.ret

/-- The rings are fresh ones, and DPDK serves the router. -/
structure Run.Wf (r : Run) : Prop where
  served : ∀ b ∈ r.bursts, b.Served
  initial : r.rings.Initial

/-- The IP address that a reply comes from: the sender of an ARP message, or the source of a packet -/
def sourceIp (m : Mbuf) : BitVec 32 := load32 m.data (if isArp m then 28 else 26)

/-- The reply comes from the addresses that are configured for the device `p`, also in what an ARP message says. -/
def FromPort (app : AppParams) (p : BitVec 32) (m : Mbuf) : Prop :=
  ∃ conf, app.ipPorts p = some conf ∧ readLE m.data 6 6 = conf.macAddr.toNat ∧
    (isArp m = true → readLE m.data 22 6 = conf.macAddr.toNat) ∧ sourceIp m = conf.ip

/-- The iteration of the receive loop for `i` is defined, and what it sends goes to the device that it received from,
and comes from the addresses of this device. -/
def RxSound (app : AppParams) (i : BitVec 32) (b : Burst) : Prop :=
  i < app.nPorts ∧ ∃ log, rxStep app i b = some log ∧
    ∀ p m sent, .tx p m sent ∈ log → app.ports[i.toNat]? = some p ∧ FromPort app p m

/-- If the burst starts with an echo request to an address of the router, the addresses are those of the device that
received it. -/
def AsksOwn (app : AppParams) (i : BitVec 32) (b : Burst) : Prop :=
  ∀ m ∈ b.rx.head?, isArp m = false →
    m.data 23 = ipprotoIcmp ∧ m.data 34 = ipIcmpEchoRequest ∧ m.data 35 = 0 →
    ∀ j conf, app.ipPorts j = some conf → load32 m.data 30 = conf.ip →
      ∃ p, app.ports[i.toNat]? = some p ∧ app.ipPorts p = some conf ∧ readLE m.data 0 6 = conf.macAddr.toNat

/-- Every iteration of the receive loop from `i` on has the property. -/
def EachRx (app : AppParams) (P : BitVec 32 → Burst → Prop) : BitVec 32 → List Burst → Prop
  | _, [] => True
  | i, b :: bs => P i b ∧ EachRx app P (nextPort app i) bs

/-- Nothing that is not there is accessed in the run, and each reply goes back to where its frame came from, with the
addresses of that device. -/
def Run.Sound (r : Run) (args : PortIds) : Prop :=
  match appInit r.dpdk args with
  | .error stop => stop = .rtePanic
  | .ok app => EachRx app.toAppParams (RxSound app.toAppParams) 0 r.bursts ∧
      (Trans.run (forwardStep app) r.rings r.acts).isSome = true

/-- The echo requests of the run ask for the device that they come in on. -/
def Run.AsksOwn (r : Run) (args : PortIds) : Prop :=
  match appInit r.dpdk args with
  | .error _ => True
  | .ok app => EachRx app.toAppParams (Router.AsksOwn app.toAppParams) 0 r.bursts

end Xmhf.Router
