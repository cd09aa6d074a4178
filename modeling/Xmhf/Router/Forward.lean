import Xmhf.Lib.Ring
import Xmhf.Lib.Trans
import Xmhf.Router.Runtime

/-!
# The router's worker and transmit loops

`app_main_loop_worker` moves buffers from `app.rings_rx[i]` to `app.rings_tx[i^1]`, and
`app_main_loop_tx` from there to the driver. The two run at the same time, each on its own core, and
meet in the rings only: a run of the system is any sequence of their steps, of what the receive loop puts
on its rings, and of what the driver answers.

A step goes from one operation on a ring, or one call of the driver, to the next; it is `none` where a slot
outside an array, or a ring that was not created, would be accessed.
-/

namespace Xmhf.Router

/-! ## Parameters -/

/-- `APP_MBUF_ARRAY_SIZE` -/
def appMbufArraySize : Nat := 256

/-- `APP_MAX_PORTS` -/
def appMaxPorts : Nat := 4

/-- `struct app_params`, with the burst sizes of the two loops -/
structure ForwardParams extends AppParams where
  burstSizeWorkerRead : BitVec 32
  burstSizeWorkerWrite : BitVec 32
  burstSizeTxRead : BitVec 32
  burstSizeTxWrite : BitVec 32

/-! ## State -/

/-- `struct app_mbuf_array`. `β` stands for `struct rte_mbuf *`. -/
structure MbufArray (β : Type) where
  array : List.Vector β appMbufArraySize
  nMbufs : BitVec 16

/-- Where the worker is: at `rte_ring_sc_dequeue_bulk`, or in the loop around
`rte_ring_sp_enqueue_bulk`. -/
inductive WorkerPc
  | dequeue
  | enqueue
  deriving DecidableEq, Repr

/-- The worker, with its index and `worker_mbuf->array` -/
structure Worker (β : Type) where
  i : BitVec 32
  pc : WorkerPc
  array : List.Vector β appMbufArraySize

/-- Where the transmit loop is: at `rte_ring_sc_dequeue_bulk`; at `rte_eth_tx_burst`; or in the loop over
`k` that frees. -/
inductive TxPc
  | dequeue
  | burst (nMbufs : BitVec 16)
  | free (nMbufs k : BitVec 16)
  deriving DecidableEq, Repr

/-- The transmit loop, with its index -/
structure Tx where
  i : BitVec 32
  pc : TxPc
  deriving DecidableEq, Repr

/-- What the two loops do with buffers. -/
inductive ForwardEvent (β : Type)
  /-- The buffers came out of `app.rings_rx[i]`. -/
  | taken (i : BitVec 32) (ms : List β)
  /-- `rte_eth_tx_burst`, called for `app.ports[i]`, with its result -/
  | txBurst (i : BitVec 32) (port : BitVec 32) (ms : List β) (nPkts : BitVec 16)
  /-- `rte_pktmbuf_free` -/
  | free (m : β)

/-- The rings, the state of the two loops, and what happened so far -/
structure Forward (β : Type) where
  ringsRx : BitVec 32 → Ring β
  ringsTx : BitVec 32 → Ring β
  worker : Worker β
  mbufTx : BitVec 32 → MbufArray β
  tx : Tx
  log : List (ForwardEvent β)

/-- One step -/
inductive ForwardAct (β : Type)
  /-- The receive loop calls `rte_ring_sp_enqueue_bulk` for `app.rings_rx[i]`. -/
  | receive (i : BitVec 32) (ms : List β)
  /-- The worker takes a step. -/
  | worker
  /-- The transmit loop takes a step; `rte_eth_tx_burst` returns `nPkts` if it is called. -/
  | tx (nPkts : BitVec 16)

/-! ## Steps -/

variable {β : Type}

/-- `i ^ 1` -/
def otherPort (i : BitVec 32) : BitVec 32 := i ^^^ 1

/-- `app_main_loop_worker` -/
def workerStep (app : ForwardParams) (s : Forward β) : Option (Forward β) := do
  let i := s.worker.i
  match s.worker.pc with
  | .dequeue =>
    guard (i < app.nPorts)
    match (s.ringsRx i).dequeueBulk app.burstSizeWorkerRead.toNat with
    | none => return { s with worker := { s.worker with i := nextPort app.toAppParams i } }
    | some (ms, ring) =>
      let array ← storeSlots s.worker.array 0 ms
      return { s with
        ringsRx := Function.update s.ringsRx i ring
        worker := { s.worker with pc := .enqueue, array }
        log := s.log ++ [.taken i ms] }
  | .enqueue =>
    guard (otherPort i < app.nPorts)
    let ms ← loadSlots s.worker.array app.burstSizeWorkerWrite.toNat
    match (s.ringsTx (otherPort i)).enqueueBulk ms with
    | none => return s
    | some ring =>
      return { s with
        ringsTx := Function.update s.ringsTx (otherPort i) ring
        worker := { s.worker with i := nextPort app.toAppParams i, pc := .dequeue } }

/-- `app_main_loop_tx` -/
def txStep (app : ForwardParams) (s : Forward β) (nPkts : BitVec 16) : Option (Forward β) := do
  let i := s.tx.i
  guard (i.toNat < appMaxPorts)
  let mbufTx := s.mbufTx i
  match s.tx.pc with
  | .dequeue =>
    guard (i < app.nPorts)
    match (s.ringsTx i).dequeueBulk app.burstSizeTxRead.toNat with
    | none => return { s with tx := { s.tx with i := nextPort app.toAppParams i } }
    | some (ms, ring) =>
      let array ← storeSlots mbufTx.array mbufTx.nMbufs.toNat ms
      let nMbufs : BitVec 16 := (mbufTx.nMbufs.setWidth 32 + app.burstSizeTxRead).setWidth 16
      let ringsTx := Function.update s.ringsTx i ring
      if nMbufs.setWidth 32 < app.burstSizeTxWrite then
        return { s with
          ringsTx
          mbufTx := Function.update s.mbufTx i { array, nMbufs }
          tx := { i := nextPort app.toAppParams i, pc := .dequeue } }
      else
        return { s with
          ringsTx
          mbufTx := Function.update s.mbufTx i { mbufTx with array }
          tx := { i, pc := .burst nMbufs } }
  | .burst nMbufs =>
    let port ← app.ports[i.toNat]?
    let ms ← loadSlots mbufTx.array nMbufs.toNat
    return { s with
      tx := { i, pc := .free nMbufs nPkts }
      log := s.log ++ [.txBurst i port ms nPkts] }
  | .free nMbufs k =>
    if k < nMbufs then do
      let pktToFree ← mbufTx.array.toList[k.toNat]?
      return { s with
        tx := { i, pc := .free nMbufs (k + 1) }
        log := s.log ++ [.free pktToFree] }
    else
      return { s with
        mbufTx := Function.update s.mbufTx i { mbufTx with nMbufs := 0 }
        tx := { i := nextPort app.toAppParams i, pc := .dequeue } }

/-- A step of the system -/
def forwardStep (app : ForwardParams) (s : Forward β) : ForwardAct β → Option (Forward β)
  | .receive i ms =>
    match (s.ringsRx i).enqueueBulk ms with
    | none => some s
    | some ring => some { s with ringsRx := Function.update s.ringsRx i ring }
  | .worker => workerStep app s
  | .tx nPkts => txStep app s nPkts

/-- The two loops before their first iteration: the rings are created empty, and `app` is static data. -/
structure Forward.Initial (s : Forward β) : Prop where
  ringsRx : ∀ i, (s.ringsRx i).items = []
  ringsTx : ∀ i, (s.ringsTx i).items = []
  worker : s.worker.i = 0 ∧ s.worker.pc = .dequeue
  mbufTx : ∀ i, (s.mbufTx i).nMbufs = 0
  tx : s.tx = { i := 0, pc := .dequeue }
  log : s.log = []

/-! ## Accounts -/

/-- The buffers that came out of `app.rings_rx[i]`, the first one first -/
def taken (i : BitVec 32) (log : List (ForwardEvent β)) : List β :=
  log.flatMap fun
    | .taken j ms => if j = i then ms else []
    | _ => []

/-- The buffers that were handed to `rte_eth_tx_burst` for `app.ports[i]`, the first one first -/
def handed (i : BitVec 32) (log : List (ForwardEvent β)) : List β :=
  log.flatMap fun
    | .txBurst j _ ms _ => if j = i then ms else []
    | _ => []

/-- The buffers that `rte_eth_tx_burst` did not take -/
def rejected (log : List (ForwardEvent β)) : List β :=
  log.flatMap fun
    | .txBurst _ _ ms nPkts => ms.drop nPkts.toNat
    | _ => []

/-- The buffers that were freed -/
def freed (log : List (ForwardEvent β)) : List β :=
  log.flatMap fun
    | .free m => [m]
    | _ => []

/-- How many of the slots of `app.mbuf_tx[i]` hold a buffer that is still to be handed over -/
def Tx.held (t : Tx) (i : BitVec 32) (nMbufs : BitVec 16) : Nat :=
  if t.i = i then
    match t.pc with
    | .dequeue => nMbufs.toNat
    | .burst nMbufs => nMbufs.toNat
    | .free .. => 0
  else
    nMbufs.toNat

/-- The buffers on their way to `app.ports[i]`: those in `app.mbuf_tx[i]`, then those on the ring, then
those that the worker holds -/
def Forward.underway (s : Forward β) (app : ForwardParams) (i : BitVec 32) : List β :=
  (s.mbufTx i).array.toList.take (s.tx.held i (s.mbufTx i).nMbufs) ++ ((s.ringsTx i).items ++
    if s.worker.pc = .enqueue ∧ otherPort s.worker.i = i then
      s.worker.array.toList.take app.burstSizeWorkerWrite.toNat
    else [])

/-- The buffers that the transmit loop is about to free -/
def Forward.unfreed (s : Forward β) : List β :=
  match s.tx.pc with
  | .free nMbufs k => ((s.mbufTx s.tx.i).array.toList.take nMbufs.toNat).drop k.toNat
  | _ => []

/-- The parameters of the command line and of `init.c`: a number of ports that is a power of two, and
bursts that fit the arrays -/
structure ForwardParams.Fits (app : ForwardParams) : Prop where
  nPorts : ∃ n, app.nPorts.toNat = 2 ^ n
  nPorts_bounds : 2 ≤ app.nPorts.toNat ∧ app.nPorts.toNat ≤ appMaxPorts
  ports : app.ports.length = appMaxPorts
  workerRead : 1 ≤ app.burstSizeWorkerRead.toNat
  workerWrite : app.burstSizeWorkerWrite = app.burstSizeWorkerRead
  worker_le : app.burstSizeWorkerWrite.toNat ≤ appMbufArraySize
  txRead : 1 ≤ app.burstSizeTxRead.toNat
  txWrite : 1 ≤ app.burstSizeTxWrite.toNat
  tx_le : app.burstSizeTxWrite.toNat + app.burstSizeTxRead.toNat - 1 ≤ appMbufArraySize

end Xmhf.Router
