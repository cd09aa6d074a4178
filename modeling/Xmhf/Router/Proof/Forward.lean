import Mathlib.Data.Nat.Bitwise
import Xmhf.Router.Forward

/-!
# The buffers of the worker and transmit loops

* `Forward.Inv`: what came out of a receive ring was handed to the driver or is underway, in this order.
* `workerStep_inv`, `txStep_inv`: each step is possible and keeps the invariant.
* `forward_conserves`: so in every run, the buffers of each ring reach the driver once and in order, and
  those that the driver does not take are freed once.
-/

namespace Xmhf.Router

variable {β : Type} {app : ForwardParams} {s s' : Forward β} {i j : BitVec 32}
  {log : List (ForwardEvent β)} {e : ForwardEvent β} {ms : List β} {nPkts nMbufs k : BitVec 16}

/-! ## Ports -/

@[simp] theorem otherPort_otherPort (i : BitVec 32) : otherPort (otherPort i) = i := by
  rw [otherPort, otherPort, BitVec.xor_assoc, BitVec.xor_self, BitVec.xor_zero]

theorem otherPort_eq_iff : otherPort i = j ↔ i = otherPort j := by
  constructor
  · rintro rfl
    rw [otherPort_otherPort]
  · rintro rfl
    rw [otherPort_otherPort]

theorem nextPort_lt (happ : app.Fits) (i : BitVec 32) : nextPort app.toAppParams i < app.nPorts := by
  have hbounds := happ.nPorts_bounds
  have hle : (nextPort app.toAppParams i).toNat ≤ (app.nPorts - 1).toNat := by
    rw [nextPort, BitVec.toNat_and]
    exact Nat.and_le_right
  rw [BitVec.lt_def]
  have hone : (1 : BitVec 32).toNat = 1 := rfl
  rw [BitVec.toNat_sub_of_le (by rw [BitVec.le_def, hone]; omega), hone] at hle
  omega

theorem otherPort_lt (happ : app.Fits) (hi : i < app.nPorts) : otherPort i < app.nPorts := by
  obtain ⟨n, hn⟩ := happ.nPorts
  have hbounds := happ.nPorts_bounds
  rw [BitVec.lt_def, hn] at hi ⊢
  have hone : (1 : BitVec 32).toNat < 2 ^ n := by
    change 1 < 2 ^ n
    omega
  rw [otherPort, BitVec.toNat_xor]
  exact Nat.xor_lt_two_pow hi hone

/-! ## Accounts -/

@[simp] theorem taken_append (ms : List β) :
    taken j (log ++ [.taken i ms]) = taken j log ++ if i = j then ms else [] := by
  simp [taken]

@[simp] theorem taken_append_txBurst {port : BitVec 32} :
    taken j (log ++ [.txBurst i port ms nPkts]) = taken j log := by
  simp [taken]

@[simp] theorem taken_append_free (m : β) : taken j (log ++ [.free m]) = taken j log := by
  simp [taken]

@[simp] theorem handed_append_taken : handed j (log ++ [.taken i ms]) = handed j log := by
  simp [handed]

@[simp] theorem handed_append {port : BitVec 32} :
    handed j (log ++ [.txBurst i port ms nPkts]) = handed j log ++ if i = j then ms else [] := by
  simp [handed]

@[simp] theorem handed_append_free (m : β) : handed j (log ++ [.free m]) = handed j log := by
  simp [handed]

@[simp] theorem rejected_append_taken : rejected (log ++ [.taken i ms]) = rejected log := by
  simp [rejected]

@[simp] theorem rejected_append {port : BitVec 32} :
    rejected (log ++ [.txBurst i port ms nPkts]) = rejected log ++ ms.drop nPkts.toNat := by
  simp [rejected]

@[simp] theorem rejected_append_free (m : β) : rejected (log ++ [.free m]) = rejected log := by
  simp [rejected]

@[simp] theorem freed_append_taken : freed (log ++ [.taken i ms]) = freed log := by
  simp [freed]

@[simp] theorem freed_append_txBurst {port : BitVec 32} :
    freed (log ++ [.txBurst i port ms nPkts]) = freed log := by
  simp [freed]

@[simp] theorem freed_append (m : β) : freed (log ++ [.free m]) = freed log ++ [m] := by
  simp [freed]

/-! ## Invariant -/

/-- The number of buffers that the transmit loop works on fits its array. -/
def TxPc.Fits : TxPc → Prop
  | .dequeue => True
  | .burst nMbufs | .free nMbufs _ => nMbufs.toNat ≤ appMbufArraySize

/-- Every call of the driver was for one of the ports, with its number. -/
def PortsOk (app : ForwardParams) (log : List (ForwardEvent β)) : Prop :=
  ∀ i port ms nPkts, .txBurst i port ms nPkts ∈ log → i < app.nPorts ∧ app.ports[i.toNat]? = some port

/-- What holds between any two steps -/
structure Forward.Inv (app : ForwardParams) (s : Forward β) : Prop where
  workerPort : s.worker.i < app.nPorts
  txPort : s.tx.i < app.nPorts
  txPc : s.tx.pc.Fits
  below : ∀ i, (s.mbufTx i).nMbufs.toNat < app.burstSizeTxWrite.toNat
  account : ∀ i, taken (otherPort i) s.log = handed i s.log ++ s.underway app i
  frees : rejected s.log = freed s.log ++ s.unfreed
  ports : PortsOk app s.log

theorem portsOk_append (h : PortsOk app log)
    (he : ∀ i port ms nPkts, e = .txBurst i port ms nPkts →
      i < app.nPorts ∧ app.ports[i.toNat]? = some port) : PortsOk app (log ++ [e]) := by
  intro i port ms nPkts hmem
  rcases List.mem_append.mp hmem with hmem | hmem
  · exact h i port ms nPkts hmem
  · exact he i port ms nPkts (List.mem_singleton.mp hmem).symm

theorem inv_initial (happ : app.Fits) (h : s.Initial) : s.Inv app := by
  have hbounds := happ.nPorts_bounds
  have hzero : (0 : BitVec 32) < app.nPorts := by
    rw [BitVec.lt_def]
    exact Nat.lt_of_lt_of_le Nat.zero_lt_two hbounds.1
  constructor
  · rw [h.worker.1]
    exact hzero
  · rw [h.tx]
    exact hzero
  · rw [h.tx]
    trivial
  · intro i
    rw [h.mbufTx i]
    exact happ.txWrite
  · intro i
    simp [h.log, taken, handed, Forward.underway, Tx.held, h.tx, h.mbufTx, h.ringsTx, h.worker.2]
  · simp [h.log, rejected, freed, Forward.unfreed, h.tx]
  · rw [h.log]
    nofun

/-! ## The worker -/

theorem workerStep_inv (happ : app.Fits) (h : s.Inv app) :
    ∃ s', workerStep app s = some s' ∧ s'.Inv app := by
  have hread : app.burstSizeWorkerRead.toNat ≤ appMbufArraySize := happ.workerWrite ▸ happ.worker_le
  have hnext := nextPort_lt happ s.worker.i
  cases hpc : s.worker.pc with
  | dequeue =>
    cases hdeq : (s.ringsRx s.worker.i).dequeueBulk app.burstSizeWorkerRead.toNat with
    | none =>
      have hstep : workerStep app s =
          some { s with worker := { s.worker with i := nextPort app.toAppParams s.worker.i } } := by
        simp [workerStep, hpc, hdeq, h.workerPort]
      refine ⟨_, hstep, hnext, h.txPort, h.txPc, h.below, fun i => ?_, h.frees, h.ports⟩
      rw [h.account i]
      simp [Forward.underway, hpc]
    | some out =>
      obtain ⟨ms, ring⟩ := out
      obtain ⟨-, hlen⟩ := Ring.dequeueBulk_eq_some hdeq
      obtain ⟨array, hstore, htake⟩ :=
        storeSlots_of_le (a := s.worker.array) (show 0 + ms.length ≤ appMbufArraySize by omega)
      have hstep : workerStep app s = some { s with
          ringsRx := Function.update s.ringsRx s.worker.i ring
          worker := { s.worker with pc := .enqueue, array }
          log := s.log ++ [.taken s.worker.i ms] } := by
        simp [workerStep, hpc, hdeq, h.workerPort, hstore]
      refine ⟨_, hstep, h.workerPort, h.txPort, h.txPc, h.below, fun i => ?_, ?_, ?_⟩
      · have hms : array.toList.take app.burstSizeWorkerWrite.toNat = ms := by
          rw [happ.workerWrite, ← hlen]
          simpa using htake
        rw [taken_append, handed_append_taken, h.account i]
        simp [Forward.underway, hpc, otherPort_eq_iff, hms]
      · simpa [Forward.unfreed] using h.frees
      · exact portsOk_append h.ports fun _ _ _ _ he => by cases he
  | enqueue =>
    have hi := otherPort_lt happ h.workerPort
    have hload := loadSlots_of_le (a := s.worker.array) happ.worker_le
    cases henq : (s.ringsTx (otherPort s.worker.i)).enqueueBulk
        (s.worker.array.toList.take app.burstSizeWorkerWrite.toNat) with
    | none =>
      have hstep : workerStep app s = some s := by
        simp [workerStep, hpc, hi, hload, henq]
      exact ⟨s, hstep, h⟩
    | some ring =>
      have hstep : workerStep app s = some { s with
          ringsTx := Function.update s.ringsTx (otherPort s.worker.i) ring
          worker := { s.worker with i := nextPort app.toAppParams s.worker.i, pc := .dequeue } } := by
        simp [workerStep, hpc, hi, hload, henq]
      refine ⟨_, hstep, hnext, h.txPort, h.txPc, h.below, fun i => ?_, h.frees, h.ports⟩
      rw [h.account i]
      have hitems := Ring.enqueueBulk_eq_some henq
      by_cases hto : otherPort s.worker.i = i
      · subst hto
        simp [Forward.underway, hpc, hitems]
      · have hne : i ≠ otherPort s.worker.i := Ne.symm hto
        simp [Forward.underway, hpc, hto, Function.update_of_ne hne]

/-! ## The transmit loop -/

theorem held_dequeue (p : BitVec 32) : ({ i := p, pc := .dequeue } : Tx).held i nMbufs = nMbufs.toNat := by
  simp [Tx.held]

theorem held_of_ne {t : Tx} (h : t.i ≠ i) : t.held i nMbufs = nMbufs.toNat := if_neg h

theorem toNat_add_read {read : BitVec 32} (h : nMbufs.toNat + read.toNat ≤ appMbufArraySize) :
    ((nMbufs.setWidth 32 + read).setWidth 16).toNat = nMbufs.toNat + read.toNat := by
  have hsize : appMbufArraySize = 256 := rfl
  rw [BitVec.toNat_setWidth, BitVec.toNat_add, BitVec.toNat_setWidth]
  omega

theorem setWidth_lt_iff {write : BitVec 32} :
    nMbufs.setWidth 32 < write ↔ nMbufs.toNat < write.toNat := by
  rw [BitVec.lt_def, BitVec.toNat_setWidth, Nat.mod_eq_of_lt (by omega)]

theorem tx_lt_maxPorts (happ : app.Fits) (h : s.Inv app) : s.tx.i.toNat < appMaxPorts := by
  have hlt := BitVec.lt_def.mp h.txPort
  have hbounds := happ.nPorts_bounds
  omega

theorem account_read (h : s.Inv app) (hpc : s.tx.pc = .dequeue) {ring : Ring β}
    {array : List.Vector β appMbufArraySize} (hitems : (s.ringsTx s.tx.i).items = ms ++ ring.items)
    (htake : array.toList.take nMbufs.toNat =
      (s.mbufTx s.tx.i).array.toList.take (s.mbufTx s.tx.i).nMbufs.toNat ++ ms)
    {t : Tx} {n : BitVec 16} (hother : ∀ j ≠ s.tx.i, ∀ n, t.held j n = n.toNat)
    (hself : t.held s.tx.i n = nMbufs.toNat) (i : BitVec 32) :
    taken (otherPort i) s.log = handed i s.log ++ ({ s with
      ringsTx := Function.update s.ringsTx s.tx.i ring
      mbufTx := Function.update s.mbufTx s.tx.i { array, nMbufs := n }
      tx := t } : Forward β).underway app i := by
  rw [h.account i]
  by_cases hi : i = s.tx.i
  · subst hi
    have hheld : s.tx.held s.tx.i (s.mbufTx s.tx.i).nMbufs = (s.mbufTx s.tx.i).nMbufs.toNat := by
      simp [Tx.held, hpc]
    simp [Forward.underway, hheld, hself, htake, hitems]
  · simp [Forward.underway, hi, hother i hi, held_of_ne (Ne.symm hi)]

theorem txStep_inv_dequeue (happ : app.Fits) (h : s.Inv app) (hpc : s.tx.pc = .dequeue) :
    ∃ s', txStep app s nPkts = some s' ∧ s'.Inv app := by
  have hnext := nextPort_lt happ s.tx.i
  have hport := tx_lt_maxPorts happ h
  have hbelow := h.below s.tx.i
  have hle := happ.tx_le
  cases hdeq : (s.ringsTx s.tx.i).dequeueBulk app.burstSizeTxRead.toNat with
  | none =>
    have hstep : txStep app s nPkts =
        some { s with tx := { s.tx with i := nextPort app.toAppParams s.tx.i } } := by
      simp [txStep, hpc, hdeq, hport, h.txPort]
    refine ⟨_, hstep, h.workerPort, hnext, h.txPc, h.below, fun i => ?_, ?_, h.ports⟩
    · rw [h.account i]
      simp [Forward.underway, Tx.held, hpc]
    · simpa [Forward.unfreed, hpc] using h.frees
  | some out =>
    obtain ⟨ms, ring⟩ := out
    obtain ⟨hitems, hlen⟩ := Ring.dequeueBulk_eq_some hdeq
    have hfits : (s.mbufTx s.tx.i).nMbufs.toNat + ms.length ≤ appMbufArraySize := by omega
    obtain ⟨array, hstore, htake⟩ := storeSlots_of_le (a := (s.mbufTx s.tx.i).array) hfits
    set nMbufs : BitVec 16 :=
      ((s.mbufTx s.tx.i).nMbufs.setWidth 32 + app.burstSizeTxRead).setWidth 16 with hnMbufs
    have hsum : nMbufs.toNat = (s.mbufTx s.tx.i).nMbufs.toNat + ms.length := by
      rw [hnMbufs, toNat_add_read (by omega), hlen]
    rw [← hsum] at htake
    by_cases hlt : nMbufs.setWidth 32 < app.burstSizeTxWrite
    · have hstep : txStep app s nPkts = some { s with
          ringsTx := Function.update s.ringsTx s.tx.i ring
          mbufTx := Function.update s.mbufTx s.tx.i { array, nMbufs }
          tx := { i := nextPort app.toAppParams s.tx.i, pc := .dequeue } } := by
        simp [txStep, hpc, hdeq, hport, h.txPort, hstore, ← hnMbufs, hlt]
      refine ⟨_, hstep, h.workerPort, hnext, trivial, fun j => ?_, ?_, ?_, h.ports⟩
      · by_cases hj : j = s.tx.i
        · subst hj
          simpa using setWidth_lt_iff.mp hlt
        · simpa [hj] using h.below j
      · exact account_read h hpc hitems htake (fun j _ n => held_dequeue _) (held_dequeue _)
      · simpa [Forward.unfreed, hpc] using h.frees
    · have hstep : txStep app s nPkts = some { s with
          ringsTx := Function.update s.ringsTx s.tx.i ring
          mbufTx := Function.update s.mbufTx s.tx.i { s.mbufTx s.tx.i with array }
          tx := { i := s.tx.i, pc := .burst nMbufs } } := by
        simp [txStep, hpc, hdeq, hport, h.txPort, hstore, ← hnMbufs, hlt]
      refine ⟨_, hstep, h.workerPort, h.txPort, ?_, fun j => ?_, ?_, ?_, h.ports⟩
      · change nMbufs.toNat ≤ appMbufArraySize
        rwa [hsum]
      · by_cases hj : j = s.tx.i
        · subst hj
          simpa using hbelow
        · simpa [hj] using h.below j
      · exact account_read h hpc hitems htake (fun j hj n => held_of_ne hj.symm) (by simp [Tx.held])
      · simpa [Forward.unfreed, hpc] using h.frees

theorem txStep_inv_burst (happ : app.Fits) (h : s.Inv app) (hpc : s.tx.pc = .burst nMbufs) :
    ∃ s', txStep app s nPkts = some s' ∧ s'.Inv app := by
  have hport := tx_lt_maxPorts happ h
  have hn : nMbufs.toNat ≤ appMbufArraySize := by simpa [hpc, TxPc.Fits] using h.txPc
  have hload := loadSlots_of_le (a := (s.mbufTx s.tx.i).array) hn
  obtain ⟨port, hget⟩ : ∃ port, app.ports[s.tx.i.toNat]? = some port :=
    ⟨_, List.getElem?_eq_getElem (happ.ports ▸ hport)⟩
  have hstep : txStep app s nPkts = some { s with
      tx := { i := s.tx.i, pc := .free nMbufs nPkts }
      log := s.log ++ [.txBurst s.tx.i port ((s.mbufTx s.tx.i).array.toList.take nMbufs.toNat) nPkts] } := by
    simp [txStep, hpc, hport, hget, hload]
  refine ⟨_, hstep, h.workerPort, h.txPort, hn, h.below, fun i => ?_, ?_, ?_⟩
  · rw [taken_append_txBurst, handed_append, h.account i]
    by_cases hi : s.tx.i = i
    · subst hi
      simp [Forward.underway, Tx.held, hpc]
    · simp [Forward.underway, hi, held_of_ne]
  · have hfrees : rejected s.log = freed s.log := by simpa [Forward.unfreed, hpc] using h.frees
    simp [Forward.unfreed, hfrees]
  · refine portsOk_append h.ports fun i port ms nPkts he => ?_
    cases he
    exact ⟨h.txPort, hget⟩

theorem txStep_inv_free (happ : app.Fits) (h : s.Inv app) (hpc : s.tx.pc = .free nMbufs k) :
    ∃ s', txStep app s nPkts = some s' ∧ s'.Inv app := by
  have hport := tx_lt_maxPorts happ h
  have hn : nMbufs.toNat ≤ appMbufArraySize := by simpa [hpc, TxPc.Fits] using h.txPc
  have hlen := (s.mbufTx s.tx.i).array.toList_length
  by_cases hk : k < nMbufs
  · have hkn := BitVec.lt_def.mp hk
    have hsucc : (k + 1).toNat = k.toNat + 1 := by
      rw [BitVec.toNat_add]
      have : (1 : BitVec 16).toNat = 1 := rfl
      omega
    have hget : (s.mbufTx s.tx.i).array.toList[k.toNat]? =
        some (s.mbufTx s.tx.i).array.toList[k.toNat] := List.getElem?_eq_getElem (by omega)
    have hstep : txStep app s nPkts = some { s with
        tx := { i := s.tx.i, pc := .free nMbufs (k + 1) }
        log := s.log ++ [.free (s.mbufTx s.tx.i).array.toList[k.toNat]] } := by
      simp [txStep, hpc, hport, hk, hget]
    refine ⟨_, hstep, h.workerPort, h.txPort, hn, h.below, fun i => ?_, ?_, ?_⟩
    · rw [taken_append_free, handed_append_free, h.account i]
      simp [Forward.underway, Tx.held, hpc]
    · have hlt : k.toNat < ((s.mbufTx s.tx.i).array.toList.take nMbufs.toNat).length := by
        rw [List.length_take]
        omega
      have hdrop := List.drop_eq_getElem_cons hlt
      rw [rejected_append_free, freed_append, h.frees]
      simp only [Forward.unfreed, hpc, hsucc]
      rw [hdrop]
      simp
    · exact portsOk_append h.ports fun _ _ _ _ he => by cases he
  · have hstep : txStep app s nPkts = some { s with
        mbufTx := Function.update s.mbufTx s.tx.i { s.mbufTx s.tx.i with nMbufs := 0 }
        tx := { i := nextPort app.toAppParams s.tx.i, pc := .dequeue } } := by
      simp [txStep, hpc, hport, hk]
    have hnk : nMbufs.toNat ≤ k.toNat := by
      rw [BitVec.lt_def] at hk
      omega
    refine ⟨_, hstep, h.workerPort, nextPort_lt happ _, trivial, fun j => ?_, fun j => ?_, ?_, h.ports⟩
    · by_cases hj : j = s.tx.i
      · subst hj
        simpa using Nat.lt_of_succ_le happ.txWrite
      · simpa [hj] using h.below j
    · rw [h.account j]
      by_cases hj : j = s.tx.i
      · subst hj
        simp [Forward.underway, Tx.held, hpc]
      · simp [Forward.underway, hj, held_dequeue, held_of_ne (Ne.symm hj)]
    · rw [h.frees]
      simp [Forward.unfreed, hpc, hnk]

/-! ## Runs -/

theorem forwardStep_inv (happ : app.Fits) (a : ForwardAct β) (h : s.Inv app) :
    ∃ s', forwardStep app s a = some s' ∧ s'.Inv app := by
  cases a with
  | receive i ms =>
    cases henq : (s.ringsRx i).enqueueBulk ms with
    | none => exact ⟨s, by simp [forwardStep, henq], h⟩
    | some ring =>
      have hstep : forwardStep app s (.receive i ms) =
          some { s with ringsRx := Function.update s.ringsRx i ring } := by
        simp [forwardStep, henq]
      exact ⟨_, hstep, h.workerPort, h.txPort, h.txPc, h.below, h.account, h.frees, h.ports⟩
  | worker => exact workerStep_inv happ h
  | tx nPkts =>
    cases hpc : s.tx.pc with
    | dequeue => exact txStep_inv_dequeue happ h hpc
    | burst nMbufs => exact txStep_inv_burst happ h hpc
    | free nMbufs k => exact txStep_inv_free happ h hpc

/-- **The worker and the transmit loop conserve the buffers**, in every interleaving of their steps and for
every transmit result. No step accesses a slot outside an array. What came out of `app.rings_rx[i]` was
handed to the driver for `app.ports[i^1]` and for no other port, once and in the order of the ring, or is
underway there; what the driver did not take is freed once, before the next iteration. -/
theorem forward_conserves (app : ForwardParams) (happ : app.Fits) (s₀ : Forward β) (h₀ : s₀.Initial)
    (as : List (ForwardAct β)) :
    ∃ s, Trans.run (forwardStep app) s₀ as = some s ∧
      (∀ i, taken i s.log = handed (otherPort i) s.log ++ s.underway app (otherPort i)) ∧
      (∀ i port ms nPkts, .txBurst i port ms nPkts ∈ s.log →
        i < app.nPorts ∧ app.ports[i.toNat]? = some port) ∧
      rejected s.log = freed s.log ++ s.unfreed ∧
      (s.tx.pc = .dequeue → freed s.log = rejected s.log) ∧
      ∀ i, (s.mbufTx i).nMbufs.toNat < app.burstSizeTxWrite.toNat := by
  obtain ⟨s, hrun, h⟩ :=
    Trans.run_of_inv (fun s a hs => forwardStep_inv happ a hs) (inv_initial happ h₀) as
  refine ⟨s, hrun, fun i => ?_, h.ports, h.frees, fun hpc => ?_, h.below⟩
  · rw [← h.account, otherPort_otherPort]
  · rw [h.frees]
    simp [Forward.unfreed, hpc]

/-- Two ports and bursts of two, but bursts of three to the driver -/
def forwardPair : ForwardParams where
  ports := [0, 1, 0, 0]
  nPorts := 2
  ipPorts _ := none
  burstSizeWorkerRead := 2
  burstSizeWorkerWrite := 2
  burstSizeTxRead := 2
  burstSizeTxWrite := 3

theorem forwardPair_fits : forwardPair.Fits where
  nPorts := ⟨1, rfl⟩
  nPorts_bounds := by decide
  ports := rfl
  workerRead := by decide
  workerWrite := rfl
  worker_le := by decide
  txRead := by decide
  txWrite := by decide
  tx_le := by decide

/-- The rings as `app_init_rings` makes them, with buffers that are numbers -/
def forwardStart : Forward Nat where
  ringsRx _ := Ring.empty 127
  ringsTx _ := Ring.empty 127
  worker := { i := 0, pc := .dequeue, array := List.Vector.replicate _ 0 }
  mbufTx _ := { array := List.Vector.replicate _ 0, nMbufs := 0 }
  tx := { i := 0, pc := .dequeue }
  log := []

theorem forwardStart_initial : forwardStart.Initial :=
  ⟨fun _ => rfl, fun _ => rfl, ⟨rfl, rfl⟩, fun _ => rfl, rfl, rfl⟩

/-- Four buffers go through port 1, the driver takes one of them. -/
def forwardFour : List (ForwardAct Nat) :=
  [.receive 0 [1, 2], .worker, .receive 0 [3, 4], .worker, .tx 0, .tx 0, .worker, .worker, .tx 0, .worker,
    .tx 0, .tx 1, .tx 0, .tx 0, .tx 0, .tx 0]

theorem forward_conserves_four :
    ∃ s, Trans.run (forwardStep forwardPair) forwardStart forwardFour = some s ∧
      ∀ i, taken i s.log = handed (otherPort i) s.log ++ s.underway forwardPair (otherPort i) := by
  obtain ⟨s, hrun, haccount, -⟩ :=
    forward_conserves forwardPair forwardPair_fits forwardStart forwardStart_initial forwardFour
  exact ⟨s, hrun, haccount⟩

example : (Trans.run (forwardStep forwardPair) forwardStart forwardFour).map
    (fun s => (handed 1 s.log, freed s.log)) = some ([1, 2, 3, 4], [2, 3, 4]) := by
  decide +kernel

end Xmhf.Router
