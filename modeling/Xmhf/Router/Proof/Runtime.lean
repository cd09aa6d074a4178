import Xmhf.Router.Runtime

/-!
# The buffers of the receive loop

* `rxDispose_cases`: the four ways through the body of the loop.
* `rxStep_ownsOnce_iff`: what one iteration does with its buffers, in each of the four.
* `appMainLoopRx_ownsOnce_iff`: a run of the loop disposes of each buffer once just when no iteration
  answers an ARP frame, and one that answers an echo request got nothing else and was not able to send.
-/

namespace Xmhf.Router

open Custody

variable {app : AppParams} {i : BitVec 32} {b : Burst} {log events : List Event} {a : Nat}

/-- The iteration has no reply, or one that the driver does not take, to the only buffer received. -/
def Disposes (app : AppParams) (i : BitVec 32) (b : Burst) : Prop :=
  match b.rx with
  | [] => True
  | m :: ms => isArp m = false ∧ (isEchoRequest app i m = some true → ms = [] ∧ b.sent = 0)

/-- Every iteration of the run is of this kind. -/
def AllDispose (app : AppParams) : BitVec 32 → List Burst → Prop
  | _, [] => True
  | i, b :: bs => Disposes app i b ∧ AllDispose app (nextPort app i) bs

/-! ## Events -/

theorem takes_tx {port : BitVec 32} {m : Mbuf} {sent : Nat} :
    rxCustody.takes (.tx port m sent) a ↔ 0 < sent ∧ m.addr = a := by
  cases sent with
  | zero => simp [rxCustody, Event.Takes]
  | succ n => simp [rxCustody, Event.Takes]

theorem takes_free {m : Mbuf} : rxCustody.takes (.free m) a ↔ m.addr = a := Iff.rfl

theorem mentions_free {m : Mbuf} : rxCustody.mentions (.free m) a ↔ m.addr = a := Iff.rfl

theorem not_takes_received {port : BitVec 32} {m : Mbuf} : ¬ rxCustody.takes (.received port m) a := id

theorem not_takes_allocated {m : Mbuf} : ¬ rxCustody.takes (.allocated m) a := id

/-- A buffer that is sent and then freed is handed over once just when the driver did not take it. -/
theorem once_tx_free {port : BitVec 32} {m m' : Mbuf} {sent : Nat} (hm : m'.addr = m.addr) :
    rxCustody.Once [.tx port m' sent, .free m] m.addr ↔ sent = 0 := by
  rcases Nat.eq_zero_or_pos sent with rfl | hpos
  · have htx : ¬ rxCustody.takes (.tx port m' 0) m.addr := fun h => Nat.lt_irrefl 0 (takes_tx.mp h).1
    rw [once_cons_of_not_takes htx, once_cons_of_takes (takes_free.mpr rfl)]
    simp
  · rw [once_cons_of_takes (takes_tx.mpr ⟨hpos, hm⟩)]
    constructor
    · intro h
      exact absurd (mentions_free.mpr rfl) (h _ (List.mem_singleton.mpr rfl))
    · rintro rfl
      exact absurd hpos (Nat.lt_irrefl 0)

theorem not_once_tx_free {port : BitVec 32} {m m' : Mbuf} {sent : Nat} (hm : m'.addr = m.addr)
    (ha : m.addr ≠ a) : ¬ rxCustody.Once [.tx port m' sent, .free m] a := by
  refine not_once_of_not_takes ?_
  intro e he ht
  rcases List.mem_cons.mp he with rfl | he
  · exact ha (hm ▸ (takes_tx.mp ht).2)
  · obtain rfl := List.mem_singleton.mp he
    exact ha (takes_free.mp ht)

/-! ## One iteration -/

theorem rxStep_eq_some (h : rxStep app i b = some log) :
    ∃ port events, rxDispose app i b = some events ∧ log = b.rx.map (.received port) ++ events := by
  obtain ⟨port, -, h⟩ := Option.bind_eq_some_iff.mp h
  obtain ⟨events, hev, h⟩ := Option.bind_eq_some_iff.mp h
  exact ⟨port, events, hev, (Option.some.inj h).symm⟩

theorem once_received {port : BitVec 32} {rx : List Mbuf} :
    rxCustody.Once (rx.map (.received port) ++ events) a ↔ rxCustody.Once events a := by
  refine once_append_of_not_takes ?_
  intro e he
  obtain ⟨m, -, rfl⟩ := List.mem_map.mp he
  exact not_takes_received

/-- The buffers of an iteration are the ones received and the one allocated. -/
theorem ownsOnce_received {port : BitVec 32} {rx : List Mbuf} :
    OwnsOnce (rx.map (.received port) ++ events) ↔
      (∀ m ∈ rx, rxCustody.Once events m.addr) ∧
        ∀ e ∈ events, ∀ a, e.Acquires a → rxCustody.Once events a := by
  constructor
  · intro h
    refine ⟨fun m hm => ?_, fun e he a ha => ?_⟩
    · exact once_received.mp (h _ ⟨.received port m, List.mem_append_left _ (List.mem_map_of_mem hm), rfl⟩)
    · exact once_received.mp (h a ⟨e, List.mem_append_right _ he, ha⟩)
  · rintro ⟨hrx, hev⟩ a ⟨e, he, ha⟩
    rw [once_received]
    rcases List.mem_append.mp he with he | he
    · obtain ⟨m, hm, rfl⟩ := List.mem_map.mp he
      exact ha ▸ hrx m hm
    · exact hev e he a ha

/-- The loop over `rte_ring_sp_enqueue_bulk` puts the buffers on the ring once. -/
theorem enqueueLoop_eq {ms : List Mbuf} {attempts : List Attempt}
    (hlaw : ∀ t ∈ attempts, t.put = true ↔ 0 ≤ t.ret) (h : enqueueLoop i ms attempts = some events) :
    events = ms.map (.enqueued i) := by
  induction attempts generalizing events with
  | nil => cases h
  | cons t ts ih =>
    have ht := hlaw t (List.mem_cons_self ..)
    rw [enqueueLoop] at h
    by_cases hret : t.ret < 0
    · have hput : t.put = false := by
        rw [← Bool.not_eq_true, ht]
        exact Int.not_le.mpr hret
      rw [if_pos hret, hput] at h
      obtain ⟨events', hrec, rfl⟩ := Option.map_eq_some_iff.mp h
      simpa using ih (fun t' ht' => hlaw t' (List.mem_cons_of_mem _ ht')) hrec
    · have hput : t.put = true := ht.mpr (Int.not_lt.mp hret)
      rw [if_neg hret, hput, if_pos rfl] at h
      exact (Option.some.inj h).symm

theorem not_once_arp {m pkt : Mbuf} {self : IpPortConf} {sent : Nat} (hfresh : pkt.addr ≠ a) :
    ¬ rxCustody.Once [.allocated pkt, .tx i (arpReply self i m pkt) sent, .free pkt] a := by
  have hreply : (arpReply self i m pkt).addr = pkt.addr := rfl
  rw [once_cons_of_not_takes not_takes_allocated]
  exact not_once_tx_free hreply hfresh

/-- The reply's buffer is freed whether the reply was sent or not. -/
theorem once_arpReply_iff {m pkt : Mbuf} {self : IpPortConf} {sent : Nat} :
    rxCustody.Once [.allocated pkt, .tx i (arpReply self i m pkt) sent, .free pkt] pkt.addr ↔ sent = 0 := by
  have hreply : (arpReply self i m pkt).addr = pkt.addr := rfl
  rw [once_cons_of_not_takes not_takes_allocated]
  exact once_tx_free hreply

theorem not_ownsOnce_arp {port : BitVec 32} {m pkt : Mbuf} {self : IpPortConf} {ms : List Mbuf}
    (hfresh : pkt.addr ≠ m.addr) :
    ¬ OwnsOnce ((m :: ms).map (.received port) ++
      [.allocated pkt, .tx i (arpReply self i m pkt) b.sent, .free pkt]) :=
  fun h => not_once_arp hfresh ((ownsOnce_received.mp h).1 m (List.mem_cons_self ..))

/-- The first frame is an echo request: its buffer is freed whether it was sent or not, and the others
are leaked. -/
theorem ownsOnce_echo_iff {port : BitVec 32} {m : Mbuf} {ms : List Mbuf} {sent : Nat}
    (hnd : ((m :: ms).map Mbuf.addr).Nodup) :
    OwnsOnce ((m :: ms).map (.received port) ++ [.tx i (echoReply m) sent, .free m]) ↔
      ms = [] ∧ sent = 0 := by
  have hreply : (echoReply m).addr = m.addr := rfl
  have hm : rxCustody.Once [.tx i (echoReply m) sent, .free m] m.addr ↔ sent = 0 := once_tx_free hreply
  rw [ownsOnce_received]
  constructor
  · rintro ⟨hrx, -⟩
    refine ⟨List.eq_nil_iff_forall_not_mem.mpr ?_, hm.mp (hrx m (List.mem_cons_self ..))⟩
    intro m' hm'
    have hne : m.addr ≠ m'.addr := by
      intro heq
      rw [List.map_cons, List.nodup_cons, heq] at hnd
      exact hnd.1 (List.mem_map_of_mem hm')
    exact not_once_tx_free hreply hne (hrx m' (List.mem_cons_of_mem _ hm'))
  · rintro ⟨rfl, hsent⟩
    refine ⟨fun m' hm' => ?_, fun e he a ha => ?_⟩
    · obtain rfl := List.mem_singleton.mp hm'
      exact hm.mpr hsent
    · rcases List.mem_cons.mp he with rfl | he
      · cases ha
      · obtain rfl := List.mem_singleton.mp he
        cases ha

theorem ownsOnce_forward {port : BitVec 32} {rx : List Mbuf} (hnd : (rx.map Mbuf.addr).Nodup) :
    OwnsOnce (rx.map (.received port) ++ rx.map (.enqueued i)) := by
  rw [ownsOnce_received]
  refine ⟨fun m hm => ?_, fun e he a ha => ?_⟩
  · exact once_map (fun _ => rfl) (fun _ _ h => h) hnd hm
  · obtain ⟨m, -, rfl⟩ := List.mem_map.mp he
    cases ha

/-- **The four ways through the body**: nothing was received, or the first frame is an ARP frame, an echo
request to the router, or another frame. -/
theorem rxDispose_cases (h : rxDispose app i b = some events) :
    (b.rx = [] ∧ events = []) ∨
      (∃ m ms pkt self, b.rx = m :: ms ∧ isArp m = true ∧ b.alloc = some pkt ∧ app.ipPorts i = some self ∧
        events = [.allocated pkt, .tx i (arpReply self i m pkt) b.sent, .free pkt]) ∨
      (∃ m ms, b.rx = m :: ms ∧ isArp m = false ∧ isEchoRequest app i m = some true ∧
        events = [.tx i (echoReply m) b.sent, .free m]) ∨
      ∃ m ms, b.rx = m :: ms ∧ isArp m = false ∧ isEchoRequest app i m = some false ∧
        enqueueLoop i b.rx b.attempts = some events := by
  unfold rxDispose at h
  cases hrx : b.rx with
  | nil =>
    rw [hrx] at h
    exact .inl ⟨rfl, (Option.some.inj h).symm⟩
  | cons m ms =>
    rw [hrx] at h
    dsimp only at h
    right
    by_cases harp : isArp m = true
    · rw [if_pos harp] at h
      simp only [Option.bind_eq_bind, Option.bind_eq_some_iff, Option.pure_def, Option.some.injEq] at h
      obtain ⟨pkt, hpkt, self, hself, rfl⟩ := h
      exact .inl ⟨m, ms, pkt, self, rfl, harp, hpkt, hself, rfl⟩
    · rw [if_neg harp] at h
      have hno : isArp m = false := Bool.eq_false_iff.mpr harp
      obtain ⟨echo, hecho, h⟩ := Option.bind_eq_some_iff.mp h
      right
      cases echo with
      | true => exact .inl ⟨m, ms, rfl, hno, hecho, (Option.some.inj h).symm⟩
      | false => exact .inr ⟨m, ms, rfl, hno, hecho, h⟩

/-- One iteration disposes of each of its buffers once just when it is of the kind `Disposes`. -/
theorem rxStep_ownsOnce_iff (hlaw : b.Lawful) (h : rxStep app i b = some log) :
    OwnsOnce log ↔ Disposes app i b := by
  obtain ⟨port, events, hev, rfl⟩ := rxStep_eq_some h
  obtain ⟨hnd, hfresh, hput⟩ := hlaw
  unfold Disposes
  rcases rxDispose_cases hev with ⟨hrx, rfl⟩ | ⟨m, ms, pkt, self, hrx, harp, hpkt, -, rfl⟩ |
    ⟨m, ms, hrx, hno, hecho, rfl⟩ | ⟨m, ms, hrx, hno, hecho, hloop⟩
  · simp [hrx, OwnsOnce]
  · rw [hrx] at hfresh ⊢
    have hne : pkt.addr ≠ m.addr := by
      intro heq
      exact hfresh pkt hpkt (heq ▸ List.mem_map_of_mem (List.mem_cons_self ..))
    refine iff_of_false (not_ownsOnce_arp hne) ?_
    rintro ⟨hno, -⟩
    rw [harp] at hno
    cases hno
  · rw [hrx] at hnd ⊢
    rw [ownsOnce_echo_iff hnd]
    simp [hno, hecho]
  · rw [enqueueLoop_eq hput hloop]
    refine iff_of_true (ownsOnce_forward hnd) ?_
    simp [hrx, hno, hecho]

/-! ## The loop -/

/-- **The receive loop owns every buffer exactly once** just when no iteration answers an ARP frame, and
an iteration that answers an echo request received that frame only and was not able to send the reply. -/
theorem appMainLoopRx_ownsOnce_iff (app : AppParams) (i : BitVec 32) (bs : List Burst)
    (logs : List (List Event)) (hlaw : DpdkLawful app i bs) (hrun : appMainLoopRx app i bs = some logs) :
    (∀ log ∈ logs, OwnsOnce log) ↔ AllDispose app i bs := by
  induction bs generalizing i logs with
  | nil =>
    obtain rfl : [] = logs := Option.some.inj hrun
    simp [AllDispose]
  | cons b bs ih =>
    obtain ⟨hb, hrest⟩ := hlaw
    obtain ⟨log, hstep, hrun⟩ := Option.bind_eq_some_iff.mp hrun
    obtain ⟨logs', htail, hrun⟩ := Option.bind_eq_some_iff.mp hrun
    obtain rfl : log :: logs' = logs := Option.some.inj hrun
    have hiff := rxStep_ownsOnce_iff hb hstep
    rw [List.forall_mem_cons, AllDispose, ← hiff]
    -- once a buffer is misused nothing more is known of DPDK, and both sides are false
    refine and_congr_right fun howns => ?_
    exact ih _ _ (hrest log hstep howns) htail

/-! ## Examples -/

/-- Two ports, with the addresses of `app_init_ports` -/
def twoPorts : AppParams where
  ports := [0, 1]
  nPorts := 2
  ipPorts i :=
    if i = 0 then some { portId := 0, ip := 0x0103A8C0, macAddr := 0 }
    else if i = 1 then some { portId := 1, ip := 0x0104A8C0, macAddr := 0 }
    else none

/-- A buffer with a frame of 64 bytes -/
def frameAt (addr : Nat) (data : Memory.Mem) : Mbuf :=
  { addr, dataLen := 64, pktLen := 64, port := 0, data }

/-- An ARP frame -/
def arpFrame : Memory.Mem := fun a => if a = 12 then 0x08 else if a = 13 then 0x06 else 0

/-- Two frames that are forwarded at the second attempt, and then none -/
def forwardTwo : List Burst :=
  [{ rx := [frameAt 1 fun _ => 0, frameAt 2 arpFrame], alloc := none, sent := 0,
     attempts := [{ ret := -105, put := false }, { ret := 0, put := true }] },
   { rx := [], alloc := none, sent := 0, attempts := [] }]

theorem forwardTwo_lawful (app : AppParams) (i : BitVec 32) : DpdkLawful app i forwardTwo := by
  refine ⟨⟨by decide, nofun, by decide⟩, fun _ _ _ => ⟨⟨by decide, nofun, by decide⟩, ?_⟩⟩
  exact fun _ _ _ => trivial

theorem appMainLoopRx_ownsOnce_forwardTwo :
    ∃ logs, appMainLoopRx twoPorts 0 forwardTwo = some logs ∧
      ((∀ log ∈ logs, OwnsOnce log) ↔ AllDispose twoPorts 0 forwardTwo) := by
  have hrun : ∃ logs, appMainLoopRx twoPorts 0 forwardTwo = some logs := ⟨_, rfl⟩
  obtain ⟨logs, hrun⟩ := hrun
  exact ⟨logs, hrun, appMainLoopRx_ownsOnce_iff _ _ _ _ (forwardTwo_lawful _ _) hrun⟩

/-- One ARP frame, with a reply that the driver takes -/
def oneArp : Burst :=
  { rx := [frameAt 1 arpFrame], alloc := some (frameAt 2 fun _ => 0), sent := 1, attempts := [] }

/-- The ARP frame's buffer is leaked, and the reply's buffer is freed after the driver took it. -/
theorem appMainLoopRx_leaks : ∃ logs, DpdkLawful twoPorts 0 [oneArp] ∧
    appMainLoopRx twoPorts 0 [oneArp] = some logs ∧
      ∃ log ∈ logs, ∀ a ∈ [1, 2], (∃ e ∈ log, e.Acquires a) ∧ ¬ rxCustody.Once log a := by
  have hlaw : DpdkLawful twoPorts 0 [oneArp] := by
    refine ⟨⟨by decide, ?_, by decide⟩, fun _ _ _ => trivial⟩
    rintro pkt ⟨rfl⟩
    decide
  refine ⟨_, hlaw, rfl, _, List.mem_singleton.mpr rfl, ?_⟩
  intro a ha
  rcases List.mem_cons.mp ha with rfl | ha
  · refine ⟨⟨_, List.mem_cons_self .., rfl⟩, ?_⟩
    exact fun h => not_once_arp (by decide) (once_received.mp h)
  · obtain rfl := List.mem_singleton.mp ha
    refine ⟨⟨_, List.mem_cons_of_mem _ (List.mem_cons_self ..), rfl⟩, ?_⟩
    exact fun h => absurd (once_arpReply_iff.mp (once_received.mp h)) (by decide)

end Xmhf.Router
