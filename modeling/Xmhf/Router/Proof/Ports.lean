import Xmhf.Router.Ports
import Xmhf.Router.Proof.Classify
import Xmhf.Router.Proof.Forward

/-!
# Ports by index and by id

* `portMaskLoop_ok`: the port ids are the bits of the mask, in order.
* `TwoPorts`: what the initialisation leaves for the mask 3, where index and id are the same (`appInit_two`). An
  iteration of the receive loop is then sound unless it answers for another address (`rxSound_iff`).
* `portMask_iff`: for every other mask some run is not sound, because `app.ip_ports` has no entry for an id from 2 on
  (`appInit_undefined`), or because there is no ring at index 1 (`forward_one`).
-/

namespace Xmhf.Router

open CString Memory

variable {bits i : Nat} {m mask : BitVec 64} {app app' args : PortIds} {arg : CStr} {is : List Nat}

/-! ## The port mask -/

theorem bit_eq_zero_iff (hi : i < 64) : mask &&& (1#64 <<< i) = 0 ↔ mask.getLsbD i = false := by
  have hne : BitVec.twoPow 64 i ≠ 0 := fun h => by
    have hbit := congrArg (fun v : BitVec 64 => v.getLsbD i) h
    simp [hi] at hbit
  change mask &&& BitVec.twoPow 64 i = 0 ↔ _
  rw [BitVec.and_twoPow]
  cases mask.getLsbD i with
  | false => simp
  | true => simpa using hne

/-- The ids of the ports in the mask -/
def maskIds (mask : BitVec 64) : List (BitVec 32) :=
  ((List.range 64).filter mask.getLsbD).map (BitVec.ofNat 32)

theorem take_set_succ {α : Type*} {l : List α} {n : Nat} (h : n < l.length) (a : α) :
    (l.set n a).take (n + 1) = l.take n ++ [a] := by
  rw [List.take_succ_eq_append_getElem (by rwa [List.length_set]), List.getElem_set_self,
    List.take_set_of_le (Nat.le_refl n)]

/-- The loop appends the ids of the mask to the ports that it has. -/
theorem portMaskLoop_ok (his : ∀ i ∈ is, i < 64) (h : portMaskLoop mask app is = .ok app')
    (hlen : app.ports.length = appMaxPorts) (hle : app.nPorts.toNat ≤ appMaxPorts) :
    app'.ports.length = appMaxPorts ∧ app'.nPorts.toNat ≤ appMaxPorts ∧ app'.ports.take app'.nPorts.toNat =
      app.ports.take app.nPorts.toNat ++ (is.filter mask.getLsbD).map (BitVec.ofNat 32) := by
  induction is generalizing app with
  | nil =>
    obtain rfl : app = app' := Except.ok.inj h
    exact ⟨hlen, hle, by simp⟩
  | cons i is ih =>
    have hi := his i List.mem_cons_self
    have his' : ∀ i ∈ is, i < 64 := fun j hj => his j (List.mem_cons_of_mem i hj)
    rw [portMaskLoop] at h
    split_ifs at h with hzero hmax
    · have hbit : ¬ mask.getLsbD i = true := by
        rw [(bit_eq_zero_iff hi).1 hzero]
        exact Bool.false_ne_true
      rw [List.filter_cons_of_neg hbit]
      exact ih his' h hlen hle
    · have hbit : mask.getLsbD i = true := by
        rw [bit_eq_zero_iff hi] at hzero
        exact Bool.of_not_eq_false hzero
      have hlt : app.nPorts.toNat < appMaxPorts := Nat.lt_of_not_le hmax
      have hmaxPorts : appMaxPorts = 4 := rfl
      have hsucc : (app.nPorts + 1).toNat = app.nPorts.toNat + 1 := by
        rw [BitVec.toNat_add]
        change (app.nPorts.toNat + 1) % 2 ^ 32 = _
        omega
      obtain ⟨h1, h2, h3⟩ := ih his' h (by rw [List.length_set, hlen]) (by rw [hsucc]; exact hlt)
      refine ⟨h1, h2, ?_⟩
      rw [h3, hsucc, take_set_succ (hlen ▸ hlt), List.filter_cons_of_pos hbit, List.map_cons, List.append_assoc,
        List.singleton_append]

/-- The ports of an accepted mask. -/
structure Accepted (mask : BitVec 64) (args : PortIds) : Prop where
  ports : args.ports.length = appMaxPorts
  ids : args.ports.take args.nPorts.toNat = maskIds mask
  count : args.nPorts.toNat = (maskIds mask).length
  nonzero : mask ≠ 0

theorem appParsePortMask_ok (hports : app.ports.length = appMaxPorts) (h : appParsePortMask bits app arg = .ok args) :
    Accepted (portMask bits arg) args := by
  unfold appParsePortMask at h
  split_ifs at h with harg hrest hmask
  cases hloop : portMaskLoop (portMask bits arg) { app with nPorts := 0 } (List.range 64) with
  | error e =>
    rw [hloop] at h
    cases h
  | ok app' =>
    rw [hloop] at h
    obtain rfl : app' = args := by
      change (if rteIsPowerOf2 app'.nPorts = true then pure app' else throw (-5)) = Except.ok args at h
      split_ifs at h
      exact Except.ok.inj h
    obtain ⟨h1, h2, h3⟩ := portMaskLoop_ok (fun i => List.mem_range.1) hloop hports (Nat.zero_le _)
    have hids : app'.ports.take app'.nPorts.toNat = maskIds (portMask bits arg) := by
      rw [h3]
      rfl
    refine ⟨h1, hids, ?_, hmask⟩
    rw [← hids, List.length_take, h1, Nat.min_eq_left h2]

theorem lt_of_mem_maskIds {id : BitVec 32} (h : id ∈ maskIds mask) : id.toNat < 64 := by
  obtain ⟨i, hi, rfl⟩ := List.mem_map.1 h
  have hlt := List.mem_range.1 (List.mem_of_mem_filter hi)
  rw [BitVec.toNat_ofNat]
  omega

/-- A mask other than 3 has the id of a device that has no address, or a single id. -/
theorem maskIds_cases (h0 : mask ≠ 0) (h3 : mask ≠ 3) :
    (∃ id ∈ maskIds mask, 2 ≤ id.toNat) ∨ (maskIds mask).length = 1 := by
  by_cases hlt : mask.toNat < 4
  · have hmask : mask = 1 ∨ mask = 2 := by
      simp only [ne_eq, ← BitVec.toNat_inj] at h0 h3 ⊢
      change ¬ mask.toNat = 0 at h0
      change ¬ mask.toNat = 3 at h3
      change mask.toNat = 1 ∨ mask.toNat = 2
      omega
    rcases hmask with rfl | rfl
    · exact Or.inr (by decide +kernel)
    · exact Or.inr (by decide +kernel)
  · obtain ⟨k, hk⟩ := Nat.exists_testBit_of_ne_zero (show mask.toNat >>> 2 ≠ 0 by
      rw [Nat.shiftRight_eq_div_pow]
      omega)
    rw [Nat.testBit_shiftRight] at hk
    have hbit : mask.getLsbD (2 + k) = true := hk
    have hrange : 2 + k < 64 := BitVec.lt_of_getLsbD hbit
    refine Or.inl ⟨BitVec.ofNat 32 (2 + k), ?_, ?_⟩
    · exact List.mem_map_of_mem (List.mem_filter.2 ⟨List.mem_range.2 hrange, hbit⟩)
    · rw [BitVec.toNat_ofNat]
      omega

theorem maskIds_three : maskIds 3 = [0, 1] := by decide +kernel

/-! ## Initialisation -/

/-- The computation panics, or goes on with a value that has the property. -/
def PanicsOr {α : Type} (P : α → Prop) (x : Except InitStop α) : Prop :=
  x = .error .rtePanic ∨ ∃ a, x = .ok a ∧ P a

section PanicsOr

variable {α β : Type} {P : α → Prop} {Q : β → Prop} {x : Except InitStop α} {f : α → Except InitStop β}

theorem PanicsOr.bind (hx : PanicsOr P x) (hf : ∀ a, P a → PanicsOr Q (f a)) : PanicsOr Q (x >>= f) := by
  rcases hx with rfl | ⟨a, rfl, ha⟩
  · exact Or.inl rfl
  · exact hf a ha

theorem panicsOr_orPanic (cond : Bool) : PanicsOr (fun _ => True) (orPanic cond) := by
  cases cond with
  | false => exact Or.inl rfl
  | true => exact Or.inr ⟨(), rfl, trivial⟩

theorem PanicsOr.orPanic {cond : Bool} {k : Except InitStop β} (hk : PanicsOr Q k) :
    PanicsOr Q (Router.orPanic cond >>= fun _ => k) :=
  (panicsOr_orPanic cond).bind fun _ _ => hk

end PanicsOr

variable {dpdk : Dpdk} {ipPorts : IpPorts} {id : BitVec 32} {ids : List (BitVec 32)}

/-- Where the address is set, the device is started. -/
theorem panicsOr_appInitPort {conf : IpPortConf}
    (h : setIpPort ipPorts (dpdk.nic (id.setWidth 8)).macAddr (id.setWidth 8) ((id.setWidth 8).setWidth 32) =
      some conf) :
    PanicsOr (· = setIpPort ipPorts (dpdk.nic (id.setWidth 8)).macAddr (id.setWidth 8))
      (appInitPort dpdk ipPorts id) := by
  refine PanicsOr.orPanic (PanicsOr.orPanic (PanicsOr.orPanic ?_))
  simp only [h]
  exact PanicsOr.orPanic (Or.inr ⟨_, rfl, rfl⟩)

/-- Two ports, whose ids are their indices, with addresses of their own. -/
structure TwoPorts (app : AppParams) : Prop where
  nPorts : app.nPorts = 2
  port : ∀ i < (2 : BitVec 32), app.ports[i.toNat]? = some i
  conf : ∀ i < (2 : BitVec 32), ∃ conf, app.ipPorts i = some conf
  ip_inj : ∀ i j conf conf', app.ipPorts i = some conf → app.ipPorts j = some conf' → conf.ip = conf'.ip → i = j
  only : ∀ j conf, app.ipPorts j = some conf → j < 2

theorem lt_two_iff {i : BitVec 32} : i < 2 ↔ i = 0 ∨ i = 1 := by
  rw [BitVec.lt_def, ← BitVec.toNat_inj, ← BitVec.toNat_inj]
  change i.toNat < 2 ↔ i.toNat = 0 ∨ i.toNat = 1
  omega

/-- `app.ip_ports` for the mask 3 -/
def twoIpPorts (dpdk : Dpdk) : IpPorts :=
  setIpPort (setIpPort (fun _ => none) (dpdk.nic 0).macAddr 0) (dpdk.nic 1).macAddr 1

theorem twoIpPorts_eq (dpdk : Dpdk) (j : BitVec 32) : twoIpPorts dpdk j =
    if j = 1 then some { portId := 1, ip := 0x0104A8C0, macAddr := (dpdk.nic 1).macAddr }
    else if j = 0 then some { portId := 0, ip := 0x0103A8C0, macAddr := (dpdk.nic 0).macAddr }
    else none := by
  have hip : rteCpuToBe32 (ipv4 192 168 3 1) = 0x0103A8C0 ∧ rteCpuToBe32 (ipv4 192 168 4 1) = 0x0104A8C0 := by
    decide +kernel
  rw [twoIpPorts, setIpPort, if_neg (by decide), if_pos rfl, setIpPort, if_pos rfl, hip.1, hip.2]
  rw [Function.update_apply, Function.update_apply]

theorem appInit_two (h : Accepted 3 args) (dpdk : Dpdk) :
    PanicsOr (· = appParams args (twoIpPorts dpdk)) (appInit dpdk args) := by
  have hids := h.ids
  rw [maskIds_three] at hids
  unfold appInit
  refine PanicsOr.orPanic (PanicsOr.orPanic (PanicsOr.orPanic ?_))
  rw [hids]
  have hzero := @panicsOr_appInitPort dpdk (fun _ => none) 0 _ rfl
  refine PanicsOr.bind (PanicsOr.bind hzero fun ipPorts hip => PanicsOr.bind (P := (· = twoIpPorts dpdk)) ?_
    fun ipPorts' hip' => Or.inr ⟨ipPorts', rfl, hip'⟩) fun ipPorts hip => PanicsOr.orPanic (Or.inr ⟨_, rfl, ?_⟩)
  · rw [hip]
    exact @panicsOr_appInitPort dpdk _ 1 _ rfl
  · rw [hip]

theorem nPorts_two (h : Accepted 3 args) : args.nPorts = 2 := by
  have hcount := h.count
  rw [maskIds_three] at hcount
  exact BitVec.eq_of_toNat_eq hcount

theorem two_twoPorts (h : Accepted 3 args) (dpdk : Dpdk) :
    TwoPorts (appParams args (twoIpPorts dpdk)).toAppParams := by
  have hids := h.ids
  rw [maskIds_three, nPorts_two h] at hids
  have hget : ∀ k < 2, args.ports[k]? = [(0 : BitVec 32), 1][k]? := fun k hk => by
    rw [← hids]
    exact (List.getElem?_take_of_lt hk).symm
  have heq := twoIpPorts_eq dpdk
  constructor
  · exact nPorts_two h
  · intro i hi
    rcases lt_two_iff.1 hi with rfl | rfl
    · exact hget 0 (by decide)
    · exact hget 1 (by decide)
  · intro i hi
    rcases lt_two_iff.1 hi with rfl | rfl
    · exact ⟨_, rfl⟩
    · exact ⟨_, rfl⟩
  · intro i j conf conf' hi hj hip
    change twoIpPorts dpdk i = some conf at hi
    change twoIpPorts dpdk j = some conf' at hj
    rw [heq] at hi hj
    split_ifs at hi hj with hi1 hj1 hj0 hi0 hj1 hj0
    · rw [hi1, hj1]
    · cases hi
      cases hj
      exact absurd hip (show (0x0104A8C0 : BitVec 32) ≠ 0x0103A8C0 by decide)
    · cases hi
      cases hj
      exact absurd hip (show (0x0103A8C0 : BitVec 32) ≠ 0x0104A8C0 by decide)
    · rw [hi0, hj0]
  · intro j conf hj
    change twoIpPorts dpdk j = some conf at hj
    rw [heq] at hj
    split_ifs at hj with h1 h0
    · rw [h1]
      decide
    · rw [h0]
      decide

theorem two_fits (h : Accepted 3 args) (dpdk : Dpdk) : (appParams args (twoIpPorts dpdk)).Fits := by
  have hn : args.nPorts.toNat = 2 := congrArg BitVec.toNat (nPorts_two h)
  constructor
  · exact ⟨1, hn⟩
  · exact ⟨Nat.le_of_eq hn.symm, hn.symm ▸ by decide⟩
  · exact h.ports
  · exact Nat.le_refl 1
  · rfl
  · exact show 1 ≤ 256 by decide
  · exact Nat.le_refl 1
  · exact Nat.le_refl 1
  · exact show 1 ≤ 256 by decide

/-! ## Replies -/

section Replies

variable {near : IpPortConf} {f pkt : Mbuf}

/-- The reply to an echo request changes its sender and receiver. -/
theorem echoReply_addresses (f : Mbuf) : readLE (echoReply f).data 6 6 = readLE f.data 0 6 ∧
    isArp (echoReply f) = isArp f ∧ load32 (echoReply f).data 26 = load32 f.data 30 := by
  have hmac := readLE_lt f.data 0 6
  have hip := readLE_lt f.data 30 4
  simp only [echoReply]
  refine ⟨?_, ?_, ?_⟩
  · simp (disch := omega) only [readLE_writeLE_of_disjoint, readLE_writeLE, Nat.mod_eq_of_lt]
  · refine congrArg (fun v => decide (swap16 (BitVec.ofNat 16 v) = etherTypeArp)) ?_
    simp (disch := omega) only [readLE_writeLE_of_disjoint]
  · simp (disch := omega) only [load32, readLE_writeLE_of_disjoint, readLE_writeLE, Nat.mod_eq_of_lt]

/-- The ARP reply comes from the port. -/
theorem arpReply_addresses (near : IpPortConf) (i : BitVec 32) (f pkt : Mbuf) :
    readLE (arpReply near i f pkt).data 6 6 = near.macAddr.toNat ∧
      readLE (arpReply near i f pkt).data 22 6 = near.macAddr.toNat ∧ isArp (arpReply near i f pkt) = true ∧
        load32 (arpReply near i f pkt).data 28 = near.ip := by
  have hmac : near.macAddr.toNat < 256 ^ 6 := near.macAddr.isLt
  simp only [arpReply, initializeArpHeader, initializeEthHeader]
  refine ⟨?_, ?_, ?_, ?_⟩
  · simp (disch := omega) only [readLE_writeLE_of_disjoint, readLE_writeLE, Nat.mod_eq_of_lt]
  · simp (disch := omega) only [readLE_writeLE_of_disjoint, readLE_writeLE, Nat.mod_eq_of_lt]
  · simp (disch := omega) only [isArp, load16, readLE_writeLE_of_disjoint, readLE_writeLE]
    decide
  · refine (congrArg (BitVec.ofNat 32) ?_).trans (load32_writeLE (fun _ => 0) 28 near.ip)
    simp (disch := omega) only [readLE_writeLE_of_disjoint, readLE_writeLE]

end Replies

/-! ## The receive loop -/

section Rx

variable {app : AppParams} {i : BitVec 32} {b : Burst} {f : Mbuf} {near far : IpPortConf}

/-- What is sent goes to the port and comes from it. -/
def SendsOwn (app : AppParams) (i : BitVec 32) (events : List Event) : Prop :=
  ∀ p f sent, .tx p f sent ∈ events → p = i ∧ FromPort app p f

/-- What the iteration sends is in the events after `rte_eth_rx_burst`. -/
theorem rxSound_iff_dispose (h : TwoPorts app) (hi : i < 2) : RxSound app i b ↔
    ∃ events, rxDispose app i b = some events ∧ SendsOwn app i events := by
  have hport := h.port i hi
  have hstep : rxStep app i b = (rxDispose app i b).map (b.rx.map (.received i) ++ ·) := by
    rw [rxStep, hport]
    cases rxDispose app i b with
    | none => rfl
    | some events => rfl
  have hmem : ∀ {events : List Event} {p f sent}, .tx p f sent ∈ b.rx.map (.received i) ++ events ↔
      .tx p f sent ∈ events := by
    intro events p f sent
    simp
  rw [RxSound, h.nPorts, and_iff_right hi, hstep, hport]
  cases rxDispose app i b with
  | none => simp
  | some events => simp [SendsOwn, hmem, eq_comm]

theorem otherPort_lt_two (hi : i < 2) : i ^^^ 1 < 2 := by
  rcases lt_two_iff.1 hi with rfl | rfl
  · decide
  · decide

/-- The entries of `app.ip_ports` are those of the two indices. -/
theorem TwoPorts.eq_or (h : TwoPorts app) (hi : i < 2) (hnear : app.ipPorts i = some near)
    (hfar : app.ipPorts (i ^^^ 1) = some far) {j : BitVec 32} {conf : IpPortConf} (hj : app.ipPorts j = some conf) :
    conf = near ∨ conf = far := by
  have hji : j = i ∨ j = i ^^^ 1 := by
    rcases lt_two_iff.1 hi with rfl | rfl <;> rcases lt_two_iff.1 (h.only j conf hj) with rfl | rfl
    · exact Or.inl rfl
    · exact Or.inr rfl
    · exact Or.inr rfl
    · exact Or.inl rfl
  rcases hji with rfl | rfl
  · exact Or.inl (Option.some.inj (hj.symm.trans hnear))
  · exact Or.inr (Option.some.inj (hj.symm.trans hfar))

/-- An answered echo request: the reply comes from the address that was asked. -/
theorem echo_sound_iff (hnear : app.ipPorts i = some near) (harp : isArp f = false) :
    FromPort app i (echoReply f) ↔ readLE f.data 0 6 = near.macAddr.toNat ∧ load32 f.data 30 = near.ip := by
  obtain ⟨hmac, harp', hip⟩ := echoReply_addresses f
  have hsource : sourceIp (echoReply f) = load32 f.data 30 := by
    rw [sourceIp, harp', harp, if_neg Bool.false_ne_true, hip]
  simp only [FromPort, hnear, hmac, harp', harp, hsource, Option.some.injEq, Bool.false_eq_true, false_implies,
    true_and, exists_eq_left']

/-- A burst whose first frame is known. -/
theorem asksOwn_iff (h : TwoPorts app) (hi : i < 2) (hnear : app.ipPorts i = some near)
    (hfar : app.ipPorts (i ^^^ 1) = some far) {fs : List Mbuf} (hrx : b.rx = f :: fs) :
    AsksOwn app i b ↔ (isArp f = false → EchoBytes near far f →
      readLE f.data 0 6 = near.macAddr.toNat ∧ load32 f.data 30 = near.ip) := by
  have hhead : b.rx.head? = some f := by rw [hrx]; rfl
  simp only [AsksOwn, hhead, Option.mem_some_iff, forall_eq', h.port i hi, Option.some.injEq, exists_eq_left']
  refine forall_congr' fun harp => ⟨fun hall hbytes => ?_, fun hall hecho j conf hj hdst => ?_⟩
  · obtain ⟨j, conf, hj, hdst⟩ : ∃ j conf, app.ipPorts j = some conf ∧ load32 f.data 30 = conf.ip := by
      rcases hbytes.dst with hdst | hdst
      · exact ⟨i, near, hnear, hdst⟩
      · exact ⟨i ^^^ 1, far, hfar, hdst⟩
    obtain ⟨hconf, hmac⟩ := hall hbytes.bytes j conf hj hdst
    obtain rfl : near = conf := Option.some.inj (hnear.symm.trans hconf)
    exact ⟨hmac, hdst⟩
  · have hown := hall ⟨hecho, by rcases h.eq_or hi hnear hfar hj with rfl | rfl <;> simp [hdst]⟩
    obtain rfl : i = j := h.ip_inj i j near conf hnear hj (hown.2.symm.trans hdst)
    obtain rfl : near = conf := Option.some.inj (hnear.symm.trans hj)
    exact ⟨hnear, hown.1⟩

theorem sendsOwn_reply {m reply : Mbuf} {sent : Nat} : SendsOwn app i [.tx i reply sent, .free m] ↔
    FromPort app i reply := by
  constructor
  · exact fun h => (h i reply sent List.mem_cons_self).2
  · intro h p f sent' hmem
    simp only [List.mem_cons, List.not_mem_nil, or_false, reduceCtorEq, Event.tx.injEq] at hmem
    obtain ⟨rfl, rfl, -⟩ := hmem
    exact ⟨rfl, h⟩

theorem sendsOwn_arpReply (hnear : app.ipPorts i = some near) (f pkt : Mbuf) (sent : Nat) :
    SendsOwn app i [.allocated pkt, .tx i (arpReply near i f pkt) sent, .free pkt] := by
  obtain ⟨hmac, hsha, harp, hip⟩ := arpReply_addresses near i f pkt
  have hfrom : FromPort app i (arpReply near i f pkt) := by
    refine ⟨near, hnear, hmac, fun _ => hsha, ?_⟩
    rw [sourceIp, harp, if_pos rfl, hip]
  intro p g sent' hmem
  refine sendsOwn_reply.2 hfrom p g sent' ((List.mem_cons.1 hmem).resolve_left fun heq => ?_)
  cases heq

theorem sendsOwn_enqueueLoop {ms : List Mbuf} {attempts : List Attempt} {events : List Event}
    (h : enqueueLoop i ms attempts = some events) : SendsOwn app i events := by
  intro p f sent hmem
  obtain ⟨g, hg⟩ := enqueueLoop_enqueued h hmem
  cases hg

/-- **An iteration is sound just if an echo request that it answers was for the port.** -/
theorem rxSound_iff (h : TwoPorts app) (hi : i < 2) (hb : b.Served) : RxSound app i b ↔ AsksOwn app i b := by
  obtain ⟨near, hnear⟩ := h.conf i hi
  obtain ⟨far, hfar⟩ := h.conf (i ^^^ 1) (otherPort_lt_two hi)
  rw [rxSound_iff_dispose h hi]
  cases hrx : b.rx with
  | nil => simp [rxDispose, AsksOwn, hrx, SendsOwn]
  | cons f fs =>
    rw [asksOwn_iff h hi hnear hfar hrx]
    cases harp : isArp f with
    | true =>
      obtain ⟨pkt, halloc⟩ := Option.isSome_iff_exists.1 hb.alloc
      have hdispose : rxDispose app i b =
          some [.allocated pkt, .tx i (arpReply near i f pkt) b.sent, .free pkt] := by
        simp [rxDispose, hrx, harp, halloc, hnear]
      exact iff_of_true ⟨_, hdispose, sendsOwn_arpReply hnear f pkt b.sent⟩ (fun h => by cases h)
    | false =>
      rcases isEchoRequest_eq (m := f) hnear hfar with ⟨hecho, hbytes⟩ | ⟨hecho, hbytes⟩
      · have hdispose : rxDispose app i b = some [.tx i (echoReply f) b.sent, .free f] := by
          simp [rxDispose, hrx, harp, hecho]
        rw [hdispose]
        simp only [Option.some.injEq, exists_eq_left', sendsOwn_reply, echo_sound_iff hnear harp, hbytes, true_implies]
      · obtain ⟨events, hrun⟩ := @enqueueLoop_ends i b.rx b.attempts hb.room
        have hdispose : rxDispose app i b = some events := by
          rw [← hrun, hrx]
          simp [rxDispose, hrx, harp, hecho]
        exact iff_of_true ⟨events, hdispose, sendsOwn_enqueueLoop hrun⟩ fun _ h => absurd h hbytes

theorem nextPort_lt_two (h : TwoPorts app) (i : BitVec 32) : nextPort app i < 2 := by
  have hle : (nextPort app i).toNat ≤ 1 := by
    rw [nextPort, h.nPorts, BitVec.toNat_and]
    exact Nat.and_le_right
  rw [BitVec.lt_def]
  change (nextPort app i).toNat < 2
  omega

theorem eachRx_congr (h : TwoPorts app) (hi : i < 2) {bs : List Burst} (hbs : ∀ b ∈ bs, b.Served) :
    EachRx app (RxSound app) i bs ↔ EachRx app (AsksOwn app) i bs := by
  induction bs generalizing i with
  | nil => exact Iff.rfl
  | cons b bs ih =>
    exact and_congr (rxSound_iff h hi (hbs b List.mem_cons_self))
      (ih (nextPort_lt_two h i) fun b hb => hbs b (List.mem_cons_of_mem _ hb))

end Rx

/-! ## Other masks -/

/-- Every call succeeds. -/
def goodDpdk : Dpdk where
  pool := true
  ringRx _ := true
  ringTx _ := true
  nic _ :=
    { configure := true, rxQueueSetup := true, txQueueSetup := true, start := true, macAddr := 0, linkUp := true }

/-- There are addresses for the devices 0 and 1 at most. -/
def FromTwo (ipPorts : IpPorts) : Prop := ∀ p : BitVec 32, 2 ≤ p.toNat → ipPorts p = none

/-- The address of a device is set, and then it is started, or nothing is set. -/
theorem appInitPort_good (hip : FromTwo ipPorts) (hid : id.toNat < 64) :
    (2 ≤ id.toNat ∧ appInitPort goodDpdk ipPorts id = .error .undefined) ∨
      (id.toNat < 2 ∧ ∃ ipPorts', appInitPort goodDpdk ipPorts id = .ok ipPorts' ∧ FromTwo ipPorts') := by
  by_cases hlt : id.toNat < 2
  · have hid' : id = 0 ∨ id = 1 := by
      rw [← BitVec.toNat_inj, ← BitVec.toNat_inj]
      change id.toNat = 0 ∨ id.toNat = 1
      omega
    have hkeep : ∀ port : BitVec 8, FromTwo (setIpPort ipPorts 0 port) := by
      intro port p hp
      have h0 : p ≠ 0 := by rintro rfl; cases hp
      have h1 : p ≠ 1 := by rintro rfl; exact absurd hp (by decide)
      unfold setIpPort
      split_ifs
      · rw [Function.update_of_ne h0, hip p hp]
      · rw [Function.update_of_ne h1, hip p hp]
      · exact hip p hp
    refine Or.inr ⟨hlt, ?_⟩
    rcases hid' with rfl | rfl
    · exact ⟨_, rfl, hkeep 0⟩
    · exact ⟨_, rfl, hkeep 1⟩
  · have hwidth : ((id.setWidth 8).setWidth 32 : BitVec 32) = id := by
      apply BitVec.eq_of_toNat_eq
      rw [BitVec.toNat_setWidth, BitVec.toNat_setWidth]
      omega
    have hne : ∀ k : BitVec 8, k.toNat < 2 → (id.setWidth 8 : BitVec 8) ≠ k := by
      intro k hk heq
      rw [← heq, BitVec.toNat_setWidth] at hk
      omega
    have hset : setIpPort ipPorts 0 (id.setWidth 8) ((id.setWidth 8).setWidth 32) = none := by
      rw [setIpPort, if_neg (hne 0 (by decide)), if_neg (hne 1 (by decide)), hwidth]
      exact hip id (by omega)
    refine Or.inl ⟨by omega, ?_⟩
    have hmac : (goodDpdk.nic (id.setWidth 8)).macAddr = 0 := rfl
    simp only [appInitPort, hmac, hset]
    rfl

theorem foldlM_good (hip : FromTwo ipPorts) (hids : ∀ id ∈ ids, id.toNat < 64) :
    ((∃ id ∈ ids, 2 ≤ id.toNat) ∧ ids.foldlM (appInitPort goodDpdk) ipPorts = .error .undefined) ∨
      ∃ ipPorts', ids.foldlM (appInitPort goodDpdk) ipPorts = .ok ipPorts' ∧ ¬ ∃ id ∈ ids, 2 ≤ id.toNat := by
  induction ids generalizing ipPorts with
  | nil => exact Or.inr ⟨ipPorts, rfl, by simp⟩
  | cons id ids ih =>
    have hids' : ∀ id ∈ ids, id.toNat < 64 := fun id hid => hids id (List.mem_cons_of_mem _ hid)
    rw [List.foldlM_cons]
    rcases appInitPort_good hip (hids id List.mem_cons_self) with ⟨h2, hport⟩ | ⟨h2, ipPorts', hport, hip'⟩
    · exact Or.inl ⟨⟨id, List.mem_cons_self, h2⟩, by rw [hport]; rfl⟩
    · have hbind : (appInitPort goodDpdk ipPorts id >>= fun a => ids.foldlM (appInitPort goodDpdk) a) =
          ids.foldlM (appInitPort goodDpdk) ipPorts' := by
        rw [hport]
        rfl
      rw [hbind]
      rcases ih hip' hids' with ⟨⟨id', hmem, hid'⟩, hrun⟩ | ⟨ipPorts'', hrun, hnone⟩
      · exact Or.inl ⟨⟨id', List.mem_cons_of_mem _ hmem, hid'⟩, hrun⟩
      · refine Or.inr ⟨ipPorts'', hrun, ?_⟩
        rintro ⟨id', hmem, hid'⟩
        rcases List.mem_cons.1 hmem with rfl | hmem
        · omega
        · exact hnone ⟨id', hmem, hid'⟩

/-- Where every call of DPDK succeeds, only an id from 2 on stops the initialisation. -/
theorem appInit_good (h : Accepted mask args) :
    ((∃ id ∈ maskIds mask, 2 ≤ id.toNat) ∧ appInit goodDpdk args = .error .undefined) ∨
      (¬ (∃ id ∈ maskIds mask, 2 ≤ id.toNat) ∧ ∃ ipPorts, appInit goodDpdk args = .ok (appParams args ipPorts)) := by
  have hinit : appInit goodDpdk args = (do
      let ipPorts ← (maskIds mask).foldlM (appInitPort goodDpdk) fun _ => none
      return appParams args ipPorts) := by
    have hall : ∀ (n : Nat) (ring : Nat → Bool), (∀ k, ring k = true) → (List.range n).all ring = true :=
      fun n ring hring => List.all_eq_true.2 fun k _ => hring k
    have hlink : ∀ ids : List (BitVec 32), appPortsCheckLink goodDpdk ids = .ok () := by
      intro ids
      have hup : (ids.all fun id => (goodDpdk.nic (id.setWidth 8)).linkUp) = true :=
        List.all_eq_true.2 fun _ _ => rfl
      rw [appPortsCheckLink, hup]
      rfl
    simp only [appInit, h.ids, hlink, hall _ goodDpdk.ringRx fun _ => rfl, hall _ goodDpdk.ringTx fun _ => rfl]
    rfl
  rw [hinit]
  rcases @foldlM_good (fun _ => none) (maskIds mask) (fun _ _ => rfl) fun _ => lt_of_mem_maskIds with
    ⟨hid, hrun⟩ | ⟨ipPorts, hrun, hid⟩
  · exact Or.inl ⟨hid, by rw [hrun]; rfl⟩
  · exact Or.inr ⟨hid, ipPorts, by rw [hrun]; rfl⟩

/-- A frame of zeros, which is nobody's -/
def blankFrame : Mbuf := frameAt 1 fun _ => 0

/-- Empty rings, for the buffers of the router -/
def emptyRings : Forward Mbuf where
  ringsRx _ := Ring.empty 127
  ringsTx _ := Ring.empty 127
  worker := { i := 0, pc := .dequeue, array := List.Vector.replicate _ blankFrame }
  mbufTx _ := { array := List.Vector.replicate _ blankFrame, nMbufs := 0 }
  tx := { i := 0, pc := .dequeue }
  log := []

theorem emptyRings_initial : emptyRings.Initial := ⟨fun _ => rfl, fun _ => rfl, ⟨rfl, rfl⟩, fun _ => rfl, rfl, rfl⟩

/-- A frame comes in, and the worker forwards it. -/
def forwardOne : Run where
  dpdk := goodDpdk
  bursts := [{ rx := [blankFrame], alloc := some (frameAt 2 fun _ => 0), sent := 0, attempts := [⟨0, true⟩] }]
  rings := emptyRings
  acts := [.receive 0 [blankFrame], .worker, .worker]

theorem forwardOne_wf : forwardOne.Wf := by
  refine ⟨fun b hb => ?_, emptyRings_initial⟩
  obtain rfl := List.mem_singleton.1 hb
  exact ⟨rfl, ⟨0, true⟩, List.mem_cons_self, Int.le_refl 0⟩

/-- With one port, the worker reads `app.rings_tx[1]`, which was not created. -/
theorem forward_one {app : ForwardParams} (hn : app.nPorts = 1) (hread : app.burstSizeWorkerRead = 1) :
    Trans.run (forwardStep app) forwardOne.rings forwardOne.acts = none := by
  obtain ⟨s, hreceive, hpc, hi, ring, hdeq⟩ : ∃ s,
      forwardStep app emptyRings (.receive 0 [blankFrame]) = some s ∧ s.worker.pc = .dequeue ∧
      s.worker.i = 0 ∧ ∃ ring, (s.ringsRx s.worker.i).dequeueBulk 1 = some ([blankFrame], ring) :=
    ⟨_, rfl, rfl, rfl, _, rfl⟩
  have hdeq' : (s.ringsRx s.worker.i).dequeueBulk app.burstSizeWorkerRead.toNat =
      some ([blankFrame], ring) := by
    rw [hread]
    exact hdeq
  have hlt : s.worker.i < app.nPorts := by
    rw [hn, hi]
    decide
  have hother : ¬ otherPort s.worker.i < app.nPorts := by
    rw [hn, hi]
    decide
  obtain ⟨array, hstore, -⟩ := storeSlots_of_le (a := s.worker.array)
    (show 0 + [blankFrame].length ≤ appMbufArraySize by decide)
  have hdequeue : forwardStep app s .worker = some { s with
      ringsRx := Function.update s.ringsRx s.worker.i ring
      worker := { s.worker with pc := .enqueue, array }
      log := s.log ++ [.taken s.worker.i [blankFrame]] } := by
    simp [forwardStep, workerStep, hpc, hlt, hdeq', hstore]
  have henqueue : forwardStep app { s with
      ringsRx := Function.update s.ringsRx s.worker.i ring
      worker := { s.worker with pc := .enqueue, array }
      log := s.log ++ [.taken s.worker.i [blankFrame]] } .worker = none := by
    simp [forwardStep, workerStep, hother]
  change Trans.run (forwardStep app) emptyRings [.receive 0 [blankFrame], .worker, .worker] = none
  rw [Trans.run, hreceive, Option.bind_some, Trans.run, hdequeue, Option.bind_some, Trans.run, henqueue,
    Option.bind_none]

/-! ## Runs -/

/-- A run for the mask 3 -/
theorem sound_iff_three (h : Accepted 3 args) {r : Run} (hr : r.Wf) : r.Sound args ↔ r.AsksOwn args := by
  unfold Run.Sound Run.AsksOwn
  rcases appInit_two h r.dpdk with hinit | ⟨app, hinit, rfl⟩
  · rw [hinit]
    exact iff_of_true rfl trivial
  · rw [hinit]
    obtain ⟨s, hrun, -⟩ := forward_conserves _ (two_fits h r.dpdk) r.rings hr.initial r.acts
    have hforward : (Trans.run (forwardStep (appParams args (twoIpPorts r.dpdk))) r.rings r.acts).isSome = true := by
      rw [hrun]
      rfl
    exact (and_iff_left hforward).trans (eachRx_congr (two_twoPorts h r.dpdk) (by decide) hr.served)

theorem forwardOne_asksOwn (args : PortIds) : forwardOne.AsksOwn args := by
  unfold Run.AsksOwn
  split
  · trivial
  · refine ⟨?_, trivial⟩
    intro f hf _ hecho
    obtain rfl := Option.some.inj hf
    exact absurd hecho.1 (by decide)

/-- For another mask, the run `forwardOne` is not sound. -/
theorem not_sound_forwardOne (h : Accepted mask args) (h3 : mask ≠ 3) : ¬ forwardOne.Sound args := by
  have hdpdk : forwardOne.dpdk = goodDpdk := rfl
  unfold Run.Sound
  rw [hdpdk]
  rcases appInit_good h with ⟨-, hinit⟩ | ⟨hids, ipPorts, hinit⟩
  · rw [hinit]
    exact fun heq => by cases heq
  · have hone : args.nPorts = 1 := by
      apply BitVec.eq_of_toNat_eq
      exact h.count.trans ((maskIds_cases h.nonzero h3).resolve_left hids)
    rw [hinit]
    rintro ⟨-, hrun⟩
    rw [forward_one hone rfl] at hrun
    cases hrun

/-- **The mask that is safe is 3.** Then every run is sound whose echo requests ask for the device that they come in
on, and no other one; for each other mask that is accepted, there is such a run that is not sound. -/
theorem portMask_iff (hports : app.ports.length = appMaxPorts) (h : appParsePortMask bits app arg = .ok args) :
    ((∀ r : Run, r.Wf → r.AsksOwn args → r.Sound args) ↔ portMask bits arg = 3) ∧
      (portMask bits arg = 3 → ∀ r : Run, r.Wf → (r.Sound args ↔ r.AsksOwn args)) := by
  have hargs := appParsePortMask_ok hports h
  refine ⟨⟨fun hall => ?_, fun h3 r hr => ?_⟩, fun h3 r hr => ?_⟩
  · by_contra h3
    exact not_sound_forwardOne hargs h3 (hall forwardOne forwardOne_wf (forwardOne_asksOwn args))
  · rw [h3] at hargs
    exact (sound_iff_three hargs hr).2
  · rw [h3] at hargs
    exact sound_iff_three hargs hr

/-- `app`, as far as it is about ports, before the arguments are read -/
def initialPorts : PortIds := { ports := [0, 0, 0, 0], nPorts := 4 }

theorem portMask_iff_three : forwardOne.Sound { ports := [0, 1, 0, 0], nPorts := 2 } :=
  ((@portMask_iff 32 initialPorts _ "3".toList rfl (by decide +kernel)).2 (by decide +kernel) forwardOne
    forwardOne_wf).2 (forwardOne_asksOwn _)

/-- With the mask 1, the frame that is forwarded goes to a ring that is not there; with the mask 4, there is no
address to print. -/
theorem portMask_not_one :
    appParsePortMask 32 initialPorts "1".toList = .ok { ports := [0, 0, 0, 0], nPorts := 1 } ∧
      (∃ app, appInit goodDpdk { ports := [0, 0, 0, 0], nPorts := 1 } = .ok app ∧
        (∃ m m', appMainLoopRx app.toAppParams 0 forwardOne.bursts = some [[.received 0 m, .enqueued 0 m']]) ∧
          Trans.run (forwardStep app) forwardOne.rings forwardOne.acts = none) ∧
      appParsePortMask 32 initialPorts "4".toList = .ok { ports := [2, 0, 0, 0], nPorts := 1 } ∧
        appInit goodDpdk { ports := [2, 0, 0, 0], nPorts := 1 } = .error .undefined := by
  refine ⟨by decide +kernel, ⟨_, rfl, ⟨blankFrame, blankFrame, ?_⟩, forward_one rfl rfl⟩, by decide +kernel, rfl⟩
  rfl

end Xmhf.Router
