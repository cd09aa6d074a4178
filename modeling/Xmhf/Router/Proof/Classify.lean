import Xmhf.Router.Proof.Checksum

/-!
# What the router answers

`Own` is the router's own control traffic, ARP requests for the port's address and echo requests to the router, and
`Misread` a frame that passes the tests of the loop without being that. `rxDispose_forwards_iff`: an iteration that
received other frames forwards what it received just when the first frame is not misread, and not an own one either.
-/

namespace Xmhf.Router

open Memory

variable {app : AppParams} {i : BitVec 32} {b : Burst} {m : Mbuf} {ms : List Mbuf} {near far : IpPortConf}

/-! ## Frames -/

/-- The bytes of an Ethernet header with an ARP message, or with an IP header and the header of ICMP -/
def controlLen : Nat := 42

/-- `ARP_OP_REQUEST` -/
def arpOpRequest : BitVec 16 := 1

/-- An ARP request for the address of the port, by its operation and target. Its hardware and protocol types and
the lengths of their addresses are left out. -/
structure ArpRequestFor (near : IpPortConf) (m : Mbuf) : Prop where
  etherType : isArp m = true
  long : controlLen ≤ m.dataLen.toNat
  request : swap16 (load16 m.data 20) = arpOpRequest
  target : load32 m.data 38 = near.ip

/-- An IPv4 packet, with a header of 20 bytes and no later fragment, that has an ICMP header. -/
structure IsIpv4 (m : Mbuf) : Prop where
  etherType : swap16 (load16 m.data 12) = etherTypeIPv4
  long : controlLen ≤ m.dataLen.toNat
  header : m.data 14 = 0x45
  total : 28 ≤ (swap16 (load16 m.data 16)).toNat
  fragment : swap16 (load16 m.data 20) &&& 0x1FFF = 0

/-- Protocol, type and code of an echo request, and an address of the router. -/
structure EchoBytes (near far : IpPortConf) (m : Mbuf) : Prop where
  bytes : m.data 23 = ipprotoIcmp ∧ m.data 34 = ipIcmpEchoRequest ∧ m.data 35 = 0
  dst : load32 m.data 30 = near.ip ∨ load32 m.data 30 = far.ip

/-- The control traffic for the router. -/
def Own (near far : IpPortConf) (m : Mbuf) : Prop :=
  ArpRequestFor near m ∨ IsIpv4 m ∧ EchoBytes near far m

/-- The frame looks like control traffic for the router at the places where the loop looks, and is not. -/
def Misread (near far : IpPortConf) (m : Mbuf) : Prop :=
  isArp m = true ∧ ¬ ArpRequestFor near m ∨ isArp m = false ∧ EchoBytes near far m ∧ ¬ IsIpv4 m

theorem IsIpv4.not_isArp (h : IsIpv4 m) : isArp m = false := by
  rw [isArp, h.etherType]
  rfl

theorem misread_arp (h : isArp m = true) : Misread near far m ↔ ¬ Own near far m := by
  have hnot : ¬ IsIpv4 m := fun h' => by
    rw [h'.not_isArp] at h
    cases h
  simp [Misread, Own, h, hnot]

theorem misread_echo (h : isArp m = false) (he : EchoBytes near far m) : Misread near far m ↔ ¬ Own near far m := by
  have hnot : ¬ ArpRequestFor near m := fun h' => by
    rw [h'.etherType] at h
    cases h
  simp [Misread, Own, h, he, hnot]

theorem not_own (h : isArp m = false) (he : ¬ EchoBytes near far m) : ¬ Own near far m := by
  rintro (h' | h')
  · rw [h'.etherType] at h
    cases h
  · exact he h'.2

theorem not_misread (h : isArp m = false) (he : ¬ EchoBytes near far m) : ¬ Misread near far m := by
  simp [Misread, h, he]

theorem isEchoRequest_eq (hnear : app.ipPorts i = some near) (hfar : app.ipPorts (i ^^^ 1) = some far) :
    isEchoRequest app i m = some true ∧ EchoBytes near far m ∨
      isEchoRequest app i m = some false ∧ ¬ EchoBytes near far m := by
  unfold isEchoRequest
  by_cases hbytes : m.data 23 = ipprotoIcmp ∧ m.data 34 = ipIcmpEchoRequest ∧ m.data 35 = 0
  · rw [if_pos hbytes, hnear, hfar]
    simp only [Option.bind_eq_bind, Option.bind_some, Option.pure_def]
    by_cases hdst : load32 m.data 30 = near.ip
    · rw [if_pos hdst]
      exact Or.inl ⟨rfl, hbytes, Or.inl hdst⟩
    · rw [if_neg hdst]
      by_cases hdst' : load32 m.data 30 = far.ip
      · exact Or.inl ⟨congrArg some (decide_eq_true hdst'), hbytes, Or.inr hdst'⟩
      · refine Or.inr ⟨congrArg some (decide_eq_false hdst'), fun h => ?_⟩
        exact h.dst.elim hdst hdst'
  · rw [if_neg hbytes]
    exact Or.inr ⟨rfl, fun h => hbytes h.bytes⟩

/-! ## One iteration -/

/-- The loop around `rte_ring_sp_enqueue_bulk` ends when the ring has room. -/
theorem enqueueLoop_ends {attempts : List Attempt} (hroom : ∃ t ∈ attempts, 0 ≤ t.ret) :
    ∃ events, enqueueLoop i ms attempts = some events := by
  induction attempts with
  | nil => simp at hroom
  | cons t ts ih =>
    rw [enqueueLoop]
    by_cases hret : t.ret < 0
    · rw [if_pos hret]
      obtain ⟨t', ht', hret'⟩ := hroom
      rcases List.mem_cons.1 ht' with rfl | hmem
      · omega
      · obtain ⟨events, hrun⟩ := ih ⟨t', hmem, hret'⟩
        exact ⟨_, by rw [hrun, Option.map_some]⟩
    · rw [if_neg hret]
      exact ⟨_, rfl⟩

theorem enqueueLoop_enqueued {attempts : List Attempt} {events : List Event} {e : Event}
    (h : enqueueLoop i ms attempts = some events) (he : e ∈ events) : ∃ m, e = .enqueued i m := by
  induction attempts generalizing events with
  | nil => cases h
  | cons t ts ih =>
    have hput : ∀ {e}, e ∈ (if t.put then ms.map (.enqueued i) else []) → ∃ m, e = Event.enqueued i m := by
      intro e he
      split_ifs at he
      · obtain ⟨m, -, rfl⟩ := List.mem_map.1 he
        exact ⟨m, rfl⟩
      · cases he
    rw [enqueueLoop] at h
    by_cases hret : t.ret < 0
    · rw [if_pos hret] at h
      obtain ⟨events', hrec, rfl⟩ := Option.map_eq_some_iff.1 h
      exact (List.mem_append.1 he).elim hput (ih hrec)
    · rw [if_neg hret] at h
      exact hput (Option.some.inj h ▸ he)

theorem enqueueLoop_some {attempts : List Attempt} (hlaw : ∀ t ∈ attempts, t.put = true ↔ 0 ≤ t.ret)
    (hroom : ∃ t ∈ attempts, 0 ≤ t.ret) : enqueueLoop i ms attempts = some (ms.map (.enqueued i)) := by
  obtain ⟨events, hrun⟩ := @enqueueLoop_ends i ms attempts hroom
  rw [hrun, enqueueLoop_eq hlaw hrun]

/-- The iteration puts what it received on the ring, and does nothing else. -/
def Forwards (app : AppParams) (i : BitVec 32) (b : Burst) : Prop :=
  rxDispose app i b = some (b.rx.map (.enqueued i))

theorem not_forwards_arp (hrx : b.rx = m :: ms) (harp : isArp m = true) : ¬ Forwards app i b := by
  intro h
  simp only [Forwards, rxDispose, hrx, if_pos harp, Option.bind_eq_bind, Option.bind_eq_some_iff,
    Option.pure_def, Option.some.injEq, List.map_cons] at h
  obtain ⟨pkt, -, self, -, heq⟩ := h
  cases heq

theorem not_forwards_echo (hrx : b.rx = m :: ms) (harp : isArp m = false)
    (hecho : isEchoRequest app i m = some true) : ¬ Forwards app i b := by
  intro h
  simp [Forwards, rxDispose, hrx, harp, hecho] at h

theorem forwards_other (hrx : b.rx = m :: ms) (harp : isArp m = false)
    (hecho : isEchoRequest app i m = some false) (hlaw : ∀ t ∈ b.attempts, t.put = true ↔ 0 ≤ t.ret)
    (hroom : ∃ t ∈ b.attempts, 0 ≤ t.ret) : Forwards app i b := by
  simp only [Forwards, rxDispose, hrx, harp, hecho, Bool.false_eq_true, if_false, Option.bind_eq_bind,
    Option.bind_some]
  exact enqueueLoop_some hlaw hroom

/-- **Only the router's own control traffic is consumed**, every burst with another frame is forwarded as it is, just
when the first frame is not misread, and is not followed by another frame if it is an own one. -/
theorem rxDispose_forwards_iff (hnear : app.ipPorts i = some near) (hfar : app.ipPorts (i ^^^ 1) = some far)
    (hlaw : ∀ t ∈ b.attempts, t.put = true ↔ 0 ≤ t.ret) (hroom : ∃ t ∈ b.attempts, 0 ≤ t.ret) :
    (∀ f ∈ b.rx, ¬ Own near far f → Forwards app i b) ↔
      ∀ m ms, b.rx = m :: ms → ¬ Misread near far m ∧ (Own near far m → ∀ f ∈ ms, Own near far f) := by
  cases hrx : b.rx with
  | nil => simp
  | cons m ms =>
    have hhead : (∀ m' ms', m :: ms = m' :: ms' →
        ¬ Misread near far m' ∧ (Own near far m' → ∀ f ∈ ms', Own near far f)) ↔
        ¬ Misread near far m ∧ (Own near far m → ∀ f ∈ ms, Own near far f) := by
      refine ⟨fun h => h m ms rfl, fun h m' ms' heq => ?_⟩
      obtain ⟨rfl, rfl⟩ := List.cons_eq_cons.1 heq
      exact h
    rw [hhead]
    -- an answer is not a forwarded burst, so all its frames have to be own ones
    have hanswered : ¬ Forwards app i b → (Misread near far m ↔ ¬ Own near far m) →
        ((∀ f ∈ m :: ms, ¬ Own near far f → Forwards app i b) ↔
          ¬ Misread near far m ∧ (Own near far m → ∀ f ∈ ms, Own near far f)) := by
      intro hnot hmis
      rw [hmis, not_not]
      constructor
      · intro hall
        have hown : ∀ f ∈ m :: ms, Own near far f := fun f hf => by_contra fun h => hnot (hall f hf h)
        exact ⟨hown m List.mem_cons_self, fun _ f hf => hown f (List.mem_cons_of_mem _ hf)⟩
      · rintro ⟨hm, hms⟩ f hf hnown
        rcases List.mem_cons.1 hf with rfl | hf
        · exact absurd hm hnown
        · exact absurd (hms hm f hf) hnown
    cases harp : isArp m with
    | true => exact hanswered (not_forwards_arp hrx harp) (misread_arp harp)
    | false =>
      rcases isEchoRequest_eq (m := m) hnear hfar with ⟨hecho, hbytes⟩ | ⟨hecho, hbytes⟩
      · exact hanswered (not_forwards_echo hrx harp hecho) (misread_echo harp hbytes)
      · have hown : ¬ Own near far m := not_own harp hbytes
        have hmis : ¬ Misread near far m := not_misread harp hbytes
        have hforward := forwards_other hrx harp hecho hlaw hroom
        exact iff_of_true (fun _ _ _ => hforward) ⟨hmis, fun h => absurd h hown⟩

/-! ## Examples -/

/-- The first of `twoPorts` -/
def portZero : IpPortConf := { portId := 0, ip := 0x0103A8C0, macAddr := 0 }

/-- The second one -/
def portOne : IpPortConf := { portId := 1, ip := 0x0104A8C0, macAddr := 0 }

/-- One frame that the ring has room for -/
def roomFor (m : Mbuf) : Burst := { rx := [m], alloc := none, sent := 0, attempts := [⟨0, true⟩] }

/-- An ARP frame for nobody is answered, and so is a frame of EtherType 0x8600 with the bytes of an echo request. -/
theorem rxDispose_answers_other :
    (¬ Own portZero portOne (frameAt 1 arpFrame) ∧ ¬ Forwards twoPorts 0 (roomFor (frameAt 1 arpFrame))) ∧
      ¬ Own portZero portOne (frameAt 1 (Function.update (pingFrame 0xF6 0xFF 1) 12 0x86)) ∧
        ¬ Forwards twoPorts 0 (roomFor (frameAt 1 (Function.update (pingFrame 0xF6 0xFF 1) 12 0x86))) := by
  refine ⟨⟨?_, not_forwards_arp rfl (by decide +kernel)⟩, ?_,
    not_forwards_echo rfl (by decide +kernel) (by decide +kernel)⟩
  · rintro (h | h)
    · exact absurd h.request (by decide +kernel)
    · exact absurd h.1.etherType (by decide +kernel)
  · rintro (h | h)
    · exact absurd h.etherType (by decide +kernel)
    · exact absurd h.1.etherType (by decide +kernel)

/-- A UDP datagram from 192.168.3.2 to port 53 of 192.168.4.2 -/
def udpFrame : Mem
  | 12 => 0x08
  | 14 => 0x45
  | 17 => 50
  | 22 => 64
  | 23 => 17
  | 26 => 0xC0
  | 27 => 0xA8
  | 28 => 3
  | 29 => 2
  | 30 => 0xC0
  | 31 => 0xA8
  | 32 => 4
  | 33 => 2
  | 34 => 0x80
  | 37 => 53
  | 39 => 30
  | _ => 0

/-- Traffic between the hosts of the two networks is forwarded. -/
theorem rxDispose_forwards_iff_udp : ¬ Own portZero portOne (frameAt 1 udpFrame) ∧
    Forwards twoPorts 0 (roomFor (frameAt 1 udpFrame)) := by
  have harp : isArp (frameAt 1 udpFrame) = false := by decide +kernel
  have hecho : ¬ EchoBytes portZero portOne (frameAt 1 udpFrame) :=
    fun h => absurd h.bytes.1 (by decide +kernel)
  have hown := not_own harp hecho
  refine ⟨hown, (rxDispose_forwards_iff rfl rfl (by decide) ⟨⟨0, true⟩, by decide, by decide⟩).2
    (fun m ms hrx => ?_) _ List.mem_cons_self hown⟩
  obtain ⟨rfl, rfl⟩ := List.cons_eq_cons.1 hrx
  exact ⟨not_misread harp hecho, fun h => absurd h hown⟩

end Xmhf.Router
