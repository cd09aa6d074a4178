import Xmhf.Eventhub.Proof.E820

/-!
# What a guest makes of the E820 service

A guest asks for the records of the map one after the other, by the protocol in the service's comment:
"return value, CF=0 indicated no error", "EBX=next continuation value", "EBX=0 if last descriptor".

* `Call.spec`: the carry flag and the continuation value of one call. The last record comes with the carry
  flag set.
* `Receives.length`: a guest that goes by the carry flag is one record short.
* `exists_receives`: a guest in real mode gets its answers.
-/

namespace Xmhf.Eventhub

open Xmhf.Memory Xmhf.Word Xmhf.Paging Xmhf.Boot

variable {r : Rpb} {map : List GrubE820}

/-- The descriptor in the buffer at `va`. -/
def descriptor (r : Rpb) (s : Hv) (va : Nat) : Option GrubE820 := do
  let baseaddrLow ← s.read r va 4
  let baseaddrHigh ← s.read r (add32 va 4) 4
  let lengthLow ← s.read r (add32 va 8) 4
  let lengthHigh ← s.read r (add32 va 12) 4
  let type ← s.read r (add32 va 16) 4
  return ⟨BitVec.ofNat 32 baseaddrLow, BitVec.ofNat 32 baseaddrHigh, BitVec.ofNat 32 lengthLow,
    BitVec.ofNat 32 lengthHigh, BitVec.ofNat 32 type⟩

/-- The carry flag of the flags pushed at `frame`. -/
def carry (r : Rpb) (s : Hv) (frame : Nat) : Option Bool :=
  (s.read r (add32 frame 4) 2).map fun flags => (BitVec.ofNat 16 flags).getLsbD 0

/-- A call of the service with continuation value `c`, from `s` to `s'`, with the frame of the INT 15h at
`frame`. -/
structure Call (r : Rpb) (map : List GrubE820) (c : BitVec 32) (s s' : St) (frame : Nat) : Prop where
  continuation : s.cpu.regs.ebx = c
  served : ∃ hv, Served r map s hv frame
  result : e820Hook r map s = some s'

/-- The records that a guest receives from continuation value `c` on. Between two calls it runs as it
likes. -/
inductive Receives (r : Rpb) (map : List GrubE820) : BitVec 32 → List GrubE820 → Prop
  /-- CF is set: the descriptor is discarded. -/
  | error {c s s' frame} : Call r map c s s' frame → carry r s'.hv frame = some true → Receives r map c []
  /-- EBX is 0: the descriptor is the last one. -/
  | last {c s s' frame e} : Call r map c s s' frame → carry r s'.hv frame = some false →
      descriptor r s'.hv (guestBuffer s.cpu) = some e → s'.cpu.regs.ebx = 0 → Receives r map c [e]
  | more {c s s' frame e l} : Call r map c s s' frame → carry r s'.hv frame = some false →
      descriptor r s'.hv (guestBuffer s.cpu) = some e → s'.cpu.regs.ebx ≠ 0 →
      Receives r map s'.cpu.regs.ebx l → Receives r map c (e :: l)

/-! ## One call -/

theorem getLsbD_answerFlags (c : Vcpu) (flags : BitVec 16) :
    (answerFlags map c flags).getLsbD 0 = isLastRecord map c := by
  unfold answerFlags
  cases isLastRecord map c <;> simp [eflagsCF]

theorem carry_of_store {s s' : Hv} {frame : Nat} {flags : BitVec 16}
    (h : s.store r (add32 frame 4) 2 flags.toNat = some s') :
    carry r s' frame = some (flags.getLsbD 0) := by
  have hmapped := (Hv.store_isSome_iff (add32_lt frame 4)).1 (by rw [h]; rfl : (s.store r _ _ _).isSome)
  have hread : s'.read r (add32 frame 4) 2 = some (flags.toNat % 256 ^ 2) := by
    refine Hv.read_eq (add32_lt frame 4) fun k hk => ?_
    obtain ⟨pa, hpa⟩ := Option.isSome_iff_exists.1 (hmapped k hk)
    exact ⟨pa, hpa, Hv.store_mem (add32_lt frame 4) (by decide) h hk hpa⟩
  rw [carry, hread, Nat.mod_eq_of_lt (by simpa using flags.isLt), Option.map_some, BitVec.ofNat_toNat,
    BitVec.setWidth_eq]

theorem toNat_next {c : BitVec 32} {n : Nat} (hn : n < 2 ^ 32) (hc : c.toNat < n) :
    (c + 1).toNat = c.toNat + 1 := by
  rw [BitVec.toNat_add, show (1 : BitVec 32).toNat = 1 from rfl, Nat.mod_eq_of_lt (by omega)]

theorem isLastRecord_iff (hlt : map.length < 2 ^ 32) {c : Vcpu} (hc : c.regs.ebx.toNat < map.length) :
    isLastRecord map c = true ↔ c.regs.ebx.toNat + 1 = map.length := by
  rw [isLastRecord, decide_eq_true_iff, toNat_next hlt hc]
  omega

/-- **The last record comes with the carry flag set**, and so does no other one. -/
theorem Call.spec (hlt : map.length < 2 ^ 32) {c : BitVec 32} {s s' : St} {frame : Nat}
    (h : Call r map c s s' frame) :
    c.toNat < map.length ∧ carry r s'.hv frame = some (decide (c.toNat + 1 = map.length)) ∧
      s'.cpu.regs.ebx = if c.toNat + 1 = map.length then 0 else c + 1 := by
  obtain ⟨hv, hserved⟩ := h.served
  obtain ⟨e, -, he, -, -⟩ := copyDescriptor_spec hserved.descriptor
  have hc : s.cpu.regs.ebx.toNat < map.length := (List.getElem?_eq_some_iff.1 he).1
  have hlast := isLastRecord_iff hlt hc
  obtain ⟨bda, hbda⟩ := Option.isSome_iff_exists.1 hserved.bda
  have hres := h.result
  rw [e820Hook, if_pos hserved.mode, int15Handleintercept, hbda] at hres
  obtain ⟨hv', frame', flags, hcopy, hframe, -, hstore, hcpu⟩ :=
    e820Service_cases ((if_pos hserved.service).symm.trans hres)
  obtain rfl : hv = hv' := Option.some.inj (hserved.descriptor.symm.trans hcopy)
  obtain rfl : frame = frame' := Option.some.inj (hserved.stack.symm.trans hframe)
  obtain rfl := h.continuation
  refine ⟨hc, ?_, ?_⟩
  · rw [carry_of_store hstore, getLsbD_answerFlags]
    exact congrArg some (Bool.eq_iff_iff.2 (hlast.trans decide_eq_true_iff.symm))
  · rw [hcpu, answer]
    by_cases hl : isLastRecord map s.cpu = true
    · simp [hl, hlast.1 hl]
    · simp [hl, mt hlast.2 hl]

/-! ## The whole conversation -/

/-- **A guest that goes by the carry flag** receives one record less than there are. -/
theorem Receives.length (hlt : map.length < 2 ^ 32) {c : BitVec 32} {l : List GrubE820}
    (h : Receives r map c l) : l.length + c.toNat + 1 = map.length := by
  induction h with
  | error hcall hcf =>
    obtain ⟨-, hcarry, -⟩ := hcall.spec hlt
    have hlast := of_decide_eq_true (Option.some.inj (hcarry.symm.trans hcf))
    rw [List.length_nil]
    omega
  | last hcall hcf he hebx =>
    obtain ⟨hc, hcarry, hnext⟩ := hcall.spec hlt
    have hmore := of_decide_eq_false (Option.some.inj (hcarry.symm.trans hcf))
    rw [if_neg hmore] at hnext
    have h0 := congrArg BitVec.toNat (hnext.symm.trans hebx)
    rw [toNat_next hlt hc] at h0
    cases h0
  | more hcall hcf he hebx hrest ih =>
    obtain ⟨hc, hcarry, hnext⟩ := hcall.spec hlt
    have hmore := of_decide_eq_false (Option.some.inj (hcarry.symm.trans hcf))
    rw [if_neg hmore] at hnext
    rw [hnext, toNat_next hlt hc] at ih
    rw [List.length_cons]
    omega

/-! ## A guest in real mode -/

/-- A call with continuation value `c`, with the buffer at `0x8000` and the stack at `0x7000`. -/
def realCall (c : BitVec 32) : St :=
  let first := firstCall 0x8000 0x7000
  ⟨{ first with regs := { first.regs with ebx := c } }, fun _ => 0, []⟩

theorem exists_descriptor {s : Hv} {va : Nat} (h : r.Mapped va 20) (hva : va < 2 ^ 32) :
    ∃ e, descriptor r s va = some e := by
  obtain ⟨w0, h0⟩ := Hv.exists_read (s := s) (fun k hk => h k (by omega) : r.Mapped va 4) hva
  obtain ⟨w1, h1⟩ := Hv.exists_read (s := s) (h.part (by decide) : r.Mapped (add32 va 4) 4) (add32_lt _ _)
  obtain ⟨w2, h2⟩ := Hv.exists_read (s := s) (h.part (by decide) : r.Mapped (add32 va 8) 4) (add32_lt _ _)
  obtain ⟨w3, h3⟩ := Hv.exists_read (s := s) (h.part (by decide) : r.Mapped (add32 va 12) 4) (add32_lt _ _)
  obtain ⟨w4, h4⟩ := Hv.exists_read (s := s) (h.part (by decide) : r.Mapped (add32 va 16) 4) (add32_lt _ _)
  exact ⟨_, by rw [descriptor, h0, h1, h2, h3, h4]; rfl⟩

theorem guestAddress_realCall (c : BitVec 32) (s : Hv) (vaddr : BitVec 32) :
    guestAddress r s (realCall c).cpu.vmcs vaddr = some vaddr.toNat := by
  have hmode : (firstCall 0x8000 0x7000).vmcs.v86 = false := by decide
  change (realCall c).cpu.vmcs.v86 = false at hmode
  rw [guestAddress, hmode]
  rfl

theorem call_realCall (hvirt : pageSize2M ≤ r.runtimeVirtBase) {c : BitVec 32}
    (hc : c.toNat < map.length) : ∃ s', Call r map c (realCall c) s' 0x7000 := by
  have hphys := r.phys_ge
  unfold pageSize2M at hvirt hphys
  have hbuf : r.Mapped 0x8000 20 := Rpb.mapped_low (by omega) (by decide)
  have hstack : r.Mapped 0x7000 6 := Rpb.mapped_low (by omega) (by decide)
  obtain ⟨hv, hcopy⟩ : ∃ hv, copyDescriptor r map (realCall c) = some hv := by
    have hsome : (storeWords r (realCall c).hv 0x8000 map[c.toNat].words).isSome :=
      (storeWords_isSome_iff (by decide)).2 hbuf
    obtain ⟨hv, hst⟩ := Option.isSome_iff_exists.1 hsome
    refine ⟨hv, ?_⟩
    have hreq : (realCall c).cpu.regs.edx = smap ∧ (realCall c).cpu.regs.ebx.toNat < map.length := ⟨rfl, hc⟩
    have hlow : guestBuffer (realCall c).cpu < r.runtimePhysBase := by
      show 0x8000 < r.runtimePhysBase
      omega
    rw [copyDescriptor, guard, if_pos hreq, guard, if_pos hlow, pure_bind, pure_bind]
    exact Option.bind_eq_some_iff.2 ⟨_, List.getElem?_eq_getElem hc, hst⟩
  obtain ⟨flags, hflags⟩ := exists_readFlags (s := hv) hstack (by decide)
  have hserved : Served r map (realCall c) hv 0x7000 :=
    ⟨(by decide : (!(firstCall 0x8000 0x7000).vmcs.pe || (firstCall 0x8000 0x7000).vmcs.v86) = true),
      by rw [guestAddress_realCall]; rfl, rfl, hcopy, guestAddress_realCall c hv _, by rw [hflags]; rfl⟩
  obtain ⟨s', hs', -⟩ := hserved.writes
  exact ⟨s', rfl, ⟨hv, hserved⟩, hs'⟩

/-- **A guest in real mode gets its answers.** -/
theorem exists_receives (hlt : map.length < 2 ^ 32) (hvirt : pageSize2M ≤ r.runtimeVirtBase) {c : BitVec 32}
    (hc : c.toNat < map.length) : ∃ l, Receives r map c l := by
  obtain ⟨n, hn⟩ : ∃ n, map.length = c.toNat + 1 + n := ⟨_, (Nat.add_sub_of_le hc).symm⟩
  induction n generalizing c with
  | zero =>
    obtain ⟨s', hcall⟩ := call_realCall hvirt hc
    obtain ⟨-, hcarry, -⟩ := hcall.spec hlt
    exact ⟨[], .error hcall (hcarry.trans (congrArg some (decide_eq_true hn.symm)))⟩
  | succ n ih =>
    obtain ⟨s', hcall⟩ := call_realCall hvirt hc
    obtain ⟨-, hcarry, hnext⟩ := hcall.spec hlt
    have hmore : ¬c.toNat + 1 = map.length := by omega
    rw [if_neg hmore] at hnext
    have hnat : s'.cpu.regs.ebx.toNat = c.toNat + 1 := by rw [hnext, toNat_next hlt hc]
    have hmapped : r.Mapped 0x8000 20 :=
      Rpb.mapped_low (by unfold pageSize2M at hvirt; omega) (by decide)
    obtain ⟨e, he⟩ := exists_descriptor (s := s'.hv) hmapped (by decide)
    obtain ⟨l, hl⟩ := ih (c := s'.cpu.regs.ebx) (by omega) (by omega)
    refine ⟨e :: l, .more hcall (hcarry.trans (congrArg some (decide_eq_false hmore))) he (fun h0 => ?_) hl⟩
    rw [h0] at hnat
    cases hnat

/-- **No guest that goes by the service's comment receives the whole map**, and there is one that gets its
answers: the last record is announced as an error. -/
theorem e820_never_whole (hpos : 0 < map.length) (hlt : map.length < 2 ^ 32) :
    (∀ r : Rpb, pageSize2M ≤ r.runtimeVirtBase → ∃ l, Receives r map 0 l) ∧
      ∀ (r : Rpb) (l), Receives r map 0 l → l ≠ map := by
  refine ⟨fun r hvirt => exists_receives hlt hvirt hpos, fun r l hl heq => ?_⟩
  have hlen := hl.length hlt
  rw [heq, show (0 : BitVec 32).toNat = 0 from rfl] at hlen
  omega

theorem e820_never_whole_two :
    ∃ l, Receives relocated [⟨0, 0, 0xA0000, 0, 1⟩, ⟨0x100000, 0, 0xF00000, 0, 1⟩] 0 l ∧
      l ≠ [⟨0, 0, 0xA0000, 0, 1⟩, ⟨0x100000, 0, 0xF00000, 0, 1⟩] := by
  obtain ⟨hex, hne⟩ := @e820_never_whole [⟨0, 0, 0xA0000, 0, 1⟩, ⟨0x100000, 0, 0xF00000, 0, 1⟩] (by decide)
    (by decide)
  obtain ⟨l, hl⟩ := hex relocated (by decide)
  exact ⟨l, hl, hne relocated l hl⟩

/-- Of a map of one record a guest receives nothing. -/
theorem e820_loses_last : Receives relocated [⟨0, 0, 0xA0000, 0, 1⟩] 0 [] := by
  obtain ⟨l, hl⟩ : ∃ l, Receives relocated [⟨0, 0, 0xA0000, 0, 1⟩] 0 l :=
    exists_receives (by decide) (by decide) (by decide)
  obtain rfl : l = [] := List.eq_nil_of_length_eq_zero (Nat.succ.inj (hl.length (by decide)))
  exact hl

end Xmhf.Eventhub
