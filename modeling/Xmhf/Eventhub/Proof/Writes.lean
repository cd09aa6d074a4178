import Xmhf.Eventhub.Proof.E820
import Xmhf.Smp.Proof.Entries

/-!
# Which calls of the hook stay outside the hypervisor

A call writes the 20 bytes of the descriptor at ES:DI and the two bytes of the pushed flags, at offset 4 of
the frame of the INT 15h. The two are told by the virtual CPU, the guest's memory and the map alone:
`Request` are the service's checks, `FrameAt` is where the frame is; in V86 mode both go by the entries of the
guest's page tables (`LinearAt`).

* `atRuntime_iff_covers`: the host's addresses at which the memory of secure loader and runtime is.
* `served_iff`: the calls that pass every check.
* `e820Hook_writes_iff`: which calls write outside the memory of secure loader and runtime alone.
* `clear_iff_of_le`: that is, below the secure loader, for bytes that are below the end of the runtime.
-/

namespace Xmhf.Eventhub

open Xmhf.Memory Xmhf.Word Xmhf.Paging Xmhf.Boot

/-! ## The host's addresses of secure loader and runtime -/

/-- The registers of the two APICs. -/
def Apic (x : Nat) : Prop := 0xFEC00000 ≤ x ∧ x < 0xFF000000

/-- The memory of secure loader and runtime is at the host's address `x`: in
[XtVmmRuntimePhysBase-2MB, XtVmmRuntimePhysBase+XtVmmRuntimeSize), as far as memory is mapped one to one, or
in the runtime's own range. -/
def Covers (r : Rpb) (x : Nat) : Prop :=
  (r.runtimePhysBase - pageSize2M ≤ x ∧ x < r.runtimePhysBase + r.runtimeSize ∧
      (Apic x ∨ x < r.runtimeVirtBase)) ∨
    r.runtimeVirtBase ≤ x ∧ x < r.runtimeVirtBase + r.runtimeSize ∧ ¬Apic x

/-- None of the `n` bytes at the host's address `x` is of secure loader or runtime. -/
def Clear (r : Rpb) (x n : Nat) : Prop := ∀ k < n, ¬Covers r (add32 x k)

variable {r : Rpb} {map : List GrubE820} {cpu : Vcpu} {mem : Mem}

theorem atRuntime_iff_covers {x : Nat} : r.AtRuntime x ↔ Covers r x := by
  have hphys := r.phys_ge
  have hsize : r.runtimeSize ≤ pageAlignUp2M r.runtimeSize := by
    unfold pageAlignUp2M pageSize2M
    omega
  unfold Rpb.AtRuntime Rpb.bootMap Covers Apic
  split_ifs with hapic hlow hown
  · simp only [Option.mem_def, Option.some.injEq, exists_eq_left', Rpb.protectedAt_iff, hapic]
    simp
  · simp only [Option.mem_def, Option.some.injEq, exists_eq_left', Rpb.protectedAt_iff]
    omega
  · simp only [Option.mem_def, Option.some.injEq, exists_eq_left', Rpb.protectedAt_iff]
    omega
  · simp only [Option.mem_def, reduceCtorEq, false_and, exists_false, false_iff]
    omega

/-- Bytes that end below the end of the runtime, where memory is mapped one to one, are to end below the
secure loader. -/
theorem clear_iff_of_le {x n : Nat} (hn : 0 < n) (hx : x + n ≤ r.runtimePhysBase + r.runtimeSize)
    (hvirt : r.runtimePhysBase + r.runtimeSize ≤ r.runtimeVirtBase) :
    Clear r x n ↔ x + n ≤ r.runtimePhysBase - pageSize2M := by
  have hlt := r.phys_lt
  constructor
  · intro h
    have hlast := h (n - 1) (by omega)
    rw [add32_of_lt (by omega)] at hlast
    unfold Covers at hlast
    omega
  · intro h k hk
    rw [add32_of_lt (by omega)]
    unfold Covers
    omega

/-! ## The calls of the service -/

/-- The byte at `pa` once the descriptor `e` is in the buffer at the host's address `va`. -/
def descriptorMem (r : Rpb) (e : GrubE820) (va : Nat) (m : Mem) : Mem := fun pa =>
  match (List.range 20).find? fun k => r.bootMap (add32 va k) = some pa with
  | some k => wordByte e.words k
  | none => m pa

/-- The guest's page tables in `mem` have the linear address `vaddr` at `p`, in the words that the host has of
them: in the page of the last entry. -/
def LinearAt (r : Rpb) (v : Vmcs) (mem : Mem) (vaddr : BitVec 32) (p : Nat) : Prop :=
  ∃ e k, Smp.Walk.Guest.lastEntry r ⟨mem, v.guestCR3, v.guestCR4⟩ vaddr = some (e, k) ∧
    Smp.Walk.pageAddr vaddr e k = p

/-- A call of the service for the record `e`: in a mode in which the hook can be reached, with 'SMAP' and a
valid continuation value. The buffer is below the runtime; in V86 mode so is the BIOS data area. -/
structure Request (r : Rpb) (map : List GrubE820) (cpu : Vcpu) (mem : Mem) (e : GrubE820) : Prop where
  mode : cpu.vmcs.pe = false ∨ cpu.vmcs.v86 = true
  service : cpu.regs.eax.setWidth 16 = (0xE820 : BitVec 16)
  magic : cpu.regs.edx = smap
  record : map[cpu.regs.ebx.toNat]? = some e
  bda : cpu.vmcs.v86 = true → ∃ p < r.runtimePhysBase, LinearAt r cpu.vmcs mem 0x4AC p
  buffer : guestBuffer cpu < r.runtimePhysBase
  mapped : r.Mapped (guestBuffer cpu) 20

/-- The frame of the INT 15h is mapped at the host's address `frame`: the stack's linear address in real
mode, what the guest's page tables in `mem` give for it in V86 mode, which is to be below the runtime. -/
structure FrameAt (r : Rpb) (cpu : Vcpu) (mem : Mem) (frame : Nat) : Prop where
  real : cpu.vmcs.v86 = false → frame = (gueststackregion cpu).toNat
  v86 : cpu.vmcs.v86 = true →
    LinearAt r cpu.vmcs mem (gueststackregion cpu) frame ∧ frame < r.runtimePhysBase
  mapped : r.Mapped frame 6

theorem descriptorMem_eq {s s' : Hv} {va : Nat} {e : GrubE820} (hva : va < 2 ^ 32)
    (h : storeWords r s va e.words = some s') : s'.mem = descriptorMem r e va s.mem := by
  obtain ⟨hbytes, hrest⟩ := mem_storeWords hva (Nat.le_of_ble_eq_true rfl : 4 * e.words.length ≤ 4096) h
  have hlen : 4 * e.words.length = 20 := rfl
  rw [hlen] at hbytes hrest
  funext pa
  unfold descriptorMem
  split
  · next k hk =>
    obtain ⟨hmap, hmem⟩ := List.find?_eq_some_iff_append.1 hk
    exact hbytes k (List.mem_range.1 (List.mem_of_find?_eq_some hk)) pa (of_decide_eq_true hmap)
  · next hnone =>
    refine hrest pa fun k hk hpa => ?_
    exact List.find?_eq_none.1 hnone k (List.mem_range.2 hk) (decide_eq_true hpa)

/-- A read goes by memory alone. -/
theorem read_mem (s : Hv) (va n : Nat) : s.read r va n = Hv.read r ⟨s.mem, []⟩ va n := by
  induction n generalizing va with
  | zero => rfl
  | succ n ih => rw [Hv.read, Hv.read, ih]

theorem walkPagetables_mem (s : Hv) (v : Vmcs) (vaddr : BitVec 32) :
    walkPagetables r s v vaddr = walkPagetables r ⟨s.mem, []⟩ v vaddr := by
  simp only [walkPagetables, walkPae, walkNonPae, readEntry, read_mem s]

theorem linearAt_iff {v : Vmcs} {vaddr : BitVec 32} {p : Nat} : LinearAt r v mem vaddr p ↔
    ∃ x, walkPagetables r ⟨mem, []⟩ v vaddr = some x ∧ x.toNat = p :=
  (Smp.Walk.vmxWalk_eq_some_iff (g := ⟨mem, v.guestCR3, v.guestCR4⟩)).symm

theorem guestAddress_eq_some_iff {s : Hv} {v : Vmcs} {vaddr : BitVec 32} {p : Nat} :
    guestAddress r s v vaddr = some p ↔ (v.v86 = false → p = vaddr.toNat) ∧
      (v.v86 = true → LinearAt r v s.mem vaddr p ∧ p < r.runtimePhysBase) := by
  rw [guestAddress, walkPagetables_mem, linearAt_iff]
  cases v.v86 with
  | false => simp [eq_comm]
  | true =>
    simp only [if_true, Option.bind_eq_bind, Option.bind_eq_some_iff, Bool.true_eq_false, false_imp_iff,
      true_and, forall_const, Option.guard_eq_some', Option.pure_def, Option.some.injEq, exists_const]
    constructor
    · rintro ⟨x, hx, hlt, rfl⟩
      exact ⟨⟨x, hx, rfl⟩, hlt⟩
    · rintro ⟨⟨x, hx, rfl⟩, hlt⟩
      exact ⟨x, hx, hlt, rfl⟩

theorem frameAt_iff {s : Hv} {frame : Nat} : FrameAt r cpu s.mem frame ↔
    guestAddress r s cpu.vmcs (gueststackregion cpu) = some frame ∧ (readFlags r s frame).isSome := by
  constructor
  · intro h
    have haddr := guestAddress_eq_some_iff.2 ⟨h.real, h.v86⟩
    obtain ⟨flags, hflags⟩ := exists_readFlags (s := s) h.mapped (guestAddress_lt haddr)
    exact ⟨haddr, Option.isSome_of_eq_some hflags⟩
  · rintro ⟨haddr, hflags⟩
    obtain ⟨flags, hflags⟩ := Option.isSome_iff_exists.1 hflags
    obtain ⟨hreal, hv86⟩ := guestAddress_eq_some_iff.1 haddr
    exact ⟨hreal, hv86, mapped_of_readFlags (guestAddress_lt haddr) hflags⟩

theorem copyDescriptor_eq {s : St} {e : GrubE820} (hmagic : s.cpu.regs.edx = smap)
    (hrecord : map[s.cpu.regs.ebx.toNat]? = some e) (hbuffer : guestBuffer s.cpu < r.runtimePhysBase) :
    copyDescriptor r map s = storeWords r s.hv (guestBuffer s.cpu) e.words := by
  have hlt := (List.getElem?_eq_some_iff.1 hrecord).1
  rw [copyDescriptor, guard, if_pos ⟨hmagic, hlt⟩, guard, if_pos hbuffer, pure_bind, pure_bind, hrecord]
  rfl

/-- **The calls that pass every check.** -/
theorem served_iff {hv : Hv} {frame : Nat} : Served r map ⟨cpu, mem, []⟩ hv frame ↔
    ∃ e, Request r map cpu mem e ∧ storeWords r ⟨mem, []⟩ (guestBuffer cpu) e.words = some hv ∧
      FrameAt r cpu (descriptorMem r e (guestBuffer cpu) mem) frame := by
  have hmode : (!cpu.vmcs.pe || cpu.vmcs.v86) = true ↔ cpu.vmcs.pe = false ∨ cpu.vmcs.v86 = true := by
    rw [Bool.or_eq_true, Bool.not_eq_true']
  constructor
  · intro h
    obtain ⟨e, hmagic, hrecord, hbuffer, hstore⟩ := copyDescriptor_spec h.descriptor
    obtain ⟨bda, hbda⟩ := Option.isSome_iff_exists.1 h.bda
    have hmapped := (storeWords_isSome_iff (guestBuffer_lt cpu)).1 (Option.isSome_of_eq_some hstore)
    refine ⟨e, ⟨hmode.1 h.mode, h.service, hmagic, hrecord, fun hv86 => ?_, hbuffer, hmapped⟩, hstore, ?_⟩
    · obtain ⟨hlinear, hlt⟩ := (guestAddress_eq_some_iff.1 hbda).2 hv86
      exact ⟨bda, hlt, hlinear⟩
    · rw [← descriptorMem_eq (guestBuffer_lt cpu) hstore]
      exact frameAt_iff.2 ⟨h.stack, h.flags⟩
  · rintro ⟨e, h, hstore, hframe⟩
    rw [← descriptorMem_eq (guestBuffer_lt cpu) hstore, frameAt_iff] at hframe
    have hcopy := copyDescriptor_eq (s := ⟨cpu, mem, []⟩) h.magic h.record h.buffer
    refine ⟨hmode.2 h.mode, ?_, h.service, hcopy.trans hstore, hframe.1, hframe.2⟩
    by_cases hv86 : cpu.vmcs.v86 = true
    · obtain ⟨p, hlt, hlinear⟩ := h.bda hv86
      exact Option.isSome_of_eq_some (guestAddress_eq_some_iff.2
        ⟨fun hreal => absurd (hreal.symm.trans hv86) Bool.false_ne_true, fun _ => ⟨hlinear, hlt⟩⟩)
    · exact Option.isSome_of_eq_some (guestAddress_eq_some_iff.2
        ⟨fun _ => rfl, fun hyes => absurd hyes hv86⟩)

/-! ## The hook -/

/-- **A call of the hook writes outside the memory of secure loader and runtime alone** if and only if it
does not pass the service's checks, or has no frame, or neither the 20 bytes of its buffer nor the two of
the pushed flags are at an address of secure loader or runtime. -/
theorem e820Hook_writes_iff (cpu : Vcpu) (mem : Mem) :
    (∀ s', e820Hook r map ⟨cpu, mem, []⟩ = some s' → ∀ pa ∈ s'.hv.written, ¬r.protectedAt pa) ↔
      ∀ e frame, Request r map cpu mem e →
        FrameAt r cpu (descriptorMem r e (guestBuffer cpu) mem) frame →
          Clear r (guestBuffer cpu) 20 ∧ Clear r (add32 frame 4) 2 := by
  constructor
  · intro h e frame hreq hframe
    have hsome : (storeWords r ⟨mem, []⟩ (guestBuffer cpu) e.words).isSome :=
      (storeWords_isSome_iff (guestBuffer_lt cpu)).2 hreq.mapped
    obtain ⟨hv, hstore⟩ := Option.isSome_iff_exists.1 hsome
    obtain ⟨s', hs', hw⟩ := Served.writes (served_iff.2 ⟨e, hreq, hstore, hframe⟩)
    refine ⟨fun k hk hcov => ?_, fun k hk hcov => ?_⟩
    · obtain ⟨pa, hpa, hprot⟩ := atRuntime_iff_covers.2 hcov
      exact h s' hs' pa ((hw pa).2 (.inr (.inl ⟨k, hk, hpa⟩))) hprot
    · obtain ⟨pa, hpa, hprot⟩ := atRuntime_iff_covers.2 hcov
      rw [add32_add32] at hpa
      exact h s' hs' pa ((hw pa).2 (.inr (.inr ⟨k, hk, hpa⟩))) hprot
  · intro h s' hs' pa hpa hprot
    obtain ⟨hv, frame, hserved⟩ | hnone := e820Hook_cases hs'
    · obtain ⟨s1, hs1, hw⟩ := hserved.writes
      obtain rfl := Option.some.inj (hs1.symm.trans hs')
      obtain ⟨e, hreq, -, hframe⟩ := served_iff.1 hserved
      obtain ⟨hbuf, hflags⟩ := h e frame hreq hframe
      rcases (hw pa).1 hpa with hmem | ⟨k, hk, hk'⟩ | ⟨k, hk, hk'⟩
      · cases hmem
      · exact hbuf k hk (atRuntime_iff_covers.1 ⟨pa, hk', hprot⟩)
      · rw [← add32_add32] at hk'
        exact hflags k hk (atRuntime_iff_covers.1 ⟨pa, hk', hprot⟩)
    · rw [hnone] at hpa
      cases hpa

/-- **In real mode the stack is not checked**: with its base in the runtime, the flags are written there. -/
theorem e820Hook_writes_runtime : ∃ s', e820Hook relocated [⟨0, 0, 0xA0000, 0, 1⟩]
      ⟨firstCall 0x8000 0x10200000, fun _ => 0, []⟩ = some s' ∧
    ∃ pa ∈ s'.hv.written, relocated.protectedAt pa :=
  ⟨_, rfl, 0x10200004, by decide +kernel, by decide⟩

end Xmhf.Eventhub
