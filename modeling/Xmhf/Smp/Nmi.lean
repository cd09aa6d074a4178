import Mathlib.Data.BitVec
import Xmhf.Lib.Trans

/-!
# NMIs outside a quiesce

`xmhf_smpguest_arch_x86vmx_eventhandler_nmiexception` and `xmhf_smpguest_arch_x86svm_eventhandler_nmiexception`
with `g_vmx_quiesce` and `g_svm_quiesce` 0: what both do with an NMI that is not the quiesce's.

* A run is a list of events of one core, in which the core is in the hypervisor but for the guest's
  execution before each `exit`. The exit fields keep what the last `exit` recorded.
* The guest's NMIs are VM exits. VMX's intercept handler calls the NMI handler for them; SVM's opens the
  window for the pending NMI, which then comes through the IDT. An NMI taken in the hypervisor comes
  through the IDT on both.
* The exceptions intercepted change between events. The hypapp does not intercept NMIs.
-/

namespace Xmhf.Smp.Nmi

/-- `VMX_VMEXIT_EXCEPTION` -/
def vmxVmexitException : BitVec 32 := 0
/-- `SVM_VMEXIT_NMI` -/
def svmVmexitNmi : BitVec 64 := 97
/-- `INTR_INFO_VECTOR_MASK` -/
def intrInfoVectorMask : BitVec 32 := 0xFF
/-- `CPU_EXCEPTION_NMI`, a vector -/
def cpuExceptionNmi : BitVec 32 := 2
/-- `NMI_VECTOR | INTR_TYPE_NMI | INTR_INFO_VALID_MASK` -/
def nmiInformation : BitVec 32 := 0x2 ||| (2 <<< 8) ||| 0x80000000

/-- The exception bitmaps of both back ends: bit `k` is set if vector `k` is intercepted. -/
abbrev Bitmap := BitVec 32

/-- The hypapp intercepts NMIs. -/
def Bitmap.nmi (b : Bitmap) : Bool := b.getLsbD 2

/-- #DB is intercepted, as LAPIC emulation does for an instruction. -/
def Bitmap.db (b : Bitmap) : Bool := b.getLsbD 1

/-! ## VMX -/

/-- The fields of the VMCS that the handler uses. -/
structure Vmcs where
  /-- 0x4402 -/
  exitReason : BitVec 32
  /-- 0x4404 -/
  exitInterruptInformation : BitVec 32
  /-- `control_exception_bitmap` -/
  exceptionBitmap : Bitmap
  /-- `control_VM_entry_exception_errorcode` -/
  entryErrorcode : BitVec 32
  /-- `control_VM_entry_interruption_information` -/
  entryInformation : BitVec 32
  /-- The events that the handler injected, in order. -/
  injected : List (BitVec 32)
  deriving DecidableEq, Repr

/-- `nmiinhvm` -/
def Vmcs.nmiinhvm (m : Vmcs) : Bool :=
  m.exitReason = vmxVmexitException ∧ m.exitInterruptInformation &&& intrInfoVectorMask = 2

/-- `xmhf_smpguest_arch_x86vmx_eventhandler_nmiexception` -/
def Vmcs.nmiexception (m : Vmcs) : Vmcs :=
  if m.nmiinhvm then
    if m.exceptionBitmap &&& cpuExceptionNmi ≠ 0 then m
    else
      { m with
        entryErrorcode := 0
        entryInformation := nmiInformation
        injected := m.injected ++ [nmiInformation] }
  else m

/-- `xmhf_parteventhub_arch_x86vmx_intercept_handler`; no other case of it injects an NMI. -/
def Vmcs.interceptHandler (m : Vmcs) : Vmcs :=
  if m.exitReason = vmxVmexitException then
    if m.exitInterruptInformation &&& intrInfoVectorMask = 2 then m.nmiexception else m
  else m

/-! ## SVM -/

/-- `union _svm_eventinj` -/
structure EventInj where
  vector : BitVec 8
  type : BitVec 3
  ev : BitVec 1
  v : BitVec 1
  errorcode : BitVec 32
  deriving DecidableEq, Repr

/-- An NMI: `EVENTINJ_TYPE_NMI`, no error code, valid. -/
def EventInj.nmi : EventInj := ⟨0, 2, 0, 1, 0⟩

/-- The fields of the VMCB that the handler uses. -/
structure Vmcb where
  exitcode : BitVec 64
  exceptionInterceptsBitmask : Bitmap
  eventinj : EventInj
  /-- The events that the handler injected, in order. -/
  injected : List EventInj
  deriving DecidableEq, Repr

/-- `nmiinhvm`: "1 if NMI was triggered while in hypervisor, 0 if it was triggered in guest" -/
def Vmcb.nmiinhvm (m : Vmcb) : Bool := if m.exitcode = svmVmexitNmi then false else true

/-- `xmhf_smpguest_arch_x86svm_eventhandler_nmiexception` -/
def Vmcb.nmiexception (m : Vmcb) : Vmcb :=
  if m.nmiinhvm then
    if m.exceptionInterceptsBitmask &&& cpuExceptionNmi ≠ 0 then m
    else { m with eventinj := .nmi, injected := m.injected ++ [.nmi] }
  else m

/-- `xmhf_parteventhub_arch_x86svm_intercept_handler`; `_svm_handle_nmi` lets the pending NMI in. -/
def Vmcb.interceptHandler (m : Vmcb) : Vmcb :=
  if m.exitcode = svmVmexitNmi then m.nmiexception else m

/-! ## Runs -/

/-- A VM exit as each back end records it. -/
structure Exit where
  reason : BitVec 32
  interruptInformation : BitVec 32
  exitcode : BitVec 64
  corresponds : (reason = vmxVmexitException ∧ interruptInformation &&& intrInfoVectorMask = 2) ↔
    exitcode = svmVmexitNmi

/-- The exit is an NMI in the guest. -/
def Exit.nmi (e : Exit) : Prop := e.exitcode = svmVmexitNmi

/-- Exceptions to intercept, NMIs not among them. -/
structure Intercepts where
  bitmap : Bitmap
  notNmi : bitmap.nmi = false

inductive Event
  /-- VM entry, then the next VM exit with the intercept handler. -/
  | exit (e : Exit)
  /-- The hypervisor sets the exceptions that it intercepts. -/
  | intercept (i : Intercepts)
  /-- An NMI while the core is in the hypervisor: `xmhf_xcphandler_arch_hub` -/
  | nmi

/-- A core on VMX and one on SVM after the same events. -/
structure State where
  vmcs : Vmcs
  vmcb : Vmcb

/-- A VM exit is recorded. -/
def State.record (s : State) (e : Exit) : State where
  vmcs := { s.vmcs with exitReason := e.reason, exitInterruptInformation := e.interruptInformation }
  vmcb := { s.vmcb with exitcode := e.exitcode }

/-- One event on both. -/
def step (s : State) : Event → State
  | .exit e => ⟨(s.record e).vmcs.interceptHandler, (s.record e).vmcb.interceptHandler⟩
  | .intercept i =>
    ⟨{ s.vmcs with exceptionBitmap := i.bitmap }, { s.vmcb with exceptionInterceptsBitmask := i.bitmap }⟩
  | .nmi => ⟨s.vmcs.nmiexception, s.vmcb.nmiexception⟩

/-- The two cores are in step: the same last exit and the same exceptions intercepted. -/
structure InStep (s : State) : Prop where
  exit : s.vmcs.nmiinhvm = true ↔ s.vmcb.exitcode = svmVmexitNmi
  bitmap : s.vmcb.exceptionInterceptsBitmask = s.vmcs.exceptionBitmap
  notNmi : s.vmcs.exceptionBitmap.nmi = false

/-- A core of each back end at its first VM entry: nothing recorded, no exception intercepted. -/
def launched : State where
  vmcs := ⟨0, 0, 0, 0, 0, []⟩
  vmcb := ⟨0, 0, ⟨0, 0, 0, 0, 0⟩, []⟩

/-- What the guest's NMIs look like. -/
def guestNmi : Exit where
  reason := vmxVmexitException
  interruptInformation := 0x80000202
  exitcode := svmVmexitNmi
  corresponds := by decide

/-! ## What an event's NMI should do -/

/-- An NMI of the guest is injected once, one in the hypervisor not at all. -/
def Forwarded {α : Type} (nmi : α) (before after : List α) : Event → Prop
  | .exit e => e.nmi → after = before ++ [nmi]
  | .intercept _ => True
  | .nmi => after = before

/-- Both back ends forward the event's NMI, and so make the same decision. -/
structure Forwards (s : State) (a : Event) : Prop where
  vmx : Forwarded nmiInformation s.vmcs.injected (step s a).vmcs.injected a
  svm : Forwarded .nmi s.vmcb.injected (step s a).vmcb.injected a
  same : (step s a).vmcs.injected = s.vmcs.injected ↔ (step s a).vmcb.injected = s.vmcb.injected

/-- No NMI in the guest, and NMIs in the hypervisor only while #DB is intercepted. -/
def OnlyMasked (s : State) : Event → Prop
  | .exit e => ¬ e.nmi
  | .intercept _ => True
  | .nmi => s.vmcs.exceptionBitmap.db

end Xmhf.Smp.Nmi
