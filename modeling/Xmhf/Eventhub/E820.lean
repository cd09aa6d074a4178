import Xmhf.Boot.E820
import Xmhf.Eventhub.Vcpu

/-!
# INT 15h E820

The hook for INT 15h: the E820 service is emulated from the revised memory map, and the other services are
left to the original handler.
-/

namespace Xmhf.Eventhub

open Xmhf.Memory Xmhf.Word Xmhf.Paging Xmhf.Boot

/-- A virtual CPU and memory. -/
structure St where
  cpu : Vcpu
  hv : Hv

/-- 'SMAP' -/
def smap : BitVec 32 := 0x534D4150

/-- An address of the guest's; in V86 mode it is translated, and must be below the runtime. -/
def guestAddress (r : Rpb) (s : Hv) (v : Vmcs) (vaddr : BitVec 32) : Option Nat :=
  if v.v86 then do
    let paddr ← walkPagetables r s v vaddr
    guard (paddr.toNat < r.runtimePhysBase)
    return paddr.toNat
  else some vaddr.toNat

/-- `(u32)(vcpu->vmcs.guest_ES_base+(u16)r->edi)` -/
def guestBuffer (c : Vcpu) : Nat :=
  ((c.vmcs.guestESBase + (c.regs.edi.setWidth 16).setWidth 64).setWidth 32).toNat

/-- `(u32)vcpu->vmcs.guest_SS_base + (u16)vcpu->vmcs.guest_RSP` -/
def gueststackregion (c : Vcpu) : BitVec 32 :=
  c.vmcs.guestSSBase.setWidth 32 + (c.vmcs.guestRSP.setWidth 16).setWidth 32

/-- The fields of an entry stored one after the other. -/
def storeWords (r : Rpb) : Hv → Nat → List (BitVec 32) → Option Hv
  | s, _, [] => some s
  | s, va, w :: ws => do
    let s' ← s.store r va 4 w.toNat
    storeWords r s' (add32 va 4) ws

/-- The checks of the E820 service, and its store of the descriptor. -/
def copyDescriptor (r : Rpb) (map : List GrubE820) (s : St) : Option Hv := do
  guard (s.cpu.regs.edx = smap ∧ s.cpu.regs.ebx.toNat < map.length)
  guard (guestBuffer s.cpu < r.runtimePhysBase)
  let e ← map[s.cpu.regs.ebx.toNat]?
  storeWords r s.hv (guestBuffer s.cpu) e.words

/-- The flags in the frame of the INT 15h. The frame's IP and CS are read and not used. -/
def readFlags (r : Rpb) (s : Hv) (frame : Nat) : Option (BitVec 16) := do
  let _guestIp ← s.read r frame 2
  let _guestCs ← s.read r (add32 frame 2) 2
  (s.read r (add32 frame 4) 2).map (BitVec.ofNat 16)

/-- `EFLAGS_CF` -/
def eflagsCF : BitVec 16 := 1

/-- The record asked for is the last one. -/
def isLastRecord (map : List GrubE820) (c : Vcpu) : Bool := decide (map.length - 1 < (c.regs.ebx + 1).toNat)

/-- The flags to return: the last record sets CF. -/
def answerFlags (map : List GrubE820) (c : Vcpu) (flags : BitVec 16) : BitVec 16 :=
  if isLastRecord map c then flags ||| eflagsCF else flags &&& ~~~eflagsCF

/-- The registers to return. -/
def answer (map : List GrubE820) (c : Vcpu) : Vcpu :=
  { c with
    regs := { c.regs with
      ecx := 20
      eax := c.regs.edx
      ebx := if isLastRecord map c then 0 else c.regs.ebx + 1 }
    vmcs := { c.vmcs with guestRIP := c.vmcs.guestRIP + 3 } }

/-- The E820 service; `none` is a halt. -/
def e820Service (r : Rpb) (map : List GrubE820) (s : St) : Option St := do
  let hv ← copyDescriptor r map s
  let frame ← guestAddress r hv s.cpu.vmcs (gueststackregion s.cpu)
  let flags ← readFlags r hv frame
  let hv ← hv.store r (add32 frame 4) 2 (answerFlags map s.cpu flags).toNat
  return ⟨answer map s.cpu, hv⟩

/-- The original handler of INT 15h, whose address is in the BIOS data area. -/
def chainInt15 (r : Rpb) (s : St) (bdamemory : Nat) : Option St := do
  let ip ← s.hv.read r (add32 bdamemory 4) 2
  let cs ← s.hv.read r (add32 bdamemory 6) 2
  return { s with cpu := { s.cpu with vmcs := { s.cpu.vmcs with
    guestRIP := BitVec.ofNat 64 ip
    guestCSBase := BitVec.ofNat 64 (cs * 16)
    guestCSSelector := BitVec.ofNat 32 cs } } }

/-- `_vmx_int15_handleintercept`, over the map `g_e820map` of `XtVmmE820NumEntries` entries. -/
def int15Handleintercept (r : Rpb) (map : List GrubE820) (s : St) : Option St := do
  let bdamemory ← guestAddress r s.hv s.cpu.vmcs 0x4AC
  if s.cpu.regs.eax.setWidth 16 = (0xE820 : BitVec 16) then e820Service r map s
  else chainInt15 r s bdamemory

/-- `VMX_VMEXIT_VMCALL` at the hook: the guest must be in real mode or in virtual-8086 mode. -/
def e820Hook (r : Rpb) (map : List GrubE820) (s : St) : Option St :=
  if !s.cpu.vmcs.pe || s.cpu.vmcs.v86 then int15Handleintercept r map s else none

end Xmhf.Eventhub
