import Xmhf.Platform.Host

/-!
# The guest's state at an intercept

The general registers (`struct regs`), the fields of the VMCS that the handlers of `peh-x86vmx-main.c`
read and write, and the walk of the guest's page tables.
-/

namespace Xmhf.Eventhub

open Xmhf.Memory Xmhf.Word Xmhf.Paging

/-- `struct regs` -/
structure Regs where
  eax : BitVec 32
  ebx : BitVec 32
  ecx : BitVec 32
  edx : BitVec 32
  esi : BitVec 32
  edi : BitVec 32
  ebp : BitVec 32
  deriving DecidableEq, Inhabited, Repr

/-- `struct _vmx_vmcsfields`, as far as the handlers use it. -/
structure Vmcs where
  controlCR0Mask : BitVec 64
  controlCR4Mask : BitVec 64
  controlCR0Shadow : BitVec 64
  controlCR4Shadow : BitVec 64
  guestCR0 : BitVec 64
  guestCR3 : BitVec 64
  guestCR4 : BitVec 64
  guestESBase : BitVec 64
  guestCSBase : BitVec 64
  guestSSBase : BitVec 64
  guestRSP : BitVec 64
  guestRIP : BitVec 64
  guestRFLAGS : BitVec 64
  guestCSSelector : BitVec 32
  infoVmexitInstructionLength : BitVec 32
  infoExitQualification : BitVec 64
  deriving DecidableEq, Inhabited, Repr

/-- A virtual CPU at an intercept. -/
structure Vcpu where
  regs : Regs
  vmcs : Vmcs
  vmxGuestUnrestricted : Bool
  deriving DecidableEq, Inhabited, Repr

/-- `_vmx_decode_reg`: the register that the operand of an instruction is in, as a `u32`. `none` is a
halt. -/
def decodeReg (v : Vmcs) (r : Regs) : Nat → Option (BitVec 32)
  | 0 => some r.eax
  | 1 => some r.ecx
  | 2 => some r.edx
  | 3 => some r.ebx
  | 4 => some (v.guestRSP.setWidth 32)
  | 5 => some r.ebp
  | 6 => some r.esi
  | 7 => some r.edi
  | _ => none

/-- `guest_CR0 & CR0_PE` -/
def Vmcs.pe (v : Vmcs) : Bool := v.guestCR0.getLsbD 0

/-- `guest_CR0 & CR0_PG` -/
def Vmcs.pg (v : Vmcs) : Bool := v.guestCR0.getLsbD 31

/-- Virtual-8086 mode: `CR0_PE`, `CR0_PG` and `EFLAGS_VM`. -/
def Vmcs.v86 (v : Vmcs) : Bool := v.pe && v.pg && v.guestRFLAGS.getLsbD 17

/-! ## The guest's page tables -/

/-- The page address in an entry of 32 bits: `pae_get_addr_from_pdpe`, `npae_get_addr_from_pde` and the
like, of a `u32`. -/
def addrOf (entry : BitVec 32) : BitVec 32 := entry &&& ~~~0xFFF

/-- A `u32` of the guest's tables. -/
def readEntry (r : Rpb) (s : Hv) (va : Nat) : Option (BitVec 32) :=
  (s.read r va 4).map (BitVec.ofNat 32)

/-- The walk of PAE tables. Their entries are taken as `u32`, and no present bit is read. -/
def walkPae (r : Rpb) (s : Hv) (cr3 : BitVec 32) (vaddr : BitVec 32) : Option (BitVec 32) := do
  let kpdpt := cr3 &&& ~~~0x1F
  let pdptEntry ← readEntry r s (add32 kpdpt.toNat (8 * (vaddr.toNat / 2 ^ 30)))
  let pdEntry ← readEntry r s (add32 (addrOf pdptEntry).toNat (8 * (vaddr.toNat / 2 ^ 21 % 512)))
  if pdEntry.getLsbD 7 then return (pdEntry &&& ~~~0x1FFFFF) + (vaddr &&& 0x1FFFFF)
  else
    let ptEntry ← readEntry r s (add32 (addrOf pdEntry).toNat (8 * (vaddr.toNat / 2 ^ 12 % 512)))
    return addrOf ptEntry + (vaddr &&& 0xFFF)

/-- The walk of the tables of two levels. -/
def walkNonPae (r : Rpb) (s : Hv) (cr3 : BitVec 32) (vaddr : BitVec 32) : Option (BitVec 32) := do
  let pdEntry ← readEntry r s (add32 (addrOf cr3).toNat (4 * (vaddr.toNat / 2 ^ 22)))
  if pdEntry.getLsbD 7 then return (pdEntry &&& ~~~0x3FFFFF) + (vaddr &&& 0x3FFFFF)
  else
    let ptEntry ← readEntry r s (add32 (addrOf pdEntry).toNat (4 * (vaddr.toNat / 2 ^ 12 % 1024)))
    return addrOf ptEntry + (vaddr &&& 0xFFF)

/-- `xmhf_smpguest_arch_x86vmx_walk_pagetables` -/
def walkPagetables (r : Rpb) (s : Hv) (v : Vmcs) (vaddr : BitVec 32) : Option (BitVec 32) :=
  if v.guestCR4.getLsbD 5 then walkPae r s (v.guestCR3.setWidth 32) vaddr
  else walkNonPae r s (v.guestCR3.setWidth 32) vaddr

end Xmhf.Eventhub
