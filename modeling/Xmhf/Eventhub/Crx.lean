import Xmhf.Eventhub.Vcpu

/-!
# Control registers

`vmx_initunrestrictedguestVMCS` sets the guest's CR0 and CR4 with their masks and shadows, and the handlers
of `peh-x86vmx-main.c` emulate the moves to them that are intercepted.
-/

namespace Xmhf.Eventhub

/-- `vmx_msrs`, as far as it is used: `IA32_VMX_CR0_FIXED0` and `IA32_VMX_CR4_FIXED0`. -/
structure VmxMsrs where
  cr0Fixed0 : BitVec 64
  cr4Fixed0 : BitVec 64
  deriving DecidableEq, Repr

/-- `~(CR0_PE)`, of an `int` -/
def notPE : BitVec 64 := ~~~0x1

/-- `~(CR0_PG)`, of an `unsigned int` -/
def notPG : BitVec 64 := 0x7FFFFFFF

/-- `CR0_CD` -/
def cr0CD : BitVec 32 := 0x40000000

/-- `CR0_NW` -/
def cr0NW : BitVec 32 := 0x20000000

/-- `CR4_VMXE` -/
def cr4VMXE : BitVec 64 := 0x2000

/-- `vmx_initunrestrictedguestVMCS`: the guest's state, and the masks and shadows of CR0 and CR4. -/
def initunrestrictedguestVMCS (msrs : VmxMsrs) (isbsp : Bool) (sipivector : BitVec 32) (v : Vmcs) : Vmcs :=
  { v with
    guestCR0 := msrs.cr0Fixed0 &&& notPE &&& notPG
    guestCR4 := msrs.cr4Fixed0
    guestCR3 := 0
    guestRSP := 0
    guestCSSelector := if isbsp then 0 else (sipivector * 4096) >>> 4
    guestCSBase := if isbsp then 0 else (sipivector * 4096).setWidth 64
    guestRIP := if isbsp then 0x7c00 else 0
    guestRFLAGS := 0x202
    guestESBase := 0
    guestSSBase := 0
    -- trap access to CR0 fixed 1-bits
    controlCR0Mask := msrs.cr0Fixed0 &&& notPE &&& notPG ||| cr0CD.setWidth 64 ||| cr0NW.setWidth 64
    controlCR0Shadow := msrs.cr0Fixed0 &&& notPE &&& notPG
    -- trap access to CR4 fixed bits
    controlCR4Mask := msrs.cr4Fixed0
    controlCR4Shadow := cr4VMXE }

/-- `vmx_handle_intercept_cr0access_ug`; `none` is a halt. -/
def handleCr0Access (v : Vcpu) (gpr tofrom : Nat) : Option Vcpu := do
  guard (tofrom = 0)
  let cr0Value ← decodeReg v.vmcs v.regs gpr
  return { v with vmcs := { v.vmcs with
    controlCR0Shadow := cr0Value.setWidth 64
    guestCR0 := (cr0Value &&& ~~~(cr0CD ||| cr0NW)).setWidth 64 } }

/-- `vmx_handle_intercept_cr4access_ug`: the value is read, and the mappings are flushed. -/
def handleCr4Access (v : Vcpu) (gpr tofrom : Nat) : Option Vcpu :=
  if tofrom = 0 then do
    let _cr4ProposedValue ← decodeReg v.vmcs v.regs gpr
    return v
  else some v

/-- The control register of an exit, the operand's register, and the kind of access. -/
def Vmcs.crx (v : Vmcs) : Nat := (v.infoExitQualification &&& 0xF).toNat

def Vmcs.gpr (v : Vmcs) : Nat := ((v.infoExitQualification &&& 0xF00) >>> 8).toNat

def Vmcs.tofrom (v : Vmcs) : Nat := ((v.infoExitQualification &&& 0x30) >>> 4).toNat

/-- `guest_RIP += info_vmexit_instruction_length` -/
def Vcpu.skip (v : Vcpu) : Vcpu :=
  { v with vmcs := { v.vmcs with
    guestRIP := v.vmcs.guestRIP + v.vmcs.infoVmexitInstructionLength.setWidth 64 } }

/-- The switch on the control register; no other one is handled. -/
def crxSwitch (v : Vcpu) : Option Vcpu :=
  match v.vmcs.crx with
  | 0 => handleCr0Access v v.vmcs.gpr v.vmcs.tofrom
  | 4 => if v.vmxGuestUnrestricted then handleCr4Access v v.vmcs.gpr v.vmcs.tofrom else none
  | _ => none

/-- `VMX_VMEXIT_CRX_ACCESS` of `xmhf_parteventhub_arch_x86vmx_intercept_handler`. -/
def crxAccess (v : Vcpu) : Option Vcpu :=
  if v.vmcs.gpr ≤ 7 then (crxSwitch v).map Vcpu.skip else none

/-! ## Runs -/

/-- The guest's state at an exit. -/
structure GuestState where
  regs : Regs
  vmcs : Vmcs
  deriving DecidableEq, Repr

/-- The exit: the guest ran on with the control registers, the masks and the shadows that were set. -/
def Vcpu.arrive (v : Vcpu) (g : GuestState) : Vcpu :=
  { v with
    regs := g.regs
    vmcs := { g.vmcs with
      controlCR0Mask := v.vmcs.controlCR0Mask
      controlCR4Mask := v.vmcs.controlCR4Mask
      controlCR0Shadow := v.vmcs.controlCR0Shadow
      controlCR4Shadow := v.vmcs.controlCR4Shadow
      guestCR0 := v.vmcs.guestCR0
      guestCR4 := v.vmcs.guestCR4 } }

/-- The accesses of `gs` one after the other. -/
def crxRun (v : Vcpu) (gs : List GuestState) : Option Vcpu :=
  gs.foldlM (fun v g => crxAccess (v.arrive g)) v

end Xmhf.Eventhub
