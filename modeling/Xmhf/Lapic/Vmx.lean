import Xmhf.Lib.Memory
import Xmhf.Platform.Paging
import Xmhf.Lapic.Sipi

/-!
# LAPIC interception on VMX

The BSP's LAPIC page is unmapped in its EPT. `hwpgtblviolation` handles the first access of an
instruction to it: it maps the virtual LAPIC page for the two halves of the ICR, the LAPIC itself for
any other register, and sets TF. The instruction is executed again, with all its accesses going to the
page mapped; then `dbexception` forwards what was written to the ICR, or processes it in the
hypervisor, and unmaps the page, until all cores have started.

`step` is one guest instruction with what the hypervisor does around it. A store to the LAPIC that
reaches ICR_LOW sends an IPI; `icrLow` lists the values it gave the register.
-/

namespace Xmhf.Lapic.Vmx

open Xmhf.Memory Xmhf.Paging

/-- `LAPIC_ICR_LOW` -/
def icrLowReg : Nat := 0x300
/-- `LAPIC_ICR_HIGH` -/
def icrHighReg : Nat := 0x310
/-- `EPT_ERRORCODE_READ` -/
def errorcodeRead : BitVec 32 := 1
/-- `EPT_ERRORCODE_WRITE` -/
def errorcodeWrite : BitVec 32 := 2
/-- `EFLAGS_TF` -/
def eflagsTF : BitVec 64 := 0x100
/-- `EFLAGS_IF` -/
def eflagsIF : BitVec 64 := 0x200

/-- The bit of the #DB fault in the exception bitmap. -/
def dbIntercept : BitVec 32 := 1 <<< 1

/-- `LAPIC_OP_RSVD`, `LAPIC_OP_READ` and `LAPIC_OP_WRITE` -/
inductive Op
  | rsvd | read | write
  deriving DecidableEq, Repr

/-- The pages the guest's LAPIC page can be mapped to: `g_vmx_virtual_LAPIC_base`, and the LAPIC. -/
inductive Page
  | virtual | physical
  deriving DecidableEq, Repr

structure State where
  /-- `g_vmx_lapic_base` -/
  lapicBase : BitVec 32
  /-- `g_vmx_lapic_reg` -/
  lapicReg : BitVec 32
  /-- `g_vmx_lapic_op` -/
  lapicOp : Op
  /-- `g_vmx_lapic_guest_eflags_tfifmask` -/
  tfifmask : BitVec 32
  /-- The EPT leaf of the LAPIC page, `none` if not present. -/
  mapping : Option Page
  /-- The bytes of the virtual LAPIC page. -/
  virt : Mem
  /-- The bytes of the LAPIC's registers. -/
  phys : Mem
  /-- The values ICR_LOW has been given, in order. -/
  icrLow : List (BitVec 32)
  /-- `control_exception_bitmap` -/
  exceptionBitmap : BitVec 32
  /-- `guest_RFLAGS` -/
  rflags : BitVec 64
  cores : List Core
  halted : Bool

/-- A store of `n` bytes to the LAPIC. -/
def State.storePhys (s : State) (off n v : Nat) : State :=
  let phys := writeLE s.phys off n v
  { s with
    phys
    icrLow := if off < icrLowReg + 4 ∧ icrLowReg < off + n then
        s.icrLow ++ [load32 phys icrLowReg]
      else s.icrLow }

/-! ## The handlers -/

/-- `vmx_lapic_changemapping` with `VMX_LAPIC_MAP` or `VMX_LAPIC_UNMAP` -/
def changemapping (s : State) (newPage : Page) (map : Bool) : State :=
  { s with mapping := if map then some newPage else none }

/-- `xmhf_smpguest_arch_x86vmx_initialize`, with the MSR read: "APIC should be below 4G". -/
def lapicInitialize (s : State) (eax edx : BitVec 32) : State :=
  if edx = 0 then changemapping { s with lapicBase := eax &&& 0xFFFFF000 } .physical false
  else { s with halted := true }

/-- The register is one of the two halves of the ICR. -/
def isIcr (reg : BitVec 32) : Bool :=
  reg = BitVec.ofNat 32 icrLowReg || reg = BitVec.ofNat 32 icrHighReg

/-- `xmhf_smpguest_arch_x86vmx_eventhandler_hwpgtblviolation` -/
def hwpgtblviolation (s : State) (paddr errorcode : BitVec 32) : State :=
  let reg := paddr - s.lapicBase
  let s : State :=
    if errorcode &&& errorcodeWrite ≠ 0 then
      if isIcr reg then
        changemapping { s with lapicReg := reg, lapicOp := .write } .virtual true
      else changemapping { s with lapicReg := reg, lapicOp := .rsvd } .physical true
    else
      if isIcr reg then
        changemapping { s with lapicReg := reg, lapicOp := .read } .virtual true
      else changemapping { s with lapicReg := reg, lapicOp := .rsvd } .physical true
  { s with
    exceptionBitmap := s.exceptionBitmap ||| dbIntercept
    tfifmask := s.rflags.setWidth 32 &&& (eflagsIF ||| eflagsTF).setWidth 32
    rflags := (s.rflags ||| eflagsTF) &&& ~~~eflagsIF }

/-- What `dbexception` does for the operation recorded: the state, and `delink_lapic_interception`;
`none` where the code halts. -/
def emulate (s : State) : Option (State × Bool) :=
  match s.lapicOp with
  | .write =>
    if isIcr s.lapicReg then
      let value := load32 s.virt s.lapicReg.toNat
      if s.lapicReg = BitVec.ofNat 32 icrLowReg then
        -- an INIT IPI is voided, a STARTUP IPI processed here
        if value &&& 0xF00 = 0x500 then some (s, false)
        else if value &&& 0xF00 = 0x600 then
          (processSIPI s.cores value (load32 s.virt icrHighReg)).map fun r =>
            ({ s with cores := r.1 }, r.2)
        else some (s.storePhys s.lapicReg.toNat 4 value.toNat, false)
      else some (s.storePhys s.lapicReg.toNat 4 value.toNat, false)
    else none
  | .read => if isIcr s.lapicReg then some (s, false) else none
  | .rsvd => some (s, false)

/-- `xmhf_smpguest_arch_x86vmx_eventhandler_dbexception` -/
def dbexception (s : State) : State :=
  match emulate s with
  | none => { s with halted := true }
  | some (s, delink) =>
    let s := changemapping { s with exceptionBitmap := s.exceptionBitmap &&& ~~~dbIntercept }
      .physical delink
    { s with
      rflags := ((s.rflags &&& ~~~eflagsIF) &&& ~~~eflagsTF) ||| s.tfifmask.setWidth 64 }

/-! ## Guest instructions -/

/-- An access of an instruction within the LAPIC page. -/
structure Access where
  isWrite : Bool
  off : Nat
  width : Nat
  value : Nat
  width_pos : 0 < width
  within : off + width ≤ pageSize4K

/-- The access, to the page mapped. -/
def State.access (s : State) (a : Access) : State :=
  if a.isWrite then
    match s.mapping with
    | some .virtual => { s with virt := writeLE s.virt a.off a.width a.value }
    | some .physical => s.storePhys a.off a.width a.value
    | none => s
  else s

/-- An instruction executed: its accesses in order. -/
def execute (s : State) (accesses : List Access) : State := accesses.foldl State.access s

/-- The error code of an access to a page that is not present. -/
def Access.errorcode (a : Access) : BitVec 32 := if a.isWrite then errorcodeWrite else errorcodeRead

/-- One guest instruction of the BSP. While the page is unmapped its first access faults, the
instruction runs again with the page mapped and TF set, and ends in #DB. -/
def step (s : State) (accesses : List Access) : State :=
  if s.halted then s
  else
    match accesses, s.mapping with
    | [], _ => s
    | a :: _, none =>
      dbexception (execute
        (hwpgtblviolation s (s.lapicBase + BitVec.ofNat 32 a.off) a.errorcode) accesses)
    | _, some _ => execute s accesses

/-- A guest instruction with what it does to RFLAGS; it leaves IF and TF as they are. -/
structure Instr where
  accesses : List Access
  flags : BitVec 64 → BitVec 64
  keepsTF : ∀ f, (flags f).getLsbD 8 = f.getLsbD 8
  keepsIF : ∀ f, (flags f).getLsbD 9 = f.getLsbD 9

/-- What the BSP does: an instruction that keeps IF and TF, or anything else that is not an access to
the LAPIC and leaves RFLAGS as given. -/
inductive Event
  | instr (i : Instr)
  | setFlags (rflags : BitVec 64)

def executeInstr (s : State) (i : Instr) : State :=
  let s := execute s i.accesses
  { s with rflags := i.flags s.rflags }

/-- `step`, with RFLAGS. -/
def stepEvent (s : State) (e : Event) : State :=
  if s.halted then s
  else
    match e with
    | .setFlags rflags => { s with rflags }
    | .instr i =>
      match i.accesses, s.mapping with
      | a :: _, none =>
        dbexception (executeInstr
          (hwpgtblviolation s (s.lapicBase + BitVec.ofNat 32 a.off) a.errorcode) i)
      | _, _ => executeInstr s i

/-- The BSP's instructions in order. -/
def run (s : State) (instrs : List (List Access)) : State := instrs.foldl step s

/-- The machine before `lapicInitialize`: the globals as the source initialises them, anything elsewhere. -/
def loaded (virt phys : Mem) (exceptionBitmap : BitVec 32) (rflags : BitVec 64)
    (cores : List Core) : State where
  lapicBase := 0
  lapicReg := 0
  lapicOp := .rsvd
  tfifmask := 0
  mapping := some .physical
  virt
  phys
  icrLow := []
  exceptionBitmap
  rflags
  cores
  halted := false

/-- The machine as the guest starts. -/
def booted (virt phys : Mem) (exceptionBitmap : BitVec 32) (rflags : BitVec 64) (cores : List Core)
    (eax edx : BitVec 32) : State :=
  lapicInitialize (loaded virt phys exceptionBitmap rflags cores) eax edx

end Xmhf.Lapic.Vmx
