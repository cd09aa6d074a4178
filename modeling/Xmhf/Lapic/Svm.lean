import Xmhf.Lapic.Vmx

/-!
# LAPIC interception on SVM

The handlers of `Xmhf.Lapic.Vmx` for the nested page tables: GIF is cleared in place of the guest's IF,
and nothing is saved of the guest's flags. The page mapped for the ICR is at `hva2spa` of
`g_svm_virtual_LAPIC_base`; the #DB handler reads the array at its own virtual address.
-/

namespace Xmhf.Lapic.Svm

open Xmhf.Memory Xmhf.Paging
open Xmhf.Lapic.Vmx (Op Access Instr Event isIcr icrLowReg icrHighReg eflagsTF)

/-- `VMCB_NPT_ERRORCODE_RW` -/
def errorcodeRW : BitVec 32 := 1 <<< 1
/-- `VMCB_NPT_ERRORCODE_US` -/
def errorcodeUS : BitVec 32 := 1 <<< 2
/-- `EXCEPTION_INTERCEPT_DB` -/
def exceptionInterceptDB : BitVec 32 := 1 <<< 1

/-- Where the runtime is, and `g_svm_virtual_LAPIC_base` in it. -/
structure Config where
  rpb : Rpb
  virtualLapic : Nat

structure State where
  /-- `g_svm_lapic_base` -/
  lapicBase : BitVec 32
  /-- `g_svm_lapic_reg` -/
  lapicReg : BitVec 32
  /-- `g_svm_lapic_op` -/
  lapicOp : Op
  /-- The frame of the LAPIC page's leaf, `none` if not present. -/
  mapping : Option Nat
  /-- Physical memory, the LAPIC's registers in it. -/
  mem : Mem
  /-- `exception_intercepts_bitmask` -/
  exceptionIntercepts : BitVec 32
  rflags : BitVec 64
  /-- The global interrupt flag, which `clgi` clears and `stgi` sets. -/
  gif : Bool
  cores : List Core
  halted : Bool

/-! ## The handlers -/

/-- `svm_lapic_changemapping` with `SVM_LAPIC_MAP` or `SVM_LAPIC_UNMAP` -/
def changemapping (s : State) (newPaddr : Nat) (map : Bool) : State :=
  { s with mapping := if map then some newPaddr else none }

/-- `xmhf_smpguest_arch_x86svm_initialize`, with the MSR read: "APIC is below 4G". -/
def lapicInitialize (s : State) (eax edx : BitVec 32) : State :=
  if edx = 0 then
    let lapicBase := eax &&& 0xFFFFF000
    changemapping { s with lapicBase } lapicBase.toNat false
  else { s with halted := true }

/-- A `u32` of `g_svm_virtual_LAPIC_base`, as the handler reads it. -/
def readVirtualLapic (c : Config) (m : Mem) (reg : Nat) : BitVec 32 :=
  load32 m (hva2spa1 c.rpb (c.virtualLapic + reg))

/-- `xmhf_smpguest_arch_x86svm_eventhandler_hwpgtblviolation`. A write and a read differ in the operation
recorded. -/
def hwpgtblviolation (c : Config) (s : State) (paddr errorcode : BitVec 32) : State :=
  let reg := paddr - s.lapicBase
  let op := if errorcode &&& errorcodeRW ≠ 0 then Op.write else Op.read
  let s : State :=
    if isIcr reg then
      changemapping { s with lapicReg := reg, lapicOp := op } (hva2spa c.virtualLapic) true
    else changemapping { s with lapicReg := reg, lapicOp := .rsvd } s.lapicBase.toNat true
  { s with
    exceptionIntercepts := s.exceptionIntercepts ||| exceptionInterceptDB
    rflags := s.rflags ||| eflagsTF
    gif := false }

/-- A store to the LAPIC's register. -/
def State.propagate (s : State) (value : BitVec 32) : State :=
  { s with mem := writeLE s.mem (s.lapicBase + s.lapicReg).toNat 4 value.toNat }

/-- What `dbexception` does for the operation recorded: the state, and `delink_lapic_interception`;
`none` where the code halts. -/
def emulate (c : Config) (s : State) : Option (State × Bool) :=
  match s.lapicOp with
  | .write =>
    if isIcr s.lapicReg then
      let value := readVirtualLapic c s.mem s.lapicReg.toNat
      if s.lapicReg = BitVec.ofNat 32 icrLowReg then
        -- an INIT IPI is voided, a STARTUP IPI processed here
        if value &&& 0xF00 = 0x500 then some (s, false)
        else if value &&& 0xF00 = 0x600 then
          (processSIPI s.cores value (readVirtualLapic c s.mem icrHighReg)).map fun r =>
            ({ s with cores := r.1 }, r.2)
        else some (s.propagate value, false)
      else some (s.propagate value, false)
    else none
  | .read => if isIcr s.lapicReg then some (s, false) else none
  | .rsvd => some (s, false)

/-- `xmhf_smpguest_arch_x86svm_eventhandler_dbexception` -/
def dbexception (c : Config) (s : State) : State :=
  match emulate c s with
  | none => { s with halted := true }
  | some (s, delink) =>
    let s : State := { s with
      exceptionIntercepts := s.exceptionIntercepts &&& ~~~exceptionInterceptDB
      rflags := s.rflags &&& ~~~eflagsTF }
    { changemapping s s.lapicBase.toNat delink with gif := true }

/-! ## Guest instructions -/

/-- The access, to the frame mapped. -/
def State.access (s : State) (a : Access) : State :=
  if a.isWrite then
    match s.mapping with
    | some frame => { s with mem := writeLE s.mem (frame + a.off) a.width a.value }
    | none => s
  else s

/-- An instruction executed: its accesses in order, and its effect on RFLAGS. -/
def executeInstr (s : State) (i : Instr) : State :=
  let s := i.accesses.foldl State.access s
  { s with rflags := i.flags s.rflags }

/-- The error code of an access to a page that is not present. -/
def errorcode (a : Access) : BitVec 32 :=
  if a.isWrite then errorcodeUS ||| errorcodeRW else errorcodeUS

/-- One step of the BSP. While the page is unmapped the first access of an instruction faults, the
instruction runs again with the page mapped and TF set, and ends in #DB. -/
def stepEvent (c : Config) (s : State) (e : Event) : State :=
  if s.halted then s
  else
    match e with
    | .setFlags rflags => { s with rflags }
    | .instr i =>
      match i.accesses, s.mapping with
      | a :: _, none =>
        dbexception c (executeInstr
          (hwpgtblviolation c s (s.lapicBase + BitVec.ofNat 32 a.off) (errorcode a)) i)
      | _, _ => executeInstr s i

/-- The machine before `lapicInitialize`: no exception is intercepted. -/
def loaded (mem : Mem) (rflags : BitVec 64) (cores : List Core) : State where
  lapicBase := 0
  lapicReg := 0
  lapicOp := .rsvd
  mapping := some 0
  mem
  exceptionIntercepts := 0
  rflags
  gif := true
  cores
  halted := false

/-- The machine as the guest starts. -/
def booted (mem : Mem) (rflags : BitVec 64) (cores : List Core) (eax edx : BitVec 32) : State :=
  lapicInitialize (loaded mem rflags cores) eax edx

end Xmhf.Lapic.Svm
