import Mathlib.Data.List.Basic

/-!
# Startup IPIs to the guest's cores

`processSIPI` and `have_all_cores_recievedSIPI`, the same for VMX and SVM. A core that waits for its
startup IPI spins on `sipireceived`; the hypervisor sets it in place of the IPI.
-/

namespace Xmhf.Lapic

/-- An entry of `g_midtable` with the fields of its `VCPU` used here. -/
structure Core where
  /-- `cpu_lapic_id` -/
  lapicId : BitVec 32
  /-- `vcpu->id` -/
  id : BitVec 32
  isbsp : Bool
  sipireceived : Bool
  sipivector : BitVec 32
  deriving DecidableEq, Repr

/-- The vector in the low byte of ICR_LOW; a core that has received its SIPI ignores another. -/
def Core.receiveSIPI (c : Core) (icrLow : BitVec 32) : Core :=
  if c.sipireceived then c
  else { c with sipivector := (icrLow.setWidth 8).setWidth 32, sipireceived := true }

/-- The search for the core with the destination's LAPIC id, and the SIPI to it; `none` where the code
halts. -/
def sendSIPI (dest icrLow : BitVec 32) : List Core → Option (List Core)
  | [] => none
  | c :: cs =>
    if c.lapicId = dest then
      if c.id = dest then some (c.receiveSIPI icrLow :: cs) else none
    else (sendSIPI dest icrLow cs).map (c :: ·)

/-- `have_all_cores_recievedSIPI`: the BSP does not receive SIPI. -/
def haveAllCoresRecievedSIPI (cores : List Core) : Bool :=
  cores.all fun c => c.isbsp || c.sipireceived

/-- `processSIPI`: the cores afterwards, and whether LAPIC interception has to be discontinued. The
destination is in the top 8 bits of ICR_HIGH, and a destination shorthand halts. -/
def processSIPI (cores : List Core) (icrLow icrHigh : BitVec 32) : Option (List Core × Bool) :=
  if icrLow &&& 0x000C0000 = 0 then
    (sendSIPI (icrHigh >>> 24) icrLow cores).map fun cs => (cs, haveAllCoresRecievedSIPI cs)
  else none

end Xmhf.Lapic
