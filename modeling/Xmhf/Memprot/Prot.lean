import Xmhf.Memprot.Tables

/-!
# Protection of single pages

`xmhf_memprot_arch_x86vmx_setprot`, `xmhf_memprot_arch_x86vmx_getprot` and their SVM siblings. They
work on the leaves as one array indexed by `(u32)gpa / PAGE_SIZE_4K`. Both backends encode the same
protections in bits of their own: EPT in read, write and execute (bits 0 to 2), NPT in present, write
and no-execute (bits 0, 1 and 63).
-/

namespace Xmhf.Memprot

open Xmhf.Memory Xmhf.Paging

/-! ## Protection types -/

/-- `MEMP_PROT_NOTPRESENT` -/
def protNotPresent : BitVec 32 := 1
/-- `MEMP_PROT_PRESENT` -/
def protPresent : BitVec 32 := 2
/-- `MEMP_PROT_READONLY` -/
def protReadOnly : BitVec 32 := 4
/-- `MEMP_PROT_READWRITE` -/
def protReadWrite : BitVec 32 := 8
/-- `MEMP_PROT_EXECUTE` -/
def protExecute : BitVec 32 := 16
/-- `MEMP_PROT_NOEXECUTE` -/
def protNoExecute : BitVec 32 := 32
/-- `MEMP_PROT_MAXVALUE` -/
def protMaxValue : BitVec 32 := 63

/-- `prottype & flag` -/
def has (prottype flag : BitVec 32) : Bool := prottype &&& flag != 0

/-- The assertions on `prottype` in both setprot functions. -/
def legalProttype (prottype : BitVec 32) : Bool :=
  (0 < prottype && prottype ≤ protMaxValue) &&
    (prottype == protNotPresent ||
      (has prottype protPresent && has prottype protReadOnly && has prottype protExecute) ||
      (has prottype protPresent && has prottype protReadWrite && has prottype protExecute) ||
      (has prottype protPresent && has prottype protReadOnly && has prottype protNoExecute) ||
      (has prottype protPresent && has prottype protReadWrite && has prottype protNoExecute))

/-- The assertion on `gpa` in both setprot functions. -/
def legalGpa (r : Rpb) (gpa : BitVec 64) : Prop :=
  gpa.toNat < r.runtimePhysBase ∨ r.runtimePhysBase + r.runtimeSize ≤ gpa.toNat

/-- `pfn = (u32)gpa / PAGE_SIZE_4K` -/
def pfn (gpa : BitVec 64) : Nat := (gpa.setWidth 32).toNat / pageSize4K

/-- Where entry `n` of the leaves is in physical memory. -/
def leafAddr {r : Rpb} (t : Tables r) (n : Nat) : Nat := hva2spa1 r (t.pts + 8 * n)

/-- `pt[n]` -/
def leaf {r : Rpb} (t : Tables r) (m : Mem) (n : Nat) : BitVec 64 := load64 m (leafAddr t n)

/-! ## Backends -/

/-- How a backend encodes protections: the bits of an entry it uses, a protection as such bits, the
protection an entry gives, and whether an entry lets any access through. -/
structure Backend where
  mask : BitVec 64
  flags : BitVec 32 → BitVec 64
  prottype : BitVec 64 → BitVec 32
  present : BitVec 64 → Bool

/-- Set protection for a given physical memory address: clear all previous flags, set the new ones. -/
def Backend.setprot (b : Backend) {r : Rpb} (t : Tables r) (m : Mem) (gpa : BitVec 64)
    (prottype : BitVec 32) : Mem :=
  store64 m (leafAddr t (pfn gpa)) ((leaf t m (pfn gpa) &&& ~~~b.mask) ||| b.flags prottype)

/-- Get protection for a given physical memory address. -/
def Backend.getprot (b : Backend) {r : Rpb} (t : Tables r) (m : Mem) (gpa : BitVec 64) : BitVec 32 :=
  b.prottype (leaf t m (pfn gpa))

/-- The EPT bits of `xmhf_memprot_arch_x86vmx_setprot` and `xmhf_memprot_arch_x86vmx_getprot`; present
is defined by the read bit. -/
def vmx : Backend where
  mask := 7
  flags prottype :=
    if has prottype protPresent then
      1 ||| (if has prottype protReadWrite then 2 else 0) |||
        (if has prottype protExecute then 4 else 0)
    else 0
  prottype entry :=
    if entry.getLsbD 0 then
      protPresent ||| (if entry.getLsbD 1 then protReadWrite else protReadOnly) |||
        (if entry.getLsbD 2 then protExecute else protNoExecute)
    else protNotPresent
  present := eptPresent

/-- The NPT bits of `xmhf_memprot_arch_x86svm_setprot` and `xmhf_memprot_arch_x86svm_getprot`:
no-execute unless the page is present and executable. -/
def svm : Backend where
  mask := 0x8000000000000003
  flags prottype :=
    if has prottype protPresent then
      ((0x8000000000000000 ||| 1) ||| (if has prottype protReadWrite then 2 else 0)) &&&
        (if has prottype protExecute then ~~~0x8000000000000000 else ~~~0)
    else 0x8000000000000000
  prottype entry :=
    if entry.getLsbD 0 then
      protPresent ||| (if entry.getLsbD 1 then protReadWrite else protReadOnly) |||
        (if entry.getLsbD 63 then protNoExecute else protExecute)
    else protNotPresent
  present entry := entry.getLsbD 0

/-- `xmhf_memprot_arch_x86vmx_setprot` -/
def vmxSetprot {r : Rpb} (t : EptTables r) := vmx.setprot t.toTables
/-- `xmhf_memprot_arch_x86vmx_getprot` -/
def vmxGetprot {r : Rpb} (t : EptTables r) := vmx.getprot t.toTables
/-- `xmhf_memprot_arch_x86svm_setprot` -/
def svmSetprot {r : Rpb} (t : Tables r) := svm.setprot t
/-- `xmhf_memprot_arch_x86svm_getprot` -/
def svmGetprot {r : Rpb} (t : Tables r) := svm.getprot t

/-- The arguments of a setprot call. -/
structure Call where
  gpa : BitVec 64
  prottype : BitVec 32

/-- Calls in order. -/
def Call.runAll (setprot : Mem → BitVec 64 → BitVec 32 → Mem) (calls : List Call) (m : Mem) : Mem :=
  calls.foldl (fun m c => setprot m c.gpa c.prottype) m

end Xmhf.Memprot
