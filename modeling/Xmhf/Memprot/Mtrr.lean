import Mathlib.Data.List.Basic

/-!
# Memory types

`_vmx_gathermemorytypes` copies the MTRRs of a core into an array of ranges with a type each, the fixed ones
first; `_vmx_getmemorytypeforphysicalpage` looks a page up in it. `rdmsr` is a parameter: it gives `eax` and
`edx` of each MSR. `none` is a halt.
-/

namespace Xmhf.Memprot

/-- `MAX_MEMORYTYPE_ENTRIES`: "8*11 fixed MTRRs and 10 variable MTRRs" -/
def maxMemorytypeEntries : Nat := 98
/-- `MAX_FIXED_MEMORYTYPE_ENTRIES` -/
def maxFixedMemorytypeEntries : Nat := 88
/-- `MAX_VARIABLE_MEMORYTYPE_ENTRIES` -/
def maxVariableMemorytypeEntries : Nat := 10

/-- `IA32_MTRRCAP` -/
def ia32Mtrrcap : Nat := 0xfe
/-- `IA32_MTRR_PHYSBASE0` -/
def ia32MtrrPhysbase0 : Nat := 0x200

/-- `MTRR_TYPE_UC` -/
def mtrrTypeUC : BitVec 32 := 0
/-- `MTRR_TYPE_WT` -/
def mtrrTypeWT : BitVec 32 := 4
/-- `MTRR_TYPE_WB` -/
def mtrrTypeWB : BitVec 32 := 6
/-- `MTRR_TYPE_RESV` -/
def mtrrTypeResv : BitVec 32 := 7

/-- `struct _memorytype` -/
structure Memorytype where
  startaddr : BitVec 64
  endaddr : BitVec 64
  type : BitVec 32
  invalid : BitVec 32
  deriving DecidableEq, Repr

/-- `eax` and `edx` after `rdmsr`. -/
abbrev Rdmsr := Nat → BitVec 32 × BitVec 32

/-! ## Gathering -/

/-- A fixed-range MTRR: eight ranges of `size` bytes from `base` on. -/
structure FixedMtrr where
  msr : Nat
  base : Nat
  size : Nat

/-- The fixed-range MTRRs in the order they are read, `IA32_MTRR_FIX64K_00000` to `IA32_MTRR_FIX4K_F8000`. -/
def fixedMtrrs : List FixedMtrr :=
  [⟨0x250, 0x00000, 0x10000⟩, ⟨0x258, 0x80000, 0x4000⟩, ⟨0x259, 0xA0000, 0x4000⟩, ⟨0x268, 0xC0000, 0x1000⟩,
    ⟨0x269, 0xC8000, 0x1000⟩, ⟨0x26a, 0xD0000, 0x1000⟩, ⟨0x26b, 0xD8000, 0x1000⟩, ⟨0x26c, 0xE0000, 0x1000⟩,
    ⟨0x26d, 0xE8000, 0x1000⟩, ⟨0x26e, 0xF0000, 0x1000⟩, ⟨0x26f, 0xF8000, 0x1000⟩]

/-- `((reg & (0xFF << 8*k)) >> 8*k)` -/
def typeByte (reg : BitVec 32) (k : Nat) : BitVec 32 := (reg &&& (0xFF#32 <<< (8 * k))) >>> (8 * k)

/-- The entry of the `k`-th range of a fixed-range MTRR: the types of the first four are in `eax`. -/
def fixedEntry (rdmsr : Rdmsr) (r : FixedMtrr) (k : Nat) : Memorytype where
  startaddr := BitVec.ofNat 64 (r.base + r.size * k)
  endaddr := BitVec.ofNat 64 (r.base + r.size * (k + 1) - 1)
  type := if k < 4 then typeByte (rdmsr r.msr).1 k else typeByte (rdmsr r.msr).2 (k - 4)
  invalid := 0

/-- `((u64)edx << 32) | (u64)eax` -/
def msr64 (v : BitVec 32 × BitVec 32) : BitVec 64 := (v.2.setWidth 64 <<< 32) ||| v.1.setWidth 64

/-- `paddrmask`: "36-bits physical address" -/
def paddrmask : BitVec 64 := 0x0000000FFFFFFFFF

/-- The entry of the `i`-th variable-range MTRR. -/
def variableEntry (rdmsr : Rdmsr) (i : Nat) : Memorytype :=
  let vMTRRbase := msr64 (rdmsr (ia32MtrrPhysbase0 + 2 * i))
  let vMTRRmask := msr64 (rdmsr (ia32MtrrPhysbase0 + 2 * i + 1))
  if vMTRRmask &&& (1#64 <<< 11) ≠ 0 then
    { startaddr := vMTRRbase &&& 0xFFFFFFFFFFFFF000
      endaddr := (vMTRRbase &&& 0xFFFFFFFFFFFFF000) + (~~~(vMTRRmask &&& 0xFFFFFFFFFFFFF000) &&& paddrmask)
      type := vMTRRbase.setWidth 32 &&& 0x000000FF
      invalid := 0 }
  else ⟨0, 0, 0, 1⟩

/-- `num_vmtrrs` -/
def numVmtrrs (rdmsr : Rdmsr) : Nat := ((rdmsr ia32Mtrrcap).1.setWidth 8).toNat

/-- The entries written, in order. -/
def gatheredEntries (rdmsr : Rdmsr) : List Memorytype :=
  (fixedMtrrs.flatMap fun r => (List.range 8).map (fixedEntry rdmsr r)) ++
    (List.range (numVmtrrs rdmsr)).map (variableEntry rdmsr)

/-- `_vmx_gathermemorytypes`: the array, cleared and then filled; `edx` is what `cpuid` gives for leaf 1. -/
def gathermemorytypes (edx : BitVec 32) (rdmsr : Rdmsr) : Option (List Memorytype) :=
  if edx &&& (1#32 <<< 12) = 0 then none
  else if ((rdmsr ia32Mtrrcap).1 &&& (1#32 <<< 8)) >>> 8 = 0 then none
  else if ¬ numVmtrrs rdmsr ≤ maxVariableMemorytypeEntries then none
  else if ¬ (gatheredEntries rdmsr).length ≤ maxMemorytypeEntries + 1 then none
  else some (gatheredEntries rdmsr ++
    List.replicate (maxMemorytypeEntries - (gatheredEntries rdmsr).length) ⟨0, 0, 0, 0⟩)

/-! ## Looking a page up -/

/-- `pagebaseaddr >= startaddr && (pagebaseaddr+PAGE_SIZE_4K-1) <= endaddr` -/
def Memorytype.hasPage (e : Memorytype) (pagebaseaddr : BitVec 64) : Bool :=
  decide (pagebaseaddr ≥ e.startaddr) && decide (pagebaseaddr + 0x1000 - 1 ≤ e.endaddr)

/-- What a matching variable range of type `type` makes of `prev_type`. -/
def mergeType (prevType type : BitVec 32) : Option (BitVec 32) :=
  if type = mtrrTypeUC then some mtrrTypeUC
  else if type = mtrrTypeWT ∧ prevType ≠ mtrrTypeUC then some mtrrTypeWT
  else if prevType ≠ mtrrTypeUC ∧ prevType ≠ mtrrTypeWT then
    if prevType = mtrrTypeResv then some type
    else if prevType = type then some prevType
    else none
  else some prevType

/-- One round of the loop over the variable ranges. -/
def stepType (pagebaseaddr : BitVec 64) (prevType : BitVec 32) (e : Memorytype) : Option (BitVec 32) :=
  if e.hasPage pagebaseaddr && decide (e.invalid = 0) then mergeType prevType e.type else some prevType

/-- `_vmx_getmemorytypeforphysicalpage` -/
def getmemorytypeforphysicalpage (memorytypes : List Memorytype) (pagebaseaddr : BitVec 64) :
    Option (BitVec 32) :=
  if pagebaseaddr < 1024 * 1024 then
    ((memorytypes.take maxFixedMemorytypeEntries).find? (·.hasPage pagebaseaddr)).map (·.type)
  else
    ((memorytypes.drop maxFixedMemorytypeEntries).foldlM (stepType pagebaseaddr) mtrrTypeResv).map
      fun prevType => if prevType = mtrrTypeResv then mtrrTypeWB else prevType

end Xmhf.Memprot
