import Xmhf.Dmaprot.Dev
import Xmhf.Lib.Chain
import Xmhf.Lib.Chunk

/-!
# Setting up DEV

* `svm_eap_early_initialize` places a bitmap so that the bits of a region fall into a small buffer: the
  base of the bitmap is before the buffer, and only a page of the buffer is set to ones.
* `svm_eap_initialize` looks for the DEV block in the list of capabilities of the device. Its
  configuration space is given by its bytes.

The secure loader runs in a segment that starts at `sl_baseaddr`: its store to `x` is at the physical
address `sl_baseaddr + x`.
-/

namespace Xmhf.Dmaprot

open Xmhf.Memory Xmhf.Word Xmhf.Paging Xmhf.Chunk

/-! ## The early bitmap -/

/-- `dev_bitmap_paddr`, and the offset within the buffer of the byte of the region's first page. -/
def earlyDevBitmap (protectedBufferPaddr memregionPaddrStart : Nat) : Nat × Nat :=
  let memregionPfn := pageAlign4K memregionPaddrStart / pageSize4K
  let devbitmapBytesBefore := memregionPfn / 8
  let devBitmapPaddr := sub32 protectedBufferPaddr devbitmapBytesBefore
  if devBitmapPaddr % pageSize4K ≠ 0 then
    let offset := pageSize4K - devBitmapPaddr % pageSize4K
    (add32 devBitmapPaddr offset, offset)
  else (devBitmapPaddr, 0)

/-- `svm_eap_early_initialize` -/
def svmEapEarlyInitialize (slBaseaddr protectedBufferPaddr protectedBufferVaddr memregionPaddrStart
    memregionSize : Nat) (m : Mem) : Option (Nat × Mem) :=
  let (devBitmapPaddr, offset) := earlyDevBitmap protectedBufferPaddr memregionPaddrStart
  if (protectedBufferPaddr % pageSize4K = 0 ∧ protectedBufferVaddr % pageSize4K = 0) ∧
      memregionSize < 8192 * 8 * pageSize4K ∧ devBitmapPaddr % pageSize4K = 0 then
    some (devBitmapPaddr, memset m (add32 slBaseaddr (add32 protectedBufferVaddr offset)) 0xFF pageSize4K)
  else none

/-! ## The DEV block -/

/-- `PCI_CONF_HDR_IDX_CAPABILITIES_POINTER` -/
def capabilitiesPointer : Nat := 0x34
/-- `PCI_CAPABILITIES_POINTER_ID_DEV` -/
def capabilitiesPointerIdDev : BitVec 8 := 0x0F

/-- `xmhf_baseplatform_arch_x86_pci_type1_read` of a byte. -/
def pciType1ReadByte (conf : Mem) (index : Nat) : Option (BitVec 8) :=
  if index ≤ 4095 then some (conf index) else none

/-- The traversal of the capabilities list: the index of the DEV block, or that the list ends, in
`fuel` rounds at most. -/
def caplistTraverse (conf : Mem) : Nat → Nat → Option (Option Nat)
  | 0, _ => none
  | fuel + 1, mcCaplistNextptr => do
    let mcCaplistId ← pciType1ReadByte conf mcCaplistNextptr
    if mcCaplistId = capabilitiesPointerIdDev then some (some mcCaplistNextptr)
    else
      -- "get the index of the next capability block"
      let next ← pciType1ReadByte conf mcCaplistNextptr
      if next.toNat ≠ 0 then caplistTraverse conf fuel next.toNat else some none

/-- `svm_eap_initialize` up to the setup of the registers: what it returns, and `_svm_eap`. -/
def svmEapInitialize (conf : Mem) (fuel devBitmapPaddr devBitmapVaddr : Nat) : Option (Bool × SvmEap) :=
  if devBitmapPaddr % pageSize4K ≠ 0 then none
  else if load32 conf capabilitiesPointer = 0 then some (false, ⟨0, 0, 0, 0⟩)
  else if (load32 conf capabilitiesPointer).setWidth 8 ≠ 0xF0#8 then none
  else (caplistTraverse conf fuel 0xF0).map fun
    | some nextptr => (true, ⟨nextptr, nextptr + 4, nextptr + 8, devBitmapVaddr⟩)
    | none => (false, ⟨0, 0, 0, 0⟩)

/-! ## The calls -/

/-- `xmhf_dmaprot_arch_x86svm_earlyinitialize` -/
def svmEarlyinitialize (conf : Mem) (fuel slBaseaddr protectedbufferPaddr protectedbufferVaddr
    protectedbufferSize memregionbasePaddr memregionSize : Nat) (m : Mem) :
    Option (Bool × SvmEap × Mem) := do
  guard (protectedbufferPaddr % pageSize4K = 0)
  guard (protectedbufferVaddr % pageSize4K = 0)
  guard (pageSize4K * 2 ≤ protectedbufferSize)
  let (devBitmapPaddr, m) ← svmEapEarlyInitialize slBaseaddr protectedbufferPaddr protectedbufferVaddr
    memregionbasePaddr memregionSize m
  let (status, eap) ← svmEapInitialize conf fuel devBitmapPaddr devBitmapPaddr
  some (status, eap, m)

/-- `xmhf_sl_arch_early_dmaprot_init` on AMD, with the buffer `g_sl_protected_dmabuffer`. -/
def slArchEarlyDmaprotInit (conf : Mem) (fuel slBaseaddr slProtectedDmabuffer runtimeSize : Nat)
    (m : Mem) : Option (SvmEap × Mem) := do
  let (status, eap, m) ← svmEarlyinitialize conf fuel slBaseaddr (add32 slBaseaddr slProtectedDmabuffer)
    slProtectedDmabuffer (2 * pageSize4K) slBaseaddr (add32 runtimeSize pageSize2M) m
  if status then some (eap, m) else none

end Xmhf.Dmaprot
