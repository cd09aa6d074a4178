import Xmhf.Dmaprot.Vtd
import Xmhf.Lib.Bitmap

/-!
# DMA protection by DEV

The device exclusion vector of the SVM backend: one bit a page, set for a page that devices may not
access.

* `svm_eap_dev_read` and `svm_eap_dev_write` reach the registers of the DEV block through an index and a
  data register in the PCI configuration space of the device `0:24.3`, which has states `ε`.
* `xmhf_dmaprot_arch_x86svm_protect` sets the bits of a region and flushes the cache of the hardware.
-/

namespace Xmhf.Dmaprot

open Xmhf.Memory Xmhf.Word Xmhf.Loop Xmhf.Paging Xmhf.Memprot Xmhf.Bitmap

/-! ## Registers -/

/-- `struct _svm_eap` -/
structure SvmEap where
  devHdrReg : Nat
  devFnidxReg : Nat
  devDataReg : Nat
  devBitmapVaddr : Nat

/-- The dwords of the configuration space of `DEV_PCI_BUS`, `DEV_PCI_DEVICE`, `DEV_PCI_FUNCTION`. -/
structure PciConf (ε : Type) where
  read : Nat → ε → BitVec 32 × ε
  write : Nat → BitVec 32 → ε → ε

/-- `DEV_CR` -/
def devCr : Nat := 4

variable {ε : Type} (c : PciConf ε) (eap : SvmEap)

/-- `xmhf_baseplatform_arch_x86_pci_type1_read` of a dword. -/
def PciConf.type1Read (index : Nat) (d : ε) : Option (BitVec 32 × ε) :=
  if index ≤ 4095 then some (c.read index d) else none

/-- `xmhf_baseplatform_arch_x86_pci_type1_write` of a dword. -/
def PciConf.type1Write (index : Nat) (value : BitVec 32) (d : ε) : Option ε :=
  if index ≤ 4095 then some (c.write index value d) else none

/-- The function and index in the form of `dev_fnidx_reg`. -/
def devFnidx (function index : Nat) : BitVec 32 :=
  BitVec.ofNat 32 ((function &&& 0xff) <<< 8 + (index &&& 0xff))

/-- The sanity check on DEV registers. -/
def SvmEap.found : Prop := eap.devHdrReg ≠ 0 ∧ eap.devFnidxReg ≠ 0 ∧ eap.devDataReg ≠ 0

instance : Decidable eap.found := inferInstanceAs (Decidable (_ ∧ _ ∧ _))

/-- `svm_eap_dev_read` -/
def svmEapDevRead (function index : Nat) (d : ε) : Option (BitVec 32 × ε) := do
  guard eap.found
  let d ← c.type1Write eap.devFnidxReg (devFnidx function index) d
  c.type1Read eap.devDataReg d

/-- `svm_eap_dev_write` -/
def svmEapDevWrite (function index : Nat) (value : BitVec 32) (d : ε) : Option ε := do
  guard eap.found
  let d ← c.type1Write eap.devFnidxReg (devFnidx function index) d
  c.type1Write eap.devDataReg value d

/-- `dev_cr.fields.devinv` -/
def devinv (cr : BitVec 32) : Bool := cr.getLsbD 4

/-- `svm_eap_dev_invalidate_cache`, with `fuel` polls. -/
def svmEapDevInvalidateCache (fuel : Nat) (d : ε) : Option ε := do
  let (cr, d) ← svmEapDevRead c eap devCr 0 d
  let d ← svmEapDevWrite c eap devCr 0 (cr ||| 1 <<< 4 ||| 1) d
  let (_, d) ← pollLoop (svmEapDevRead c eap devCr 0) devinv fuel d
  some d

/-! ## Protection -/

/-- A DEV bitmap for 4GB: 128K of the runtime. -/
structure DevBitmap (r : Rpb) where
  vaddr : Nat
  ne : vaddr ≠ 0
  block : Block r vaddr 32

/-- The hardware's bit for the page `pfn`. -/
def DevBitmap.denies {r : Rpb} (b : DevBitmap r) (m : Mem) (pfn : Nat) : Bool :=
  bit m (hva2spa1 r b.vaddr) pfn

/-- The memory and the state of the device. -/
structure Svm (ε : Type) where
  mem : Mem
  dev : ε

/-- `svm_eap_dev_set_page_protection` -/
def svmEapDevSetPageProtection (r : Rpb) (pfn bitVector : Nat) (m : Mem) : Option Mem :=
  if bitVector ≠ 0 then
    let byte := hva2spa1 r (add32 bitVector (pfn / 8))
    some (Function.update m byte (m byte ||| 1 <<< (pfn &&& 7)))
  else none

/-- `xmhf_dmaprot_arch_x86svm_protect`, with `fuel` rounds for each loop. -/
def svmProtect (r : Rpb) (fuel startPaddr size : Nat) (s : Svm ε) : Option (Svm ε) := do
  let start := pageAlign4K startPaddr
  let last := pageAlign4K (add32 startPaddr size)
  let mem ← stepLoop pageSize4K last
    (fun i => svmEapDevSetPageProtection r (i / 2 ^ 12) eap.devBitmapVaddr) fuel start s.mem
  let dev ← svmEapDevInvalidateCache c eap fuel s.dev
  some ⟨mem, dev⟩

end Xmhf.Dmaprot
