import Xmhf.Eventhub.Vcpu
import Xmhf.Hypapp.Quiesce

/-!
# Walking the guest's page tables

The code that translates guest addresses by reading the guest's page tables. It takes the address of a
table for a host address (`gpa2hva`: "since we are unity mapped, runtime VA = system PA"), so what it reads
is memory as the host's own page table shows it: `hostView`. The runtime is not unity mapped: from its
virtual base on, its page table shows its own memory or nothing.

* `walkPagetables` is the walk of `xmhf_smpguest_arch_x86vmx_walk_pagetables`, on the host's view of memory.
  No entry is tested for presence, and the 64-bit entries of a PAE table are kept in 32-bit variables.
* `gva2gpaOf` is `gva2gpa` of the hypapp and `gva2gpa2` of the core, which are the same, on the host's view
  as well. The address of a 4MB page is taken with the mask of a 4KB page.
* `Guest.vmxWalk` and `Guest.svmWalk` are the walks of the two back ends on the page table of the runtime:
  a table that is not mapped is a page fault.
-/

namespace Xmhf.Smp.Walk

open Xmhf.Memory Xmhf.Word Xmhf.Paging Xmhf.Hypapp

/-- Memory at the host's addresses, which `host` translates; 0 where there is none. -/
def hostView (host : Nat → Option Nat) (m : Mem) : Mem := fun va => ((host va).map m).getD 0

/-! ## Entry macros -/

/-- `npae_get_addr_from_pde_big` -/
def npaeGetAddrFromPdeBig (entry : BitVec 32) : BitVec 32 := entry &&& ~~~0x3FFFFF

/-- `pae_get_addr_from_32bit_cr3` -/
def paeGetAddrFrom32bitCr3 (entry : BitVec 32) : BitVec 32 := entry &&& ~~~0x1F

/-- `pae_get_addr_from_pdpe`, `pae_get_addr_from_pde` and `pae_get_addr_from_pte`, which are the same. -/
def paeGetAddr (entry : BitVec 64) : BitVec 64 := entry &&& ~~~(0xFFF ||| pageNX)

/-- `pae_get_addr_from_pde_big` -/
def paeGetAddrFromPdeBig (entry : BitVec 64) : BitVec 64 := entry &&& ~~~(0x1FFFFF ||| pageNX)

/-! ## The core's walks -/

/-- "PAE paging used by guest": `pdpt_entry`, `pd_entry` and `pt_entry` are `u32`. -/
def paeWalkPagetables (m : Mem) (kcr3 vaddr : BitVec 32) : BitVec 32 :=
  let pdptIndex := vaddr.toNat / 2 ^ 30
  let pdIndex := vaddr.toNat / 2 ^ 21 % 512
  let ptIndex := vaddr.toNat / 2 ^ 12 % 512
  let kpdpt := (paeGetAddrFrom32bitCr3 kcr3).toNat
  let pdptEntry : BitVec 32 := (load64 m (kpdpt + 8 * pdptIndex)).setWidth 32
  let kpd : BitVec 32 := (paeGetAddr (pdptEntry.setWidth 64)).setWidth 32
  let pdEntry : BitVec 32 := (load64 m (kpd.toNat + 8 * pdIndex)).setWidth 32
  if pdEntry.getLsbD 7 then
    let paddr := paeGetAddrFromPdeBig (pdEntry.setWidth 64) + (vaddr &&& 0x1FFFFF).setWidth 64
    paddr.setWidth 32
  else
    let kpt : BitVec 32 := (paeGetAddr (pdEntry.setWidth 64)).setWidth 32
    let ptEntry : BitVec 32 := (load64 m (kpt.toNat + 8 * ptIndex)).setWidth 32
    let paddr := paeGetAddr (ptEntry.setWidth 64) + (vaddr &&& 0xFFF).setWidth 64
    paddr.setWidth 32

/-- "non-PAE 2 level paging used by guest" -/
def npaeWalkPagetables (m : Mem) (kcr3 vaddr : BitVec 32) : BitVec 32 :=
  let pdIndex := vaddr.toNat / 2 ^ 22
  let ptIndex := vaddr.toNat / 2 ^ 12 % 1024
  let pdEntry := load32 m ((npaeGetAddr kcr3).toNat + 4 * pdIndex)
  if pdEntry.getLsbD 7 then
    let paddr : BitVec 64 :=
      (npaeGetAddrFromPdeBig pdEntry).setWidth 64 + (vaddr &&& 0x3FFFFF).setWidth 64
    paddr.setWidth 32
  else
    let ptEntry := load32 m ((npaeGetAddr pdEntry).toNat + 4 * ptIndex)
    let paddr : BitVec 64 := (npaeGetAddr ptEntry).setWidth 64 + (vaddr &&& 0xFFF).setWidth 64
    paddr.setWidth 32

/-- `CR4_PAE` -/
def cr4PAE : Nat := 5

/-- "walk guest page tables; returns pointer to corresponding guest physical address"; "returns 0xFFFFFFFF
if there is no mapping". `m` is memory at the host's addresses. -/
def walkPagetables (cr4 cr3 : BitVec 64) (m : Mem) (vaddr : BitVec 32) : BitVec 32 :=
  if (cr4.setWidth 32 : BitVec 32).getLsbD cr4PAE then paeWalkPagetables m (cr3.setWidth 32) vaddr
  else npaeWalkPagetables m (cr3.setWidth 32) vaddr

/-- The control registers in a guest's VMCS. -/
structure Vmcs where
  guestCR3 : BitVec 64
  guestCR4 : BitVec 64

/-- `xmhf_smpguest_arch_x86vmx_walk_pagetables`, where the tables are mapped. -/
def Vmcs.walkPagetables (v : Vmcs) (m : Mem) (vaddr : BitVec 32) : BitVec 32 :=
  Walk.walkPagetables v.guestCR4 v.guestCR3 m vaddr

/-- The control registers in a guest's VMCB. -/
structure Vmcb where
  cr3 : BitVec 64
  cr4 : BitVec 64

/-- `xmhf_smpguest_arch_x86svm_walk_pagetables`: the VMX core's walk with the registers of the VMCB. -/
def Vmcb.walkPagetables (r : Rpb) (s : Hv) (v : Vmcb) (vaddr : BitVec 32) : Option (BitVec 32) :=
  if v.cr4.getLsbD cr4PAE then Eventhub.walkPae r s (v.cr3.setWidth 32) vaddr
  else Eventhub.walkNonPae r s (v.cr3.setWidth 32) vaddr

/-! ## The copies -/

/-- "Guest uses 32-bit paging" -/
def gva2gpaOf (m : Mem) (kcr3 vaddr : BitVec 32) : BitVec 64 :=
  let pdIndex := vaddr.toNat / 2 ^ 22
  let ptIndex := vaddr.toNat / 2 ^ 12 % 1024
  let pdEntry := load32 m ((npaeGetAddr kcr3).toNat + 4 * pdIndex)
  if pdEntry.getLsbD 7 then
    -- `npae_get_addr_from_pte`, also here
    (npaeGetAddr pdEntry).setWidth 64 + (vaddr &&& 0x3FFFFF).setWidth 64
  else
    let ptEntry := load32 m ((npaeGetAddr pdEntry).toNat + 4 * ptIndex)
    (npaeGetAddr ptEntry).setWidth 64 + (vaddr &&& 0xFFF).setWidth 64

/-- `gva2gpa` -/
def Vmcs.gva2gpa (v : Vmcs) (m : Mem) (vaddr : BitVec 32) : BitVec 64 :=
  gva2gpaOf m (v.guestCR3.setWidth 32) vaddr

/-- `gva2gpa2` -/
def Vmcs.gva2gpa2 (v : Vmcs) (m : Mem) (vaddr : BitVec 32) : BitVec 64 :=
  gva2gpaOf m (v.guestCR3.setWidth 32) vaddr

/-! ## What the walks stand for -/

/-- A guest: its memory and the control registers that the processor translates by. -/
structure Guest where
  mem : Mem
  cr3 : BitVec 64
  cr4 : BitVec 64

/-- The guest's registers in its VMCS. -/
def Guest.vmcs (g : Guest) : Vmcs := ⟨g.cr3, g.cr4⟩

/-- `xmhf_smpguest_arch_x86vmx_walk_pagetables` for the guest, on the page table of the runtime. -/
def Guest.vmxWalk (r : Rpb) (g : Guest) (va : BitVec 32) : Option (BitVec 32) :=
  Eventhub.walkPagetables r ⟨g.mem, []⟩
    { (default : Eventhub.Vmcs) with guestCR3 := g.cr3, guestCR4 := g.cr4 } va

/-- `xmhf_smpguest_arch_x86svm_walk_pagetables` for the guest, on the page table of the runtime. -/
def Guest.svmWalk (r : Rpb) (g : Guest) (va : BitVec 32) : Option (BitVec 32) :=
  Vmcb.walkPagetables r ⟨g.mem, []⟩ ⟨g.cr3, g.cr4⟩ va

/-- The guest's `CR4.PAE` -/
def Guest.pae (g : Guest) : Bool := g.cr4.getLsbD cr4PAE

/-- The processor's translation, with pages of 4KB and 2MB under PAE, of 4KB and 4MB without. -/
def Guest.translate (g : Guest) (va : BitVec 32) : Option Nat :=
  if g.pae then (paeWalk g.mem (g.cr3.setWidth 32).toNat va.toNat).map PaeGrant.addr
  else npaeWalk g.mem (g.cr3.setWidth 32).toNat va.toNat

/-- What the walks are to return: the translation, or 0xFFFFFFFF where there is none or it does not fit in
32 bits. -/
def Guest.contract (g : Guest) (va : BitVec 32) : BitVec 32 :=
  match g.translate va with
  | some addr => if addr < 2 ^ 32 then BitVec.ofNat 32 addr else 0xFFFFFFFF
  | none => 0xFFFFFFFF

end Xmhf.Smp.Walk
