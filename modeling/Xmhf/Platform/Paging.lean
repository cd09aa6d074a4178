import Xmhf.Lib.Memory
import Xmhf.Lib.Word

/-!
# Paging

The runtime's parameter block, the address conversions of `xmhf-baseplatform.h`, the entry macros of
`_paging.h`, and the page walks of the processor.

* The runtime is mapped linearly: its virtual address `x` is at the physical address
  `x + XtVmmRuntimePhysBase - XtVmmRuntimeVirtBase` (`hva2spa1`). `hva2spa` is the identity, from the
  time when runtime VA = system PA.
* `paeWalk`, `npaeWalk` and `eptWalk` read the tables in physical memory, as the processor does.
-/

namespace Xmhf.Paging

open Xmhf.Memory Xmhf.Word

/-- `PAGE_SIZE_4K` -/
def pageSize4K : Nat := 2 ^ 12

/-- `PAGE_SIZE_2M` -/
def pageSize2M : Nat := 2 ^ 21

/-! ## The runtime's parameter block -/

/-- `RPB`: the runtime in physical and in virtual memory. Pages map to pages, so the two bases agree in
the offset within a page. -/
structure Rpb where
  /-- `XtVmmRuntimePhysBase` -/
  runtimePhysBase : Nat
  /-- `XtVmmRuntimeVirtBase` -/
  runtimeVirtBase : Nat
  /-- `XtVmmRuntimeSize` -/
  runtimeSize : Nat
  phys_ge : pageSize2M ≤ runtimePhysBase
  phys_lt : runtimePhysBase + runtimeSize < 2 ^ 32
  virt_le : runtimeVirtBase + runtimeSize ≤ 2 ^ 32
  offset : runtimePhysBase % pageSize4K = runtimeVirtBase % pageSize4K

/-- `hva2spa`: "since we are unity mapped, runtime VA = system PA". -/
def hva2spa (hva : Nat) : Nat := hva

/-- `hva2spa1`: where the runtime's own page table maps a runtime address. -/
def hva2spa1 (r : Rpb) (hva : Nat) : Nat :=
  sub32 (add32 hva r.runtimePhysBase) r.runtimeVirtBase

/-- `spa2hva1`: the runtime address of a physical one. -/
def spa2hva1 (r : Rpb) (spa : Nat) : Nat :=
  add32 (sub32 spa r.runtimePhysBase) r.runtimeVirtBase

/-- The physical addresses of secure loader and runtime, "from (rpb->XtVmmRuntimePhysBase -
PAGE_SIZE_2M) with a size of (rpb->XtVmmRuntimeSize+PAGE_SIZE_2M)". -/
def Rpb.protectedAt (r : Rpb) (paddr : Nat) : Prop :=
  sub32 r.runtimePhysBase pageSize2M ≤ paddr ∧ paddr < add32 r.runtimePhysBase r.runtimeSize

instance (r : Rpb) (paddr : Nat) : Decidable (r.protectedAt paddr) :=
  inferInstanceAs (Decidable (_ ∧ _))

theorem Rpb.protectedAt_iff (r : Rpb) {paddr : Nat} : r.protectedAt paddr ↔
    r.runtimePhysBase - pageSize2M ≤ paddr ∧ paddr < r.runtimePhysBase + r.runtimeSize := by
  have h1 := r.phys_ge
  have h2 := r.phys_lt
  rw [protectedAt, sub32_of_le h1 (by omega), add32_of_lt h2]

/-- Inside the runtime, `hva2spa1` shifts. -/
theorem hva2spa1_of_mem {r : Rpb} {x : Nat} (h1 : r.runtimeVirtBase ≤ x)
    (h2 : x < r.runtimeVirtBase + r.runtimeSize) :
    hva2spa1 r x = x - r.runtimeVirtBase + r.runtimePhysBase := by
  have := r.phys_lt
  have := r.virt_le
  unfold hva2spa1 sub32 add32
  omega

/-- `spa2hva1` finds the runtime address of the runtime's physical ones. -/
theorem spa2hva1_of_mem {r : Rpb} {x : Nat} (h1 : r.runtimePhysBase ≤ x)
    (h2 : x < r.runtimePhysBase + r.runtimeSize) :
    spa2hva1 r x = x - r.runtimePhysBase + r.runtimeVirtBase := by
  have := r.phys_lt
  have := r.virt_le
  unfold spa2hva1 sub32 add32
  omega

/-- The runtime at its link address 0xC0200000, loaded at 0x10200000. -/
def relocated : Rpb where
  runtimePhysBase := 0x10200000
  runtimeVirtBase := 0xC0200000
  runtimeSize := 0x0C000000
  phys_ge := by decide
  phys_lt := by decide
  virt_le := by decide
  offset := by decide

/-! ## Entries -/

/-- `_PAGE_PRESENT` -/
def pagePresent : BitVec 64 := 0x001
/-- `_PAGE_RW` -/
def pageRW : BitVec 64 := 0x002
/-- `_PAGE_USER` -/
def pageUser : BitVec 64 := 0x004
/-- `_PAGE_PCD` -/
def pagePCD : BitVec 64 := 0x010
/-- `_PAGE_PSE` -/
def pagePSE : BitVec 64 := 0x080
/-- `_PAGE_NX` -/
def pageNX : BitVec 64 := 1 <<< 63

/-- `pae_make_pdpe`, `pae_make_pde` and `pae_make_pte`, which are the same. -/
def paeMakePte (paddr : Nat) (flags : BitVec 64) : BitVec 64 :=
  (BitVec.ofNat 64 paddr &&& ~~~((BitVec.ofNat 64 pageSize4K - 1) ||| pageNX)) ||| flags

/-- `pae_make_pde_big` -/
def paeMakePdeBig (paddr : Nat) (flags : BitVec 64) : BitVec 64 :=
  (BitVec.ofNat 64 paddr &&& ~~~((BitVec.ofNat 64 pageSize2M - 1) ||| pageNX)) ||| flags

/-- The physical address in bits 51:12 of an entry. -/
def entryAddr (e : BitVec 64) : Nat := e.toNat / 2 ^ 12 % 2 ^ 40 * 2 ^ 12

/-- The physical address in bits 51:21 of an entry that maps 2MB. -/
def entryAddrBig (e : BitVec 64) : Nat := e.toNat / 2 ^ 21 % 2 ^ 31 * 2 ^ 21

/-! ## The processor's walks -/

/-- What a PAE walk grants at an address. -/
structure PaeGrant where
  addr : Nat
  rw : Bool
  user : Bool
  nx : Bool
  deriving DecidableEq, Repr

/-- The PAE walk of the 32-bit linear address `va` from `cr3`: present bits at three levels, 2MB pages,
and the rights of directory and table entry combined. -/
def paeWalk (m : Mem) (cr3 va : Nat) : Option PaeGrant :=
  let pdpte := load64 m (cr3 / 32 * 32 + 8 * (va / 2 ^ 30 % 4))
  if pdpte.getLsbD 0 then
    let pde := load64 m (entryAddr pdpte + 8 * (va / 2 ^ 21 % 512))
    if pde.getLsbD 0 then
      if pde.getLsbD 7 then
        some ⟨entryAddrBig pde + va % 2 ^ 21, pde.getLsbD 1, pde.getLsbD 2, pde.getLsbD 63⟩
      else
        let pte := load64 m (entryAddr pde + 8 * (va / 2 ^ 12 % 512))
        if pte.getLsbD 0 then
          some ⟨entryAddr pte + va % 2 ^ 12, pde.getLsbD 1 && pte.getLsbD 1,
            pde.getLsbD 2 && pte.getLsbD 2, pde.getLsbD 63 || pte.getLsbD 63⟩
        else none
    else none
  else none

/-- The walk of 32-bit paging of the linear address `va` from `cr3`: present bits at two levels, and 4MB
pages, with the bits 39:32 of their address in the bits 20:13 of the entry. -/
def npaeWalk (m : Mem) (cr3 va : Nat) : Option Nat :=
  let pde := load32 m (cr3 / 2 ^ 12 * 2 ^ 12 + 4 * (va / 2 ^ 22 % 1024))
  if pde.getLsbD 0 then
    if pde.getLsbD 7 then
      -- bit 21 is reserved
      if pde.getLsbD 21 then none
      else some (pde.toNat / 2 ^ 13 % 2 ^ 8 * 2 ^ 32 + pde.toNat / 2 ^ 22 * 2 ^ 22 + va % 2 ^ 22)
    else
      let pte := load32 m (pde.toNat / 2 ^ 12 * 2 ^ 12 + 4 * (va / 2 ^ 12 % 1024))
      if pte.getLsbD 0 then some (pte.toNat / 2 ^ 12 * 2 ^ 12 + va % 2 ^ 12) else none
  else none

/-- Read, write and execute. -/
structure Rights where
  r : Bool
  w : Bool
  x : Bool
  deriving DecidableEq, Repr

/-- Bits 2:0 of an EPT entry. -/
def eptRights (e : BitVec 64) : Rights := ⟨e.getLsbD 0, e.getLsbD 1, e.getLsbD 2⟩

/-- The rights two levels both grant. -/
def Rights.inter (a b : Rights) : Rights := ⟨a.r && b.r, a.w && b.w, a.x && b.x⟩

/-- An EPT entry is present if any of its bits 2:0 is set. -/
def eptPresent (e : BitVec 64) : Bool := e.getLsbD 0 || e.getLsbD 1 || e.getLsbD 2

/-- The four-level EPT walk of the guest-physical address `gpa` from the PML4 table at `root`. -/
def eptWalk (m : Mem) (root gpa : Nat) : Option (Nat × Rights) :=
  let pml4e := load64 m (root + 8 * (gpa / 2 ^ 39 % 512))
  if eptPresent pml4e then
    let pdpte := load64 m (entryAddr pml4e + 8 * (gpa / 2 ^ 30 % 512))
    if eptPresent pdpte then
      if pdpte.getLsbD 7 then
        some (pdpte.toNat / 2 ^ 30 % 2 ^ 22 * 2 ^ 30 + gpa % 2 ^ 30,
          (eptRights pml4e).inter (eptRights pdpte))
      else
        let pde := load64 m (entryAddr pdpte + 8 * (gpa / 2 ^ 21 % 512))
        if eptPresent pde then
          if pde.getLsbD 7 then
            some (entryAddrBig pde + gpa % 2 ^ 21,
              ((eptRights pml4e).inter (eptRights pdpte)).inter (eptRights pde))
          else
            let pte := load64 m (entryAddr pde + 8 * (gpa / 2 ^ 12 % 512))
            if eptPresent pte then
              some (entryAddr pte + gpa % 2 ^ 12,
                (((eptRights pml4e).inter (eptRights pdpte)).inter (eptRights pde)).inter
                  (eptRights pte))
            else none
        else none
    else none
  else none

/-- What a guest access finds through the nested table: nested walks are user accesses. -/
def nptWalk (m : Mem) (nCr3 gpa : Nat) : Option (Nat × Rights) :=
  (paeWalk m nCr3 gpa).map fun g => (g.addr, ⟨g.user, g.user && g.rw, g.user && !g.nx⟩)

end Xmhf.Paging
