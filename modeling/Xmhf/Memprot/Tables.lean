import Xmhf.Lib.Loop
import Xmhf.Platform.Paging

/-!
# The nested page tables

`_vmx_setupEPT` and `_svm_nptinitialize` fill the tables of one core. Both run through the same three
loops, with a 32-bit `paddr` that advances by a page per leaf; `fillTables` is that loop nest, and the
two backends differ in the entries they make:

* the EPT links hold `hva2spa1` of the lower table, the NPT links hold `hva2spa` of it;
* the leaves of `_vmx_setupEPT` carry the page's memory type.

The runtime stores through its own page table, so a store to the virtual address `x` lands at the
physical address `hva2spa1 x`.
-/

namespace Xmhf.Memprot

open Xmhf.Memory Xmhf.Word Xmhf.Loop Xmhf.Paging

/-- `PAE_PTRS_PER_PDPT` -/
def ptrsPerPdpt : Nat := 4
/-- `PAE_PTRS_PER_PDT` -/
def ptrsPerPdt : Nat := 512
/-- `PAE_PTRS_PER_PT` -/
def ptrsPerPt : Nat := 512

/-- `n` pages of the runtime, page-aligned at the virtual address `a`. -/
structure Block (r : Rpb) (a n : Nat) : Prop where
  aligned : a % pageSize4K = 0
  ge : r.runtimeVirtBase ≤ a
  le : a + pageSize4K * n ≤ r.runtimeVirtBase + r.runtimeSize

/-- Pages of a block are a block. -/
theorem Block.sub {r : Rpb} {a n i k : Nat} (h : Block r a n) (hik : i + k ≤ n) :
    Block r (a + pageSize4K * i) k := by
  obtain ⟨h1, h2, h3⟩ := h
  unfold pageSize4K at h1 h3
  constructor <;> unfold pageSize4K <;> omega

/-- The `n` pages at `a` and the `k` pages at `b` are apart. -/
def Apart (a n b k : Nat) : Prop := a + pageSize4K * n ≤ b ∨ b + pageSize4K * k ≤ a

/-- The tables of the lower three levels, as both backends lay them out: one page of pointers, 4 pages
of directories, 2048 pages of leaves. -/
structure Tables (r : Rpb) where
  pdpt : Nat
  pdts : Nat
  pts : Nat
  pdpt_block : Block r pdpt 1
  pdts_block : Block r pdts 4
  pts_block : Block r pts 2048
  pdpt_pdts : Apart pdpt 1 pdts 4
  pdpt_pts : Apart pdpt 1 pts 2048
  pdts_pts : Apart pdts 4 pts 2048

/-- The EPT of a core: `vmx_vaddr_ept_pml4_table` above `vmx_vaddr_ept_pdp_table`,
`vmx_vaddr_ept_pd_tables` and `vmx_vaddr_ept_p_tables`. -/
structure EptTables (r : Rpb) extends Tables r where
  pml4 : Nat
  pml4_block : Block r pml4 1
  pml4_pdpt : Apart pml4 1 pdpt 1
  pml4_pdts : Apart pml4 1 pdts 4
  pml4_pts : Apart pml4 1 pts 2048

/-- The memory, and the physical address of the next leaf. -/
structure Fill where
  mem : Mem
  paddr : Nat

/-- A store of the runtime to its virtual address `hva`. -/
def put (r : Rpb) (m : Mem) (hva : Nat) (w : BitVec 64) : Mem := store64 m (hva2spa1 r hva) w

section
variable (r : Rpb) (pdpe pde pte : Nat → BitVec 64)

/-- The innermost loop: the leaves of the page table at `pt`. -/
def fillPt (pt : Nat) : Fill → Fill :=
  forLoop ptrsPerPt fun k s =>
    ⟨put r s.mem (pt + 8 * k) (pte s.paddr), add32 s.paddr pageSize4K⟩

/-- The middle loop: the directory at `pdt`, whose `j`-th entry links the `j`-th page from `pts`. -/
def fillPdt (pdt pts : Nat) : Fill → Fill :=
  forLoop ptrsPerPdt fun j s =>
    fillPt r pte (pts + pageSize4K * j)
      { s with mem := put r s.mem (pdt + 8 * j) (pde (pts + pageSize4K * j)) }

/-- The loops of both backends: `pdpe` and `pde` make the link to the table at a virtual address, `pte`
the leaf of a physical page. -/
def fillTables (t : Tables r) (m : Mem) : Mem :=
  (forLoop ptrsPerPdpt (fun i s =>
    fillPdt r pde pte (t.pdts + pageSize4K * i) (t.pts + pageSize4K * (i * ptrsPerPdt))
      { s with mem := put r s.mem (t.pdpt + 8 * i) (pdpe (t.pdts + pageSize4K * i)) })
    (⟨m, 0⟩ : Fill)).mem

end

/-! ## EPT -/

/-- The link to an EPT table at a virtual address. -/
def eptLink (r : Rpb) (hva : Nat) : BitVec 64 := BitVec.ofNat 64 (hva2spa1 r hva) ||| 0x7

/-- The leaf of a page; `memorytype` is `_vmx_getmemorytypeforphysicalpage`. -/
def eptLeaf (r : Rpb) (memorytype : Nat → BitVec 32) (paddr : Nat) : BitVec 64 :=
  if r.protectedAt paddr then
    BitVec.ofNat 64 paddr ||| ((memorytype paddr).setWidth 64 <<< 3) ||| 0x0
  else if memorytype paddr = 0 then
    BitVec.ofNat 64 paddr ||| ((memorytype paddr).setWidth 64 <<< 3) ||| 0x7
  else
    BitVec.ofNat 64 paddr ||| (6 <<< 3) ||| 0x7

/-- `_vmx_setupEPT` -/
def vmxSetupEPT (r : Rpb) (t : EptTables r) (memorytype : Nat → BitVec 32) (m : Mem) : Mem :=
  fillTables r (eptLink r) (eptLink r) (eptLeaf r memorytype) t.toTables
    (put r m t.pml4 (eptLink r t.pdpt))

/-- `control_EPT_pointer_full`: page walk of 4 and WB memory. -/
def vmxEptp (r : Rpb) (t : EptTables r) : BitVec 64 := BitVec.ofNat 64 (hva2spa1 r t.pml4) ||| 0x1E

/-! ## NPT -/

/-- The entry of a page directory pointer table. -/
def nptPdpe (hva : Nat) : BitVec 64 := paeMakePte (hva2spa hva) pagePresent

/-- The entry of a page directory. -/
def nptPde (hva : Nat) : BitVec 64 := paeMakePte (hva2spa hva) (pagePresent ||| pageRW ||| pageUser)

/-- The leaf of a page. -/
def nptLeaf (r : Rpb) (paddr : Nat) : BitVec 64 :=
  paeMakePte paddr (if r.protectedAt paddr then 0 else pagePresent ||| pageRW ||| pageUser)

/-- `_svm_nptinitialize` -/
def svmNptInitialize (r : Rpb) (t : Tables r) (m : Mem) : Mem :=
  fillTables r nptPdpe nptPde (nptLeaf r) t m

/-- `vmcb->n_cr3` -/
def svmNCr3 {r : Rpb} (t : Tables r) : Nat := hva2spa t.pdpt

end Xmhf.Memprot
