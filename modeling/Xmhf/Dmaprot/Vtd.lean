import Xmhf.Memprot.Tables

/-!
# DMA protection by VT-d

`_vtd_setuppagetables` opens all pages below 4GB to DMA, and `xmhf_dmaprot_arch_x86vmx_protect` closes
the pages of a region.

* The tables are filled by the loop nest of the nested page tables (`fillTables`). A link holds the
  physical address of the lower table, at the same offset from `vtd_pdts_paddr` or `vtd_pts_paddr` as
  its virtual address is from `vtd_pdts_vaddr` or `vtd_pts_vaddr`.
* `vtdWalk` is the 3-level walk of the remapping hardware.
* The registers of the units are those of a device with states `δ`.
-/

namespace Xmhf.Dmaprot

open Xmhf.Memory Xmhf.Word Xmhf.Loop Xmhf.Paging Xmhf.Memprot

/-- `VTD_READ` -/
def vtdRead : BitVec 64 := 0x1
/-- `VTD_WRITE` -/
def vtdWrite : BitVec 64 := 0x2

/-- `PAGE_ALIGN_4K` -/
def pageAlign4K (x : Nat) : Nat := x / pageSize4K * pageSize4K

/-- The registers `_vtd_invalidatecaches` uses. -/
inductive VtdReg
  | ccmd
  | iotlb
  deriving DecidableEq, Repr

/-- `_vtd_reg` of unit `i`: a register read and a register write. -/
structure VtdUnits (δ : Type) where
  read : Nat → VtdReg → δ → BitVec 64 × δ
  write : Nat → VtdReg → BitVec 64 → δ → δ

/-- The memory, the static variables of the component, and the units. -/
structure Vtd (δ : Type) where
  mem : Mem
  /-- `l_vtd_pdpt_paddr` -/
  pdptPaddr : Nat
  /-- `l_vtd_pdpt_vaddr` -/
  pdptVaddr : Nat
  /-- `l_vtd_pdts_paddr` -/
  pdtsPaddr : Nat
  /-- `l_vtd_pdts_vaddr` -/
  pdtsVaddr : Nat
  /-- `l_vtd_pts_paddr` -/
  ptsPaddr : Nat
  /-- `l_vtd_pts_vaddr` -/
  ptsVaddr : Nat
  /-- `vtd_num_drhd` -/
  numDrhd : Nat
  dev : δ

/-- The addresses passed to `_vtd_setuppagetables`: each table's virtual address in the runtime with
its physical address. -/
structure VtdTables (r : Rpb) extends Tables r where
  pdptPaddr : Nat
  pdtsPaddr : Nat
  ptsPaddr : Nat
  pdpt_ne : pdpt ≠ 0
  pdts_ne : pdts ≠ 0
  pts_ne : pts ≠ 0
  pdpt_paddr : pdptPaddr = hva2spa1 r pdpt
  pdts_paddr : pdtsPaddr = hva2spa1 r pdts
  pts_paddr : ptsPaddr = hva2spa1 r pts

/-- The tables `xmhf_dmaprot_arch_x86vmx_initialize` lays out one after the other in its protected buffer,
at their physical addresses. -/
def VtdTables.ofBuffer {r : Rpb} {buffer : Nat} (h : Block r buffer 2053) (hne : buffer ≠ 0) :
    VtdTables r where
  pdpt := buffer
  pdts := buffer + pageSize4K
  pts := buffer + pageSize4K + pageSize4K * ptrsPerPdpt
  pdptPaddr := hva2spa1 r buffer
  pdtsPaddr := hva2spa1 r (buffer + pageSize4K)
  ptsPaddr := hva2spa1 r (buffer + pageSize4K + pageSize4K * ptrsPerPdpt)
  pdpt_block := h.sub (i := 0) (by decide)
  pdts_block := by
    rw [← Nat.mul_one pageSize4K]
    exact h.sub (by decide)
  pts_block := by
    have heq : buffer + pageSize4K + pageSize4K * ptrsPerPdpt = buffer + pageSize4K * 5 := by
      simp only [pageSize4K, ptrsPerPdpt]
      omega
    rw [heq]
    exact h.sub (by decide)
  pdpt_pdts := .inl (by simp [pageSize4K])
  pdpt_pts := .inl (by simp [pageSize4K])
  pdts_pts := .inl (by simp [pageSize4K, ptrsPerPdpt])
  pdpt_ne := hne
  pdts_ne := by omega
  pts_ne := by omega
  pdpt_paddr := rfl
  pdts_paddr := rfl
  pts_paddr := rfl

/-! ## Tables -/

/-- The link to the table at the virtual address `hva`, among tables at `vaddr` and `paddr`. -/
def vtdLink (paddr vaddr hva : Nat) : BitVec 64 :=
  BitVec.ofNat 64 (add32 paddr (sub32 hva vaddr)) ||| (vtdRead ||| vtdWrite)

/-- The leaf of a page: "initially set the entire 4GB as DMA read/write capable". -/
def vtdLeaf (physaddr : Nat) : BitVec 64 := BitVec.ofNat 64 physaddr ||| (vtdRead ||| vtdWrite)

variable {δ : Type}

/-- `_vtd_setuppagetables` -/
def vtdSetuppagetables {r : Rpb} (t : VtdTables r) (s : Vtd δ) : Option (Vtd δ) :=
  if t.pdptPaddr % pageSize4K = 0 ∧ t.pdtsPaddr % pageSize4K = 0 ∧ t.ptsPaddr % pageSize4K = 0 then
    some { s with
      mem := fillTables r (vtdLink t.pdtsPaddr t.pdts) (vtdLink t.ptsPaddr t.pts) vtdLeaf t.toTables s.mem
      pdptPaddr := t.pdptPaddr, pdptVaddr := t.pdpt
      pdtsPaddr := t.pdtsPaddr, pdtsVaddr := t.pdts
      ptsPaddr := t.ptsPaddr, ptsVaddr := t.pts }
  else none

/-! ## Protection -/

/-- `PAE_get_pdptindex` -/
def paePdptindex (x : Nat) : Nat := x / 2 ^ 30
/-- `PAE_get_pdtindex` -/
def paePdtindex (x : Nat) : Nat := x * 2 ^ 2 % 2 ^ 32 / 2 ^ 23
/-- `PAE_get_ptindex` -/
def paePtindex (x : Nat) : Nat := x * 2 ^ 11 % 2 ^ 32 / 2 ^ 23

/-- The virtual address of the leaf of the page `vaddr` in the page tables at `pts`. -/
def vtdPte (pts vaddr : Nat) : Nat :=
  add32 (add32 (add32 pts (paePdptindex vaddr * pageSize4K * 512)) (paePdtindex vaddr * pageSize4K))
    (8 * paePtindex vaddr)

/-- `pt[ptindex] &= ~((u64)VTD_READ | (u64)VTD_WRITE)` -/
def vtdProtectPage (r : Rpb) (pts vaddr : Nat) (m : Mem) : Mem :=
  put r m (vtdPte pts vaddr)
    (load64 m (hva2spa1 r (vtdPte pts vaddr)) &&& ~~~(vtdRead ||| vtdWrite))

/-- The command for a global invalidation of the context cache: `icc` and `cirg = 1`. -/
def ccmdGlobal : BitVec 64 := 1 <<< 63 ||| 1 <<< 61
/-- The command for a global invalidation of the IOTLB: `ivt` and `iirg = 1`. -/
def iotlbGlobal : BitVec 64 := 1 <<< 63 ||| 1 <<< 60

/-- `ccmd.bits.icc` and `iotlb.bits.ivt`: the invalidation goes on. -/
def vtdBusy (v : BitVec 64) : Bool := v.getLsbD 63
/-- `ccmd.bits.caig` -/
def ccmdCaig (v : BitVec 64) : BitVec 2 := v.extractLsb' 59 2
/-- `iotlb.bits.iaig` -/
def iotlbIaig (v : BitVec 64) : BitVec 3 := v.extractLsb' 57 3

/-- Read a register until it is not busy, `fuel` times at most. -/
def VtdUnits.poll (u : VtdUnits δ) (i : Nat) (reg : VtdReg) : Nat → δ → Option (BitVec 64 × δ) :=
  pollLoop (fun d => some (u.read i reg d)) vtdBusy

/-- The body of the loop of `_vtd_invalidatecaches` over the units. -/
def vtdInvalidateUnit (u : VtdUnits δ) (fuel i : Nat) (d : δ) : Option δ := do
  let (_, d) ← u.poll i .ccmd fuel d
  let (ccmd, d) ← u.poll i .ccmd fuel (u.write i .ccmd ccmdGlobal d)
  guard (ccmdCaig ccmd = 1)
  let (iotlb, d) ← u.poll i .iotlb fuel (u.write i .iotlb iotlbGlobal d)
  guard (iotlbIaig iotlb = 1)
  some d

/-- `_vtd_invalidatecaches` -/
def vtdInvalidatecaches (u : VtdUnits δ) (fuel numDrhd : Nat) (d : δ) : Option δ :=
  forLoop numDrhd (fun i d => d.bind (vtdInvalidateUnit u fuel i)) (some d)

/-- `xmhf_dmaprot_arch_x86vmx_protect`, with `fuel` rounds for each loop. -/
def vmxProtect (r : Rpb) (u : VtdUnits δ) (fuel startPaddr size : Nat) (s : Vtd δ) : Option (Vtd δ) := do
  let endPaddr := pageAlign4K (add32 startPaddr size)
  guard (s.pdptPaddr ≠ 0 ∧ s.pdptVaddr ≠ 0)
  guard (s.pdtsPaddr ≠ 0 ∧ s.pdtsVaddr ≠ 0)
  guard (s.ptsPaddr ≠ 0 ∧ s.ptsVaddr ≠ 0)
  let mem ← stepLoop pageSize4K endPaddr (fun vaddr m => some (vtdProtectPage r s.ptsVaddr vaddr m)) fuel
    startPaddr s.mem
  let dev ← vtdInvalidatecaches u fuel s.numDrhd s.dev
  some { s with mem := mem, dev := dev }

/-! ## The hardware's walk -/

/-- An entry lets some access through. -/
def vtdGrants (e : BitVec 64) : Bool := e.getLsbD 0 || e.getLsbD 1

/-- The entries a walk reads. -/
structure VtdPath where
  pdpte : BitVec 64
  pde : BitVec 64
  pte : BitVec 64
  deriving DecidableEq, Repr

/-- DMA reads go through, and DMA writes. -/
def VtdPath.rights (q : VtdPath) : Bool × Bool :=
  (q.pdpte.getLsbD 0 && q.pde.getLsbD 0 && q.pte.getLsbD 0,
    q.pdpte.getLsbD 1 && q.pde.getLsbD 1 && q.pte.getLsbD 1)

/-- The 3-level walk of the DMA address `a` from the table at `root`, down to the leaf; `none` if an
entry above it grants nothing or maps a super page. -/
def vtdWalk (m : Mem) (root a : Nat) : Option VtdPath :=
  let pdpte := load64 m (root + 8 * (a / 2 ^ 30 % 512))
  if vtdGrants pdpte && !pdpte.getLsbD 7 then
    let pde := load64 m (entryAddr pdpte + 8 * (a / 2 ^ 21 % 512))
    if vtdGrants pde && !pde.getLsbD 7 then
      some ⟨pdpte, pde, load64 m (entryAddr pde + 8 * (a / 2 ^ 12 % 512))⟩
    else none
  else none

end Xmhf.Dmaprot
