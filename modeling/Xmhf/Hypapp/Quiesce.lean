import Xmhf.Platform.Paging

/-!
# The quiesce hypapp

`QUIESCE_HYPERCALL` takes a list of regions from the guest's memory and maps their pages, user
accessible, in the page table the hypervisor itself runs on:

* `get_proc_map_from_guest_app` walks the list and translates each page with `gva2gpa`, which reads the
  guest's page tables; it pushes the pages on a list of its own, so the last page comes first;
* `update_hypervisor_pt` writes an entry for each page into the host's PAE tables. A page of 4KB in a
  region mapped by a 2MB entry gets a new page table, from a list of 256 pages.

Nothing in the code flushes the TLB: accesses of the hypervisor go by the translation in force at the
call (`Call.tlb`). `app_pl` is never set, so the page list's record is at address 0.
-/

namespace Xmhf.Hypapp

open Xmhf.Memory Xmhf.Word Xmhf.Paging

/-- `proc_map_t`, a region of the guest's list. -/
structure ProcMap where
  startAddr : BitVec 32
  endAddr : BitVec 32
  isHugePage : BitVec 32
  next : BitVec 32
  deriving DecidableEq, Repr

/-- `proc_map_page_4K`, a page to be mapped. -/
structure PageMap where
  vaddr : BitVec 32
  paddr : BitVec 32
  isHugePage : BitVec 32
  deriving DecidableEq, Repr

/-- `HEAPMEM_POOLSIZE` -/
def heapmemPoolsize : Nat := 4 * 2 ^ 20

/-- The heap of a call, which `mem_init` sets up anew: the allocator and the stores to its blocks change
bytes of `memory_pool` only. -/
structure Heap (r : Rpb) where
  /-- `memory_pool` -/
  pool : Nat
  /-- How many pages of the list fit in the pool; for the whole hypercall, beside the buffer of the page
  tables. -/
  capacity : Nat
  /-- Memory once these regions have been copied and these pages pushed. -/
  mem : Mem → List ProcMap → List PageMap → Mem
  /-- `pl->buf` -/
  buf : Nat
  pool_ge : r.runtimeVirtBase ≤ pool
  pool_le : pool + heapmemPoolsize ≤ r.runtimeVirtBase + r.runtimeSize
  buf_ge : pool ≤ buf
  buf_le : buf + 256 * pageSize4K ≤ pool + heapmemPoolsize
  mem_outside : ∀ m regions pages a,
    a < hva2spa1 r pool ∨ hva2spa1 r pool + heapmemPoolsize ≤ a → mem m regions pages a = m a

/-- `pl->page_base` -/
def Heap.pageBase {r : Rpb} (h : Heap r) : Nat := (h.buf + (pageSize4K - 1)) / pageSize4K * pageSize4K

/-- `pl->num_allocd` -/
def Heap.numAllocd {r : Rpb} (h : Heap r) : Nat := if h.pageBase = h.buf then 256 else 255

/-- The machine at the hypercall: memory, the host's and the guest's `CR3`, and the guest's `EAX`. -/
structure Call (r : Rpb) where
  mem : Mem
  hcr3 : BitVec 32
  guestCr3 : BitVec 32
  eax : BitVec 32
  heap : Heap r

section
variable {r : Rpb} (c : Call r)

/-- The translation in force at the call. -/
def Call.tlb (va : Nat) : Option Nat := (paeWalk c.mem c.hcr3.toNat va).map PaeGrant.addr

/-! ## Reading the guest -/

/-- A `u32` read at the host's address `va`; `none` is a page fault, at which the hypervisor halts. -/
def Call.read32 (m : Mem) (va : Nat) : Option (BitVec 32) := (c.tlb va).map (load32 m)

/-- `npae_get_addr_from_32bit_cr3`, `npae_get_addr_from_pde` and `npae_get_addr_from_pte`, which are the
same. -/
def npaeGetAddr (entry : BitVec 32) : BitVec 32 := entry &&& ~~~0xFFF

/-- `gva2gpa`: "Guest uses 32-bit paging". -/
def Call.gva2gpa (m : Mem) (vaddr : BitVec 32) : Option (BitVec 64) := do
  let pdIndex := vaddr.toNat / 2 ^ 22
  let ptIndex := vaddr.toNat / 2 ^ 12 % 1024
  let pdEntry ← c.read32 m ((npaeGetAddr c.guestCr3).toNat + 4 * pdIndex)
  if pdEntry.getLsbD 7 then
    some ((npaeGetAddr pdEntry).setWidth 64 + (vaddr &&& 0x3FFFFF).setWidth 64)
  else do
    let ptEntry ← c.read32 m ((npaeGetAddr pdEntry).toNat + 4 * ptIndex)
    some ((npaeGetAddr ptEntry).setWidth 64 + (vaddr &&& 0xFFF).setWidth 64)

/-- The `n` bytes that `memcpy` reads at the host's address `va`, least significant first. -/
def Call.copyLE (m : Mem) (va : Nat) : Nat → Option Nat
  | 0 => some 0
  | n + 1 => do
    let a ← c.tlb va
    let rest ← Call.copyLE m (add32 va 1) n
    some ((m a).toNat + 256 * rest)

/-- `copy_from_gva_to_hva` of a region: the address of its first byte is translated. -/
def Call.copyProcMap (m : Mem) (gva : BitVec 32) : Option ProcMap := do
  let gpa ← c.gva2gpa m gva
  let bytes ← c.copyLE m (gpa.setWidth 32).toNat 16
  some ⟨BitVec.ofNat 32 bytes, BitVec.ofNat 32 (bytes / 2 ^ 32), BitVec.ofNat 32 (bytes / 2 ^ 64),
    BitVec.ofNat 32 (bytes / 2 ^ 96)⟩

/-- The loop over the `npages` pages of a region from `vaddr` on, `size` apart: each is translated and
pushed. When the heap runs out, so does the buffer of the page tables, and the hypervisor halts. -/
def Call.pushPages (regions : List ProcMap) (isHugePage size : BitVec 32) :
    Nat → BitVec 32 → List PageMap → Option (List PageMap)
  | 0, _, pages => some pages
  | npages + 1, vaddr, pages => do
    let gpa ← c.gva2gpa (c.heap.mem c.mem regions pages) vaddr
    if pages.length < c.heap.capacity then
      Call.pushPages regions isHugePage size npages (vaddr + size)
        (⟨vaddr, gpa.setWidth 32, isHugePage⟩ :: pages)
    else none

/-- The pages of a region, in steps of `size`. -/
def Call.pushRegion (regions : List ProcMap) (region : ProcMap) (size : BitVec 32)
    (pages : List PageMap) : Option (List PageMap) :=
  c.pushPages regions region.isHugePage size
    ((region.endAddr - region.startAddr).toNat / size.toNat) region.startAddr pages

/-- The loop of `get_proc_map_from_guest_app` at `region`, the last of `regions` copied; at most `fuel`
rounds. The last region is pushed in steps of 4KB whatever its kind. -/
def Call.collect : Nat → ProcMap → List ProcMap → List PageMap →
    Option (List ProcMap × List PageMap)
  | 0, _, _, _ => none
  | fuel + 1, region, regions, pages =>
    if region.next ≠ 0 then do
      let pages ←
        if region.isHugePage = 0 then c.pushRegion regions region 0x1000 pages
        else if region.isHugePage = 1 then c.pushRegion regions region 0x200000 pages
        else some pages
      let next ← c.copyProcMap (c.heap.mem c.mem regions pages) region.next
      Call.collect fuel next (next :: regions) pages
    else do
      let pages ← c.pushRegion regions region 0x1000 pages
      some (regions, pages)

/-- `get_proc_map_from_guest_app`: the regions copied and the pages collected, both last first. `none`
if it halts, or goes on for more than `fuel` regions. -/
def Call.getProcMapFromGuestApp (fuel : Nat) : Option (List ProcMap × List PageMap) := do
  let region ← c.copyProcMap (c.heap.mem c.mem [] []) c.eax
  c.collect fuel region [region] []

/-! ## Updating the host's page table -/

/-- An entry written for a page, of 2MB or of 4KB. -/
structure Leaf where
  big : Bool
  entry : BitVec 64
  deriving DecidableEq, Repr

/-- The state of `update_hypervisor_pt`. -/
structure Update where
  mem : Mem
  /-- `pl->num_used` -/
  numUsed : Nat
  /-- The entries written for pages so far. -/
  written : List Leaf
  halted : Bool

def Call.hostRead (m : Mem) (va : Nat) : Option (BitVec 64) := (c.tlb va).map (load64 m)

def Call.hostWrite (m : Mem) (va : Nat) (w : BitVec 64) : Option Mem :=
  (c.tlb va).map fun a => store64 m a w

/-- `memset(page, 0, PAGE_SIZE_4K)` -/
def zeroPage (m : Mem) (a : Nat) : Mem := fun x => if a ≤ x ∧ x < a + pageSize4K then 0 else m x

/-- `pagelist_init`: the record's four words at address 0. -/
def Call.pagelistInit (m : Mem) : Option Mem :=
  (c.tlb 0).map fun a => writeLE m a 16
    (c.heap.buf + 2 ^ 32 * c.heap.pageBase + 2 ^ 64 * c.heap.numAllocd)

/-- `pagelist_get_zeroedpage`; it aborts when all pages are used. -/
def Call.pagelistGetZeroedpage (m : Mem) (numUsed : Nat) : Option (Mem × Nat) :=
  if numUsed < c.heap.numAllocd then do
    let a ← c.tlb 0
    let page := c.heap.pageBase + pageSize4K * numUsed
    let p ← c.tlb page
    some (zeroPage (writeLE m (a + 12) 4 (numUsed + 1)) p, page)
  else none

/-- The entry for a page: `paddr` with the flags. -/
def PageMap.entry (q : PageMap) (flags : BitVec 64) : BitVec 64 := q.paddr.setWidth 64 ||| flags

/-- `_PAGE_PRESENT | _PAGE_RW | _PAGE_USER` -/
def userFlags : BitVec 64 := pagePresent ||| pageRW ||| pageUser

/-- `_PAGE_PRESENT | _PAGE_RW | _PAGE_PSE | _PAGE_USER` -/
def userFlagsBig : BitVec 64 := pagePresent ||| pageRW ||| pagePSE ||| pageUser

/-- A round of `update_hypervisor_pt`. `pdpt_entry` and `pd_entry` are `u32`. -/
def Call.updateNode (s : Update) (q : PageMap) : Option Update := do
  let va := q.vaddr.toNat
  let ptIndex := va / 2 ^ 12 % 512
  let hpdpt := spa2hva1 r (c.hcr3 &&& ~~~0x1F).toNat
  let pdptEntry ← c.hostRead s.mem (hpdpt + 8 * (va / 2 ^ 30))
  let hpd := spa2hva1 r (npaeGetAddr (pdptEntry.setWidth 32)).toNat
  let slot := hpd + 8 * (va / 2 ^ 21 % 512)
  let pdEntry ← c.hostRead s.mem slot
  if q.isHugePage = 0 then
    if pdEntry.getLsbD 7 then do
      let (m, newPt) ← c.pagelistGetZeroedpage s.mem s.numUsed
      let m ← c.hostWrite m (newPt + 8 * ptIndex) (q.entry userFlags)
      let m ← c.hostWrite m slot (BitVec.ofNat 64 (hva2spa1 r newPt) ||| userFlags)
      some { s with
        mem := m, numUsed := s.numUsed + 1, written := s.written ++ [⟨false, q.entry userFlags⟩] }
    else do
      -- not checked for presence: an empty entry gives the address of page 0
      let hpt := spa2hva1 r (npaeGetAddr (pdEntry.setWidth 32)).toNat
      let m ← c.hostWrite s.mem (hpt + 8 * ptIndex) (q.entry userFlags)
      some { s with mem := m, written := s.written ++ [⟨false, q.entry userFlags⟩] }
  else if q.isHugePage = 1 then
    if pdEntry.getLsbD 7 then do
      let m ← c.hostWrite s.mem slot (q.entry userFlagsBig)
      some { s with mem := m, written := s.written ++ [⟨true, q.entry userFlagsBig⟩] }
    else some s
  else some s

/-- The loop of `update_hypervisor_pt`, which stops where it halts. -/
def Call.updateLoop (s : Update) : List PageMap → Update
  | [] => s
  | q :: pages =>
    match c.updateNode s q with
    | some s => Call.updateLoop s pages
    | none => { s with halted := true }

/-- `update_hypervisor_pt` -/
def Call.updateHypervisorPt (m : Mem) (pages : List PageMap) : Update :=
  match c.pagelistInit m with
  | some m => c.updateLoop ⟨m, 0, [], false⟩ pages
  | none => ⟨m, 0, [], true⟩

/-- `QUIESCE_HYPERCALL`: the list, then the page table. -/
def Call.quiesceHypercall (fuel : Nat) : Update :=
  match c.getProcMapFromGuestApp fuel with
  | some (regions, pages) => c.updateHypervisorPt (c.heap.mem c.mem regions pages) pages
  | none => ⟨c.mem, 0, [], true⟩

end

end Xmhf.Hypapp
