import Xmhf.Hypapp.Proof.Harmless
import Xmhf.Hypapp.Proof.Refine

/-!
# Isolation of the hypervisor from the quiesce hypercall

The hypercall checks none of the guest's regions. `hypercall_isolates`: it leaves the hypervisor's
memory and addresses to the hypervisor when the pages it gets to are harmless, and only then.

`bootCall` is a call on the table that the secure loader sets up, with one page at a frame of the guest's
choice; `tabledCall` is one on a table that maps 2MB by a page table, with pages of both sizes.
-/

namespace Xmhf.Hypapp

open Xmhf.Memory Xmhf.Word Xmhf.Paging

section
variable {r : Rpb} {c : Call r}

/-- **Isolation**: no entry gives user accesses to secure loader or runtime, and the runtime's own
addresses translate as before. -/
structure Isolated (c : Call r) (s : Update) : Prop where
  written : ∀ l ∈ s.written, ¬ l.Exposes r
  own : ∀ va, Own r va → (paeWalk s.mem c.hcr3.toNat va).map PaeGrant.addr =
    (paeWalk c.mem c.hcr3.toNat va).map PaeGrant.addr

/-- The pages the guest asks for. -/
def Call.pages (c : Call r) (fuel : Nat) : List PageMap :=
  match c.getProcMapFromGuestApp fuel with
  | some (_, pages) => pages
  | none => []

/-- The pages of a list that the update gets to: it faults at once if address 0 is not mapped, and halts at
a page it has no table for, or whose store faults. -/
def Call.reached (c : Call r) (pages : List PageMap) : List PageMap :=
  if (c.tlb 0).isSome then (c.view c.mem).reached c.faults c.heap.numAllocd pages else []

theorem Call.reached_nil (c : Call r) : c.reached [] = [] := by
  unfold Call.reached
  split <;> rfl

section
variable (hwf : WellFormed c)
include hwf

/-! ## The loop -/

/-- **The loop maps the pages it gets to.** -/
theorem updateLoop_refines {s : Update} {a : Nat} (ha : c.tlb 0 = some a) (pages : List PageMap)
    (ht : Tree c s.mem s.numUsed) : ∃ used, Tree c (c.updateLoop s pages).mem used ∧
      c.view (c.updateLoop s pages).mem = (c.view s.mem).mapAll
        ((c.view s.mem).reached c.faults (c.heap.numAllocd - s.numUsed) pages) ∧
      (c.updateLoop s pages).written = s.written ++ (c.view s.mem).leaves
        ((c.view s.mem).reached c.faults (c.heap.numAllocd - s.numUsed) pages) := by
  induction pages generalizing s with
  | nil => exact ⟨_, ht, rfl, (List.append_nil _).symm⟩
  | cons q pages ih =>
    have hnode := updateNode_refines hwf ht ha q
    rw [Call.updateLoop, Space.reached]
    split at hnode
    · next hstop =>
      rw [hnode, if_pos hstop]
      exact ⟨_, ht, rfl, (List.append_nil _).symm⟩
    · next hstop =>
      obtain ⟨s', hs', hmaps⟩ := hnode
      rw [hs', if_neg hstop]
      obtain ⟨used, htree, hview, hwritten⟩ := ih hmaps.tree
      rw [hmaps.view, hmaps.used, ← Nat.sub_sub] at hview hwritten
      refine ⟨used, htree, hview, ?_⟩
      rw [hwritten, hmaps.written, List.append_assoc]
      rfl

/-! ## Before the loop -/

/-- Memory that agrees with the call's in the runtime outside the heap has the same tables. -/
theorem tree_of_agree {m : Mem} (h : ∀ x, r.runtimePhysBase ≤ x →
    x < r.runtimePhysBase + r.runtimeSize → (x < c.poolAddr ∨ c.poolAddr + heapmemPoolsize ≤ x) →
    m x = c.mem x) : Tree c m 0 ∧ c.view m = c.view c.mem := by
  have htree : Tree c c.mem 0 :=
    ⟨Nat.zero_le _, fun _ _ => rfl, hwf.empty, fun g hl => .inl ⟨hwf.pt g hl, hwf.pt_pd g hl⟩,
      hwf.pt_inj⟩
  have hframe : ∀ a, c.Frame a → ∀ k < 512, load64 m (a + 8 * k) = load64 c.mem (a + 8 * k) := by
    rintro a ⟨h1, h2, h3, -⟩ k hk
    simp only [pageSize4K] at h2 h3
    exact load64_congr fun x hx1 hx2 => h x (by omega) (by omega) (by omega)
  refine htree.congr (fun i hi => ?_) (fun g => ?_) fun g hl => hframe _ (hwf.pt g hl)
  · have h1 := hwf.root_ge
    have h2 := hwf.root_le
    have h3 := hwf.root_pool
    exact load64_congr fun x hx1 hx2 => h x (by omega) (by omega) (by omega)
  · exact hframe _ (hwf.pd (g.val / 512) (by omega)) _ (Nat.mod_lt _ (by decide))

/-- **`update_hypervisor_pt` maps the pages it gets to**, once the list is in the heap. -/
theorem updateHypervisorPt_refines {m : Mem} {regions : List ProcMap} (pages : List PageMap)
    (hm : m = c.heap.mem c.mem regions pages) :
    ∃ used, Tree c (c.updateHypervisorPt m pages).mem used ∧
      c.view (c.updateHypervisorPt m pages).mem = (c.view c.mem).mapAll (c.reached pages) ∧
      (c.updateHypervisorPt m pages).written = (c.view c.mem).leaves (c.reached pages) := by
  have hheap : ∀ x, x < c.poolAddr ∨ c.poolAddr + heapmemPoolsize ≤ x → m x = c.mem x := by
    intro x hx
    rw [hm, c.heap.mem_outside _ _ _ _ hx]
  unfold Call.updateHypervisorPt Call.pagelistInit Call.reached
  cases ha : c.tlb 0 with
  | none =>
    obtain ⟨ht, hview⟩ := tree_of_agree hwf fun x _ _ hx => hheap x hx
    exact ⟨0, ht, hview, rfl⟩
  | some a =>
    have hnull := hwf.null a ha
    simp only [Option.map_some, Option.isSome_some, ↓reduceIte]
    generalize hrec : writeLE m a 16 _ = m'
    obtain ⟨ht, hview⟩ : Tree c m' 0 ∧ c.view m' = c.view c.mem := by
      refine tree_of_agree hwf fun x h1 h2 hx => ?_
      rw [← hrec, writeLE_apply_of_disjoint (by omega), hheap x hx]
    have hloop := updateLoop_refines (s := ⟨m', 0, [], false⟩) hwf ha pages ht
    rw [hview] at hloop
    exact hloop

/-- **The hypercall maps the pages it gets to.** -/
theorem quiesceHypercall_refines (fuel : Nat) : ∃ used, Tree c (c.quiesceHypercall fuel).mem used ∧
    c.view (c.quiesceHypercall fuel).mem = (c.view c.mem).mapAll (c.reached (c.pages fuel)) ∧
    (c.quiesceHypercall fuel).written = (c.view c.mem).leaves (c.reached (c.pages fuel)) := by
  unfold Call.pages Call.quiesceHypercall
  cases c.getProcMapFromGuestApp fuel with
  | none =>
    obtain ⟨ht, -⟩ := tree_of_agree (m := c.mem) hwf fun _ _ _ _ => rfl
    simp only [Call.reached_nil]
    exact ⟨0, ht, rfl, rfl⟩
  | some found => exact updateHypervisorPt_refines hwf found.2 rfl

theorem paeWalk_of_tree {m : Mem} {used : Nat} (ht : Tree c m used) (va : Nat) :
    paeWalk m c.hcr3.toNat va = (c.view m).lookup va := paeWalk_eq_lookup c ht.root hwf.pdpte va

end

/-! ## Isolation -/

end

/-! ## A call -/

/-- The directory entry of a region in the table that the secure loader sets up for the relocated runtime:
unity mappings up to the runtime's own range, the range, and the two APICs. -/
def bootPde (g : Nat) : BitVec 64 :=
  if g < 1537 then BitVec.ofNat 64 (g * 2 ^ 21 + 0x87)
  else if g < 1633 then BitVec.ofNat 64 ((g - 1537) * 2 ^ 21 + 0x10200000 + 0x87)
  else if g = 0x7f6 then 0xfec00097
  else if g = 0x7f7 then 0xfee00097
  else 0

/-- Memory by words: the host's tables at 0x10201000, the guest's page directory at 0x1000, with 4MB pages
for address 0 and, at `frame`, for 0x40000000, and a list of one region, the page at 0x40000000. -/
def bootWord (frame : BitVec 32) (n : Nat) : BitVec 64 :=
  if n < 0x2040200 then
    if n = 0x200 then 0x83
    else if n = 0x280 then (frame ||| 0x83).setWidth 64
    else if n = 0x400 then 0x4000100040000000
    else 0
  else if n < 0x2040204 then BitVec.ofNat 64 (0x10202001 + 4096 * (n - 0x2040200))
  else if n < 0x2040400 then 0
  else if n < 0x2040c00 then bootPde (n - 0x2040400)
  else 0

/-- The last region copied, at `a`. -/
def storeRegion (m : Mem) (a : Nat) : List ProcMap → Mem
  | [] => m
  | region :: _ => writeLE m a 16 (region.startAddr.toNat + 2 ^ 32 * region.endAddr.toNat +
      2 ^ 64 * region.isHugePage.toNat + 2 ^ 96 * region.next.toNat)

/-- The nodes of the list of pages, the last one at `a`, each 16 bytes after its next one. -/
def storeNodes (m : Mem) (a next : Nat) : List PageMap → Mem
  | [] => m
  | q :: pages => storeNodes
    (writeLE m a 16 (q.vaddr.toNat + 2 ^ 32 * q.paddr.toNat + 2 ^ 64 * q.isHugePage.toNat +
      2 ^ 96 * next)) (a - 16) (next - 16) pages

/-- The regions and pages in memory, in blocks one after the other. -/
def bootHeapMem (m : Mem) (regions : List ProcMap) (pages : List PageMap) : Mem := fun a =>
  if 0x10A00000 ≤ a ∧ a < 0x10E00000 then
    storeNodes (storeRegion m 0x10A00000 regions) (0x10A00010 + 16 * pages.length)
      (0xC0A00000 + 16 * pages.length) pages a
  else m a

theorem bootHeapMem_outside (m : Mem) (regions : List ProcMap) (pages : List PageMap) (a : Nat)
    (ha : a < hva2spa1 relocated 0xC0A00000 ∨ hva2spa1 relocated 0xC0A00000 + heapmemPoolsize ≤ a) :
    bootHeapMem m regions pages a = m a := by
  have hpool : hva2spa1 relocated 0xC0A00000 = 0x10A00000 := by decide
  rw [hpool, heapmemPoolsize] at ha
  exact if_neg (by omega)

/-- A heap that gives out its blocks one after the other. -/
def bootHeap : Heap relocated where
  pool := 0xC0A00000
  capacity := 1000
  mem := bootHeapMem
  buf := 0xC0B00000
  pool_ge := by decide
  pool_le := by decide
  buf_ge := by decide
  buf_le := by decide
  mem_outside := bootHeapMem_outside

/-- The guest asks for one page, which its page table maps to `frame`. -/
def bootCall (frame : BitVec 32) : Call relocated where
  mem := ofWords (bootWord frame)
  hcr3 := 0x10201000
  guestCr3 := 0x1000
  eax := 0x2000
  heap := bootHeap

section
variable (frame : BitVec 32)

theorem bootCall_root : (bootCall frame).root = 0x10201000 := by
  simp [Call.root, bootCall]

theorem bootCall_pdpte {i : Nat} (hi : i < 4) :
    (bootCall frame).pdpte i = BitVec.ofNat 64 (0x10202001 + 4096 * i) := by
  have haddr : (bootCall frame).root + 8 * i = 8 * (0x2040200 + i) := by
    rw [bootCall_root]
    omega
  rw [Call.pdpte, haddr]
  refine (load64_ofWords _ _).trans ?_
  rw [bootWord, if_neg (by omega), if_pos (by omega), Nat.add_sub_cancel_left]

theorem bootCall_present {i : Nat} (hi : i < 4) :
    ((bootCall frame).pdpte i).getLsbD 0 = true := by
  have hbit : ∀ i : Fin 4, (BitVec.ofNat 64 (0x10202001 + 4096 * i.val)).getLsbD 0 = true := by decide
  rw [bootCall_pdpte frame hi]
  exact hbit ⟨i, hi⟩

theorem bootCall_pd {i : Nat} (hi : i < 4) : (bootCall frame).pd i = 0x10202000 + 4096 * i := by
  rw [Call.pd, bootCall_pdpte frame hi, entryAddr, BitVec.toNat_ofNat]
  omega

theorem bootCall_pde (g : Fin 2048) :
    (bootCall frame).pde (bootCall frame).mem g = bootPde g.val := by
  have hg := g.isLt
  have haddr : (bootCall frame).dirAddr g = 8 * (0x2040400 + g.val) := by
    rw [Call.dirAddr, bootCall_pd frame (by omega)]
    omega
  rw [Call.pde, haddr]
  refine (load64_ofWords _ _).trans ?_
  rw [bootWord, if_neg (by omega), if_neg (by omega), if_neg (by omega), if_pos (by omega),
    Nat.add_sub_cancel_left]

/-- The flags of an entry that maps 2MB. -/
theorem bigPde_flags (k : Nat) : (BitVec.ofNat 64 (k * 2 ^ 21 + 0x87)).getLsbD 0 = true ∧
    (BitVec.ofNat 64 (k * 2 ^ 21 + 0x87)).getLsbD 7 = true := by
  have hbit : ∀ i, i < 21 → (BitVec.ofNat 64 (k * 2 ^ 21 + 0x87)).getLsbD i = (0x87).testBit i := by
    intro i hi
    rw [BitVec.getLsbD_ofNat, Nat.mul_comm, Nat.testBit_two_pow_mul_add k (by decide), if_pos hi,
      decide_eq_true (by omega), Bool.true_and]
  exact ⟨hbit 0 (by decide), hbit 7 (by decide)⟩

/-- A present entry of the table maps 2MB. -/
theorem bootPde_big (g : Fin 2048) :
    bootPde g.val = 0 ∨ (bootPde g.val).getLsbD 0 = true ∧ (bootPde g.val).getLsbD 7 = true := by
  unfold bootPde
  split_ifs
  · exact Or.inr (bigPde_flags _)
  · -- 0x10200000 is 129 pages of 2MB
    have h := bigPde_flags (g.val - 1537 + 129)
    rw [Nat.add_mul] at h
    exact Or.inr h
  · exact Or.inr (by decide)
  · exact Or.inr (by decide)
  · exact Or.inl rfl

/-- No entry of the table links a page table. -/
theorem bootPde_not_link (g : Fin 2048) :
    ¬ ((bootPde g.val).getLsbD 0 = true ∧ (bootPde g.val).getLsbD 7 = false) := by
  rintro ⟨h0, h7⟩
  rcases bootPde_big g with h | ⟨-, h⟩
  · rw [h] at h0
    cases h0
  · rw [h] at h7
    cases h7

/-- The translation in force, where the table maps the region. -/
theorem bootCall_tlb {va : Nat} (h : bootPde (regionOf va).val ≠ 0) :
    (bootCall frame).tlb va = some (entryAddrBig (bootPde (regionOf va).val) + va % 2 ^ 21) := by
  obtain ⟨h0, h7⟩ := (bootPde_big (regionOf va)).resolve_left h
  rw [Call.tlb, paeWalk_eq_lookup _ (fun _ _ => rfl) (fun i hi => bootCall_present frame hi),
    Space.lookup, Call.view, bootCall_pde, kindOf, if_pos h0, if_pos h7]
  rfl

theorem bootCall_unity {va : Nat} (h : va < 0xC0200000) : (bootCall frame).tlb va = some va := by
  have hg : (regionOf va).val = va / 2 ^ 21 := Nat.mod_eq_of_lt (by omega)
  have hpde : bootPde (regionOf va).val = BitVec.ofNat 64 (va / 2 ^ 21 * 2 ^ 21 + 0x87) := by
    rw [bootPde, hg, if_pos (by omega)]
  have hnat : (bootPde (regionOf va).val).toNat = va / 2 ^ 21 * 2 ^ 21 + 0x87 := by
    rw [hpde, BitVec.toNat_ofNat]
    omega
  have hne : bootPde (regionOf va).val ≠ 0 := by
    intro h0
    rw [h0] at hnat
    simp at hnat
  rw [bootCall_tlb frame hne, entryAddrBig, hnat]
  congr 1
  omega

theorem bootCall_own {va : Nat} (h : Own relocated va) :
    (bootCall frame).tlb va = some (va - relocated.runtimeVirtBase + relocated.runtimePhysBase) := by
  obtain ⟨h1, h2⟩ := h
  simp only [relocated] at h1 h2
  have hg : (regionOf va).val = va / 2 ^ 21 := Nat.mod_eq_of_lt (by omega)
  have hpde : bootPde (regionOf va).val =
      BitVec.ofNat 64 ((va / 2 ^ 21 - 1537) * 2 ^ 21 + 0x10200000 + 0x87) := by
    rw [bootPde, hg, if_neg (by omega), if_pos (by omega)]
  have hnat : (bootPde (regionOf va).val).toNat =
      (va / 2 ^ 21 - 1537) * 2 ^ 21 + 0x10200000 + 0x87 := by
    rw [hpde, BitVec.toNat_ofNat]
    omega
  have hne : bootPde (regionOf va).val ≠ 0 := by
    intro h0
    rw [h0] at hnat
    simp at hnat
  have haddr : ((va / 2 ^ 21 - 1537) * 2 ^ 21 + 0x10200000 + 0x87) / 2 ^ 21 % 2 ^ 31 * 2 ^ 21 +
      va % 2 ^ 21 = va - 0xC0200000 + 0x10200000 := by
    omega
  rw [bootCall_tlb frame hne, entryAddrBig, hnat, haddr]
  rfl

theorem bootCall_wellFormed : WellFormed (bootCall frame) := by
  have hpool : (bootCall frame).poolAddr = 0x10A00000 :=
    show hva2spa1 relocated 0xC0A00000 = 0x10A00000 by decide
  have hroot := bootCall_root frame
  have hlink : ∀ g, ¬ (bootCall frame).Link (bootCall frame).mem g := by
    intro g h
    rw [Call.Link, bootCall_pde] at h
    exact bootPde_not_link g h
  constructor
  · rw [hroot]
    decide
  · rw [hroot]
    decide
  · rw [hroot, hpool]
    decide
  · exact fun i hi => bootCall_present frame hi
  · intro i hi
    rw [bootCall_pd frame hi]
    constructor
    · simp only [relocated]
      omega
    · simp only [relocated, pageSize4K]
      omega
    · rw [hpool]
      simp only [pageSize4K]
      omega
    · rw [hroot]
      omega
  · intro i hi j hj h
    rw [bootCall_pd frame hi, bootCall_pd frame hj] at h
    omega
  · intro g h0
    rw [bootCall_pde] at h0 ⊢
    refine (bootPde_big g).resolve_right fun h => ?_
    rw [h.1] at h0
    cases h0
  · exact fun g hl => absurd hl (hlink g)
  · exact fun g hl => absurd hl (hlink g)
  · exact fun g _ hl => absurd hl (hlink g)
  · exact fun va hva => bootCall_own frame hva
  · intro a ha
    rw [bootCall_unity frame (by decide)] at ha
    obtain rfl := Option.some.inj ha
    exact .inl (by decide)
  · intro k hk x hx
    have haddr : spa2hva1 relocated 0 = 0xB0000000 := by decide
    rw [haddr, bootCall_unity frame (by omega)] at hx
    obtain rfl := Option.some.inj hx
    refine ⟨.inr (by simp only [relocated]; omega), fun a ha => ?_⟩
    rw [bootCall_unity frame (by decide)] at ha
    obtain rfl := Option.some.inj ha
    omega

end

theorem bootCall_reached :
    (bootCall 0x800000).reached ((bootCall 0x800000).pages 1) = [⟨0x40000000, 0x800000, 0⟩] := by
  decide +kernel

theorem bootCall_returns : ((bootCall 0x800000).quiesceHypercall 1).halted = false := by decide +kernel

theorem bootCall_harmless : AllHarmless relocated ((bootCall 0x800000).view (bootCall 0x800000).mem)
    ((bootCall 0x800000).reached ((bootCall 0x800000).pages 1)) := by
  rw [bootCall_reached]
  intro pre q post h
  obtain ⟨rfl, rfl, rfl⟩ : pre = [] ∧ q = ⟨0x40000000, 0x800000, 0⟩ ∧ post = [] := by
    cases pre with
    | nil => simpa [eq_comm] using h
    | cons p pre => simp at h
  have hreg : PageMap.region ⟨0x40000000, 0x800000, 0⟩ = 512 := by decide
  have hkind : (bootCall 0x800000).view (bootCall 0x800000).mem 512 = .big 0x40000087 := by
    rw [Call.view, bootCall_pde]
    rfl
  rw [Harmless, if_pos rfl, hreg, hkind]
  constructor
  · unfold FrameFree
    decide
  · unfold RangeFree
    decide

/-- Memory as `bootWord` has it, but for the region at 0x40200000, which is mapped by a page table at
0x10210000, and the guest: its directory maps 0x40000000 and 0xD0000000 to 0x40000000 by pages of 4MB, and its
list, at 0x2000, has the 2MB at 0xD0000000, two pages at 0x40200000 and one at 0x40203000. -/
def tabledWord (n : Nat) : BitVec 64 :=
  if n < 0x2040200 then
    if n = 0x200 then 0x83
    else if n = 0x280 then 0x40000083
    else if n = 0x3A0 then 0x40000083
    else if n = 0x400 then 0xD0200000D0000000
    else if n = 0x401 then 0x0000201000000001
    else if n = 0x402 then 0x4020200040200000
    else if n = 0x403 then 0x0000202000000000
    else if n = 0x404 then 0x4020400040203000
    else 0
  else if n = 0x2040601 then 0x10210007
  else if 0x2042000 ≤ n ∧ n < 0x2042200 then BitVec.ofNat 64 (0x40200007 + 4096 * (n - 0x2042000))
  else bootWord 0 n

/-- The guest asks for the regions of its list. -/
def tabledCall : Call relocated := { bootCall 0 with mem := ofWords tabledWord }

theorem tabledCall_pdpte {i : Nat} (hi : i < 4) : tabledCall.pdpte i = (bootCall 0).pdpte i := by
  have haddr : tabledCall.root + 8 * i = 8 * (0x2040200 + i) := by
    have hroot : tabledCall.root = 0x10201000 := bootCall_root 0
    omega
  rw [bootCall_pdpte 0 hi, Call.pdpte, haddr]
  refine (load64_ofWords _ _).trans ?_
  rw [tabledWord, if_neg (by omega), if_neg (by omega), if_neg (by omega), bootWord, if_neg (by omega),
    if_pos (by omega), Nat.add_sub_cancel_left]

theorem tabledCall_pd {i : Nat} (hi : i < 4) : tabledCall.pd i = (bootCall 0).pd i := by
  rw [Call.pd, tabledCall_pdpte hi, Call.pd]

theorem tabledCall_pde (g : Fin 2048) : tabledCall.pde tabledCall.mem g =
    if g = 513 then 0x10210007 else (bootCall 0).pde (bootCall 0).mem g := by
  have hg := g.isLt
  have haddr : tabledCall.dirAddr g = 8 * (0x2040400 + g.val) := by
    rw [Call.dirAddr, tabledCall_pd (by omega), bootCall_pd 0 (by omega)]
    omega
  rw [bootCall_pde, Call.pde, haddr]
  refine (load64_ofWords _ _).trans ?_
  by_cases h : g = 513
  · subst h
    rfl
  · have hne : g.val ≠ 513 := fun hval => h (Fin.ext hval)
    rw [if_neg h, tabledWord, if_neg (by omega), if_neg (by omega), if_neg (by omega), bootWord,
      if_neg (by omega), if_neg (by omega), if_neg (by omega), if_pos (by omega), Nat.add_sub_cancel_left]

theorem tabledCall_pte {k : Nat} (hk : k < 512) : load64 tabledCall.mem (0x10210000 + 8 * k) =
    BitVec.ofNat 64 (0x40200007 + 4096 * k) := by
  have haddr : 0x10210000 + 8 * k = 8 * (0x2042000 + k) := by omega
  rw [haddr]
  refine (load64_ofWords _ _).trans ?_
  rw [tabledWord, if_neg (by omega), if_neg (by omega), if_pos (by omega), Nat.add_sub_cancel_left]

/-- The page table maps its region as the entry for 2MB did. -/
theorem tabledCall_tlb {va : Nat} (hva : va < 2 ^ 32) : tabledCall.tlb va = (bootCall 0).tlb va := by
  have hpres : ∀ i < 4, (tabledCall.pdpte i).getLsbD 0 = true := fun i hi => by
    rw [tabledCall_pdpte hi]
    exact bootCall_present 0 hi
  have hwalk : tabledCall.tlb va = ((tabledCall.view tabledCall.mem).lookup va).map PaeGrant.addr := by
    rw [Call.tlb, paeWalk_eq_lookup _ (fun _ _ => rfl) hpres]
  by_cases hg : regionOf va = 513
  · have hval : va / 2 ^ 21 % 2048 = 513 := congrArg Fin.val hg
    have hk : (pageOf va).val = va / 2 ^ 12 % 512 := rfl
    have hflags : ∀ k < 512, (BitVec.ofNat 64 (0x40200007 + 4096 * k)).getLsbD 0 = true := by
      intro k _
      rw [BitVec.getLsbD_ofNat, Nat.testBit_zero]
      simp
      omega
    rw [bootCall_unity 0 (by omega), hwalk, Space.lookup, Call.view, tabledCall_pde, if_pos hg]
    have hlink : kindOf tabledCall.mem 0x10210007 = .table true true false fun k : Fin 512 =>
        BitVec.ofNat 64 (0x40200007 + 4096 * k.val) := by
      have htable : (fun k : Fin 512 => load64 tabledCall.mem (entryAddr 0x10210007 + 8 * k.val)) =
          fun k : Fin 512 => BitVec.ofNat 64 (0x40200007 + 4096 * k.val) :=
        funext fun k => tabledCall_pte k.isLt
      rw [← htable]
      rfl
    rw [hlink, Kind.lookup]
    simp only [hflags _ (pageOf va).isLt, if_true, Option.map_some]
    refine congrArg some ?_
    rw [entryAddr, BitVec.toNat_ofNat, hk]
    omega
  · have hview : tabledCall.view tabledCall.mem (regionOf va) =
        (bootCall 0).view (bootCall 0).mem (regionOf va) := by
      rw [Call.view, tabledCall_pde, if_neg hg, Call.view, bootCall_pde]
      exact kindOf_congr fun h0 h7 => absurd ⟨h0, h7⟩ (bootPde_not_link (regionOf va))
    rw [hwalk, Space.lookup, hview, Call.tlb,
      paeWalk_eq_lookup _ (fun _ _ => rfl) fun i hi => bootCall_present 0 hi, Space.lookup]

theorem tabledCall_link {g : Fin 2048} (h : tabledCall.Link tabledCall.mem g) : g = 513 := by
  by_contra hg
  rw [Call.Link, tabledCall_pde, if_neg hg, bootCall_pde] at h
  exact bootPde_not_link g h

theorem tabledCall_wellFormed : WellFormed tabledCall := by
  have h := bootCall_wellFormed 0
  have hpool : tabledCall.poolAddr = 0x10A00000 :=
    show hva2spa1 relocated 0xC0A00000 = 0x10A00000 by decide
  have hroot : tabledCall.root = 0x10201000 := bootCall_root 0
  have hframe : ∀ a, (bootCall 0).Frame a → tabledCall.Frame a :=
    fun a hf => ⟨hf.ge, hf.le, hf.pool, hf.root⟩
  have htable : entryAddr (tabledCall.pde tabledCall.mem 513) = 0x10210000 := by
    rw [tabledCall_pde, if_pos rfl]
    decide
  refine ⟨h.root_ge, h.root_le, h.root_pool, fun i hi => ?_, fun i hi => ?_, fun i hi j hj heq => ?_,
    fun g h0 => ?_, fun g hl => ?_, fun g hl i hi => ?_, fun g g' hl hl' _ => ?_, fun va hva => ?_, ?_, ?_⟩
  · rw [tabledCall_pdpte hi]
    exact h.pdpte i hi
  · rw [tabledCall_pd hi]
    exact hframe _ (h.pd i hi)
  · rw [tabledCall_pd hi, tabledCall_pd hj] at heq
    exact h.pd_inj i hi j hj heq
  · rw [tabledCall_pde] at h0 ⊢
    split at h0
    · exact absurd h0 (by decide)
    · next hg =>
      rw [if_neg hg]
      exact h.empty g h0
  · rw [tabledCall_link hl, htable]
    exact ⟨by decide, by decide, .inl (by rw [hpool]; decide), .inr (by rw [hroot]; decide)⟩
  · rw [tabledCall_link hl, htable, tabledCall_pd hi, bootCall_pd 0 hi]
    omega
  · rw [tabledCall_link hl, tabledCall_link hl']
  · have hlt : va < 2 ^ 32 := by
      have h2 := hva.2
      simp only [relocated] at h2
      omega
    rw [tabledCall_tlb hlt]
    exact h.own va hva
  · intro a ha
    rw [tabledCall_tlb (by decide)] at ha
    exact h.null a ha
  · intro k hk x hx
    have haddr : spa2hva1 relocated 0 = 0xB0000000 := by decide
    rw [tabledCall_tlb (by rw [haddr]; omega)] at hx
    obtain ⟨hout, hrec⟩ := h.stray k hk x hx
    refine ⟨hout, fun a ha => hrec a ?_⟩
    rwa [tabledCall_tlb (by decide)] at ha

/-- The pages of the guest's list, last first. -/
def tabledPages : List PageMap :=
  [⟨0x40203000, 0x40203000, 0⟩, ⟨0x40201000, 0x40201000, 0⟩, ⟨0x40200000, 0x40200000, 0⟩,
    ⟨0xD0000000, 0x40000000, 1⟩]

theorem tabledPages_harmless (S : Space) : AllHarmless relocated S tabledPages :=
  allHarmless_of_free (by unfold FrameFree RangeFree; decide)

theorem tabledCall_reached : tabledCall.reached (tabledCall.pages 3) = tabledPages := by decide +kernel

theorem tabledCall_returns : (tabledCall.quiesceHypercall 3).halted = false := by decide +kernel

end Xmhf.Hypapp
