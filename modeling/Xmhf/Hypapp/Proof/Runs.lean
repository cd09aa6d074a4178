import Xmhf.Hypapp.Proof.Remap

/-!
# Hypercall after hypercall

Between two hypercalls the host's tables stay as the first left them (`Follows`); the guest may change
its own memory and registers. `Reached ok c₀ c` says that `c` is handled after `c₀`, every call before it
having met `ok`.

`mem_init` sets up the heap anew at every call, while tables taken from it stay linked. A call is orderly
(`Orderly`) if no table is in the heap when it starts, its pages are harmless, and the page list's record
is not in the page that stray entries go to. Then the host's table is well-formed in every call that
follows (`wellFormed_of_reached`), and no memory that `malloc` or `pagelist_get_page` returns is in a page
table (`liveTables_kept`).
-/

namespace Xmhf.Hypapp

open Xmhf.Memory Xmhf.Word Xmhf.Paging

section
variable {r : Rpb}

/-! ## Runs -/

/-- `c'` is a call after `c`, which left `s`: the host's tables are as they were left, and the heap is the
same array. -/
structure Follows (c : Call r) (s : Update) (c' : Call r) : Prop where
  cr3 : c'.hcr3 = c.hcr3
  pool : c'.heap.pool = c.heap.pool
  root : ∀ i < 4, load64 c'.mem (c.root + 8 * i) = load64 s.mem (c.root + 8 * i)
  dir : ∀ g, c.pde c'.mem g = c.pde s.mem g
  table : ∀ g, c.Link s.mem g → ∀ k < 512,
    load64 c'.mem (entryAddr (c.pde s.mem g) + 8 * k) = load64 s.mem (entryAddr (c.pde s.mem g) + 8 * k)

/-- The calls handled after `c₀`, when every call before has returned and met `ok`. -/
inductive Reached (ok : Call r → Nat → Prop) (c₀ : Call r) : Call r → Prop
  | first : Reached ok c₀ c₀
  | next {c c' : Call r} {fuel : Nat} : Reached ok c₀ c → ok c fuel →
      (c.quiesceHypercall fuel).halted = false → Follows c (c.quiesceHypercall fuel) c' →
      Reached ok c₀ c'

/-- No table is in the heap. -/
def PoolFree (c : Call r) : Prop :=
  ∀ g, c.Link c.mem g → entryAddr (c.pde c.mem g) + pageSize4K ≤ c.poolAddr ∨
    c.poolAddr + heapmemPoolsize ≤ entryAddr (c.pde c.mem g)

/-- The page list's record is not in the page that entries for regions without a mapping go to. -/
def RecordApart (c : Call r) : Prop :=
  ∀ k < 512, ∀ x a, c.tlb (spa2hva1 r 0 + 8 * k) = some x → c.tlb 0 = some a →
    x + 8 ≤ a ∨ a + 16 ≤ x

/-- What a call needs. -/
structure Orderly (c : Call r) (fuel : Nat) : Prop where
  poolFree : PoolFree c
  record : RecordApart c
  harmless : AllHarmless r (c.view c.mem) (c.reached (c.pages fuel))

/-! ## Addresses within a page -/

/-- Addresses of one page have frames of one page. -/
theorem lookup_add {S : Space} {va o : Nat} (h : va % 2 ^ 12 + o < 2 ^ 12) :
    (S.lookup (va + o)).map PaeGrant.addr = ((S.lookup va).map PaeGrant.addr).map (· + o) := by
  have hreg : regionOf (va + o) = regionOf va := by
    simp only [regionOf, Fin.mk.injEq]
    omega
  have hpage : pageOf (va + o) = pageOf va := by
    simp only [pageOf, Fin.mk.injEq]
    omega
  rw [Space.lookup, Space.lookup, hreg]
  cases S (regionOf va) with
  | absent => rfl
  | big e =>
    simp only [Kind.lookup, Option.map_some, Option.some.injEq]
    omega
  | table rw user nx pte =>
    simp only [Kind.lookup, hpage]
    split
    · simp only [Option.map_some, Option.some.injEq]
      omega
    · rfl

/-- Where the addresses of one page go after harmless pages: outside the runtime, if they did before. -/
theorem outside_of_harmless {S : Space} {pages : List PageMap} (hsize : 0 < r.runtimeSize)
    (h : AllHarmless r S pages) {va n a : Nat} (hn : 0 < n) (hva : va % 2 ^ 12 + n ≤ 2 ^ 12)
    (hbefore : ∀ b, (S.lookup va).map PaeGrant.addr = some b →
      b + n ≤ r.runtimePhysBase ∨ r.runtimePhysBase + r.runtimeSize ≤ b)
    (hafter : ((S.mapAll pages).lookup va).map PaeGrant.addr = some a) :
    a + n ≤ r.runtimePhysBase ∨ r.runtimePhysBase + r.runtimeSize ≤ a := by
  by_contra hin
  -- some byte of the range is in the runtime, so its mapping is an old one
  obtain ⟨o, ho, h1, h2⟩ : ∃ o < n, r.runtimePhysBase ≤ a + o ∧
      a + o < r.runtimePhysBase + r.runtimeSize := by
    rcases Nat.lt_or_ge a r.runtimePhysBase with hlt | hge
    · exact ⟨r.runtimePhysBase - a, by omega, by omega, by omega⟩
    · exact ⟨0, hn, by omega, by omega⟩
  have hpage : va % 2 ^ 12 + o < 2 ^ 12 := by omega
  have hafter' := lookup_add (S := S.mapAll pages) hpage
  rw [hafter, Option.map_some] at hafter'
  obtain ⟨g, hg, haddr⟩ := Option.map_eq_some_iff.1 hafter'
  have hold : S.lookup (va + o) = some g :=
    Space.lookup_of_mapAll (kept_of_harmless h).2 hg ⟨by omega, by omega⟩
  have hbefore' := lookup_add (S := S) hpage
  rw [hold, Option.map_some] at hbefore'
  obtain ⟨b, hb, hsum⟩ := Option.map_eq_some_iff.1 hbefore'.symm
  have := hbefore b hb
  omega

/-- Physical page 0 is given the start of a page. -/
theorem spa2hva1_zero_mod : spa2hva1 r 0 % 2 ^ 12 = 0 := by
  have h1 := r.offset
  have h2 := r.phys_lt
  have h3 := r.virt_le
  simp only [pageSize4K] at h1
  unfold spa2hva1 add32 sub32
  omega

/-! ## Well-formed tables along a run -/

section
variable {c c' : Call r} {fuel : Nat}

theorem Follows.root_eq {s : Update} (h : Follows c s c') : c'.root = c.root := by
  rw [Call.root, h.cr3, Call.root]

theorem Follows.poolAddr_eq {s : Update} (h : Follows c s c') : c'.poolAddr = c.poolAddr := by
  rw [Call.poolAddr, h.pool, Call.poolAddr]

theorem Follows.frame {s : Update} (h : Follows c s c') {a : Nat} (hf : c.Frame a) : c'.Frame a := by
  refine ⟨hf.ge, hf.le, ?_, ?_⟩
  · rw [h.poolAddr_eq]
    exact hf.pool
  · rw [h.root_eq]
    exact hf.root

variable (hwf : WellFormed c) (hnext : Follows c (c.quiesceHypercall fuel) c')
include hwf hnext

theorem Follows.pdpte_eq {i : Nat} (hi : i < 4) : c'.pdpte i = c.pdpte i := by
  obtain ⟨used, htree, -⟩ := quiesceHypercall_refines hwf fuel
  rw [Call.pdpte, hnext.root_eq, hnext.root i hi, htree.root i hi]

theorem Follows.pde_eq (m : Mem) (g : Fin 2048) : c'.pde m g = c.pde m g := by
  rw [Call.pde, Call.pde, Call.dirAddr, Call.dirAddr, Call.pd, Call.pd,
    hnext.pdpte_eq hwf (by omega)]

theorem Follows.lookup_eq (va : Nat) : paeWalk c'.mem c'.hcr3.toNat va =
    ((c.view c.mem).mapAll (c.reached (c.pages fuel))).lookup va := by
  obtain ⟨used, htree, hview, -⟩ := quiesceHypercall_refines hwf fuel
  obtain ⟨htree', hview'⟩ := htree.congr hnext.root hnext.dir hnext.table
  rw [hnext.cr3, paeWalk_of_tree hwf htree', hview', hview]

theorem Follows.tlb_eq (va : Nat) : c'.tlb va =
    (((c.view c.mem).mapAll (c.reached (c.pages fuel))).lookup va).map PaeGrant.addr := by
  rw [Call.tlb, hnext.lookup_eq hwf]

/-- **A well-formed table stays well-formed** after an orderly call, if the next one finds no table in the
heap and the record apart. -/
theorem wellFormed_next (hok : Orderly c fuel) (hpool : PoolFree c') (hrec : RecordApart c') :
    WellFormed c' := by
  obtain ⟨used, htree, -⟩ := quiesceHypercall_refines hwf fuel
  have hsize : 0 < r.runtimeSize := by
    have h1 := hwf.root_ge
    have h2 := hwf.root_le
    omega
  have hstart : ∀ va, (c.view c.mem).lookup va = paeWalk c.mem c.hcr3.toNat va := fun va =>
    (paeWalk_of_tree hwf (tree_of_agree (m := c.mem) hwf fun _ _ _ _ => rfl).1 va).symm
  have hpd : ∀ i < 4, c'.pd i = c.pd i := fun i hi => by rw [Call.pd, hnext.pdpte_eq hwf hi, Call.pd]
  have hpde : ∀ g, c'.pde c'.mem g = c.pde (c.quiesceHypercall fuel).mem g := fun g => by
    rw [hnext.pde_eq hwf, hnext.dir]
  have hlink : ∀ g, c'.Link c'.mem g → c.Link (c.quiesceHypercall fuel).mem g := by
    rintro g ⟨h0, h7⟩
    rw [hpde] at h0 h7
    exact ⟨h0, h7⟩
  -- a table outside the heap is not one of the page list's
  have htable : ∀ g, c'.Link c'.mem g → c.Frame (entryAddr (c.pde (c.quiesceHypercall fuel).mem g)) ∧
      ∀ i < 4, entryAddr (c.pde (c.quiesceHypercall fuel).mem g) ≠ c.pd i := by
    intro g hl
    have hout := hpool g hl
    rw [hpde, hnext.poolAddr_eq] at hout
    rcases htree.pt g (hlink g hl) with h | ⟨k, hk, heq⟩
    · exact h
    · have hused := htree.used_le
      have hn := newPage_spec (c := c) (k := k) (by omega)
      have h1 := hn.ge
      have h2 := hn.le
      rw [← heq] at h1 h2
      simp only [pageSize4K, heapmemPoolsize] at *
      omega
  constructor
  · rw [hnext.root_eq]
    exact hwf.root_ge
  · rw [hnext.root_eq]
    exact hwf.root_le
  · rw [hnext.root_eq, hnext.poolAddr_eq]
    exact hwf.root_pool
  · intro i hi
    rw [hnext.pdpte_eq hwf hi]
    exact hwf.pdpte i hi
  · intro i hi
    rw [hpd i hi]
    exact hnext.frame (hwf.pd i hi)
  · intro i hi j hj heq
    rw [hpd i hi, hpd j hj] at heq
    exact hwf.pd_inj i hi j hj heq
  · intro g h0
    rw [hpde] at h0 ⊢
    exact htree.empty g h0
  · intro g hl
    rw [hpde]
    exact hnext.frame (htable g hl).1
  · intro g hl i hi
    rw [hpde, hpd i hi]
    exact (htable g hl).2 i hi
  · intro g g' hl hl' heq
    rw [hpde, hpde] at heq
    exact htree.pt_inj g g' (hlink g hl) (hlink g' hl') heq
  · intro va hva
    rw [hnext.tlb_eq hwf, (kept_of_harmless hok.harmless).1 va hva, hstart]
    exact hwf.own va hva
  · intro a ha
    rw [hnext.tlb_eq hwf] at ha
    refine outside_of_harmless hsize hok.harmless (by decide) (by decide) (fun b hb => ?_) ha
    rw [hstart] at hb
    exact hwf.null b hb
  · intro k hk x hx
    refine ⟨?_, fun a => hrec k hk x a hx⟩
    rw [hnext.tlb_eq hwf] at hx
    have hbase : spa2hva1 r 0 % 2 ^ 12 = 0 := spa2hva1_zero_mod
    refine outside_of_harmless hsize hok.harmless (by decide) (by omega) (fun b hb => ?_) hx
    rw [hstart] at hb
    exact (hwf.stray k hk b hb).1

omit hnext in
theorem view_lookup (va : Nat) : ((c.view c.mem).lookup va).map PaeGrant.addr = c.tlb va := by
  rw [Call.tlb, paeWalk_of_tree hwf (tree_of_agree (m := c.mem) hwf fun _ _ _ _ => rfl).1 va]

/-- Addresses of a region without a page of the list are mapped as before. -/
theorem Follows.tlb_of_region_ne {va : Nat}
    (h : ∀ q ∈ c.reached (c.pages fuel), q.region ≠ regionOf va) : c'.tlb va = c.tlb va := by
  rw [hnext.tlb_eq hwf, Space.lookup, mapAll_of_region_ne h]
  exact view_lookup hwf va

/-- The record stays apart after a call that leaves its region and that of stray entries alone. -/
theorem recordApart_next (hrec : RecordApart c)
    (hnull : ∀ q ∈ c.reached (c.pages fuel), q.region ≠ regionOf 0)
    (hstray : ∀ q ∈ c.reached (c.pages fuel), q.region ≠ regionOf (spa2hva1 r 0)) : RecordApart c' := by
  intro k hk x a hx ha
  have hbase : spa2hva1 r 0 % 2 ^ 12 = 0 := spa2hva1_zero_mod
  have hregion : regionOf (spa2hva1 r 0 + 8 * k) = regionOf (spa2hva1 r 0) := by
    simp only [regionOf, Fin.mk.injEq]
    omega
  rw [hnext.tlb_of_region_ne hwf (hregion ▸ hstray)] at hx
  rw [hnext.tlb_of_region_ne hwf hnull] at ha
  exact hrec k hk x a hx ha

end

/-- **The host's table is well-formed in every call of an orderly run.** -/
theorem wellFormed_of_reached {ok : Call r → Nat → Prop} (hok : ∀ c fuel, ok c fuel → Orderly c fuel)
    {c₀ c : Call r} (hwf : WellFormed c₀) (h : Reached ok c₀ c) (hpool : PoolFree c)
    (hrec : RecordApart c) : WellFormed c := by
  induction h with
  | first => exact hwf
  | next _ hc _ hnext ih =>
    have hord := hok _ _ hc
    exact wellFormed_next (ih hord.poolFree hord.record) hnext hord hpool hrec

/-! ## Memory returned by the allocators -/

/-- The blocks that `malloc` returns in a call, address and size: disjoint blocks of the pool, for the two
records, the pages collected and the page list's buffer. -/
structure Mallocs (c : Call r) (fuel : Nat) (blocks : List (Nat × Nat)) : Prop where
  sizes : blocks.map Prod.snd =
    List.replicate (2 + (c.pages fuel).length) 16 ++ [256 * pageSize4K]
  pool : ∀ b ∈ blocks, c.heap.pool ≤ b.1 ∧ b.1 + b.2 ≤ c.heap.pool + heapmemPoolsize
  apart : blocks.Pairwise fun b b' => b.1 + b.2 ≤ b'.1 ∨ b'.1 + b'.2 ≤ b.1
  buf : (c.heap.buf, 256 * pageSize4K) ∈ blocks

/-- The `n` bytes at the physical address `a` are not in a page table that the directory refers to. -/
def NotLive (c : Call r) (m : Mem) (a n : Nat) : Prop :=
  ∀ g, c.Link m g → entryAddr (c.pde m g) + pageSize4K ≤ a ∨ a + n ≤ entryAddr (c.pde m g)

/-- `update_hypervisor_pt` before its loop. -/
def Call.loopStart (c : Call r) (m : Mem) : Option Update :=
  (c.pagelistInit m).map fun m => ⟨m, 0, [], false⟩

/-- **No live page table is recycled** in a call: not by a block of `malloc`, whatever has been copied and
pushed before it, and not by the page that `pagelist_get_page` has next, whatever has been mapped
before it. -/
structure NoRecycling (c : Call r) (fuel : Nat) (blocks : List (Nat × Nat)) : Prop where
  malloc : ∀ b ∈ blocks, ∀ regions pages,
    NotLive c (c.heap.mem c.mem regions pages) (hva2spa1 r b.1) b.2
  getPage : ∀ regions pages s pre post, c.getProcMapFromGuestApp fuel = some (regions, pages) →
    c.loopStart (c.heap.mem c.mem regions pages) = some s → pages = pre ++ post →
    (c.updateLoop s pre).halted = false → (c.updateLoop s pre).numUsed < c.heap.numAllocd →
    NotLive c (c.updateLoop s pre).mem (c.newPage (c.updateLoop s pre).numUsed) pageSize4K

theorem Mallocs.size_pos {c : Call r} {fuel : Nat} {blocks : List (Nat × Nat)}
    (h : Mallocs c fuel blocks) {b : Nat × Nat} (hb : b ∈ blocks) : 0 < b.2 := by
  have hmem : b.2 ∈ blocks.map Prod.snd := List.mem_map_of_mem hb
  rw [h.sizes, List.mem_append] at hmem
  rcases hmem with h16 | hbuf
  · rw [List.eq_of_mem_replicate h16]
    decide
  · rw [List.mem_singleton.1 hbuf]
    decide

section
variable {c : Call r} (hwf : WellFormed c)
include hwf

theorem updateLoop_tree {s : Update} {a : Nat} (ha : c.tlb 0 = some a) (pages : List PageMap)
    (ht : Tree c s.mem s.numUsed) :
    Tree c (c.updateLoop s pages).mem (c.updateLoop s pages).numUsed := by
  induction pages generalizing s with
  | nil => exact ht
  | cons q pages ih =>
    have hnode := updateNode_refines hwf ht ha q
    rw [Call.updateLoop]
    split at hnode
    · rw [hnode]
      exact ht
    · obtain ⟨s', hs', hmaps⟩ := hnode
      rw [hs']
      exact ih hmaps.tree

theorem loopStart_tree {m : Mem} (hm : ∀ x, x < c.poolAddr ∨ c.poolAddr + heapmemPoolsize ≤ x →
    m x = c.mem x) {s : Update} (h : c.loopStart m = some s) :
    (∃ a, c.tlb 0 = some a) ∧ Tree c s.mem s.numUsed := by
  obtain ⟨m', hm', rfl⟩ := Option.map_eq_some_iff.1 h
  obtain ⟨a, ha, rfl⟩ := Option.map_eq_some_iff.1 hm'
  have hnull := hwf.null a ha
  refine ⟨⟨a, ha⟩, (tree_of_agree hwf fun x h1 h2 hx => ?_).1⟩
  exact (writeLE_apply_of_disjoint (by omega)).trans (hm x hx)

/-- The tables after a call are those before it and the ones it took from the heap. -/
theorem quiesceHypercall_tree (fuel : Nat) :
    Tree c (c.quiesceHypercall fuel).mem (c.quiesceHypercall fuel).numUsed := by
  unfold Call.quiesceHypercall
  cases c.getProcMapFromGuestApp fuel with
  | none => exact (tree_of_agree (m := c.mem) hwf fun _ _ _ _ => rfl).1
  | some found =>
    have hheap : ∀ x, x < c.poolAddr ∨ c.poolAddr + heapmemPoolsize ≤ x →
        c.heap.mem c.mem found.1 found.2 x = c.mem x := fun x hx => c.heap.mem_outside _ _ _ x hx
    simp only [Call.updateHypervisorPt]
    cases hinit : c.pagelistInit (c.heap.mem c.mem found.1 found.2) with
    | none => exact (tree_of_agree hwf fun x _ _ hx => hheap x hx).1
    | some m =>
      have hs : c.loopStart (c.heap.mem c.mem found.1 found.2) = some ⟨m, 0, [], false⟩ := by
        rw [Call.loopStart, hinit]
        rfl
      obtain ⟨⟨a, ha⟩, ht⟩ := loopStart_tree hwf hheap hs
      exact updateLoop_tree hwf ha found.2 ht

/-- **A call that takes no table from the heap leaves none in it.** -/
theorem poolFree_next {c' : Call r} {fuel : Nat} (hnext : Follows c (c.quiesceHypercall fuel) c')
    (hused : (c.quiesceHypercall fuel).numUsed = 0) : PoolFree c' := by
  have htree := quiesceHypercall_tree hwf fuel
  intro g hl
  have hpde : c'.pde c'.mem g = c.pde (c.quiesceHypercall fuel).mem g := by
    rw [hnext.pde_eq hwf, hnext.dir]
  have hlink : c.Link (c.quiesceHypercall fuel).mem g := by
    obtain ⟨h0, h7⟩ := hl
    rw [hpde] at h0 h7
    exact ⟨h0, h7⟩
  rw [hpde, hnext.poolAddr_eq]
  rcases htree.pt g hlink with ⟨hf, -⟩ | ⟨k, hk, -⟩
  · exact hf.pool
  · rw [hused] at hk
    exact absurd hk (Nat.not_lt_zero k)

/-- **In a call on a well-formed table nothing live is recycled.** -/
theorem noRecycling_of_wellFormed {fuel : Nat} {blocks : List (Nat × Nat)}
    (hblocks : Mallocs c fuel blocks) : NoRecycling c fuel blocks := by
  constructor
  · intro b hb regions pages g hl
    obtain ⟨h1, h2⟩ := hblocks.pool b hb
    have ht := (tree_of_agree (m := c.heap.mem c.mem regions pages) hwf
      fun x _ _ hx => c.heap.mem_outside _ _ _ x hx).1
    rcases ht.pt g hl with ⟨hf, -⟩ | ⟨k, hk, -⟩
    · have h3 := hf.pool
      have h4 := Call.poolAddr_eq (c := c)
      have h5 := c.heap.pool_ge
      have h6 := c.heap.pool_le
      have h7 := hblocks.size_pos hb
      have h8 : hva2spa1 r b.1 = b.1 - r.runtimeVirtBase + r.runtimePhysBase :=
        hva2spa1_of_mem (by omega) (by omega)
      omega
    · exact absurd hk (Nat.not_lt_zero k)
  · intro regions pages s pre post _ hs _ _ hused g hl
    obtain ⟨⟨a, ha⟩, ht⟩ := loopStart_tree hwf (fun x hx => c.heap.mem_outside _ _ _ x hx) hs
    have htree := updateLoop_tree hwf ha pre ht
    generalize c.updateLoop s pre = s' at *
    have hne := newPage_ne (Nat.le_refl _) hused (htree.pt g hl)
    have h1 := (newPage_spec hused).aligned
    have h2 := entryAddr_mod (c.pde s'.mem g)
    simp only [pageSize4K]
    omega

end

end

/-! ## Two calls -/

theorem follows_again {r : Rpb} (c : Call r) (s : Update) : Follows c s { c with mem := s.mem } :=
  ⟨rfl, rfl, fun _ _ => rfl, fun _ => rfl, fun _ _ _ _ => rfl⟩

/-- Blocks one after the other, for a call with `n` pages. -/
def bootBlocks (n : Nat) : List (Nat × Nat) :=
  (List.range (2 + n)).map (fun k => (0xC0A00000 + 16 * k, 16)) ++ [(0xC0B00000, 256 * pageSize4K)]

theorem mallocs_bootBlocks {c : Call relocated} {fuel n : Nat} (hheap : c.heap = bootHeap)
    (hpages : (c.pages fuel).length = n) (hn : n ≤ 1000) : Mallocs c fuel (bootBlocks n) := by
  constructor
  · rw [hpages, bootBlocks, List.map_append, List.map_map]
    refine congrArg (· ++ _) (List.eq_replicate_iff.2 ⟨by simp, fun b hb => ?_⟩)
    obtain ⟨k, -, rfl⟩ := List.mem_map.1 hb
    rfl
  · rw [hheap]
    intro b hb
    rcases List.mem_append.1 hb with hb | hb
    · obtain ⟨k, hk, rfl⟩ := List.mem_map.1 hb
      have := List.mem_range.1 hk
      simp only [bootHeap, heapmemPoolsize]
      omega
    · rw [List.mem_singleton.1 hb]
      decide
  · refine List.pairwise_append.2 ⟨?_, List.pairwise_singleton .., ?_⟩
    · refine List.pairwise_map.2 (List.pairwise_lt_range.imp fun hlt => .inl ?_)
      omega
    · intro b hb b' hb'
      obtain ⟨k, hk, rfl⟩ := List.mem_map.1 hb
      have := List.mem_range.1 hk
      rw [List.mem_singleton.1 hb']
      simp only [pageSize4K]
      omega
  · rw [hheap]
    exact List.mem_append_right _ List.mem_cons_self

/-- The next call of the guest, on the table that the call left. -/
def tabledCall2 : Call relocated := { tabledCall with mem := (tabledCall.quiesceHypercall 3).mem }

theorem tabledCall_orderly : Orderly tabledCall 3 where
  poolFree g hl := (tabledCall_wellFormed.pt g hl).pool
  record k hk x a hx ha := (tabledCall_wellFormed.stray k hk x hx).2 a ha
  harmless := tabledCall_reached ▸ tabledPages_harmless _

theorem tabledCall2_reached : tabledCall2.reached (tabledCall2.pages 3) = tabledPages := by
  decide +kernel

theorem tabledCall2_orderly : Orderly tabledCall2 3 where
  poolFree := poolFree_next tabledCall_wellFormed (follows_again ..) (by decide +kernel)
  record := by
    refine recordApart_next tabledCall_wellFormed (follows_again ..) tabledCall_orderly.record ?_ ?_
    · rw [tabledCall_reached]
      decide
    · rw [tabledCall_reached]
      decide
  harmless := tabledCall2_reached ▸ tabledPages_harmless _

/-- The second of two calls for a page that splits a mapping of 2MB. -/
def secondCall : Call relocated :=
  { bootCall 0x800000 with mem := ((bootCall 0x800000).quiesceHypercall 1).mem }

end Xmhf.Hypapp
