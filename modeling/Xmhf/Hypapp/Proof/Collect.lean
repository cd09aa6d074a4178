import Xmhf.Hypapp.Proof.Isolation

/-!
# The pages of the guest's list

The guest builds a list of regions in its own memory. `Call.GuestRegions` says what the list is, by the
guest's page tables; `Call.Exact` that `get_proc_map_from_guest_app` returns with the pages of its regions,
each once and at the frame the guest has it, before a node of zeros.

The loop leaves the last region to the code after it, which takes steps of 4KB whatever the region's kind:
`collect_exact_iff`.
-/

namespace Xmhf.Hypapp

open Xmhf.Memory Xmhf.Word Xmhf.Paging

section
variable {r : Rpb} (c : Call r)

/-! ## The guest's memory -/

/-- Guest memory below the runtime's virtual range, outside secure loader and runtime. -/
def InGuest (r : Rpb) (p n : Nat) : Prop :=
  p + n ≤ r.runtimeVirtBase ∧
    (p + n ≤ r.runtimePhysBase - pageSize2M ∨ r.runtimePhysBase + r.runtimeSize ≤ p)

/-- The addresses below the runtime's virtual range are mapped one to one. -/
def Unity : Prop := ∀ p < r.runtimeVirtBase, c.tlb p = some p

/-- Where the guest's directory entry for an address is. -/
def Call.guestPdeAddr (va : BitVec 32) : Nat :=
  (npaeGetAddr c.guestCr3).toNat + 4 * (va.toNat / 2 ^ 22)

def Call.guestPde (va : BitVec 32) : BitVec 32 := load32 c.mem (c.guestPdeAddr va)

/-- Where the guest's table entry for an address is. -/
def Call.guestPteAddr (va : BitVec 32) : Nat :=
  (npaeGetAddr (c.guestPde va)).toNat + 4 * (va.toNat / 2 ^ 12 % 1024)

/-- The guest's translation of an address, by its tables in physical memory. -/
def Call.guestTranslate (va : BitVec 32) : BitVec 32 :=
  if (c.guestPde va).getLsbD 7 then npaeGetAddr (c.guestPde va) + (va &&& 0x3FFFFF)
  else npaeGetAddr (load32 c.mem (c.guestPteAddr va)) + (va &&& 0xFFF)

/-- The tables that translate an address are in guest memory. -/
def Call.Walks (va : BitVec 32) : Prop :=
  InGuest r (c.guestPdeAddr va) 4 ∧
    ((c.guestPde va).getLsbD 7 = false → InGuest r (c.guestPteAddr va) 4)

/-! ## The guest's list -/

/-- The region whose record is at a physical address. -/
def procMapAt (m : Mem) (p : Nat) : ProcMap :=
  ⟨load32 m p, load32 m (p + 4), load32 m (p + 8), load32 m (p + 12)⟩

/-- The guest has the region's record at `gva`, within one page. -/
structure Call.NodeAt (gva : BitVec 32) (g : ProcMap) : Prop where
  page : gva.toNat % pageSize4K + 16 ≤ pageSize4K
  walks : c.Walks gva
  guest : InGuest r (c.guestTranslate gva).toNat 16
  node : procMapAt c.mem (c.guestTranslate gva).toNat = g

/-- The guest's list at `gva`, ended by a null pointer. -/
def Call.GuestList : BitVec 32 → List ProcMap → Prop
  | _, [] => False
  | gva, [g] => c.NodeAt gva g ∧ g.next = 0
  | gva, g :: g' :: gs => c.NodeAt gva g ∧ g.next ≠ 0 ∧ Call.GuestList g.next (g' :: gs)

/-- A region as `parse_proc_map` makes it. -/
structure ValidRegion (g : ProcMap) : Prop where
  le : g.startAddr.toNat ≤ g.endAddr.toNat
  aligned : g.startAddr.toNat % pageSize4K = 0 ∧ g.endAddr.toNat % pageSize4K = 0
  kind : g.isHugePage = 0 ∨ g.isHugePage = 1
  huge : g.isHugePage = 1 → g.startAddr.toNat % pageSize2M = 0 ∧ g.endAddr.toNat % pageSize2M = 0

/-- The regions of the guest's list, mapped by tables in guest memory. -/
structure Call.GuestRegions (regions : List ProcMap) : Prop where
  list : c.GuestList c.eax regions
  valid : ∀ g ∈ regions, ValidRegion g
  walks : ∀ g ∈ regions, ∀ va : BitVec 32, g.startAddr.toNat ≤ va.toNat →
    va.toNat < g.endAddr.toNat → c.Walks va

/-- The size of a region's pages. -/
def ProcMap.pageSize (g : ProcMap) : Nat := if g.isHugePage = 1 then pageSize2M else pageSize4K

/-- `n` pages of a region from `va` on, `size` apart, at the guest's frames. -/
def Call.pagesFrom (g : ProcMap) (size : Nat) : Nat → Nat → List PageMap
  | 0, _ => []
  | n + 1, va => ⟨BitVec.ofNat 32 va, c.guestTranslate (BitVec.ofNat 32 va), g.isHugePage⟩ ::
      Call.pagesFrom g size n (va + size)

/-- The pages of a region, in pages of `size`. -/
def Call.pagesIn (g : ProcMap) (size : Nat) : List PageMap :=
  c.pagesFrom g size ((g.endAddr.toNat - g.startAddr.toNat) / size) g.startAddr.toNat

/-- The pages of a region. -/
def Call.regionPages (g : ProcMap) : List PageMap := c.pagesIn g g.pageSize

/-! ## The list returned -/

/-- The node that ends the list. -/
def sentinel : PageMap := ⟨0, 0, 0⟩

/-- The nodes of the list returned: each page was pushed before those there were, the first of which is
the node of zeros. -/
def Call.nodes (fuel : Nat) : Option (List PageMap) :=
  (c.getProcMapFromGuestApp fuel).map fun found => found.2 ++ [sentinel]

/-- **Exactness**: the list returned holds the pages of the regions, each once, and ends in the node of
zeros; as many rounds as there are regions are enough. -/
def Call.Exact (regions : List ProcMap) : Prop :=
  ∃ pages, (∀ fuel ≥ regions.length, c.nodes fuel = some (pages ++ [sentinel])) ∧
    pages.Perm (regions.flatMap c.regionPages)

/-- The pages in the order in which they are pushed. -/
def Call.pushed : List ProcMap → List PageMap
  | [] => []
  | [g] => c.pagesIn g pageSize4K
  | g :: g' :: gs => c.regionPages g ++ Call.pushed (g' :: gs)

variable {c}

theorem length_pagesFrom (g : ProcMap) (size n va : Nat) :
    (c.pagesFrom g size n va).length = n := by
  induction n generalizing va with
  | zero => rfl
  | succ n ih => rw [Call.pagesFrom, List.length_cons, ih]

theorem length_pagesIn (g : ProcMap) (size : Nat) :
    (c.pagesIn g size).length = (g.endAddr.toNat - g.startAddr.toNat) / size :=
  length_pagesFrom ..

/-! ## Reading the guest -/

/-- Guest memory is not in the heap. -/
theorem InGuest.load32_eq {p : Nat} (h : InGuest r p 4) (regions : List ProcMap)
    (pages : List PageMap) : load32 (c.heap.mem c.mem regions pages) p = load32 c.mem p := by
  have h1 := c.heap.pool_ge
  have h2 := c.heap.pool_le
  have h3 := Call.poolAddr_eq (c := c)
  have h4 := h.2
  rw [load32, load32]
  congr 1
  refine readLE_congr fun x hx1 hx2 => c.heap.mem_outside _ _ _ _ ?_
  have h5 : hva2spa1 r c.heap.pool = c.poolAddr := rfl
  omega

section
variable (hunity : Unity c)
include hunity

theorem read32_eq {p : Nat} (h : InGuest r p 4) (regions : List ProcMap) (pages : List PageMap) :
    c.read32 (c.heap.mem c.mem regions pages) p = some (load32 c.mem p) := by
  have hp := h.1
  rw [Call.read32, hunity p (by omega), Option.map_some, h.load32_eq]

theorem gva2gpa_eq {va : BitVec 32} (h : c.Walks va) (regions : List ProcMap)
    (pages : List PageMap) : ∃ gpa, c.gva2gpa (c.heap.mem c.mem regions pages) va = some gpa ∧
      gpa.setWidth 32 = c.guestTranslate va := by
  have hpde : c.read32 (c.heap.mem c.mem regions pages)
      ((npaeGetAddr c.guestCr3).toNat + 4 * (va.toNat / 2 ^ 22)) = some (c.guestPde va) :=
    read32_eq hunity h.1 regions pages
  simp only [Call.gva2gpa, Option.bind_eq_bind, hpde, Option.bind_some, Call.guestTranslate]
  split
  · exact ⟨_, rfl, setWidth_add_setWidth ..⟩
  · next h7 =>
    rw [Bool.not_eq_true] at h7
    have hpte : c.read32 (c.heap.mem c.mem regions pages)
        ((npaeGetAddr (c.guestPde va)).toNat + 4 * (va.toNat / 2 ^ 12 % 1024)) =
        some (load32 c.mem (c.guestPteAddr va)) := read32_eq hunity (h.2 h7) regions pages
    rw [hpte]
    exact ⟨_, rfl, setWidth_add_setWidth ..⟩

theorem copyLE_eq {m : Mem} {p n : Nat} (h : p + n ≤ r.runtimeVirtBase) :
    c.copyLE m p n = some (readLE m p n) := by
  induction n generalizing p with
  | zero => rfl
  | succ n ih =>
    have hlt := r.virt_le
    have hrest : c.copyLE m (add32 p 1) n = some (readLE m (p + 1) n) := by
      cases n with
      | zero => rfl
      | succ n =>
        rw [add32_of_lt (by omega)]
        exact ih (by omega)
    simp only [Call.copyLE, hunity p (by omega), hrest, Option.bind_eq_bind, Option.bind_some, readLE]

theorem copyProcMap_eq {gva : BitVec 32} {g : ProcMap} (h : c.NodeAt gva g)
    (regions : List ProcMap) (pages : List PageMap) :
    c.copyProcMap (c.heap.mem c.mem regions pages) gva = some g := by
  obtain ⟨gpa, hgpa, hsame⟩ := gva2gpa_eq hunity h.walks regions pages
  have hguest := h.guest
  rw [← h.node]
  have hword : ∀ i, i + 4 ≤ 16 → load32 (c.heap.mem c.mem regions pages)
      ((c.guestTranslate gva).toNat + i) = load32 c.mem ((c.guestTranslate gva).toNat + i) := by
    intro i hi
    refine InGuest.load32_eq ⟨?_, ?_⟩ regions pages
    · have := hguest.1
      omega
    · have := hguest.2
      omega
  simp only [Call.copyProcMap, Option.bind_eq_bind, hgpa, Option.bind_some, hsame,
    copyLE_eq hunity hguest.1]
  generalize (c.guestTranslate gva).toNat = p at hword ⊢
  have h0 := (ofNat_readLE_div (c.heap.mem c.mem regions pages) p 0 12).trans (hword 0 (by decide))
  have h4 := (ofNat_readLE_div (c.heap.mem c.mem regions pages) p 4 8).trans (hword 4 (by decide))
  have h8 := (ofNat_readLE_div (c.heap.mem c.mem regions pages) p 8 4).trans (hword 8 (by decide))
  have h12 := (ofNat_readLE_div (c.heap.mem c.mem regions pages) p 12 0).trans (hword 12 (by decide))
  simp only [Nat.reduceMul, Nat.reduceAdd, Nat.pow_zero, Nat.div_one, Nat.add_zero] at h0 h4 h8 h12
  rw [h0, h4, h8, h12, procMapAt]

/-! ## The loops -/

/-- `n` pages are pushed, or the heap has no room for them. -/
theorem pushPages_eq {g : ProcMap} {size n v : Nat}
    (hwalks : ∀ i < n, c.Walks (BitVec.ofNat 32 (v + size * i))) (regions : List ProcMap)
    {pages : List PageMap} (hcap : pages.length ≤ c.heap.capacity) :
    c.pushPages regions g.isHugePage (BitVec.ofNat 32 size) n (BitVec.ofNat 32 v) pages =
      if pages.length + n ≤ c.heap.capacity then some ((c.pagesFrom g size n v).reverse ++ pages)
      else none := by
  induction n generalizing v pages with
  | zero => rw [Call.pushPages, Nat.add_zero, if_pos hcap, Call.pagesFrom, List.reverse_nil,
      List.nil_append]
  | succ n ih =>
    obtain ⟨gpa, hgpa, hsame⟩ := gva2gpa_eq hunity (hwalks 0 (Nat.succ_pos n)) regions pages
    rw [Nat.mul_zero, Nat.add_zero] at hgpa hsame
    simp only [Call.pushPages, Option.bind_eq_bind, hgpa, Option.bind_some, hsame]
    by_cases hroom : pages.length < c.heap.capacity
    · have hwalks' : ∀ i < n, c.Walks (BitVec.ofNat 32 (v + size + size * i)) := by
        intro i hi
        have haddr : v + size + size * i = v + size * (i + 1) := by
          rw [Nat.mul_add, Nat.mul_one, Nat.add_assoc, Nat.add_comm size]
        rw [haddr]
        exact hwalks (i + 1) (by omega)
      have hcap' : (⟨BitVec.ofNat 32 v, c.guestTranslate (BitVec.ofNat 32 v), g.isHugePage⟩ ::
          pages : List PageMap).length ≤ c.heap.capacity := hroom
      rw [if_pos hroom, ← BitVec.ofNat_add, ih hwalks' hcap', List.length_cons, Nat.add_assoc,
        Nat.add_comm 1 n, Call.pagesFrom, List.reverse_cons, List.append_assoc]
      rfl
    · rw [if_neg hroom, if_neg (by omega)]

/-- The pages of a region are pushed, in pages of `size`. -/
theorem pushRegion_eq {g : ProcMap} {step : BitVec 32} {size : Nat} (hstep : step.toNat = size)
    (hle : g.startAddr.toNat ≤ g.endAddr.toNat)
    (hwalks : ∀ va : BitVec 32, g.startAddr.toNat ≤ va.toNat → va.toNat < g.endAddr.toNat → c.Walks va)
    (regions : List ProcMap)
    {pages : List PageMap} (hcap : pages.length ≤ c.heap.capacity) :
    c.pushRegion regions g step pages =
      if pages.length + (c.pagesIn g size).length ≤ c.heap.capacity then
        some ((c.pagesIn g size).reverse ++ pages)
      else none := by
  have hdiff : (g.endAddr - g.startAddr).toNat = g.endAddr.toNat - g.startAddr.toNat :=
    BitVec.toNat_sub_of_le hle
  have hofNat : BitVec.ofNat 32 size = step := by rw [← hstep, BitVec.ofNat_toNat, BitVec.setWidth_eq]
  have hstart : BitVec.ofNat 32 g.startAddr.toNat = g.startAddr := BitVec.ofNat_toNat ..
  have hend := g.endAddr.isLt
  have hpages : ∀ i < (g.endAddr.toNat - g.startAddr.toNat) / size,
      c.Walks (BitVec.ofNat 32 (g.startAddr.toNat + size * i)) := by
    intro i hi
    have hpos : 0 < size := Nat.pos_of_ne_zero fun h0 => by
      rw [h0, Nat.div_zero] at hi
      exact Nat.not_lt_zero _ hi
    have hlt : g.startAddr.toNat + size * i < g.endAddr.toNat := by
      have h1 : size * (i + 1) ≤ g.endAddr.toNat - g.startAddr.toNat :=
        Nat.le_trans (Nat.mul_le_mul_left size hi) (Nat.mul_div_le _ _)
      rw [Nat.mul_add, Nat.mul_one] at h1
      omega
    have haddr : (BitVec.ofNat 32 (g.startAddr.toNat + size * i)).toNat =
        g.startAddr.toNat + size * i := by
      rw [BitVec.toNat_ofNat, Nat.mod_eq_of_lt (by omega)]
    refine hwalks _ ?_ ?_
    · rw [haddr]
      exact Nat.le_add_right ..
    · rwa [haddr]
  have hpush := pushPages_eq (g := g) hunity hpages regions hcap
  rw [Call.pushRegion, hdiff, hstep, length_pagesIn, Call.pagesIn, ← hpush, hofNat, hstart]

omit hunity in
theorem GuestList.node {gva : BitVec 32} {g : ProcMap} {gs : List ProcMap}
    (h : c.GuestList gva (g :: gs)) : c.NodeAt gva g := by
  cases gs with
  | nil => exact h.1
  | cons g' gs => exact h.1

omit hunity in
theorem collect_next {g : ProcMap} (hnext : g.next ≠ 0) (fuel : Nat) (regions : List ProcMap)
    (pages : List PageMap) : c.collect (fuel + 1) g regions pages =
      (if g.isHugePage = 0 then c.pushRegion regions g 0x1000 pages
      else if g.isHugePage = 1 then c.pushRegion regions g 0x200000 pages else some pages).bind
        fun pages => (c.copyProcMap (c.heap.mem c.mem regions pages) g.next).bind
          fun next => c.collect fuel next (next :: regions) pages := by
  rw [Call.collect, if_pos hnext]
  split
  · rfl
  · split <;> rfl

/-- **The loop pushes the pages of every region**, or the heap has no room for them. -/
theorem collect_eq {gva : BitVec 32} {g : ProcMap} {gs : List ProcMap} {fuel : Nat}
    (hlist : c.GuestList gva (g :: gs)) (hvalid : ∀ g' ∈ g :: gs, ValidRegion g')
    (hwalks : ∀ g' ∈ g :: gs, ∀ va : BitVec 32, g'.startAddr.toNat ≤ va.toNat →
      va.toNat < g'.endAddr.toNat → c.Walks va) (hfuel : gs.length < fuel)
    (regions : List ProcMap)
    {pages : List PageMap} (hcap : pages.length ≤ c.heap.capacity) :
    (c.collect fuel g regions pages).map Prod.snd =
      if pages.length + (c.pushed (g :: gs)).length ≤ c.heap.capacity then
        some ((c.pushed (g :: gs)).reverse ++ pages)
      else none := by
  induction gs generalizing gva g fuel regions pages with
  | nil =>
    obtain ⟨fuel, rfl⟩ : ∃ k, fuel = k + 1 := ⟨fuel - 1, by simp at hfuel; omega⟩
    have hg := hvalid g List.mem_cons_self
    have hstep : (0x1000 : BitVec 32).toNat = pageSize4K := rfl
    have hpush := pushRegion_eq hunity hstep hg.le (hwalks g List.mem_cons_self) regions hcap
    rw [Call.collect, if_neg (not_not.2 hlist.2), hpush, Call.pushed]
    split <;> rfl
  | cons g' gs ih =>
    obtain ⟨fuel, rfl⟩ : ∃ k, fuel = k + 1 := ⟨fuel - 1, by simp at hfuel; omega⟩
    obtain ⟨-, hnext, htail⟩ := hlist
    have hg := hvalid g List.mem_cons_self
    have hwalk := hwalks g List.mem_cons_self
    -- both kinds of regions are pushed by their page size
    have hpush : (if g.isHugePage = 0 then c.pushRegion regions g 0x1000 pages
        else if g.isHugePage = 1 then c.pushRegion regions g 0x200000 pages else some pages) =
        if pages.length + (c.regionPages g).length ≤ c.heap.capacity then
          some ((c.regionPages g).reverse ++ pages)
        else none := by
      rcases hg.kind with h0 | h1
      · have hne : ¬ g.isHugePage = 1 := by
          rw [h0]
          decide
        rw [if_pos h0, Call.regionPages, ProcMap.pageSize, if_neg hne]
        exact pushRegion_eq hunity rfl hg.le hwalk regions hcap
      · have hne : ¬ g.isHugePage = 0 := by
          rw [h1]
          decide
        rw [if_neg hne, if_pos h1, Call.regionPages, ProcMap.pageSize, if_pos h1]
        exact pushRegion_eq hunity rfl hg.le hwalk regions hcap
    rw [collect_next hnext, hpush, Call.pushed, List.length_append]
    by_cases hroom : pages.length + (c.regionPages g).length ≤ c.heap.capacity
    · have hcap' : ((c.regionPages g).reverse ++ pages).length ≤ c.heap.capacity := by
        rw [List.length_append, List.length_reverse]
        omega
      have hfuel' : gs.length < fuel := by
        rw [List.length_cons] at hfuel
        omega
      have hrest := ih htail (fun g₁ h₁ => hvalid g₁ (List.mem_cons_of_mem _ h₁))
        (fun g₁ h₁ => hwalks g₁ (List.mem_cons_of_mem _ h₁)) hfuel' (g' :: regions) hcap'
      rw [if_pos hroom, Option.bind_some, copyProcMap_eq hunity (GuestList.node htail),
        Option.bind_some, hrest, List.length_append, List.length_reverse, List.reverse_append,
        List.append_assoc, Nat.add_comm (c.regionPages g).length, Nat.add_assoc]
    · rw [if_neg hroom, if_neg (by omega)]
      rfl

/-- **What `get_proc_map_from_guest_app` returns**: the pages pushed, last first, and the node of zeros;
or the heap has no room for them. -/
theorem nodes_eq {regions : List ProcMap} (h : c.GuestRegions regions) {fuel : Nat}
    (hfuel : regions.length ≤ fuel) : c.nodes fuel =
      if (c.pushed regions).length ≤ c.heap.capacity then
        some ((c.pushed regions).reverse ++ [sentinel])
      else none := by
  obtain ⟨hlist, hvalid, hwalks⟩ := h
  cases regions with
  | nil => exact hlist.elim
  | cons g gs =>
    have hnil : ([] : List PageMap).length ≤ c.heap.capacity := Nat.zero_le _
    have hcollect := collect_eq hunity hlist hvalid hwalks hfuel [g] hnil
    rw [List.length_nil, Nat.zero_add, List.append_nil] at hcollect
    have hfound : c.getProcMapFromGuestApp fuel = c.collect fuel g [g] [] := by
      rw [Call.getProcMapFromGuestApp, copyProcMap_eq hunity (GuestList.node hlist)]
      rfl
    have hmap : c.nodes fuel =
        ((c.collect fuel g [g] []).map Prod.snd).map fun pages => pages ++ [sentinel] := by
      rw [Call.nodes, hfound, Option.map_map]
      rfl
    rw [hmap, hcollect]
    split <;> rfl

end

/-! ## Exactness -/

/-- The last region is taken in steps of its own page size. -/
def LastTaken (regions : List ProcMap) : Prop :=
  ∀ g, regions.getLast? = some g → g.isHugePage = 1 → g.startAddr = g.endAddr

theorem length_regionPages_of_huge {g : ProcMap} (hg : ValidRegion g) (hhuge : g.isHugePage = 1) :
    (c.pagesIn g pageSize4K).length = 512 * (c.regionPages g).length := by
  have h1 := hg.huge hhuge
  rw [Call.regionPages, length_pagesIn, length_pagesIn, ProcMap.pageSize, if_pos hhuge]
  simp only [pageSize4K, pageSize2M] at *
  omega

theorem pagesIn_of_empty {g : ProcMap} (h : g.startAddr = g.endAddr) (size : Nat) :
    c.pagesIn g size = [] := by
  rw [Call.pagesIn, h, Nat.sub_self, Nat.zero_div]
  rfl

/-- The pages pushed are those of the regions if the last one is taken in its own pages. -/
theorem pushed_of_lastTaken {regions : List ProcMap} (hvalid : ∀ g ∈ regions, ValidRegion g)
    (hlast : LastTaken regions) : c.pushed regions = regions.flatMap c.regionPages := by
  induction regions with
  | nil => rfl
  | cons g gs ih =>
    cases gs with
    | nil =>
      rw [Call.pushed, List.flatMap_cons, List.flatMap_nil, List.append_nil, Call.regionPages]
      rcases (hvalid g List.mem_cons_self).kind with h0 | h1
      · have hne : ¬ g.isHugePage = 1 := by
          rw [h0]
          decide
        rw [ProcMap.pageSize, if_neg hne]
      · have hempty := hlast g rfl h1
        rw [pagesIn_of_empty hempty, pagesIn_of_empty hempty]
    | cons g' gs =>
      have hrest := ih (fun g₁ h₁ => hvalid g₁ (List.mem_cons_of_mem _ h₁)) fun g₁ h₁ => hlast g₁ h₁
      rw [Call.pushed, hrest]
      rfl

/-- Otherwise there are more of them. -/
theorem lastTaken_of_length {regions : List ProcMap} (hvalid : ∀ g ∈ regions, ValidRegion g)
    (hlen : (c.pushed regions).length = (regions.flatMap c.regionPages).length) :
    LastTaken regions := by
  induction regions with
  | nil => exact fun g hg => by cases hg
  | cons g gs ih =>
    cases gs with
    | nil =>
      intro g₁ h₁ hhuge
      obtain rfl : g = g₁ := Option.some.inj h₁
      have hg := hvalid g List.mem_cons_self
      rw [Call.pushed, List.flatMap_cons, List.flatMap_nil, List.append_nil,
        length_regionPages_of_huge hg hhuge, Call.regionPages, length_pagesIn, ProcMap.pageSize,
        if_pos hhuge] at hlen
      apply BitVec.eq_of_toNat_eq
      have h1 := hg.huge hhuge
      have h2 := hg.le
      simp only [pageSize2M] at *
      omega
    | cons g' gs =>
      rw [Call.pushed, List.flatMap_cons, List.length_append, List.length_append,
        Nat.add_left_cancel_iff] at hlen
      exact fun g₁ h₁ => ih (fun g₂ h₂ => hvalid g₂ (List.mem_cons_of_mem _ h₂)) hlen g₁ h₁

/-- What an exact list shows of the pages pushed. -/
theorem Exact.length_eq (hunity : Unity c) {regions : List ProcMap} (h : c.GuestRegions regions)
    (hexact : c.Exact regions) : (c.pushed regions).length ≤ c.heap.capacity ∧
      (c.pushed regions).length = (regions.flatMap c.regionPages).length := by
  obtain ⟨pages, hret, hperm⟩ := hexact
  have hnodes := hret regions.length (Nat.le_refl _)
  rw [nodes_eq hunity h (Nat.le_refl _)] at hnodes
  split at hnodes
  · next hroom =>
    have hpages : (c.pushed regions).reverse = pages :=
      List.append_cancel_right (Option.some.inj hnodes)
    exact ⟨hroom, by rw [← hperm.length_eq, ← hpages, List.length_reverse]⟩
  · cases hnodes

/-- **Exactness of the page list**: for a guest's list of valid regions, `get_proc_map_from_guest_app`
returns exactly their pages if and only if the last region is not one of huge pages, unless it is empty,
and the heap has room for the pages. -/
theorem collect_exact_iff (c : Call r) (hunity : Unity c) (regions : List ProcMap)
    (h : c.GuestRegions regions) : c.Exact regions ↔
      LastTaken regions ∧ (regions.flatMap c.regionPages).length ≤ c.heap.capacity := by
  constructor
  · intro hexact
    obtain ⟨hroom, hlen⟩ := Exact.length_eq hunity h hexact
    exact ⟨lastTaken_of_length h.valid hlen, hlen ▸ hroom⟩
  · rintro ⟨hlast, hroom⟩
    have hpushed := pushed_of_lastTaken (c := c) h.valid hlast
    refine ⟨(regions.flatMap c.regionPages).reverse, fun fuel hfuel => ?_, List.reverse_perm _⟩
    rw [nodes_eq hunity h hfuel, hpushed, if_pos hroom]

/-- A call with other memory outside the runtime has the same translation. -/
theorem tlb_of_agree (hwf : WellFormed c) {m : Mem} (h : ∀ x, r.runtimePhysBase ≤ x →
    x < r.runtimePhysBase + r.runtimeSize → m x = c.mem x) (va : Nat) :
    { c with mem := m }.tlb va = c.tlb va := by
  obtain ⟨htree, hview⟩ := tree_of_agree (m := m) hwf fun x h1 h2 _ => h x h1 h2
  have hstart := (tree_of_agree (m := c.mem) hwf fun _ _ _ _ => rfl).1
  have hwalk : paeWalk m c.hcr3.toNat va = paeWalk c.mem c.hcr3.toNat va := by
    rw [paeWalk_of_tree hwf htree, paeWalk_of_tree hwf hstart, hview]
  exact congrArg (Option.map PaeGrant.addr) hwalk

end

/-! ## A list of three regions -/

/-- The regions of `tabledCall`'s list. -/
def tabledRegions : List ProcMap :=
  [⟨0xD0000000, 0xD0200000, 1, 0x2010⟩, ⟨0x40200000, 0x40202000, 0, 0x2020⟩,
    ⟨0x40203000, 0x40204000, 0, 0⟩]

theorem tabledCall_unity : Unity tabledCall := by
  intro p hp
  have hlt : p < 2 ^ 32 := Nat.lt_trans hp (by decide)
  exact (tabledCall_tlb hlt).trans (bootCall_unity 0 hp)

/-- The guest's directory has pages of 4MB in its entries 0, 256 and 832. -/
theorem tabledCall_walks {va : BitVec 32} (hva : va.toNat / 2 ^ 22 ∈ [0, 256, 832]) :
    tabledCall.Walks va := by
  have hcr3 : (npaeGetAddr 0x1000).toNat = 0x1000 := by decide
  have haddr : tabledCall.guestPdeAddr va = 0x1000 + 4 * (va.toNat / 2 ^ 22) :=
    congrArg (· + 4 * (va.toNat / 2 ^ 22)) hcr3
  have hlarge : ∀ k ∈ [0, 256, 832], (load32 tabledCall.mem (0x1000 + 4 * k)).getLsbD 7 = true := by
    decide +kernel
  refine ⟨?_, fun h7 => ?_⟩
  · rw [haddr]
    simp only [InGuest, relocated, pageSize2M]
    omega
  · rw [Call.guestPde, haddr, hlarge _ hva] at h7
    cases h7

theorem tabledCall_regions : tabledCall.GuestRegions tabledRegions := by
  have hnode : ∀ {gva : BitVec 32} {g : ProcMap}, gva.toNat / 2 ^ 22 = 0 →
      gva.toNat % pageSize4K + 16 ≤ pageSize4K → InGuest relocated (tabledCall.guestTranslate gva).toNat 16 →
      procMapAt tabledCall.mem (tabledCall.guestTranslate gva).toNat = g → tabledCall.NodeAt gva g :=
    fun hva hpage hguest hg => ⟨hpage, tabledCall_walks (hva ▸ List.mem_cons_self), hguest, hg⟩
  refine ⟨⟨?_, by decide, ?_, by decide, ?_, rfl⟩, fun g hg => ?_, fun g hg va h1 h2 => ?_⟩
  · exact hnode (by decide) (by decide) (by unfold InGuest; decide +kernel) (by decide +kernel)
  · exact hnode (by decide) (by decide) (by unfold InGuest; decide +kernel) (by decide +kernel)
  · exact hnode (by decide) (by decide) (by unfold InGuest; decide +kernel) (by decide +kernel)
  · have hvalid : ∀ g ∈ tabledRegions, g.startAddr.toNat ≤ g.endAddr.toNat ∧
        (g.startAddr.toNat % pageSize4K = 0 ∧ g.endAddr.toNat % pageSize4K = 0) ∧
        (g.isHugePage = 0 ∨ g.isHugePage = 1) ∧ (g.isHugePage = 1 →
          g.startAddr.toNat % pageSize2M = 0 ∧ g.endAddr.toNat % pageSize2M = 0) := by decide
    obtain ⟨hle, haligned, hkind, hhuge⟩ := hvalid g hg
    exact ⟨hle, haligned, hkind, hhuge⟩
  · have hrange : ∀ g ∈ tabledRegions, ∃ k ∈ [0, 256, 832],
        2 ^ 22 * k ≤ g.startAddr.toNat ∧ g.endAddr.toNat ≤ 2 ^ 22 * (k + 1) := by decide
    obtain ⟨k, hk, hstart, hend⟩ := hrange g hg
    have hva : va.toNat / 2 ^ 22 = k := by omega
    exact tabledCall_walks (hva ▸ hk)

/-- Two regions of 4KB pages after one of 2MB. -/
theorem tabledCall_exact : Unity tabledCall ∧ tabledCall.GuestRegions tabledRegions ∧
    tabledCall.Exact tabledRegions := by
  refine ⟨tabledCall_unity, tabledCall_regions,
    (collect_exact_iff _ tabledCall_unity _ tabledCall_regions).2 ⟨fun g hg hhuge => ?_, ?_⟩⟩
  · obtain rfl := Option.some.inj hg
    exact absurd hhuge (by decide)
  · have hcap : tabledCall.heap.capacity = 1000 := rfl
    simp only [hcap, tabledRegions, List.flatMap_cons, List.flatMap_nil, List.length_append, Call.regionPages,
      length_pagesIn]
    decide

/-! ## A list of one region -/

/-- The guest's list has one region, which starts at 0x40000000. -/
def regionCall (endAddr isHugePage : BitVec 32) : Call relocated :=
  { bootCall 0x800000 with
    mem := storeRegion (bootCall 0x800000).mem 0x2000 [⟨0x40000000, endAddr, isHugePage, 0⟩] }

section
variable (endAddr isHugePage : BitVec 32)

theorem regionCall_mem {x : Nat} (h : x < 0x2000 ∨ 0x2010 ≤ x) :
    (regionCall endAddr isHugePage).mem x = (bootCall 0x800000).mem x :=
  writeLE_apply_of_disjoint h

theorem regionCall_unity : Unity (regionCall endAddr isHugePage) := by
  intro p hp
  refine (tlb_of_agree (bootCall_wellFormed 0x800000) (fun x h1 _ => ?_) p).trans
    (bootCall_unity 0x800000 hp)
  have hlow : 0x2010 ≤ x := Nat.le_trans (by decide) h1
  exact regionCall_mem endAddr isHugePage (.inr hlow)

/-- The guest's directory maps the addresses of its entry `k` by a page of 4MB. -/
theorem regionCall_pde {va : BitVec 32} {k : Nat} {e : BitVec 32} (hva : va.toNat / 2 ^ 22 = k)
    (he : load32 (bootCall 0x800000).mem (0x1000 + 4 * k) = e) (h7 : e.getLsbD 7 = true) :
    (regionCall endAddr isHugePage).Walks va ∧
      (regionCall endAddr isHugePage).guestTranslate va = npaeGetAddr e + (va &&& 0x3FFFFF) := by
  have hva' := va.isLt
  have hcr3 : (npaeGetAddr 0x1000).toNat = 0x1000 := by decide
  have haddr : (regionCall endAddr isHugePage).guestPdeAddr va = 0x1000 + 4 * k := by
    have hdef : (regionCall endAddr isHugePage).guestPdeAddr va =
      (npaeGetAddr 0x1000).toNat + 4 * (va.toNat / 2 ^ 22) := rfl
    rw [hdef, hcr3, hva]
  have hpde : (regionCall endAddr isHugePage).guestPde va = e := by
    rw [Call.guestPde, haddr, ← he, load32, load32]
    congr 1
    exact readLE_congr fun x _ hx => regionCall_mem endAddr isHugePage (.inl (by omega))
  refine ⟨⟨?_, fun h => ?_⟩, ?_⟩
  · rw [haddr]
    simp only [InGuest, relocated, pageSize2M]
    omega
  · rw [hpde, h7] at h
    cases h
  · rw [Call.guestTranslate, hpde, if_pos h7]

omit endAddr isHugePage in
theorem procMapAt_storeRegion (m : Mem) (a : Nat) (g : ProcMap) (gs : List ProcMap) :
    procMapAt (storeRegion m a (g :: gs)) a = g := by
  obtain ⟨s, e, h, n⟩ := g
  have hs := s.isLt
  have he := e.isLt
  have hh := h.isLt
  have hn := n.isLt
  have hsum : s.toNat + 2 ^ 32 * e.toNat + 2 ^ 64 * h.toNat + 2 ^ 96 * n.toNat < 256 ^ 16 := by
    omega
  have hword : ∀ k j, k + (4 + j) = 16 → load32 (storeRegion m a (⟨s, e, h, n⟩ :: gs)) (a + k) =
      BitVec.ofNat 32 ((s.toNat + 2 ^ 32 * e.toNat + 2 ^ 64 * h.toNat + 2 ^ 96 * n.toNat) /
        2 ^ (8 * k)) := by
    intro k j hkj
    rw [← ofNat_readLE_div _ a k j, hkj, storeRegion, readLE_writeLE, Nat.mod_eq_of_lt hsum]
  have h0 := hword 0 12 rfl
  have h4 := hword 4 8 rfl
  have h8 := hword 8 4 rfl
  have h12 := hword 12 0 rfl
  rw [Nat.add_zero] at h0
  rw [procMapAt, h0, h4, h8, h12]
  simp only [ProcMap.mk.injEq]
  refine ⟨?_, ?_, ?_, ?_⟩ <;>
  · apply BitVec.eq_of_toNat_eq
    rw [BitVec.toNat_ofNat]
    omega

theorem regionCall_regions (hvalid : ValidRegion ⟨0x40000000, endAddr, isHugePage, 0⟩)
    (hend : endAddr.toNat ≤ 0x40400000) :
    (regionCall endAddr isHugePage).GuestRegions [⟨0x40000000, endAddr, isHugePage, 0⟩] := by
  refine ⟨⟨?_, rfl⟩, by simpa using hvalid, ?_⟩
  · have hdir : (0x2000 : BitVec 32).toNat / 2 ^ 22 = 0 := by decide
    obtain ⟨hwalks, htr⟩ := regionCall_pde endAddr isHugePage (e := 0x83) hdir
      (by decide +kernel) (by decide)
    have hgpa : (npaeGetAddr 0x83 + ((0x2000 : BitVec 32) &&& 0x3FFFFF)).toNat = 0x2000 := by decide
    have htr' : ((regionCall endAddr isHugePage).guestTranslate 0x2000).toNat = 0x2000 := by
      rw [htr, hgpa]
    have hpage : (0x2000 : BitVec 32).toNat % pageSize4K + 16 ≤ pageSize4K := by decide
    refine ⟨hpage, hwalks, ?_, ?_⟩
    · show InGuest relocated ((regionCall endAddr isHugePage).guestTranslate 0x2000).toNat 16
      rw [htr']
      simp only [InGuest, relocated, pageSize2M]
      omega
    · show procMapAt _ ((regionCall endAddr isHugePage).guestTranslate 0x2000).toNat = _
      rw [htr']
      exact procMapAt_storeRegion _ _ _ []
  · intro g hg va h1 h2
    obtain rfl := List.mem_singleton.1 hg
    have hstart : (0x40000000 : BitVec 32).toNat = 0x40000000 := by decide
    simp only [hstart] at h1 h2
    exact (regionCall_pde endAddr isHugePage (k := 256) (e := 0x800083) (by omega)
      (by decide +kernel) (by decide)).1

end

/-- A region of one page of 2MB gives 512 pages. -/
theorem hugeRegion_not_exact :
    let c := regionCall 0x40200000 1
    let regions : List ProcMap := [⟨0x40000000, 0x40200000, 1, 0⟩]
    Unity c ∧ c.GuestRegions regions ∧ ¬ c.Exact regions := by
  have hregions := regionCall_regions 0x40200000 1
    ⟨by decide, by decide, .inr rfl, fun _ => by decide⟩ (by decide)
  have hunity := regionCall_unity 0x40200000 1
  refine ⟨hunity, hregions, fun hexact => ?_⟩
  obtain ⟨-, hlen⟩ := Exact.length_eq hunity hregions hexact
  exact absurd (lastTaken_of_length hregions.valid hlen _ rfl rfl) (by decide)

end Xmhf.Hypapp
