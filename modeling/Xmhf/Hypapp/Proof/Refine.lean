import Xmhf.Platform.Entry
import Xmhf.Hypapp.Space

/-!
# The page table in memory

`WellFormed` is what the hypercall takes for granted of the host's page table: its tables are pages of the
runtime outside the heap, each linked once, and the runtime's own range is mapped to its memory.
`Call.view` reads the address space the table means; the processor's walk is a lookup in it
(`paeWalk_eq_lookup`).

`updateNode_refines`: a round of `update_hypervisor_pt` keeps the tables a tree (`Tree`) and maps one page
in the address space, or halts.
-/

namespace Xmhf.Hypapp

open Xmhf.Memory Xmhf.Word Xmhf.Paging

section
variable {r : Rpb} (c : Call r)

/-! ## Reading the table -/

/-- The physical address of the page directory pointer table. -/
def Call.root : Nat := c.hcr3.toNat / 32 * 32

/-- Its entries. -/
def Call.pdpte (i : Nat) : BitVec 64 := load64 c.mem (c.root + 8 * i)

/-- The page directories. -/
def Call.pd (i : Nat) : Nat := entryAddr (c.pdpte i)

/-- Where the directory entry of a region is. -/
def Call.dirAddr (g : Fin 2048) : Nat := c.pd (g.val / 512) + 8 * (g.val % 512)

/-- The directory entry of a region. -/
def Call.pde (m : Mem) (g : Fin 2048) : BitVec 64 := load64 m (c.dirAddr g)

/-- The directory entry links a page table. -/
def Call.Link (m : Mem) (g : Fin 2048) : Prop :=
  (c.pde m g).getLsbD 0 = true ∧ (c.pde m g).getLsbD 7 = false

/-- The region with the directory entry `e`. -/
def kindOf (m : Mem) (e : BitVec 64) : Kind :=
  if e.getLsbD 0 then
    if e.getLsbD 7 then .big e
    else .table (e.getLsbD 1) (e.getLsbD 2) (e.getLsbD 63) fun k => load64 m (entryAddr e + 8 * k.val)
  else .absent

/-- The address space. -/
def Call.view (m : Mem) : Space := fun g => kindOf m (c.pde m g)

/-- The processor's walk is a lookup in the address space. -/
theorem paeWalk_eq_lookup {m : Mem} (hroot : ∀ i < 4, load64 m (c.root + 8 * i) = c.pdpte i)
    (hpres : ∀ i < 4, (c.pdpte i).getLsbD 0 = true) (va : Nat) :
    paeWalk m c.hcr3.toNat va = (c.view m).lookup va := by
  have hi : va / 2 ^ 30 % 4 < 4 := Nat.mod_lt _ (by decide)
  have hreg : (regionOf va).val / 512 = va / 2 ^ 30 % 4 := by
    simp only [regionOf]
    omega
  have hidx : (regionOf va).val % 512 = va / 2 ^ 21 % 512 := by
    simp only [regionOf]
    omega
  have hpde : load64 m (entryAddr (c.pdpte (va / 2 ^ 30 % 4)) + 8 * (va / 2 ^ 21 % 512)) =
      c.pde m (regionOf va) := by
    rw [Call.pde, Call.dirAddr, hreg, hidx, Call.pd]
  have hr := hroot _ hi
  rw [Call.root] at hr
  simp only [paeWalk, hr, hpres _ hi, ↓reduceIte, hpde, Space.lookup, Call.view, kindOf]
  split
  · split
    · rfl
    · rfl
  · rfl

/-! ## Well-formed tables -/

/-- Where the heap's pool is in physical memory. -/
def Call.poolAddr : Nat := hva2spa1 r c.heap.pool

/-- A page of the runtime's physical memory, outside the heap and the page directory pointer table. -/
structure Call.Frame (a : Nat) : Prop where
  ge : r.runtimePhysBase ≤ a
  le : a + pageSize4K ≤ r.runtimePhysBase + r.runtimeSize
  pool : a + pageSize4K ≤ c.poolAddr ∨ c.poolAddr + heapmemPoolsize ≤ a
  root : a + pageSize4K ≤ c.root ∨ c.root + 32 ≤ a

/-- **A well-formed host page table.** -/
structure WellFormed : Prop where
  root_ge : r.runtimePhysBase ≤ c.root
  root_le : c.root + 32 ≤ r.runtimePhysBase + r.runtimeSize
  root_pool : c.root + 32 ≤ c.poolAddr ∨ c.poolAddr + heapmemPoolsize ≤ c.root
  pdpte : ∀ i < 4, (c.pdpte i).getLsbD 0 = true
  pd : ∀ i < 4, c.Frame (c.pd i)
  pd_inj : ∀ i < 4, ∀ j < 4, c.pd i = c.pd j → i = j
  /-- An entry that is not present is empty. -/
  empty : ∀ g, (c.pde c.mem g).getLsbD 0 = false → c.pde c.mem g = 0
  pt : ∀ g, c.Link c.mem g → c.Frame (entryAddr (c.pde c.mem g))
  pt_pd : ∀ g, c.Link c.mem g → ∀ i < 4, entryAddr (c.pde c.mem g) ≠ c.pd i
  pt_inj : ∀ g g', c.Link c.mem g → c.Link c.mem g' →
    entryAddr (c.pde c.mem g) = entryAddr (c.pde c.mem g') → g = g'
  /-- The runtime's own range is mapped to its memory. -/
  own : ∀ va, Own r va → c.tlb va = some (va - r.runtimeVirtBase + r.runtimePhysBase)
  /-- The page at address 0 is not one of the runtime's. -/
  null : ∀ a, c.tlb 0 = some a →
    a + 16 ≤ r.runtimePhysBase ∨ r.runtimePhysBase + r.runtimeSize ≤ a
  /-- Nor is the page at the address that `spa2hva1` gives to physical page 0; and the page list's record
  is not in it. -/
  stray : ∀ k < 512, ∀ x, c.tlb (spa2hva1 r 0 + 8 * k) = some x →
    (x + 8 ≤ r.runtimePhysBase ∨ r.runtimePhysBase + r.runtimeSize ≤ x) ∧
      ∀ a, c.tlb 0 = some a → x + 8 ≤ a ∨ a + 16 ≤ x

/-- Whether the store for a page of 4KB in a region without a mapping faults. -/
def Call.faults (q : PageMap) : Bool := (c.tlb (spa2hva1 r 0 + 8 * q.page.val)).isNone

/-- The `k`-th page of the page list, in physical memory. -/
def Call.newPage (k : Nat) : Nat := hva2spa1 r (c.heap.pageBase + pageSize4K * k)

/-- A page table: one of the well-formed table's, or one of the first `used` of the page list. -/
def Call.TablePage (used a : Nat) : Prop :=
  (c.Frame a ∧ ∀ i < 4, a ≠ c.pd i) ∨ ∃ k < used, a = c.newPage k

/-- The tables in `m` are a tree: each page table is linked once. -/
structure Tree (m : Mem) (used : Nat) : Prop where
  used_le : used ≤ c.heap.numAllocd
  root : ∀ i < 4, load64 m (c.root + 8 * i) = c.pdpte i
  empty : ∀ g, (c.pde m g).getLsbD 0 = false → c.pde m g = 0
  pt : ∀ g, c.Link m g → c.TablePage used (entryAddr (c.pde m g))
  pt_inj : ∀ g g', c.Link m g → c.Link m g' →
    entryAddr (c.pde m g) = entryAddr (c.pde m g') → g = g'

/-! ## Apart words -/

theorem entryAddr_mod (e : BitVec 64) : entryAddr e % 2 ^ 12 = 0 := Nat.mul_mod_left ..

variable {c}

theorem Call.poolAddr_eq :
    c.poolAddr = c.heap.pool - r.runtimeVirtBase + r.runtimePhysBase := by
  have h1 := c.heap.pool_ge
  have h2 := c.heap.pool_le
  simp only [heapmemPoolsize] at h2
  exact hva2spa1_of_mem h1 (by omega)

/-- The pages of the page list are whole pages of the pool. -/
structure NewPage (c : Call r) (k : Nat) : Prop where
  own : ∀ o < pageSize4K, Own r (c.heap.pageBase + pageSize4K * k + o)
  eq : c.newPage k = c.heap.pageBase + pageSize4K * k - r.runtimeVirtBase + r.runtimePhysBase
  aligned : c.newPage k % 2 ^ 12 = 0
  lt : c.newPage k < 2 ^ 32
  ge : c.poolAddr ≤ c.newPage k
  le : c.newPage k + pageSize4K ≤ c.poolAddr + heapmemPoolsize

theorem newPage_spec {k : Nat} (hk : k < c.heap.numAllocd) : NewPage c k := by
  have h1 := c.heap.pool_ge
  have h2 := c.heap.pool_le
  have h3 := c.heap.buf_ge
  have h4 := c.heap.buf_le
  have h5 := r.offset
  have h6 := r.phys_lt
  have hbase : c.heap.buf ≤ c.heap.pageBase ∧ c.heap.pageBase % 2 ^ 12 = 0 ∧
      c.heap.pageBase + pageSize4K * (k + 1) ≤ c.heap.buf + 256 * pageSize4K := by
    unfold Heap.numAllocd at hk
    unfold Heap.pageBase pageSize4K at *
    split at hk <;> omega
  obtain ⟨b1, b2, b3⟩ := hbase
  have hpool := Call.poolAddr_eq (c := c)
  have heq : c.newPage k =
      c.heap.pageBase + pageSize4K * k - r.runtimeVirtBase + r.runtimePhysBase := by
    simp only [pageSize4K] at b3 h4 ⊢
    exact hva2spa1_of_mem (by omega) (by simp only [pageSize4K]; omega)
  have heq' := heq
  have hsize : heapmemPoolsize = 4194304 := rfl
  rw [hsize] at h2 h4
  simp only [pageSize4K] at h4 h5 b3 heq'
  obtain ⟨base, hbase⟩ : ∃ b, c.heap.pageBase = b := ⟨_, rfl⟩
  rw [hbase] at b1 b2 b3 heq'
  constructor
  · intro o ho
    rw [hbase]
    simp only [pageSize4K, Own] at ho ⊢
    omega
  · exact heq
  · omega
  · omega
  · omega
  · have hend : base + 2 ^ 12 * k + 2 ^ 12 ≤ c.heap.pool + 4194304 := by
      have h := Nat.le_trans b3 h4
      rwa [Nat.mul_add, Nat.mul_one, ← Nat.add_assoc] at h
    rw [hsize, pageSize4K, heq', hpool]
    clear b3 h4
    omega

/-- A page not yet used is none of the page tables. -/
theorem newPage_ne {used k a : Nat} (hused : used ≤ k) (hk : k < c.heap.numAllocd)
    (h : c.TablePage used a) : a ≠ c.newPage k := by
  intro heq
  have hn := newPage_spec hk
  rcases h with ⟨hf, -⟩ | ⟨j, hj, rfl⟩
  · have h1 := hf.pool
    have h2 := hn.ge
    have h3 := hn.le
    simp only [pageSize4K, heapmemPoolsize] at *
    omega
  · have hn' := newPage_spec (c := c) (k := j) (by omega)
    have h1 := hn.eq
    have h2 := hn'.eq
    have h3 := (hn.own 0 (by decide)).1
    have h4 := (hn'.own 0 (by decide)).1
    simp only [pageSize4K] at *
    omega

section
variable (hwf : WellFormed c)
include hwf

theorem dirAddr_mem (g : Fin 2048) : r.runtimePhysBase ≤ c.dirAddr g ∧
    c.dirAddr g + 8 ≤ r.runtimePhysBase + r.runtimeSize := by
  obtain ⟨h1, h2, -, -⟩ := hwf.pd (g.val / 512) (by omega)
  simp only [Call.dirAddr, pageSize4K] at *
  omega

theorem dirAddr_root (g : Fin 2048) {i : Nat} (hi : i < 4) :
    c.root + 8 * i + 8 ≤ c.dirAddr g ∨ c.dirAddr g + 8 ≤ c.root + 8 * i := by
  have h := (hwf.pd (g.val / 512) (by omega)).root
  simp only [Call.dirAddr, pageSize4K] at *
  omega

theorem dirAddr_dirAddr {g g' : Fin 2048} (h : g ≠ g') :
    c.dirAddr g + 8 ≤ c.dirAddr g' ∨ c.dirAddr g' + 8 ≤ c.dirAddr g := by
  have h1 := entryAddr_mod (c.pdpte (g.val / 512))
  have h2 := entryAddr_mod (c.pdpte (g'.val / 512))
  have hne : g.val ≠ g'.val := fun heq => h (Fin.ext heq)
  have h3 := hwf.pd_inj (g.val / 512) (by omega) (g'.val / 512) (by omega)
  simp only [Call.dirAddr, Call.pd] at *
  omega

/-- A page table lies in the runtime's memory, apart from the tables above it. -/
theorem tablePage_spec {used a : Nat} (hu : used ≤ c.heap.numAllocd) (h : c.TablePage used a) :
    r.runtimePhysBase ≤ a ∧ a + pageSize4K ≤ r.runtimePhysBase + r.runtimeSize ∧
      (a + pageSize4K ≤ c.root ∨ c.root + 32 ≤ a) ∧ ∀ i < 4, a ≠ c.pd i := by
  rcases h with ⟨hf, hpd⟩ | ⟨k, hk, rfl⟩
  · exact ⟨hf.ge, hf.le, hf.root, hpd⟩
  · have hn := newPage_spec (c := c) (k := k) (by omega)
    have h1 := hn.ge
    have h2 := hn.le
    have h3 := hwf.root_pool
    have h4 := Call.poolAddr_eq (c := c)
    have h5 := c.heap.pool_ge
    have h6 := c.heap.pool_le
    simp only [pageSize4K, heapmemPoolsize] at *
    refine ⟨by omega, by omega, by omega, fun i hi heq => ?_⟩
    have h7 := (hwf.pd i hi).pool
    simp only [pageSize4K, heapmemPoolsize] at h7
    omega

theorem tablePage_dirAddr {used a : Nat} (hu : used ≤ c.heap.numAllocd) (h : c.TablePage used a)
    (ha : a % 2 ^ 12 = 0) (g : Fin 2048) :
    a + pageSize4K ≤ c.dirAddr g ∨ c.dirAddr g + 8 ≤ a := by
  have h1 := entryAddr_mod (c.pdpte (g.val / 512))
  have h2 := (tablePage_spec hwf hu h).2.2.2 (g.val / 512) (by omega)
  simp only [Call.dirAddr, Call.pd, pageSize4K] at *
  omega

theorem tablePage_word_dirAddr {used a k : Nat} (hu : used ≤ c.heap.numAllocd)
    (h : c.TablePage used a) (ha : a % 2 ^ 12 = 0) (hk : k < 512) (g : Fin 2048) :
    a + 8 * k + 8 ≤ c.dirAddr g ∨ c.dirAddr g + 8 ≤ a + 8 * k := by
  have h1 := tablePage_dirAddr hwf hu h ha g
  simp only [pageSize4K] at h1
  omega

theorem tlb_spa2hva1 {a o : Nat} (h1 : r.runtimePhysBase ≤ a)
    (h2 : a + o < r.runtimePhysBase + r.runtimeSize) : c.tlb (spa2hva1 r a + o) = some (a + o) := by
  rw [spa2hva1_of_mem h1 (by omega), hwf.own _ ⟨by omega, by omega⟩]
  congr 1
  omega

end

/-! ## What a change of one region leaves -/

theorem kindOf_congr {m m' : Mem} {e : BitVec 64}
    (h : e.getLsbD 0 = true → e.getLsbD 7 = false → ∀ k < 512,
      load64 m' (entryAddr e + 8 * k) = load64 m (entryAddr e + 8 * k)) :
    kindOf m' e = kindOf m e := by
  unfold kindOf
  split
  · next h0 =>
    split
    · rfl
    · next h7 =>
      rw [Bool.not_eq_true] at h7
      have hpte : (fun k : Fin 512 => load64 m' (entryAddr e + 8 * k.val)) =
          fun k : Fin 512 => load64 m (entryAddr e + 8 * k.val) :=
        funext fun k => h h0 h7 k.val k.isLt
      rw [hpte]
  · rfl

theorem Tree.congr {m m' : Mem} {used : Nat} (ht : Tree c m used)
    (hroot : ∀ i < 4, load64 m' (c.root + 8 * i) = load64 m (c.root + 8 * i))
    (hdir : ∀ g, c.pde m' g = c.pde m g)
    (hpt : ∀ g, c.Link m g → ∀ k < 512,
      load64 m' (entryAddr (c.pde m g) + 8 * k) = load64 m (entryAddr (c.pde m g) + 8 * k)) :
    Tree c m' used ∧ c.view m' = c.view m := by
  have hlink : ∀ g, c.Link m' g ↔ c.Link m g := fun g => by rw [Call.Link, Call.Link, hdir]
  refine ⟨⟨ht.used_le, fun i hi => (hroot i hi).trans (ht.root i hi), fun g => ?_, fun g hl => ?_,
    fun g g' hl hl' => ?_⟩, ?_⟩
  · rw [hdir]
    exact ht.empty g
  · rw [hdir]
    exact ht.pt g ((hlink g).1 hl)
  · rw [hdir, hdir]
    exact ht.pt_inj g g' ((hlink g).1 hl) ((hlink g').1 hl')
  · funext g
    rw [Call.view, Call.view, hdir]
    exact kindOf_congr fun h0 h7 => hpt g ⟨h0, h7⟩

/-- A new region leaves a tree and the other regions, if its table is new and the words of the others
are as they were. -/
theorem Tree.change {m : Mem} {used : Nat} (ht : Tree c m used) (m' : Mem) (used' : Nat)
    (g : Fin 2048) (hused : used ≤ used') (hused' : used' ≤ c.heap.numAllocd)
    (hroot : ∀ i < 4, load64 m' (c.root + 8 * i) = load64 m (c.root + 8 * i))
    (hdir : ∀ g', g' ≠ g → c.pde m' g' = c.pde m g')
    (hpt : ∀ g', g' ≠ g → c.Link m g' → ∀ k < 512,
      load64 m' (entryAddr (c.pde m g') + 8 * k) = load64 m (entryAddr (c.pde m g') + 8 * k))
    (hpres : (c.pde m' g).getLsbD 0 = true)
    (hlink : c.Link m' g → c.TablePage used' (entryAddr (c.pde m' g)) ∧
      ∀ g', g' ≠ g → c.Link m g' → entryAddr (c.pde m g') ≠ entryAddr (c.pde m' g)) :
    Tree c m' used' ∧ ∀ g', g' ≠ g → c.view m' g' = c.view m g' := by
  have hlink' : ∀ g', g' ≠ g → (c.Link m' g' ↔ c.Link m g') := by
    intro g' hg
    rw [Call.Link, Call.Link, hdir g' hg]
  refine ⟨⟨hused', fun i hi => (hroot i hi).trans (ht.root i hi), fun g' h0 => ?_, fun g' hl => ?_,
    fun g₁ g₂ hl₁ hl₂ heq => ?_⟩, fun g' hg => ?_⟩
  · by_cases hg : g' = g
    · rw [hg, hpres] at h0
      cases h0
    · rw [hdir g' hg] at h0 ⊢
      exact ht.empty g' h0
  · by_cases hg : g' = g
    · subst hg
      exact (hlink hl).1
    · rw [hdir g' hg]
      rcases ht.pt g' ((hlink' g' hg).1 hl) with hf | ⟨k, hk, hp⟩
      · exact .inl hf
      · exact .inr ⟨k, by omega, hp⟩
  · by_cases h₁ : g₁ = g
    · by_cases h₂ : g₂ = g
      · rw [h₁, h₂]
      · subst h₁
        rw [hdir g₂ h₂] at heq
        exact absurd heq.symm ((hlink hl₁).2 g₂ h₂ ((hlink' g₂ h₂).1 hl₂))
    · by_cases h₂ : g₂ = g
      · subst h₂
        rw [hdir g₁ h₁] at heq
        exact absurd heq ((hlink hl₂).2 g₁ h₁ ((hlink' g₁ h₁).1 hl₁))
      · rw [hdir g₁ h₁, hdir g₂ h₂] at heq
        exact ht.pt_inj g₁ g₂ ((hlink' g₁ h₁).1 hl₁) ((hlink' g₂ h₂).1 hl₂) heq
  · rw [Call.view, Call.view, hdir g' hg]
    exact kindOf_congr fun h0 h7 => hpt g' hg ⟨h0, h7⟩

/-- The space with one region put, from the regions. -/
theorem view_eq_map {m m' : Mem} {q : PageMap} (h : ∀ g, g ≠ q.region → c.view m' g = c.view m g)
    (hq : c.view m' q.region = q.put (c.view m q.region)) : c.view m' = (c.view m).map q := by
  funext g
  rw [Space.map, Function.update_apply]
  split
  · next hg => rw [hg, hq]
  · next hg => exact h g hg

/-! ## The three changes -/

/-- Memory after a region is taken apart: the page list's counter, the new page with one entry, and the
directory entry. -/
def splitMem (c : Call r) (m : Mem) (a used : Nat) (q : PageMap) : Mem :=
  store64
    (store64 (zeroPage (writeLE m (a + 12) 4 (used + 1)) (c.newPage used))
      (c.newPage used + 8 * q.page.val) (q.entry userFlags))
    (c.dirAddr q.region) (BitVec.ofNat 64 (c.newPage used) ||| userFlags)

/-- The new page holds the one entry. -/
theorem load_splitMem_newPage {m : Mem} {a used k : Nat} {q : PageMap} (hk : k < 512)
    (hdir : c.newPage used + 8 * k + 8 ≤ c.dirAddr q.region ∨
      c.dirAddr q.region + 8 ≤ c.newPage used + 8 * k) :
    load64 (splitMem c m a used q) (c.newPage used + 8 * k) =
      if k = q.page.val then q.entry userFlags else 0 := by
  rw [splitMem, load64_store64_of_disjoint hdir]
  split
  · next h => rw [h, load64_store64]
  · next h =>
    have hzero : load64 (zeroPage (writeLE m (a + 12) 4 (used + 1)) (c.newPage used))
        (c.newPage used + 8 * k) = load64 (fun _ => 0) (c.newPage used + 8 * k) := by
      refine load64_congr fun y hy1 hy2 => ?_
      rw [zeroPage, if_pos]
      simp only [pageSize4K]
      omega
    rw [load64_store64_of_disjoint (by omega), hzero]
    simp [load64, readLE]

section
variable (hwf : WellFormed c)
include hwf

/-- The words of a page table are apart from those of the tables above, and from those of another. -/
theorem store_pt_eq {m : Mem} {used k : Nat} {g : Fin 2048} {e : BitVec 64} (ht : Tree c m used)
    (hlink : c.Link m g) (hk : k < 512) :
    (∀ i < 4, load64 (store64 m (entryAddr (c.pde m g) + 8 * k) e) (c.root + 8 * i) =
      load64 m (c.root + 8 * i)) ∧
    (∀ g', c.pde (store64 m (entryAddr (c.pde m g) + 8 * k) e) g' = c.pde m g') ∧
    (∀ g', g' ≠ g → c.Link m g' → ∀ k' < 512,
      load64 (store64 m (entryAddr (c.pde m g) + 8 * k) e) (entryAddr (c.pde m g') + 8 * k') =
        load64 m (entryAddr (c.pde m g') + 8 * k')) := by
  have hpage := ht.pt g hlink
  have hal := entryAddr_mod (c.pde m g)
  obtain ⟨-, -, hroot, -⟩ := tablePage_spec hwf ht.used_le hpage
  simp only [pageSize4K] at hroot
  refine ⟨fun i hi => ?_, fun g' => ?_, fun g' hg hl k' hk' => ?_⟩
  · exact load64_store64_of_disjoint (by omega)
  · exact load64_store64_of_disjoint (tablePage_word_dirAddr hwf ht.used_le hpage hal hk g').symm
  · have hne : entryAddr (c.pde m g') ≠ entryAddr (c.pde m g) :=
      fun heq => hg (ht.pt_inj g' g hl hlink heq)
    have hal' := entryAddr_mod (c.pde m g')
    exact load64_store64_of_disjoint (by omega)

/-- A page of 4KB in a region with a table. -/
theorem store_small_refines {m : Mem} {used : Nat} {q : PageMap} (ht : Tree c m used)
    (hsmall : q.isHugePage = 0) (hlink : c.Link m q.region) :
    Tree c (store64 m (entryAddr (c.pde m q.region) + 8 * q.page.val) (q.entry userFlags)) used ∧
    c.view (store64 m (entryAddr (c.pde m q.region) + 8 * q.page.val) (q.entry userFlags)) =
      (c.view m).map q := by
  obtain ⟨hroot, hdir, hpt⟩ := store_pt_eq (e := q.entry userFlags) hwf ht hlink q.page.isLt
  obtain ⟨htree, hview⟩ := ht.change _ used q.region le_rfl ht.used_le hroot (fun g' _ => hdir g') hpt
    (by rw [hdir]; exact hlink.1)
    (fun _ => by
      rw [hdir]
      exact ⟨ht.pt _ hlink, fun g' hg hl heq => hg (ht.pt_inj g' _ hl hlink heq)⟩)
  refine ⟨htree, view_eq_map hview ?_⟩
  rw [Call.view, hdir, Call.view, PageMap.put, if_pos hsmall]
  have hpte : (fun k : Fin 512 => load64 (store64 m (entryAddr (c.pde m q.region) + 8 * q.page.val)
      (q.entry userFlags)) (entryAddr (c.pde m q.region) + 8 * k.val)) =
      Function.update (fun k : Fin 512 => load64 m (entryAddr (c.pde m q.region) + 8 * k.val)) q.page
        (q.entry userFlags) := by
    funext k
    rw [Function.update_apply]
    split
    · next hk => rw [hk, load64_store64]
    · next hk =>
      have hne : k.val ≠ q.page.val := fun heq => hk (Fin.ext heq)
      exact load64_store64_of_disjoint (by omega)
  simp only [kindOf, hlink.1, hlink.2, Bool.false_eq_true, ↓reduceIte, Kind.putSmall, hpte]

/-- A page of 2MB in a region mapped by one entry. -/
theorem store_big_refines {m : Mem} {used : Nat} {q : PageMap} (ht : Tree c m used)
    (hhuge : q.isHugePage = 1) (hbig : (c.view m q.region).isBig = true) :
    Tree c (store64 m (c.dirAddr q.region) (q.entry userFlagsBig)) used ∧
    c.view (store64 m (c.dirAddr q.region) (q.entry userFlagsBig)) = (c.view m).map q := by
  have h0 : (q.entry userFlagsBig).getLsbD 0 = true := by
    rw [PageMap.entry, BitVec.getLsbD_or]
    simp [userFlagsBig, pagePresent, pageRW, pagePSE, pageUser]
  have h7 : (q.entry userFlagsBig).getLsbD 7 = true := by
    rw [PageMap.entry, BitVec.getLsbD_or]
    simp [userFlagsBig, pagePresent, pageRW, pagePSE, pageUser]
  have hpde : c.pde (store64 m (c.dirAddr q.region) (q.entry userFlagsBig)) q.region =
      q.entry userFlagsBig := load64_store64 ..
  obtain ⟨htree, hview⟩ := ht.change
    (store64 m (c.dirAddr q.region) (q.entry userFlagsBig)) used q.region le_rfl ht.used_le
    (fun i hi => load64_store64_of_disjoint (dirAddr_root hwf q.region hi))
    (fun g' hg => load64_store64_of_disjoint (dirAddr_dirAddr hwf hg))
    (fun g' _ hl k hk => load64_store64_of_disjoint
      (tablePage_word_dirAddr hwf ht.used_le (ht.pt g' hl) (entryAddr_mod _) hk q.region))
    (by rw [hpde, h0])
    (fun hl => by
      have h := hl.2
      rw [hpde, h7] at h
      cases h)
  refine ⟨htree, view_eq_map hview ?_⟩
  have hsmall := PageMap.ne_small hhuge
  obtain ⟨e, he⟩ := Kind.eq_big_of_isBig hbig
  rw [he, PageMap.put, if_neg hsmall, if_pos hhuge, Kind.putBig, Call.view, hpde]
  simp only [kindOf, h0, h7, ↓reduceIte]

/-- A word of the runtime outside the new page and the directory entry is left alone. -/
theorem load_splitMem {m : Mem} {a used x : Nat} {q : PageMap} (ha : c.tlb 0 = some a)
    (h1 : r.runtimePhysBase ≤ x) (h2 : x + 8 ≤ r.runtimePhysBase + r.runtimeSize)
    (hpage : x + 8 ≤ c.newPage used ∨ c.newPage used + pageSize4K ≤ x)
    (hdir : x + 8 ≤ c.dirAddr q.region ∨ c.dirAddr q.region + 8 ≤ x) :
    load64 (splitMem c m a used q) x = load64 m x := by
  have hnull := hwf.null a ha
  have hk := q.page.isLt
  simp only [pageSize4K] at hpage
  rw [splitMem, load64_store64_of_disjoint hdir, load64_store64_of_disjoint (by omega)]
  refine load64_congr fun y hy1 hy2 => ?_
  have hout : ¬ (c.newPage used ≤ y ∧ y < c.newPage used + pageSize4K) := by
    simp only [pageSize4K]
    omega
  rw [zeroPage, if_neg hout, writeLE_apply_of_disjoint (by omega)]

/-- A page of 4KB in a region mapped by one entry. -/
theorem splitMem_refines {m : Mem} {a used : Nat} {q : PageMap} (ht : Tree c m used)
    (ha : c.tlb 0 = some a) (hused : used < c.heap.numAllocd) (hsmall : q.isHugePage = 0)
    (hbig : (c.view m q.region).isBig = true) :
    Tree c (splitMem c m a used q) (used + 1) ∧
    c.view (splitMem c m a used q) = (c.view m).map q := by
  have hn := newPage_spec hused
  have hused' : used + 1 ≤ c.heap.numAllocd := hused
  have hnew : c.TablePage (used + 1) (c.newPage used) := .inr ⟨used, by omega, rfl⟩
  obtain ⟨-, -, hnroot, -⟩ := tablePage_spec hwf hused' hnew
  have hndir := tablePage_dirAddr hwf hused' hnew hn.aligned
  have hE : IsEntry (BitVec.ofNat 64 (c.newPage used) ||| userFlags) (c.newPage used) 7 :=
    IsEntry.of_or (c := 7) hn.aligned hn.lt (by decide)
  have hpde : c.pde (splitMem c m a used q) q.region =
      BitVec.ofNat 64 (c.newPage used) ||| userFlags := load64_store64 ..
  obtain ⟨htree, hview⟩ := ht.change (splitMem c m a used q) (used + 1) q.region
    (by omega) hused'
    (fun i hi => by
      have h1 := hwf.root_ge
      have h2 := hwf.root_le
      simp only [pageSize4K] at hnroot
      refine load_splitMem hwf ha (by omega) (by omega) ?_ (dirAddr_root hwf q.region hi)
      simp only [pageSize4K]
      omega)
    (fun g' hg => by
      obtain ⟨h1, h2⟩ := dirAddr_mem hwf g'
      exact load_splitMem hwf ha h1 h2 (hndir g').symm (dirAddr_dirAddr hwf hg))
    (fun g' hg hl k hk => by
      have hpage := ht.pt g' hl
      obtain ⟨h1, h2, -, -⟩ := tablePage_spec hwf ht.used_le hpage
      have hne := newPage_ne le_rfl hused hpage
      have hal := entryAddr_mod (c.pde m g')
      have hal' := hn.aligned
      refine load_splitMem hwf ha (by omega) ?_ ?_
        (tablePage_word_dirAddr hwf ht.used_le hpage hal hk q.region)
      · simp only [pageSize4K] at h2
        omega
      · simp only [pageSize4K]
        omega)
    (by rw [hpde]; exact hE.getLsbD (by decide))
    (fun _ => by
      rw [hpde, hE.entryAddr]
      exact ⟨hnew, fun g' _ hl => newPage_ne le_rfl hused (ht.pt g' hl)⟩)
  refine ⟨htree, view_eq_map hview ?_⟩
  obtain ⟨e, he⟩ := Kind.eq_big_of_isBig hbig
  rw [he, PageMap.put, if_pos hsmall, Kind.putSmall, Call.view, hpde]
  have h0 : (BitVec.ofNat 64 (c.newPage used) ||| userFlags).getLsbD 0 = true :=
    hE.getLsbD (by decide)
  have h1 : (BitVec.ofNat 64 (c.newPage used) ||| userFlags).getLsbD 1 = true :=
    hE.getLsbD (by decide)
  have h2 : (BitVec.ofNat 64 (c.newPage used) ||| userFlags).getLsbD 2 = true :=
    hE.getLsbD (by decide)
  have h7 : (BitVec.ofNat 64 (c.newPage used) ||| userFlags).getLsbD 7 = false :=
    hE.getLsbD (by decide)
  have hpte : (fun k : Fin 512 => load64 (splitMem c m a used q) (c.newPage used + 8 * k.val)) =
      Function.update (fun _ => 0) q.page (q.entry userFlags) := by
    funext k
    rw [Function.update_apply, load_splitMem_newPage k.isLt
      (tablePage_word_dirAddr hwf hused' hnew hn.aligned k.isLt q.region)]
    simp only [Fin.ext_iff]
  simp only [kindOf, h0, h1, h2, h7, hE.nx, hE.entryAddr, Bool.false_eq_true, ↓reduceIte, hpte]

/-! ## A round of the loop -/

omit hwf in
theorem root_eq : (c.hcr3 &&& ~~~0x1F).toNat = c.root := toNat_and_not_mask c.hcr3 5

omit hwf in
/-- The 32-bit entries of the code hold the address of a table below 4GB. -/
theorem npaeGetAddr_eq {e : BitVec 64} (h : entryAddr e < 2 ^ 32) :
    (npaeGetAddr (e.setWidth 32)).toNat = entryAddr e := by
  have hmask : (npaeGetAddr (e.setWidth 32)).toNat = (e.setWidth 32).toNat / 2 ^ 12 * 2 ^ 12 :=
    toNat_and_not_mask _ 12
  rw [hmask, BitVec.toNat_setWidth]
  unfold entryAddr at h ⊢
  omega

theorem read_pdpte {m : Mem} {used : Nat} (ht : Tree c m used) (q : PageMap) :
    c.hostRead m (spa2hva1 r (c.hcr3 &&& ~~~0x1F).toNat + 8 * (q.vaddr.toNat / 2 ^ 30)) =
      some (c.pdpte (q.vaddr.toNat / 2 ^ 30)) := by
  have hq := q.vaddr.isLt
  have h1 := hwf.root_le
  rw [Call.hostRead, root_eq, tlb_spa2hva1 hwf hwf.root_ge (by omega), Option.map_some,
    ht.root _ (by omega)]

theorem tlb_slot (q : PageMap) :
    c.tlb (spa2hva1 r (npaeGetAddr ((c.pdpte (q.vaddr.toNat / 2 ^ 30)).setWidth 32)).toNat +
      8 * (q.vaddr.toNat / 2 ^ 21 % 512)) = some (c.dirAddr q.region) := by
  have hq := q.vaddr.isLt
  obtain ⟨h1, h2, -, -⟩ := hwf.pd (q.vaddr.toNat / 2 ^ 30) (by omega)
  have h3 := r.phys_lt
  simp only [pageSize4K] at h2
  have haddr : (npaeGetAddr ((c.pdpte (q.vaddr.toNat / 2 ^ 30)).setWidth 32)).toNat =
      c.pd (q.vaddr.toNat / 2 ^ 30) := npaeGetAddr_eq (by rw [← Call.pd]; omega)
  have hdir : c.dirAddr q.region =
      c.pd (q.vaddr.toNat / 2 ^ 30) + 8 * (q.vaddr.toNat / 2 ^ 21 % 512) := by
    have e1 : q.region.val / 512 = q.vaddr.toNat / 2 ^ 30 := by
      simp only [PageMap.region, regionOf]
      omega
    have e2 : q.region.val % 512 = q.vaddr.toNat / 2 ^ 21 % 512 := by
      simp only [PageMap.region, regionOf]
      omega
    rw [Call.dirAddr, e1, e2]
  rw [haddr, tlb_spa2hva1 hwf h1 (by omega), hdir]

omit hwf in
theorem view_isBig_iff {m : Mem} {g : Fin 2048} : (c.view m g).isBig = true ↔
    (c.pde m g).getLsbD 0 = true ∧ (c.pde m g).getLsbD 7 = true := by
  unfold Call.view kindOf
  split
  · next h0 =>
    split
    · next h7 => simp only [Kind.isBig, h0, h7, and_self]
    · next h7 => simp only [Kind.isBig, Bool.false_eq_true, h7, and_false]
  · next h0 => simp only [Kind.isBig, Bool.false_eq_true, h0, false_and]

omit hwf in
theorem map_of_put_eq {S : Space} {q : PageMap} (h : q.put (S q.region) = S q.region) :
    S.map q = S := by
  rw [Space.map, h, Function.update_eq_self]

theorem tlb_newPage {used o : Nat} (hused : used < c.heap.numAllocd) (ho : o < pageSize4K) :
    c.tlb (c.heap.pageBase + pageSize4K * used + o) = some (c.newPage used + o) := by
  have hn := newPage_spec hused
  have hown := (hn.own 0 (by decide)).1
  rw [hwf.own _ (hn.own o ho), hn.eq]
  congr 1
  omega

theorem getZeroedpage_eq {m : Mem} {a used : Nat} (ha : c.tlb 0 = some a) :
    c.pagelistGetZeroedpage m used =
      if used < c.heap.numAllocd then
        some (zeroPage (writeLE m (a + 12) 4 (used + 1)) (c.newPage used),
          c.heap.pageBase + pageSize4K * used)
      else none := by
  rw [Call.pagelistGetZeroedpage]
  split
  · next hused =>
    have hp := tlb_newPage (o := 0) hwf hused (by decide)
    rw [Nat.add_zero, Nat.add_zero] at hp
    simp only [ha, hp, Option.bind_eq_bind, Option.bind_some]
  · rfl

theorem read_pde (m : Mem) (q : PageMap) :
    c.hostRead m (spa2hva1 r (npaeGetAddr ((c.pdpte (q.vaddr.toNat / 2 ^ 30)).setWidth 32)).toNat +
      8 * (q.vaddr.toNat / 2 ^ 21 % 512)) = some (c.pde m q.region) := by
  rw [Call.hostRead, tlb_slot hwf]
  rfl

section
variable {s : Update} {q : PageMap} (ht : Tree c s.mem s.numUsed)
include ht

/-- A round at a page of 4KB in a region mapped by one entry. -/
theorem updateNode_split {a : Nat} (ha : c.tlb 0 = some a) (hsmall : q.isHugePage = 0)
    (h7 : (c.pde s.mem q.region).getLsbD 7 = true) :
    c.updateNode s q =
      if s.numUsed < c.heap.numAllocd then
        some { s with
          mem := splitMem c s.mem a s.numUsed q
          numUsed := s.numUsed + 1
          written := s.written ++ [⟨false, q.entry userFlags⟩] }
      else none := by
  have hpt : 8 * (q.vaddr.toNat / 2 ^ 12 % 512) < pageSize4K := by
    simp only [pageSize4K]
    omega
  simp only [Call.updateNode, read_pdpte hwf ht q, read_pde hwf, Option.bind_eq_bind, Option.bind_some,
    hsmall, h7, ↓reduceIte, getZeroedpage_eq hwf ha]
  split
  · next hused =>
    simp only [Option.bind_some, Call.hostWrite, tlb_newPage hwf hused hpt, tlb_slot hwf,
      Option.map_some]
    rfl
  · rfl

/-- A round at a page of 4KB in a region with a table. -/
theorem updateNode_link (hsmall : q.isHugePage = 0) (hlink : c.Link s.mem q.region) :
    c.updateNode s q = some { s with
      mem := store64 s.mem (entryAddr (c.pde s.mem q.region) + 8 * q.page.val) (q.entry userFlags)
      written := s.written ++ [⟨false, q.entry userFlags⟩] } := by
  obtain ⟨h1, h2, -, -⟩ := tablePage_spec hwf ht.used_le (ht.pt _ hlink)
  have h3 := r.phys_lt
  simp only [pageSize4K] at h2
  have hword : c.tlb (spa2hva1 r (entryAddr (c.pde s.mem q.region)) +
      8 * (q.vaddr.toNat / 2 ^ 12 % 512)) =
      some (entryAddr (c.pde s.mem q.region) + 8 * (q.vaddr.toNat / 2 ^ 12 % 512)) :=
    tlb_spa2hva1 hwf h1 (by omega)
  have haddr : (npaeGetAddr ((c.pde s.mem q.region).setWidth 32)).toNat =
      entryAddr (c.pde s.mem q.region) := npaeGetAddr_eq (by omega)
  simp only [Call.updateNode, read_pdpte hwf ht q, read_pde hwf, Option.bind_eq_bind, Option.bind_some,
    hsmall, hlink.2, Bool.false_eq_true, ↓reduceIte, haddr, Call.hostWrite, hword, Option.map_some]
  rfl

/-- A round at a page of 4KB in a region without a mapping: the store goes astray. -/
theorem updateNode_stray (hsmall : q.isHugePage = 0) (h0 : c.pde s.mem q.region = 0) :
    c.updateNode s q = (c.tlb (spa2hva1 r 0 + 8 * q.page.val)).map fun x => { s with
      mem := store64 s.mem x (q.entry userFlags)
      written := s.written ++ [⟨false, q.entry userFlags⟩] } := by
  have haddr : (npaeGetAddr ((0 : BitVec 64).setWidth 32)).toNat = 0 := by decide
  have h7 : (0 : BitVec 64).getLsbD 7 = false := by decide
  have hpage : q.vaddr.toNat / 2 ^ 12 % 512 = q.page.val := rfl
  simp only [Call.updateNode, read_pdpte hwf ht q, read_pde hwf, Option.bind_eq_bind, Option.bind_some,
    hsmall, h0, h7, Bool.false_eq_true, ↓reduceIte, haddr, Call.hostWrite, hpage]
  cases c.tlb (spa2hva1 r 0 + 8 * q.page.val) with
  | none => rfl
  | some x => rfl

/-- A round at a page of 2MB in a region mapped by one entry. -/
theorem updateNode_huge (hhuge : q.isHugePage = 1) (h7 : (c.pde s.mem q.region).getLsbD 7 = true) :
    c.updateNode s q = some { s with
      mem := store64 s.mem (c.dirAddr q.region) (q.entry userFlagsBig)
      written := s.written ++ [⟨true, q.entry userFlagsBig⟩] } := by
  have hsmall : ¬ (1 : BitVec 32) = 0 := by decide
  simp only [Call.updateNode, read_pdpte hwf ht q, read_pde hwf, Option.bind_eq_bind, Option.bind_some,
    hhuge, hsmall, h7, ↓reduceIte, Call.hostWrite, tlb_slot hwf, Option.map_some]

theorem updateNode_skip (hsmall : q.isHugePage ≠ 0)
    (h : q.isHugePage = 1 → (c.pde s.mem q.region).getLsbD 7 = false) : c.updateNode s q = some s := by
  simp only [Call.updateNode, read_pdpte hwf ht q, read_pde hwf, Option.bind_eq_bind, Option.bind_some,
    hsmall, ↓reduceIte]
  split
  · next hhuge => simp only [h hhuge, Bool.false_eq_true, ↓reduceIte]
  · rfl

end

theorem Tree.store_outside {m : Mem} {used x : Nat} {e : BitVec 64} (ht : Tree c m used)
    (hx : x + 8 ≤ r.runtimePhysBase ∨ r.runtimePhysBase + r.runtimeSize ≤ x) :
    Tree c (store64 m x e) used ∧ c.view (store64 m x e) = c.view m := by
  refine ht.congr (fun i hi => ?_) (fun g => ?_) (fun g hl k hk => ?_)
  · have h1 := hwf.root_ge
    have h2 := hwf.root_le
    exact load64_store64_of_disjoint (by omega)
  · obtain ⟨h1, h2⟩ := dirAddr_mem hwf g
    exact load64_store64_of_disjoint (by omega)
  · obtain ⟨h1, h2, -, -⟩ := tablePage_spec hwf ht.used_le (ht.pt g hl)
    simp only [pageSize4K] at h2
    exact load64_store64_of_disjoint (by omega)

/-- `s'` is `s` with a page of the list mapped, as the address space has it. -/
structure Maps (c : Call r) (s s' : Update) (q : PageMap) : Prop where
  tree : Tree c s'.mem s'.numUsed
  view : c.view s'.mem = (c.view s.mem).map q
  written : s'.written = s.written ++ q.leaves (c.view s.mem q.region)
  used : s'.numUsed = s.numUsed + q.tables (c.view s.mem q.region)

theorem updateNode_small {s : Update} {q : PageMap} {a : Nat} (ht : Tree c s.mem s.numUsed)
    (ha : c.tlb 0 = some a) (hsmall : q.isHugePage = 0) :
    if (c.view s.mem q.region).stops (c.heap.numAllocd - s.numUsed) (c.faults q) then
      c.updateNode s q = none
    else ∃ s', c.updateNode s q = some s' ∧ Maps c s s' q := by
  have hleaves : ∀ k, q.leaves k = [⟨false, q.entry userFlags⟩] := fun k => if_pos hsmall
  by_cases h0 : (c.pde s.mem q.region).getLsbD 0 = true
  · by_cases h7 : (c.pde s.mem q.region).getLsbD 7 = true
    · have hbig : (c.view s.mem q.region).isBig = true := view_isBig_iff.2 ⟨h0, h7⟩
      obtain ⟨e, he⟩ := Kind.eq_big_of_isBig hbig
      rw [updateNode_split hwf ht ha hsmall h7, he, Kind.stops]
      split
      · next hfree =>
        rw [if_neg]
        have := ht.used_le
        rw [beq_iff_eq] at hfree
        omega
      · next hfree =>
        have hused : s.numUsed < c.heap.numAllocd := by
          rw [beq_iff_eq] at hfree
          omega
        rw [if_pos hused]
        obtain ⟨htree, hview⟩ := splitMem_refines hwf ht ha hused hsmall hbig
        exact ⟨_, rfl, htree, hview, by rw [hleaves],
          by rw [PageMap.tables, if_pos ⟨hsmall, hbig⟩]⟩
    · rw [Bool.not_eq_true] at h7
      have hlink : c.Link s.mem q.region := ⟨h0, h7⟩
      obtain ⟨htree, hview⟩ := store_small_refines hwf ht hsmall hlink
      have hbig : ¬ (c.view s.mem q.region).isBig = true := fun hb => by
        rw [(view_isBig_iff.1 hb).2] at h7
        cases h7
      have hstops : (c.view s.mem q.region).stops (c.heap.numAllocd - s.numUsed) (c.faults q) = false := by
        simp only [Call.view, kindOf, h0, h7, ↓reduceIte, Bool.false_eq_true, Kind.stops]
      rw [hstops, if_neg (by decide), updateNode_link hwf ht hsmall hlink]
      exact ⟨_, rfl, htree, hview, by rw [hleaves],
        by rw [PageMap.tables, if_neg fun h => hbig h.2]; rfl⟩
  · rw [Bool.not_eq_true] at h0
    have hpde := ht.empty _ h0
    have habs : c.view s.mem q.region = .absent := by
      rw [Call.view, kindOf, h0, if_neg (by decide)]
    rw [updateNode_stray hwf ht hsmall hpde, habs, Kind.stops, Call.faults]
    cases hx : c.tlb (spa2hva1 r 0 + 8 * q.page.val) with
    | none => rfl
    | some x =>
      obtain ⟨htree, hview⟩ := ht.store_outside (e := q.entry userFlags) hwf
        (hwf.stray q.page.val q.page.isLt x hx).1
      refine ⟨_, rfl, htree, hview.trans (map_of_put_eq ?_).symm, by rw [hleaves], ?_⟩
      · rw [habs, PageMap.put, if_pos hsmall, Kind.putSmall]
      · rw [habs, PageMap.tables, if_neg fun h => by cases h.2]
        rfl

theorem updateNode_not_small {s : Update} {q : PageMap} (ht : Tree c s.mem s.numUsed)
    (hsmall : q.isHugePage ≠ 0) : ∃ s', c.updateNode s q = some s' ∧ Maps c s s' q := by
  have htables : ∀ k, q.tables k = 0 := fun k => if_neg fun h => hsmall h.1
  by_cases hhuge : q.isHugePage = 1 ∧ (c.view s.mem q.region).isBig = true
  · obtain ⟨hhuge, hbig⟩ := hhuge
    obtain ⟨htree, hview⟩ := store_big_refines hwf ht hhuge hbig
    refine ⟨_, updateNode_huge hwf ht hhuge (view_isBig_iff.1 hbig).2, htree, hview, ?_, ?_⟩
    · rw [PageMap.leaves, if_neg hsmall, if_pos hhuge, if_pos hbig]
    · rw [htables]
      rfl
  · have hskip : q.isHugePage = 1 → (c.pde s.mem q.region).getLsbD 7 = false := by
      intro h1
      by_contra h7
      rw [Bool.not_eq_false] at h7
      refine hhuge ⟨h1, view_isBig_iff.2 ⟨?_, h7⟩⟩
      by_contra h0
      rw [Bool.not_eq_true] at h0
      rw [ht.empty _ h0] at h7
      cases h7
    refine ⟨s, updateNode_skip hwf ht hsmall hskip, ht, (map_of_put_eq ?_).symm, ?_, ?_⟩
    · rw [PageMap.put, if_neg hsmall]
      split
      · next h1 => exact Kind.putBig_of_not_isBig (Bool.eq_false_iff.2 fun hb => hhuge ⟨h1, hb⟩)
      · rfl
    · rw [PageMap.leaves, if_neg hsmall]
      split
      · next h1 => rw [if_neg fun hb => hhuge ⟨h1, hb⟩, List.append_nil]
      · rw [List.append_nil]
    · rw [htables]
      rfl

/-- **A round of `update_hypervisor_pt`** maps one page, or halts where the address space says so. -/
theorem updateNode_refines {s : Update} {a : Nat} (ht : Tree c s.mem s.numUsed)
    (ha : c.tlb 0 = some a) (q : PageMap) :
    if q.isHugePage = 0 ∧
        (c.view s.mem q.region).stops (c.heap.numAllocd - s.numUsed) (c.faults q) = true then
      c.updateNode s q = none
    else ∃ s', c.updateNode s q = some s' ∧ Maps c s s' q := by
  by_cases hsmall : q.isHugePage = 0
  · have h := updateNode_small hwf ht ha hsmall
    simpa only [hsmall, true_and] using h
  · rw [if_neg fun h => hsmall h.1]
    exact updateNode_not_small hwf ht hsmall

end

end

end Xmhf.Hypapp
