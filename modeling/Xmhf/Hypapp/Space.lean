import Mathlib.Data.List.Induction
import Xmhf.Hypapp.Quiesce

/-!
# The host's address space

What the host's page table means, without its memory: each region of 2MB is not mapped, mapped by one
entry, or mapped by a table of 512 entries (`Kind`). `Space.map` is a page of the list put into it.

The update may not get to the end of the list (`Space.reached`). A list is harmless if mapping it leaves
the runtime's own addresses alone and gives no entry to the hypervisor's memory (`AllHarmless`).
-/

namespace Xmhf.Hypapp

open Xmhf.Paging

/-- How a region of 2MB is mapped; the rights of a table are those of the entry that links it. -/
inductive Kind
  | absent
  | big (entry : BitVec 64)
  | table (rw user nx : Bool) (pte : Fin 512 → BitVec 64)

/-- The 4GB of linear addresses. -/
abbrev Space := Fin 2048 → Kind

/-- The region of an address. -/
def regionOf (va : Nat) : Fin 2048 := ⟨va / 2 ^ 21 % 2048, Nat.mod_lt _ (by decide)⟩

/-- The page of an address in its region. -/
def pageOf (va : Nat) : Fin 512 := ⟨va / 2 ^ 12 % 512, Nat.mod_lt _ (by decide)⟩

/-- What a region grants at an address. -/
def Kind.lookup (va : Nat) : Kind → Option PaeGrant
  | absent => none
  | big e => some ⟨entryAddrBig e + va % 2 ^ 21, e.getLsbD 1, e.getLsbD 2, e.getLsbD 63⟩
  | table rw user nx pte =>
    let e := pte (pageOf va)
    if e.getLsbD 0 then
      some ⟨entryAddr e + va % 2 ^ 12, rw && e.getLsbD 1, user && e.getLsbD 2, nx || e.getLsbD 63⟩
    else none

/-- What the space grants at an address. -/
def Space.lookup (S : Space) (va : Nat) : Option PaeGrant := (S (regionOf va)).lookup va

/-- The region is mapped by one entry. -/
def Kind.isBig : Kind → Bool
  | big _ => true
  | _ => false

/-- A page of the list's region and its page in it. -/
def PageMap.region (q : PageMap) : Fin 2048 := regionOf q.vaddr.toNat

@[inherit_doc PageMap.region]
def PageMap.page (q : PageMap) : Fin 512 := pageOf q.vaddr.toNat

/-- A region with a page of 4KB put into it: a 2MB entry gives way to a table with nothing else in it. -/
def Kind.putSmall (k : Fin 512) (e : BitVec 64) : Kind → Kind
  | absent => absent
  | big _ => table true true false (Function.update (fun _ => 0) k e)
  | table rw user nx pte => table rw user nx (Function.update pte k e)

/-- A region with a page of 2MB put into it: a table stays. -/
def Kind.putBig (e : BitVec 64) : Kind → Kind
  | big _ => big e
  | k => k

/-- The region after a page of the list. -/
def PageMap.put (q : PageMap) (k : Kind) : Kind :=
  if q.isHugePage = 0 then k.putSmall q.page (q.entry userFlags)
  else if q.isHugePage = 1 then k.putBig (q.entry userFlagsBig)
  else k

/-- The entries written for a page of the list. -/
def PageMap.leaves (q : PageMap) (k : Kind) : List Leaf :=
  if q.isHugePage = 0 then [⟨false, q.entry userFlags⟩]
  else if q.isHugePage = 1 then (if k.isBig then [⟨true, q.entry userFlagsBig⟩] else [])
  else []

/-- The space after a page of the list. -/
def Space.map (S : Space) (q : PageMap) : Space := Function.update S q.region (q.put (S q.region))

/-- The space after a list of pages. -/
def Space.mapAll (S : Space) (pages : List PageMap) : Space := pages.foldl Space.map S

/-- The entries written for a list of pages. -/
def Space.leaves (S : Space) : List PageMap → List Leaf
  | [] => []
  | q :: pages => q.leaves (S q.region) ++ Space.leaves (S.map q) pages

/-- Whether the update stops at a page of 4KB in the region: none of its tables is left, or the store
faults. -/
def Kind.stops (free : Nat) (fault : Bool) : Kind → Bool
  | absent => fault
  | big _ => free == 0
  | table .. => false

/-- The tables the update takes for a page of the list. -/
def PageMap.tables (q : PageMap) (k : Kind) : Nat := if q.isHugePage = 0 ∧ k.isBig then 1 else 0

/-- The pages the update gets to, `free` tables left. -/
def Space.reached (faults : PageMap → Bool) (S : Space) : Nat → List PageMap → List PageMap
  | _, [] => []
  | free, q :: pages =>
    if q.isHugePage = 0 ∧ (S q.region).stops free (faults q) then []
    else q :: Space.reached faults (S.map q) (free - q.tables (S q.region)) pages

theorem PageMap.ne_small {q : PageMap} (h : q.isHugePage = 1) : q.isHugePage ≠ 0 := by
  rw [h]
  decide

theorem Space.mapAll_append (S : Space) (pre post : List PageMap) :
    S.mapAll (pre ++ post) = (S.mapAll pre).mapAll post := List.foldl_append ..

theorem Space.leaves_append (S : Space) (pre post : List PageMap) :
    S.leaves (pre ++ post) = S.leaves pre ++ (S.mapAll pre).leaves post := by
  induction pre generalizing S with
  | nil => rfl
  | cons q pre ih =>
    rw [List.cons_append, Space.leaves, Space.leaves, ih, List.append_assoc]
    rfl

theorem Space.mem_leaves {S : Space} {pages pre post : List PageMap} {q : PageMap} {l : Leaf}
    (h : pages = pre ++ q :: post) (hl : l ∈ q.leaves (S.mapAll pre q.region)) : l ∈ S.leaves pages := by
  rw [h, Space.leaves_append, Space.leaves]
  exact List.mem_append_right _ (List.mem_append_left _ hl)

/-! ## Kinds of regions along a list -/

/-- Some page of the list is of 4KB and in the region. -/
def Splits (pages : List PageMap) (g : Fin 2048) : Prop :=
  ∃ p ∈ pages, p.isHugePage = 0 ∧ p.region = g

theorem Kind.eq_big_of_isBig {k : Kind} (h : k.isBig = true) : ∃ e, k = .big e := by
  cases k with
  | big e => exact ⟨e, rfl⟩
  | _ => cases h

theorem Kind.putBig_of_not_isBig {k : Kind} {e : BitVec 64} (h : k.isBig = false) :
    k.putBig e = k := by
  cases k with
  | big e => cases h
  | _ => rfl

theorem Kind.putSmall_ne_absent {k : Kind} {i : Fin 512} {e : BitVec 64} :
    k.putSmall i e = absent ↔ k = absent := by
  cases k <;> simp [putSmall]

theorem PageMap.put_eq_absent {q : PageMap} {k : Kind} : q.put k = .absent ↔ k = .absent := by
  unfold PageMap.put
  split
  · exact Kind.putSmall_ne_absent
  · split
    · cases k <;> simp [Kind.putBig]
    · rfl

theorem PageMap.put_isBig {q : PageMap} {k : Kind} :
    (q.put k).isBig = true ↔ k.isBig = true ∧ q.isHugePage ≠ 0 := by
  unfold PageMap.put
  split
  · next h => cases k <;> simp [Kind.putSmall, Kind.isBig, h]
  · next h =>
    rw [and_iff_left h]
    split
    · cases k <;> rfl
    · rfl

theorem Space.mapAll_concat (S : Space) (pages : List PageMap) (q : PageMap) :
    S.mapAll (pages ++ [q]) = (S.mapAll pages).map q := Space.mapAll_append S pages [q]

/-- A region is not mapped after the pages exactly if it was not before. -/
theorem Space.mapAll_absent (S : Space) (pages : List PageMap) (g : Fin 2048) :
    S.mapAll pages g = .absent ↔ S g = .absent := by
  induction pages using List.reverseRecOn with
  | nil => rfl
  | append_singleton pages q ih =>
    rw [Space.mapAll_concat, Space.map, Function.update_apply]
    split
    · next h => rw [PageMap.put_eq_absent, ← h, ih]
    · exact ih

/-- A region is mapped by one entry after the pages exactly if it was before and none of them splits
it. -/
theorem Space.mapAll_isBig (S : Space) (pages : List PageMap) (g : Fin 2048) :
    (S.mapAll pages g).isBig = true ↔ (S g).isBig = true ∧ ¬ Splits pages g := by
  induction pages using List.reverseRecOn with
  | nil => simp [Splits, Space.mapAll]
  | append_singleton pages q ih =>
    have hsplit : Splits (pages ++ [q]) g ↔ Splits pages g ∨ q.isHugePage = 0 ∧ q.region = g := by
      simp [Splits, or_and_right, exists_or]
    rw [Space.mapAll_concat, Space.map, Function.update_apply, hsplit, not_or, ← and_assoc, ← ih]
    split
    · next h =>
      rw [PageMap.put_isBig, ← h]
      simp
    · next h =>
      have hne : ¬ (q.isHugePage = 0 ∧ q.region = g) := fun hq => h hq.2.symm
      simp only [hne, not_false_eq_true, and_true]

/-! ## Isolation -/

/-- The block of size `n` at `a` does not meet `[lo, hi)`. -/
def Avoids (lo hi n a : Nat) : Prop := (a / n + 1) * n ≤ lo ∨ hi ≤ a / n * n

instance (lo hi n a : Nat) : Decidable (Avoids lo hi n a) := inferInstanceAs (Decidable (_ ∨ _))

section
variable (r : Rpb)

/-- The frame of size `n` at the physical address `a` is outside secure loader and runtime. -/
def FrameFree (n a : Nat) : Prop :=
  Avoids (r.runtimePhysBase - pageSize2M) (r.runtimePhysBase + r.runtimeSize) n a

/-- The block of size `n` at the linear address `a` is outside the runtime's own range. -/
def RangeFree (n a : Nat) : Prop :=
  Avoids r.runtimeVirtBase (r.runtimeVirtBase + r.runtimeSize) n a

/-- An address of the runtime's own range. -/
def Own (va : Nat) : Prop := r.runtimeVirtBase ≤ va ∧ va < r.runtimeVirtBase + r.runtimeSize

/-- The frame of an entry. -/
def Leaf.frame (l : Leaf) : Nat := if l.big then entryAddrBig l.entry else entryAddr l.entry

/-- The size of an entry's page. -/
def Leaf.size (l : Leaf) : Nat := if l.big then pageSize2M else pageSize4K

/-- The entry gives user accesses to a byte of secure loader or runtime. -/
def Leaf.Exposes (l : Leaf) : Prop :=
  l.entry.getLsbD 2 = true ∧ ¬ FrameFree r l.size l.frame

/-- What a page of the list may not do, the pages `pre` before it: expose a frame of the hypervisor, or
change how an address of the runtime is mapped, which a page of 4KB does to all of a region mapped by one
entry, and a page of 2MB to a region no earlier page has split. -/
def Harmless (S : Space) (pre : List PageMap) (q : PageMap) : Prop :=
  if q.isHugePage = 0 then
    FrameFree r pageSize4K q.paddr.toNat ∧
      RangeFree r (if (S q.region).isBig then pageSize2M else pageSize4K) q.vaddr.toNat
  else if q.isHugePage = 1 then
    (S q.region).isBig = true → ¬ Splits pre q.region →
      FrameFree r pageSize2M q.paddr.toNat ∧ RangeFree r pageSize2M q.vaddr.toNat
  else True

/-- Every page of the list is harmless. -/
def AllHarmless (S : Space) (pages : List PageMap) : Prop :=
  ∀ pre q post, pages = pre ++ q :: post → Harmless r S pre q

end

end Xmhf.Hypapp
