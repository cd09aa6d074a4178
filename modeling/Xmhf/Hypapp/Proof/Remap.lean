import Mathlib.Data.Finset.Card
import Mathlib.Data.Fintype.Basic
import Mathlib.Data.List.Pairwise
import Xmhf.Hypapp.Proof.Isolation
import Xmhf.Hypapp.Proof.LastPage

/-!
# What a page list does to the host's address space

`Faithful` is what `update_hypervisor_pt` is for: it returns, every page of the list translates to its
frame for user writes, and every other address translates as before. `update_faithful_iff` says when it
does that, region by region (`Kind.Takes`):

* a region without a mapping takes no page;
* a region mapped by one entry takes a page of 2MB, or all its 512 pages of 4KB: the table that replaces
  the entry is empty but for the pages of the list;
* a table takes pages of 4KB if the entry that links it allows user writes; a page of 2MB is left out.
-/

namespace Xmhf.Hypapp

open Xmhf.Memory Xmhf.Word Xmhf.Paging

/-! ## Page lists -/

/-- Aligned pages of 4KB and 2MB, no two of which overlap. -/
structure ValidList (pages : List PageMap) : Prop where
  kind : ∀ q ∈ pages, q.isHugePage = 0 ∨ q.isHugePage = 1
  aligned : ∀ q ∈ pages, q.vaddr.toNat % q.size = 0
  apart : pages.Pairwise fun q p => ∀ va, ¬ (q.Covers va ∧ p.Covers va)

/-- The translation of the address is to the page's frame, for user writes. -/
def PageMap.Granted (q : PageMap) (va : Nat) (o : Option PaeGrant) : Prop :=
  ∃ g, o = some g ∧ g.addr = q.paddr.toNat / q.size * q.size + va % q.size ∧ g.rw = true ∧
    g.user = true

/-- The region, as it was before the list, takes the page. -/
def Kind.Takes (pages : List PageMap) (q : PageMap) : Kind → Prop
  | absent => False
  | big _ => q.isHugePage = 0 →
      ∀ k, ∃ p ∈ pages, p.isHugePage = 0 ∧ p.region = q.region ∧ p.page = k
  | table rw user nx pte =>
    if q.isHugePage = 0 then rw = true ∧ user = true
    else ∀ va < 2 ^ 32, q.Covers va → q.Granted va ((table rw user nx pte).lookup va)

/-- Every page of the list is taken. -/
def Space.Takes (S : Space) (pages : List PageMap) : Prop :=
  ∀ q ∈ pages, (S q.region).Takes pages q

/-- The regions whose one entry gives way to a table. -/
def Space.split (S : Space) (pages : List PageMap) : Finset (Fin 2048) :=
  Finset.univ.filter fun g => (S g).isBig = true ∧ Splits pages g

namespace ValidList

variable {pages : List PageMap} (h : ValidList pages)
include h

/-- Two pages that cover one address are one. -/
theorem eq_of_covers {q p : PageMap} {va : Nat} (hq : q ∈ pages) (hp : p ∈ pages)
    (hqv : q.Covers va) (hpv : p.Covers va) : q = p := by
  by_contra hne
  have hsymm : Std.Symm fun q p : PageMap => ∀ va, ¬ (q.Covers va ∧ p.Covers va) :=
    ⟨fun q p hqp va hv => hqp va hv.symm⟩
  exact h.apart.forall hq hp hne va ⟨hqv, hpv⟩

theorem eq_of_page {q p : PageMap} (hq : q ∈ pages) (hp : p ∈ pages) (hqs : q.isHugePage = 0)
    (hr : p.region = q.region) (hk : p.page = q.page) : p = q :=
  h.eq_of_covers hp hq p.covers_self
    ((PageMap.covers_small hqs p.vaddr.isLt).2 ⟨hr, hk⟩)

theorem eq_of_region {q p : PageMap} (hq : q ∈ pages) (hp : p ∈ pages) (hqh : q.isHugePage ≠ 0)
    (hr : p.region = q.region) : p = q :=
  h.eq_of_covers hp hq p.covers_self ((PageMap.covers_huge hqh p.vaddr.isLt).2 hr)

theorem small_of_region {q p : PageMap} (hq : q ∈ pages) (hp : p ∈ pages) (hqs : q.isHugePage = 0)
    (hr : p.region = q.region) : p.isHugePage = 0 := by
  by_contra hph
  exact hph (h.eq_of_region hp hq hph hr.symm ▸ hqs)

end ValidList

/-! ## What the list gives in the address space -/

theorem PageMap.granted_small {q : PageMap} (h : q.isHugePage = 0) {va : Nat} {rw user nx : Bool}
    {pte : Fin 512 → BitVec 64} (hpte : pte (pageOf va) = q.entry userFlags) :
    q.Granted va ((Kind.table rw user nx pte).lookup va) ↔ rw = true ∧ user = true := by
  have h0 : (q.entry userFlags).getLsbD 0 = true := q.entry_getLsbD (by decide)
  have h1 : (q.entry userFlags).getLsbD 1 = true := q.entry_getLsbD (by decide)
  have h2 : (q.entry userFlags).getLsbD 2 = true := q.entry_getLsbD (by decide)
  simp only [Granted, Kind.lookup, hpte, h0, h1, h2, ↓reduceIte, Option.some.injEq,
    exists_eq_left', entryAddr_userFlags, q.size_small h, Bool.and_true]
  exact and_iff_right rfl

theorem PageMap.granted_big {q : PageMap} (h : q.isHugePage ≠ 0) (va : Nat) :
    q.Granted va ((Kind.big (q.entry userFlagsBig)).lookup va) := by
  refine ⟨_, rfl, ?_, q.entry_getLsbD (by decide), q.entry_getLsbD (by decide)⟩
  rw [entryAddrBig_userFlagsBig, q.size_huge h]
  rfl

theorem PageMap.not_granted_none {q : PageMap} {va : Nat} : ¬ q.Granted va none := by
  rintro ⟨g, hg, -⟩
  cases hg

/-- Every page of the list translates to its frame, and every other address as before. -/
structure Space.Faithful (S S' : Space) (pages : List PageMap) : Prop where
  listed : ∀ q ∈ pages, ∀ va < 2 ^ 32, q.Covers va → q.Granted va (S'.lookup va)
  kept : ∀ va < 2 ^ 32, (∀ q ∈ pages, ¬ q.Covers va) → S'.lookup va = S.lookup va

section
variable {S : Space} {pages : List PageMap}

theorem ptesAfter_unlisted {va : Nat} (hva : va < 2 ^ 32) (h : ∀ q ∈ pages, ¬ q.Covers va)
    (pte : Fin 512 → BitVec 64) : ptesAfter (regionOf va) pages pte (pageOf va) = pte (pageOf va) := by
  refine ptesAfter_of_not_mem fun q hq hs hr hk => h q hq ?_
  exact (PageMap.covers_small hs hva).2 ⟨hr.symm, hk.symm⟩

/-- An address not listed translates as before, when the pages of its region are taken. -/
theorem lookup_of_takes (htakes : S.Takes pages) {va : Nat} (hva : va < 2 ^ 32)
    (h : ∀ q ∈ pages, ¬ q.Covers va) : (S.mapAll pages).lookup va = S.lookup va := by
  rw [Space.lookup, Space.lookup]
  cases hkind : S (regionOf va) with
  | absent => rw [(Space.mapAll_absent S pages _).2 hkind]
  | big e =>
    -- no page of 4KB is in the region, or all its pages are listed
    have hnone : ∀ q ∈ pages, q.region ≠ regionOf va := by
      intro q hq hr
      by_cases hs : q.isHugePage = 0
      · have htake := htakes q hq
        rw [hr, hkind] at htake
        obtain ⟨p, hp, hps, hpr, hpk⟩ := htake hs (pageOf va)
        exact h p hp ((PageMap.covers_small hps hva).2 ⟨(hpr.trans hr).symm, hpk.symm⟩)
      · exact h q hq ((PageMap.covers_huge hs hva).2 hr.symm)
    rw [mapAll_of_region_ne hnone, hkind]
  | table rw user nx pte =>
    rw [mapAll_table hkind]
    simp only [Kind.lookup, ptesAfter_unlisted hva h]

variable (hlist : ValidList pages)
include hlist

theorem ptesAfter_listed {q : PageMap} (hq : q ∈ pages) (hsmall : q.isHugePage = 0)
    (pte : Fin 512 → BitVec 64) : ptesAfter q.region pages pte q.page = q.entry userFlags :=
  ptesAfter_of_mem hq hsmall fun _ hp _ hr hk => hlist.eq_of_page hq hp hsmall hr hk

theorem granted_of_takes {q : PageMap} (hq : q ∈ pages) (htakes : (S q.region).Takes pages q)
    {va : Nat} (hva : va < 2 ^ 32) (hcov : q.Covers va) :
    q.Granted va ((S.mapAll pages).lookup va) := by
  by_cases hs : q.isHugePage = 0
  · obtain ⟨hr, hk⟩ := (PageMap.covers_small hs hva).1 hcov
    rw [Space.lookup, hr]
    cases hkind : S q.region with
    | absent =>
      rw [hkind] at htakes
      exact htakes.elim
    | big e =>
      rw [mapAll_split hkind ⟨q, hq, hs, rfl⟩]
      exact (PageMap.granted_small hs (hk ▸ ptesAfter_listed hlist hq hs _)).2 ⟨rfl, rfl⟩
    | table rw user nx pte =>
      rw [hkind, Kind.Takes, if_pos hs] at htakes
      rw [mapAll_table hkind]
      exact (PageMap.granted_small hs (hk ▸ ptesAfter_listed hlist hq hs _)).2 htakes
  · have hr := (PageMap.covers_huge hs hva).1 hcov
    have hone : ∀ p ∈ pages, p.region = q.region → p = q := fun p hp => hlist.eq_of_region hq hp hs
    rw [Space.lookup, hr]
    cases hkind : S q.region with
    | absent =>
      rw [hkind] at htakes
      exact htakes.elim
    | big e =>
      rw [mapAll_huge hkind hq ((hlist.kind q hq).resolve_left hs) hone]
      exact PageMap.granted_big hs va
    | table rw user nx pte =>
      rw [hkind, Kind.Takes, if_neg hs] at htakes
      have hpte : ptesAfter q.region pages pte = pte :=
        funext fun k => ptesAfter_of_not_mem fun p hp hps hpr => absurd (hone p hp hpr ▸ hps) hs
      rw [mapAll_table hkind, hpte]
      exact htakes va hva hcov

theorem takes_of_faithful (h : S.Faithful (S.mapAll pages) pages) {q : PageMap} (hq : q ∈ pages) :
    (S q.region).Takes pages q := by
  have hself := h.listed q hq _ q.vaddr.isLt q.covers_self
  have hregion : regionOf q.vaddr.toNat = q.region := rfl
  rw [Space.lookup, hregion] at hself
  cases hkind : S q.region with
  | absent =>
    rw [(Space.mapAll_absent S pages _).2 hkind] at hself
    exact absurd hself PageMap.not_granted_none
  | big e =>
    intro hs k
    have hsmall := fun p hp hpr => hlist.small_of_region hq (p := p) hp hs hpr
    by_contra hk
    obtain ⟨va, hva, hr, hpage⟩ := exists_addr q.region k
    have hun : ∀ p ∈ pages, ¬ p.Covers va := by
      intro p hp hcov
      by_cases hps : p.isHugePage = 0
      · obtain ⟨hpr, hpk⟩ := (PageMap.covers_small hps hva).1 hcov
        exact hk ⟨p, hp, hps, hpr.symm.trans hr, hpk.symm.trans hpage⟩
      · exact hps (hsmall p hp (((PageMap.covers_huge hps hva).1 hcov).symm.trans hr))
    have hkept := h.kept va hva hun
    have hpte := ptesAfter_unlisted hva hun fun _ => 0
    rw [Space.lookup, Space.lookup, hr, mapAll_split hkind ⟨q, hq, hs, rfl⟩, hkind] at hkept
    rw [hr] at hpte
    simp only [Kind.lookup, hpte] at hkept
    cases hkept
  | table rw user nx pte =>
    rw [mapAll_table hkind] at hself
    rw [Kind.Takes]
    split
    · next hs => exact (PageMap.granted_small hs (ptesAfter_listed hlist hq hs pte)).1 hself
    · next hs =>
      intro va hva hcov
      have hpte : ptesAfter q.region pages pte = pte :=
        funext fun k => ptesAfter_of_not_mem fun p hp hps hpr =>
          absurd (hlist.eq_of_region hq hp hs hpr ▸ hps) hs
      have hgrant := h.listed q hq va hva hcov
      rwa [Space.lookup, (PageMap.covers_huge hs hva).1 hcov, mapAll_table hkind, hpte] at hgrant

/-- **The list is mapped faithfully exactly if every page is taken.** -/
theorem mapAll_faithful_iff : S.Faithful (S.mapAll pages) pages ↔ S.Takes pages :=
  ⟨fun h _ hq => takes_of_faithful hlist h hq,
    fun h => ⟨fun q hq _ hva => granted_of_takes hlist hq (h q hq) hva,
      fun _ hva => lookup_of_takes h hva⟩⟩

end

/-! ## How far the update gets -/

theorem mem_split_cons {S : Space} {q : PageMap} {pages : List PageMap} {g : Fin 2048} :
    g ∈ S.split (q :: pages) ↔
      g ∈ (S.map q).split pages ∨ (S g).isBig = true ∧ q.isHugePage = 0 ∧ q.region = g := by
  have hmap : (S.map q g).isBig = true ↔ (S g).isBig = true ∧ ¬ Splits [q] g :=
    Space.mapAll_isBig S [q] g
  have hone : Splits [q] g ↔ q.isHugePage = 0 ∧ q.region = g := by simp [Splits]
  have hcons : Splits (q :: pages) g ↔ Splits [q] g ∨ Splits pages g := by
    simp [Splits, or_and_right, exists_or]
  simp only [Space.split, Finset.mem_filter, Finset.mem_univ, true_and, hmap, hcons, hone]
  tauto

/-- **The update gets to the end of the list exactly if there is a table for each region it splits**,
when no page of 4KB is in a region without a mapping. -/
theorem reached_eq_iff {faults : PageMap → Bool} {S : Space} {free : Nat} {pages : List PageMap}
    (hmapped : ∀ q ∈ pages, S q.region ≠ .absent) :
    S.reached faults free pages = pages ↔ (S.split pages).card ≤ free := by
  induction pages generalizing S free with
  | nil => simp [Space.reached, Space.split, Splits]
  | cons q pages ih =>
    have hrest : ∀ p ∈ pages, S.map q p.region ≠ .absent := fun p hp habs =>
      hmapped p (List.mem_cons_of_mem _ hp) ((Space.mapAll_absent S [q] _).1 habs)
    by_cases hsplit : q.isHugePage = 0 ∧ (S q.region).isBig = true
    · obtain ⟨hs, hbig⟩ := hsplit
      obtain ⟨e, he⟩ := Kind.eq_big_of_isBig hbig
      have hgone : q.region ∉ (S.map q).split pages := by
        have hmap : S.map q q.region = (S q.region).putSmall q.page (q.entry userFlags) := by
          rw [Space.map, Function.update_self, PageMap.put, if_pos hs]
        intro hmem
        obtain ⟨-, hstill, -⟩ := Finset.mem_filter.1 hmem
        rw [hmap, he] at hstill
        cases hstill
      have hcons : S.split (q :: pages) = insert q.region ((S.map q).split pages) := by
        ext g
        rw [mem_split_cons, Finset.mem_insert, or_comm]
        refine or_congr_left ⟨fun h => h.2.2.symm, ?_⟩
        rintro rfl
        exact ⟨hbig, hs, rfl⟩
      rw [hcons, Finset.card_insert_of_notMem hgone, Space.reached]
      simp only [hs, true_and, PageMap.tables, hbig, and_self, ↓reduceIte]
      rw [he, Kind.stops]
      cases free with
      | zero => simp
      | succ free =>
        simp only [Nat.add_one_ne_zero, beq_iff_eq, ↓reduceIte, List.cons.injEq, true_and,
          Nat.add_one_sub_one, ih hrest, Nat.add_le_add_iff_right]
    · have hstop : ¬ (q.isHugePage = 0 ∧ (S q.region).stops free (faults q) = true) := by
        rintro ⟨hs, hst⟩
        cases hkind : S q.region with
        | absent => exact hmapped q List.mem_cons_self hkind
        | big e => exact hsplit ⟨hs, by rw [hkind, Kind.isBig]⟩
        | table rw user nx pte =>
          rw [hkind] at hst
          cases hst
      have hcons : S.split (q :: pages) = (S.map q).split pages := by
        ext g
        rw [mem_split_cons, or_iff_left]
        rintro ⟨hbig, hs, rfl⟩
        exact hsplit ⟨hs, hbig⟩
      rw [hcons, Space.reached, if_neg hstop, PageMap.tables, if_neg hsplit, List.cons.injEq,
        Nat.sub_zero, ih hrest]
      exact and_iff_right rfl

section
variable {r : Rpb} {c : Call r}

theorem updateNode_halted {s s' : Update} {q : PageMap} (h : c.updateNode s q = some s') :
    s'.halted = s.halted := by
  simp only [Call.updateNode, Option.bind_eq_bind, Option.bind_eq_some_iff] at h
  obtain ⟨pdpte, -, pde, -, h⟩ := h
  split at h
  · split at h
    · simp only [Option.bind_eq_some_iff, Option.some.injEq] at h
      obtain ⟨_, -, _, -, _, -, rfl⟩ := h
      rfl
    · simp only [Option.bind_eq_some_iff, Option.some.injEq] at h
      obtain ⟨_, -, rfl⟩ := h
      rfl
  · split at h
    · split at h
      · simp only [Option.bind_eq_some_iff, Option.some.injEq] at h
        obtain ⟨_, -, rfl⟩ := h
        rfl
      · cases h
        rfl
    · cases h
      rfl

section
variable (hwf : WellFormed c)
include hwf

theorem updateLoop_returns_iff {s : Update} {a : Nat} (ha : c.tlb 0 = some a)
    (pages : List PageMap) (ht : Tree c s.mem s.numUsed) (hs : s.halted = false) :
    (c.updateLoop s pages).halted = false ↔
      (c.view s.mem).reached c.faults (c.heap.numAllocd - s.numUsed) pages = pages := by
  induction pages generalizing s with
  | nil => simp [Call.updateLoop, Space.reached, hs]
  | cons q pages ih =>
    have hnode := updateNode_refines hwf ht ha q
    rw [Call.updateLoop, Space.reached]
    split at hnode
    · next hstop => simp [hnode, hstop]
    · next hstop =>
      obtain ⟨s', hs', hmaps⟩ := hnode
      rw [hs', if_neg hstop]
      have hrest := ih hmaps.tree ((updateNode_halted hs').trans hs)
      rw [hmaps.view, hmaps.used, ← Nat.sub_sub] at hrest
      simp [hrest]

/-- **The update returns exactly if it gets to the end of the list.** -/
theorem update_returns_iff (regions : List ProcMap) (pages : List PageMap) :
    (c.updateHypervisorPt (c.heap.mem c.mem regions pages) pages).halted = false ↔
      (c.tlb 0).isSome = true ∧ c.reached pages = pages := by
  unfold Call.updateHypervisorPt Call.pagelistInit Call.reached
  cases ha : c.tlb 0 with
  | none => simp
  | some a =>
    simp only [Option.map_some, Option.isSome_some, ↓reduceIte, true_and]
    generalize hrec : writeLE (c.heap.mem c.mem regions pages) a 16 _ = m'
    obtain ⟨ht, hview⟩ : Tree c m' 0 ∧ c.view m' = c.view c.mem := by
      have hnull := hwf.null a ha
      refine tree_of_agree hwf fun x h1 h2 hx => ?_
      rw [← hrec, writeLE_apply_of_disjoint (by omega), c.heap.mem_outside _ _ _ _ hx]
    have hloop := updateLoop_returns_iff (s := ⟨m', 0, [], false⟩) hwf ha pages ht rfl
    rwa [hview] at hloop

end

/-! ## Remap fidelity -/

/-- **Fidelity** of an update that starts in the memory `m`. -/
structure Faithful (c : Call r) (m : Mem) (pages : List PageMap) (s : Update) : Prop where
  returns : s.halted = false
  listed : ∀ q ∈ pages, ∀ va < 2 ^ 32, q.Covers va → q.Granted va (paeWalk s.mem c.hcr3.toNat va)
  kept : ∀ va < 2 ^ 32, (∀ q ∈ pages, ¬ q.Covers va) →
    paeWalk s.mem c.hcr3.toNat va = paeWalk m c.hcr3.toNat va

/-- What the list needs of the host's table: the record of the page list can be written, every page is
taken, and there are tables for the regions split. -/
structure Fits (c : Call r) (pages : List PageMap) : Prop where
  record : (c.tlb 0).isSome = true
  takes : (c.view c.mem).Takes pages
  tables : ((c.view c.mem).split pages).card ≤ c.heap.numAllocd

section
variable (hwf : WellFormed c) (regions : List ProcMap) {pages : List PageMap}
  (hlist : ValidList pages)
include hwf hlist

/-- An update that gets to the end of the list is faithful exactly if every page is taken. -/
theorem faithful_iff_of_reached (hnull : (c.tlb 0).isSome = true) (hall : c.reached pages = pages) :
    Faithful c (c.heap.mem c.mem regions pages) pages
      (c.updateHypervisorPt (c.heap.mem c.mem regions pages) pages) ↔
      (c.view c.mem).Takes pages := by
  obtain ⟨used, htree, hview, -⟩ := updateHypervisorPt_refines (m := c.heap.mem c.mem regions pages)
    hwf pages rfl
  have hreturns := (update_returns_iff hwf regions pages).2 ⟨hnull, hall⟩
  obtain ⟨hstart, hsame⟩ := tree_of_agree (m := c.heap.mem c.mem regions pages) hwf
    fun x _ _ hx => c.heap.mem_outside _ _ _ x hx
  generalize c.updateHypervisorPt _ pages = s at *
  have hbefore : ∀ va, paeWalk (c.heap.mem c.mem regions pages) c.hcr3.toNat va =
      (c.view c.mem).lookup va := fun va => by rw [paeWalk_of_tree hwf hstart, hsame]
  have hafter : ∀ va, paeWalk s.mem c.hcr3.toNat va = ((c.view c.mem).mapAll pages).lookup va :=
    fun va => by rw [paeWalk_of_tree hwf htree, hview, hall]
  rw [← mapAll_faithful_iff hlist]
  constructor
  · rintro ⟨-, hlisted, hkept⟩
    simp only [hbefore, hafter] at hlisted hkept
    exact ⟨hlisted, hkept⟩
  · rintro ⟨hlisted, hkept⟩
    refine ⟨hreturns, fun q hq va hva hcov => ?_, fun va hva hun => ?_⟩
    · rw [hafter]
      exact hlisted q hq va hva hcov
    · rw [hafter, hbefore]
      exact hkept va hva hun

theorem Faithful.takes (h : Faithful c (c.heap.mem c.mem regions pages) pages
    (c.updateHypervisorPt (c.heap.mem c.mem regions pages) pages)) :
    (c.view c.mem).Takes pages := by
  obtain ⟨hnull, hall⟩ := (update_returns_iff hwf regions pages).1 h.returns
  exact (faithful_iff_of_reached hwf regions hlist hnull hall).1 h

end

end

/-! ## Two lists on the boot table -/

theorem bootCall_view {frame : BitVec 32} {g : Fin 2048} (h : bootPde g.val ≠ 0) :
    (bootCall frame).view (bootCall frame).mem g = .big (bootPde g.val) := by
  obtain ⟨h0, h7⟩ := (bootPde_big g).resolve_left h
  rw [Call.view, bootCall_pde, kindOf, if_pos h0, if_pos h7]

theorem validList_singleton {q : PageMap} (hk : q.isHugePage = 0 ∨ q.isHugePage = 1)
    (ha : q.vaddr.toNat % q.size = 0) : ValidList [q] := by
  refine ⟨?_, ?_, List.pairwise_singleton ..⟩
  · simpa using hk
  · simpa using ha

end Xmhf.Hypapp
