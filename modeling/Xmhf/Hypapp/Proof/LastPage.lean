import Xmhf.Hypapp.Proof.Harmless

/-!
# What a list of pages makes of a region

A region after a list: a table keeps its entries but for those of the list's pages of 4KB, a region of one
entry gives way to a table or takes the pages of 2MB. Of several pages that cover an address the last one
counts (`lastPage`): `ptesAfter_eq`, `mapAll_big_eq`.

`mapsTo_iff`: an address after the list is mapped by one page of it, or as it was before.
-/

namespace Xmhf.Hypapp

open Xmhf.Memory Xmhf.Word Xmhf.Paging

/-! ## Pages and regions -/

/-- The size of a page of the list. -/
def PageMap.size (q : PageMap) : Nat := if q.isHugePage = 0 then pageSize4K else pageSize2M

/-- The address is in the page. -/
def PageMap.Covers (q : PageMap) (va : Nat) : Prop := va / q.size = q.vaddr.toNat / q.size

instance (q : PageMap) (va : Nat) : Decidable (q.Covers va) := inferInstanceAs (Decidable (_ = _))

theorem PageMap.size_small {q : PageMap} (h : q.isHugePage = 0) : q.size = pageSize4K := if_pos h

theorem PageMap.size_huge {q : PageMap} (h : q.isHugePage ≠ 0) : q.size = pageSize2M := if_neg h

theorem PageMap.covers_small {q : PageMap} {va : Nat} (h : q.isHugePage = 0) (hva : va < 2 ^ 32) :
    q.Covers va ↔ regionOf va = q.region ∧ pageOf va = q.page := by
  have hq := q.vaddr.isLt
  rw [Covers, size_small h]
  simp only [regionOf, pageOf, PageMap.region, PageMap.page, pageSize4K, Fin.mk.injEq]
  omega

theorem PageMap.covers_huge {q : PageMap} {va : Nat} (h : q.isHugePage ≠ 0) (hva : va < 2 ^ 32) :
    q.Covers va ↔ regionOf va = q.region := by
  have hq := q.vaddr.isLt
  rw [Covers, size_huge h]
  simp only [regionOf, PageMap.region, pageSize2M, Fin.mk.injEq]
  omega

theorem PageMap.covers_self (q : PageMap) : q.Covers q.vaddr.toNat := rfl

/-- The address of a page of a region. -/
theorem exists_addr (g : Fin 2048) (k : Fin 512) :
    ∃ va < 2 ^ 32, regionOf va = g ∧ pageOf va = k := by
  refine ⟨g.val * 2 ^ 21 + k.val * 2 ^ 12, by omega, Fin.ext ?_, Fin.ext ?_⟩
  · simp only [regionOf]
    omega
  · simp only [pageOf]
    omega

/-! ## The last page that covers an address -/

/-- The last page of the kind `huge` that covers the address. -/
def lastPage (huge : BitVec 32) (pages : List PageMap) (va : Nat) : Option PageMap :=
  (pages.filter fun q => q.isHugePage = huge ∧ q.Covers va).getLast?

theorem mem_of_lastPage {huge : BitVec 32} {pages : List PageMap} {va : Nat} {q : PageMap}
    (h : lastPage huge pages va = some q) : q ∈ pages ∧ q.isHugePage = huge ∧ q.Covers va := by
  have hq := List.mem_of_getLast? h
  rwa [List.mem_filter, decide_eq_true_eq] at hq

theorem lastPage_eq_none {huge : BitVec 32} {pages : List PageMap} {va : Nat} :
    lastPage huge pages va = none ↔ ∀ q ∈ pages, ¬ (q.isHugePage = huge ∧ q.Covers va) := by
  simp [lastPage]

theorem lastPage_cons (huge : BitVec 32) (q : PageMap) (pages : List PageMap) (va : Nat) :
    lastPage huge (q :: pages) va =
      (lastPage huge pages va).or (if q.isHugePage = huge ∧ q.Covers va then some q else none) := by
  unfold lastPage
  rw [List.filter_cons]
  by_cases h : q.isHugePage = huge ∧ q.Covers va
  · rw [if_pos (decide_eq_true h), if_pos h, List.getLast?_cons]
    cases (pages.filter fun q => q.isHugePage = huge ∧ q.Covers va).getLast? <;> rfl
  · rw [if_neg (by simpa using h), if_neg h, Option.or_none]

/-- The only page that covers an address is the last one. -/
theorem lastPage_of_unique {huge : BitVec 32} {pages : List PageMap} {va : Nat} {q : PageMap} (hq : q ∈ pages)
    (hkind : q.isHugePage = huge) (hcov : q.Covers va)
    (huniq : ∀ p ∈ pages, p.isHugePage = huge → p.Covers va → p = q) : lastPage huge pages va = some q := by
  cases hlast : lastPage huge pages va with
  | none => exact absurd ⟨hkind, hcov⟩ (lastPage_eq_none.1 hlast q hq)
  | some p =>
    obtain ⟨hp, hpk, hpc⟩ := mem_of_lastPage hlast
    rw [huniq p hp hpk hpc]

/-! ## A region after a list -/

/-- The entries of a region's table after the list. -/
def ptesAfter (g : Fin 2048) : List PageMap → (Fin 512 → BitVec 64) → Fin 512 → BitVec 64
  | [], pte => pte
  | q :: pages, pte =>
    ptesAfter g pages
      (if q.isHugePage = 0 ∧ q.region = g then Function.update pte q.page (q.entry userFlags) else pte)

/-- An entry of a table is that of the last page of 4KB at its place. -/
theorem ptesAfter_eq {va : Nat} (hva : va < 2 ^ 32) (pages : List PageMap) (pte : Fin 512 → BitVec 64) :
    ptesAfter (regionOf va) pages pte (pageOf va) =
      ((lastPage 0 pages va).map fun q => q.entry userFlags).getD (pte (pageOf va)) := by
  induction pages generalizing pte with
  | nil => rfl
  | cons q pages ih =>
    rw [ptesAfter, ih, lastPage_cons]
    cases lastPage 0 pages va with
    | some p => rfl
    | none =>
      simp only [Option.map_none, Option.getD_none, Option.none_or]
      by_cases hq : q.isHugePage = 0 ∧ q.Covers va
      · obtain ⟨hr, hk⟩ := (PageMap.covers_small hq.1 hva).1 hq.2
        rw [if_pos ⟨hq.1, hr.symm⟩, if_pos hq, hk, Function.update_self]
        rfl
      · rw [if_neg hq]
        split
        · next hs =>
          refine Function.update_of_ne (fun hk => hq ⟨hs.1, ?_⟩) _ _
          exact (PageMap.covers_small hs.1 hva).2 ⟨hs.2.symm, hk⟩
        · rfl

theorem ptesAfter_of_not_mem {g : Fin 2048} {pages : List PageMap} {pte : Fin 512 → BitVec 64}
    {k : Fin 512} (h : ∀ q ∈ pages, q.isHugePage = 0 → q.region = g → q.page ≠ k) :
    ptesAfter g pages pte k = pte k := by
  obtain ⟨va, hva, rfl, rfl⟩ := exists_addr g k
  have hnone : lastPage 0 pages va = none := by
    refine lastPage_eq_none.2 fun q hq hcov => ?_
    obtain ⟨hr, hk⟩ := (PageMap.covers_small hcov.1 hva).1 hcov.2
    exact h q hq hcov.1 hr.symm hk.symm
  rw [ptesAfter_eq hva, hnone]
  rfl

theorem ptesAfter_of_mem {pages : List PageMap} {pte : Fin 512 → BitVec 64} {q : PageMap}
    (hq : q ∈ pages) (hsmall : q.isHugePage = 0)
    (huniq : ∀ p ∈ pages, p.isHugePage = 0 → p.region = q.region → p.page = q.page → p = q) :
    ptesAfter q.region pages pte q.page = q.entry userFlags := by
  have hlast : lastPage 0 pages q.vaddr.toNat = some q := by
    refine lastPage_of_unique hq hsmall q.covers_self fun p hp hps hcov => ?_
    obtain ⟨hr, hk⟩ := (PageMap.covers_small hps q.vaddr.isLt).1 hcov
    exact huniq p hp hps hr.symm hk.symm
  have hentry := ptesAfter_eq q.vaddr.isLt pages pte
  rwa [hlast] at hentry

section
variable {S : Space} {g : Fin 2048} {pages : List PageMap}

theorem map_apply_of_ne {q : PageMap} (h : q.region ≠ g) : S.map q g = S g :=
  Function.update_of_ne h.symm _ _

theorem mapAll_of_region_ne (h : ∀ q ∈ pages, q.region ≠ g) : S.mapAll pages g = S g := by
  induction pages generalizing S with
  | nil => rfl
  | cons q pages ih =>
    have hrest := ih (S := S.map q) fun p hp => h p (List.mem_cons_of_mem _ hp)
    exact hrest.trans (map_apply_of_ne (h q List.mem_cons_self))

/-- A table stays, with the entries of the list's pages. -/
theorem mapAll_table {rw user nx : Bool} {pte : Fin 512 → BitVec 64}
    (h : S g = .table rw user nx pte) :
    S.mapAll pages g = .table rw user nx (ptesAfter g pages pte) := by
  induction pages generalizing S pte with
  | nil => exact h
  | cons q pages ih =>
    refine ih (S := S.map q) ?_
    by_cases hr : q.region = g
    · subst hr
      rw [Space.map, Function.update_self, h, PageMap.put]
      by_cases hs : q.isHugePage = 0
      · rw [if_pos hs, if_pos ⟨hs, rfl⟩, Kind.putSmall]
      · rw [if_neg hs, if_neg fun hc : q.isHugePage = 0 ∧ _ => hs hc.1]
        split <;> rfl
    · rw [map_apply_of_ne hr, h, if_neg fun hc => hr hc.2]

/-- A page that is not of 4KB leaves a region mapped by one entry so. -/
theorem map_big {q : PageMap} {e : BitVec 64} (h : S g = .big e) (hs : q.isHugePage ≠ 0) :
    ∃ e', S.map q g = .big e' := by
  by_cases hr : q.region = g
  · subst hr
    rw [Space.map, Function.update_self, h, PageMap.put, if_neg hs]
    split
    · exact ⟨_, rfl⟩
    · exact ⟨e, rfl⟩
  · exact ⟨e, (map_apply_of_ne hr).trans h⟩

/-- An entry of 2MB gives way to a table of the list's pages. -/
theorem mapAll_split {e : BitVec 64} (h : S g = .big e) (hsplit : Splits pages g) :
    S.mapAll pages g = .table true true false (ptesAfter g pages fun _ => 0) := by
  induction pages generalizing S e with
  | nil =>
    obtain ⟨q, hq, -⟩ := hsplit
    cases hq
  | cons q pages ih =>
    by_cases hq : q.isHugePage = 0 ∧ q.region = g
    · obtain ⟨hs, hr⟩ := hq
      have hmap : S.map q g =
          .table true true false (Function.update (fun _ => 0) q.page (q.entry userFlags)) := by
        rw [Space.map, hr, Function.update_self, h, PageMap.put, if_pos hs, Kind.putSmall]
      rw [ptesAfter, if_pos ⟨hs, hr⟩]
      exact mapAll_table hmap
    · obtain ⟨p, hp, hps, hpr⟩ := hsplit
      have hpm : p ∈ pages := (List.mem_cons.1 hp).resolve_left fun heq => hq (heq ▸ ⟨hps, hpr⟩)
      obtain ⟨e', he'⟩ : ∃ e', S.map q g = .big e' := by
        by_cases hs : q.isHugePage = 0
        · exact ⟨e, (map_apply_of_ne fun hr => hq ⟨hs, hr⟩).trans h⟩
        · exact map_big h hs
      rw [ptesAfter, if_neg hq]
      exact ih he' ⟨p, hpm, hps, hpr⟩

end

/-- A region that keeps its one entry has that of the last page of 2MB. -/
theorem mapAll_big_eq {S : Space} {e : BitVec 64} {va : Nat} (hva : va < 2 ^ 32) {pages : List PageMap}
    (h : S (regionOf va) = .big e) (hsplit : ¬ Splits pages (regionOf va)) :
    S.mapAll pages (regionOf va) =
      .big (((lastPage 1 pages va).map fun q => q.entry userFlagsBig).getD e) := by
  induction pages generalizing S e with
  | nil => exact h
  | cons q pages ih =>
    have hrest : ¬ Splits pages (regionOf va) :=
      fun ⟨p, hp, hpq⟩ => hsplit ⟨p, List.mem_cons_of_mem _ hp, hpq⟩
    have hmap : S.map q (regionOf va) =
        .big (if q.isHugePage = 1 ∧ q.Covers va then q.entry userFlagsBig else e) := by
      by_cases hr : q.region = regionOf va
      · have hs : q.isHugePage ≠ 0 := fun hs => hsplit ⟨q, List.mem_cons_self, hs, hr⟩
        have hcov : q.Covers va := (PageMap.covers_huge hs hva).2 hr.symm
        rw [Space.map, hr, Function.update_self, h, PageMap.put, if_neg hs]
        by_cases h1 : q.isHugePage = 1
        · rw [if_pos h1, if_pos ⟨h1, hcov⟩, Kind.putBig]
        · rw [if_neg h1, if_neg fun hq => h1 hq.1]
      · have hcov : ¬ (q.isHugePage = 1 ∧ q.Covers va) := by
          rintro ⟨h1, hcov⟩
          exact hr ((PageMap.covers_huge (PageMap.ne_small h1) hva).1 hcov).symm
        rw [map_apply_of_ne hr, h, if_neg hcov]
    refine (ih hmap hrest).trans ?_
    rw [lastPage_cons]
    cases lastPage 1 pages va with
    | some p => rfl
    | none =>
      simp only [Option.map_none, Option.getD_none, Option.none_or]
      split <;> rfl

/-- An entry of 2MB gives way to that of the region's only page. -/
theorem mapAll_huge {S : Space} {pages : List PageMap} {e : BitVec 64} {q : PageMap} (h : S q.region = .big e)
    (hq : q ∈ pages) (hhuge : q.isHugePage = 1) (honly : ∀ p ∈ pages, p.region = q.region → p = q) :
    S.mapAll pages q.region = .big (q.entry userFlagsBig) := by
  have hsplit : ¬ Splits pages q.region := by
    rintro ⟨p, hp, hps, hpr⟩
    exact PageMap.ne_small hhuge (honly p hp hpr ▸ hps)
  have hlast : lastPage 1 pages q.vaddr.toNat = some q := by
    refine lastPage_of_unique hq hhuge q.covers_self fun p hp hph hcov => honly p hp ?_
    exact ((PageMap.covers_huge (PageMap.ne_small hph) q.vaddr.isLt).1 hcov).symm
  have hbig := mapAll_big_eq q.vaddr.isLt h hsplit
  rwa [hlast] at hbig

/-! ## An address after a list -/

instance (pages : List PageMap) (g : Fin 2048) : Decidable (Splits pages g) :=
  inferInstanceAs (Decidable (∃ p ∈ pages, _))

/-- The page of the list that maps the address: one of 2MB if its region has one entry and the list leaves
it so, and of 4KB otherwise. -/
def Space.mapper (S : Space) (pages : List PageMap) (va : Nat) : Option PageMap :=
  if (S (regionOf va)).isBig = true ∧ ¬ Splits pages (regionOf va) then lastPage 1 pages va
  else lastPage 0 pages va

/-- The address goes to `p` after the list: by the page that maps it, or, without one, as before, if the
region keeps its mappings. -/
def Space.MapsTo (S : Space) (pages : List PageMap) (va p : Nat) : Prop :=
  match S.mapper pages va with
  | some q => S (regionOf va) ≠ .absent ∧ q.paddr.toNat / q.size * q.size + va % q.size = p
  | none => ¬ ((S (regionOf va)).isBig = true ∧ Splits pages (regionOf va)) ∧
      (S.lookup va).map PaeGrant.addr = some p

/-- **Where an address goes after a list.** -/
theorem mapsTo_iff {S : Space} {pages : List PageMap} {va p : Nat} (hva : va < 2 ^ 32) :
    ((S.mapAll pages).lookup va).map PaeGrant.addr = some p ↔ S.MapsTo pages va p := by
  have hpresent : ∀ q : PageMap, (q.entry userFlags).getLsbD 0 = true := fun q => q.entry_getLsbD (by decide)
  have hsmall : ∀ q, lastPage 0 pages va = some q → q.size = 2 ^ 12 :=
    fun q hq => PageMap.size_small (mem_of_lastPage hq).2.1
  unfold Space.MapsTo Space.mapper Space.lookup
  cases hkind : S (regionOf va) with
  | absent =>
    rw [(Space.mapAll_absent S pages _).2 hkind]
    simp only [Kind.isBig, Bool.false_eq_true, false_and, if_false, Kind.lookup, Option.map_none]
    split <;> simp
  | table rw user nx pte =>
    rw [mapAll_table hkind]
    simp only [Kind.isBig, Bool.false_eq_true, false_and, if_false, Kind.lookup, ptesAfter_eq hva,
      not_false_eq_true, true_and]
    cases hlast : lastPage 0 pages va with
    | none => simp
    | some q => simp [hpresent, entryAddr_userFlags, hsmall q hlast]
  | big e =>
    by_cases hsplit : Splits pages (regionOf va)
    · rw [mapAll_split hkind hsplit]
      simp only [Kind.isBig, hsplit, not_true_eq_false, and_false, if_false, Kind.lookup, ptesAfter_eq hva]
      cases hlast : lastPage 0 pages va with
      | none => simp
      | some q => simp [hpresent, entryAddr_userFlags, hsmall q hlast]
    · rw [mapAll_big_eq hva hkind hsplit]
      simp only [Kind.isBig, hsplit, not_false_eq_true, and_self, if_true, and_false, true_and, Kind.lookup]
      cases hlast : lastPage 1 pages va with
      | none => simp
      | some q =>
        have hsize : q.size = 2 ^ 21 := PageMap.size_huge (PageMap.ne_small (mem_of_lastPage hlast).2.1)
        simp [entryAddrBig_userFlagsBig, hsize]

end Xmhf.Hypapp
