import Xmhf.Hypapp.Space

/-!
# When a list of pages is harmless

A page of the list leaves the runtime's own addresses as they are and exposes no frame of the
hypervisor, if it is harmless; and if it is not, what it breaks stays broken (`Space.lookup_of_map`): pages
that expose nothing of the hypervisor cannot map the runtime's addresses to its frames again.
-/

namespace Xmhf.Hypapp

open Xmhf.Paging

/-! ## Entries -/

theorem PageMap.entry_div (q : PageMap) {f : BitVec 64} {n : Nat} (hf : f.toNat < 2 ^ n) :
    (q.entry f).toNat / 2 ^ n = q.paddr.toNat / 2 ^ n := by
  have hp := q.paddr.isLt
  rw [entry, BitVec.toNat_or, Nat.or_div_two_pow, Nat.div_eq_of_lt hf, Nat.or_zero,
    BitVec.toNat_setWidth, Nat.mod_eq_of_lt (by omega)]

theorem entryAddr_userFlags (q : PageMap) :
    entryAddr (q.entry userFlags) = q.paddr.toNat / 2 ^ 12 * 2 ^ 12 := by
  have hp := q.paddr.isLt
  rw [entryAddr, q.entry_div (by decide)]
  omega

theorem entryAddrBig_userFlagsBig (q : PageMap) :
    entryAddrBig (q.entry userFlagsBig) = q.paddr.toNat / 2 ^ 21 * 2 ^ 21 := by
  have hp := q.paddr.isLt
  rw [entryAddrBig, q.entry_div (by decide)]
  omega

theorem PageMap.entry_getLsbD (q : PageMap) {f : BitVec 64} {i : Nat} (h : f.getLsbD i = true) :
    (q.entry f).getLsbD i = true := by
  rw [entry, BitVec.getLsbD_or, h, Bool.or_true]

section
variable {r : Rpb}

/-- The block at the start of the block of `a` is the block of `a`. -/
theorem avoids_div_mul {lo hi n a : Nat} (hn : 0 < n) :
    Avoids lo hi n (a / n * n) ↔ Avoids lo hi n a := by
  unfold Avoids
  rw [Nat.mul_div_cancel _ hn]

theorem small_exposes_iff (q : PageMap) :
    Leaf.Exposes r ⟨false, q.entry userFlags⟩ ↔ ¬ FrameFree r pageSize4K q.paddr.toNat := by
  have huser : (q.entry userFlags).getLsbD 2 = true := q.entry_getLsbD (by decide)
  have hframe : Leaf.frame ⟨false, q.entry userFlags⟩ = q.paddr.toNat / pageSize4K * pageSize4K :=
    entryAddr_userFlags q
  rw [Leaf.Exposes, hframe, FrameFree, FrameFree]
  exact (and_iff_right huser).trans (not_congr (avoids_div_mul (n := pageSize4K) (by decide)))

theorem big_exposes_iff (q : PageMap) :
    Leaf.Exposes r ⟨true, q.entry userFlagsBig⟩ ↔ ¬ FrameFree r pageSize2M q.paddr.toNat := by
  have huser : (q.entry userFlagsBig).getLsbD 2 = true := q.entry_getLsbD (by decide)
  have hframe : Leaf.frame ⟨true, q.entry userFlagsBig⟩ =
      q.paddr.toNat / pageSize2M * pageSize2M := entryAddrBig_userFlagsBig q
  rw [Leaf.Exposes, hframe, FrameFree, FrameFree]
  exact (and_iff_right huser).trans (not_congr (avoids_div_mul (n := pageSize2M) (by decide)))

/-! ## What a page changes -/

theorem regionOf_eq_iff {a b : Nat} (ha : a < 2 ^ 32) (hb : b < 2 ^ 32) :
    regionOf a = regionOf b ↔ a / 2 ^ 21 = b / 2 ^ 21 := by
  simp only [regionOf, Fin.mk.injEq]
  omega

theorem pageOf_eq_iff {a b : Nat} (ha : a < 2 ^ 32) (hb : b < 2 ^ 32) (h : regionOf a = regionOf b) :
    pageOf a = pageOf b ↔ a / 2 ^ 12 = b / 2 ^ 12 := by
  rw [regionOf_eq_iff ha hb] at h
  simp only [pageOf, Fin.mk.injEq]
  omega

theorem Own.lt {va : Nat} (h : Own r va) : va < 2 ^ 32 := by
  have := r.virt_le
  have := h.2
  omega

/-- An address in `[lo, hi)` is in no block that avoids it. -/
theorem Avoids.div_ne {lo hi n a x : Nat} (h : Avoids lo hi n a) (hlo : lo ≤ x) (hhi : x < hi)
    (hn : 0 < n) : a / n ≠ x / n := by
  intro heq
  have h1 := Nat.div_mul_le_self x n
  have h2 := Nat.lt_div_mul_add (a := x) hn
  unfold Avoids at h
  rw [heq, Nat.add_mul, Nat.one_mul] at h
  omega

/-- A block that does not avoid `[lo, hi)` has an address in it. -/
theorem exists_of_not_avoids {lo hi n a : Nat} (hlt : lo < hi) (hn : 0 < n)
    (h : ¬ Avoids lo hi n a) : ∃ x, lo ≤ x ∧ x < hi ∧ x / n = a / n := by
  unfold Avoids at h
  rw [Nat.add_mul, Nat.one_mul, not_or, Nat.not_le, Nat.not_le] at h
  refine ⟨max lo (a / n * n), le_max_left .., by omega, ?_⟩
  rw [Nat.div_eq_iff hn]
  omega

theorem Space.lookup_map_of_region_ne {S : Space} {q : PageMap} {va : Nat}
    (h : regionOf va ≠ q.region) : (S.map q).lookup va = S.lookup va := by
  rw [Space.lookup, Space.map, Function.update_of_ne h, Space.lookup]

theorem Space.lookup_map_of_region_eq {S : Space} {q : PageMap} {va : Nat}
    (h : regionOf va = q.region) : (S.map q).lookup va = (q.put (S (regionOf va))).lookup va := by
  rw [Space.lookup, Space.map, h, Function.update_self]

theorem Kind.lookup_putSmall_of_ne {k : Kind} {i : Fin 512} {e : BitVec 64} {va : Nat}
    (hbig : k.isBig = false) (h : pageOf va ≠ i) : (k.putSmall i e).lookup va = k.lookup va := by
  cases k with
  | absent => rfl
  | big e => cases hbig
  | table rw user nx pte => simp only [putSmall, lookup, Function.update_of_ne h]

/-! ## Harmless pages -/

/-- **A harmless page leaves the runtime's addresses alone.** -/
theorem lookup_map_of_harmless {S₀ S : Space} {pre : List PageMap} {q : PageMap} {va : Nat}
    (hbig : (S q.region).isBig = true ↔ (S₀ q.region).isBig = true ∧ ¬ Splits pre q.region)
    (h : Harmless r S₀ pre q) (hva : Own r va) : (S.map q).lookup va = S.lookup va := by
  by_cases hreg : regionOf va = q.region
  · have hq := q.vaddr.isLt
    rw [Space.lookup_map_of_region_eq hreg, Space.lookup]
    unfold Harmless at h
    unfold PageMap.put
    split at h
    · next hsmall =>
      rw [if_pos hsmall]
      obtain ⟨-, hfree⟩ := h
      have hnotbig : (S₀ q.region).isBig ≠ true := by
        intro hb
        rw [if_pos hb] at hfree
        exact (hfree.div_ne hva.1 hva.2 (by decide)) ((regionOf_eq_iff hva.lt hq).1 hreg).symm
      rw [if_neg hnotbig] at hfree
      refine Kind.lookup_putSmall_of_ne ?_ fun hpage => ?_
      · rw [hreg, Bool.eq_false_iff]
        exact fun hb => hnotbig (hbig.1 hb).1
      · exact (hfree.div_ne hva.1 hva.2 (by decide)) ((pageOf_eq_iff hva.lt hq hreg).1 hpage).symm
    · next hsmall =>
      rw [if_neg hsmall]
      split at h
      · next hhuge =>
        rw [if_pos hhuge, Kind.putBig_of_not_isBig]
        rw [hreg, Bool.eq_false_iff]
        intro hb
        obtain ⟨hb₀, hsplit⟩ := hbig.1 hb
        exact ((h hb₀ hsplit).2.div_ne hva.1 hva.2 (by decide))
          ((regionOf_eq_iff hva.lt hq).1 hreg).symm
      · next hhuge => rw [if_neg hhuge]
  · exact Space.lookup_map_of_region_ne hreg

theorem not_exposes_of_harmless {S₀ S : Space} {pre : List PageMap} {q : PageMap}
    (hbig : (S q.region).isBig = true ↔ (S₀ q.region).isBig = true ∧ ¬ Splits pre q.region)
    (h : Harmless r S₀ pre q) : ∀ l ∈ q.leaves (S q.region), ¬ l.Exposes r := by
  intro l hl
  unfold Harmless at h
  unfold PageMap.leaves at hl
  split at h
  · next hsmall =>
    rw [if_pos hsmall, List.mem_singleton] at hl
    rw [hl, small_exposes_iff, not_not]
    exact h.1
  · next hsmall =>
    rw [if_neg hsmall] at hl
    split at h
    · next hhuge =>
      rw [if_pos hhuge] at hl
      split at hl
      · next hb =>
        obtain ⟨hb₀, hsplit⟩ := hbig.1 hb
        rw [List.mem_singleton.1 hl, big_exposes_iff, not_not]
        exact (h hb₀ hsplit).1
      · cases hl
    · next hhuge =>
      rw [if_neg hhuge] at hl
      cases hl

/-- **A harmless list** keeps the runtime's addresses and exposes nothing of the hypervisor. -/
theorem kept_of_harmless {S : Space} {pages : List PageMap} (h : AllHarmless r S pages) :
    (∀ va, Own r va → (S.mapAll pages).lookup va = S.lookup va) ∧
      ∀ l ∈ S.leaves pages, ¬ l.Exposes r := by
  induction pages using List.reverseRecOn with
  | nil => exact ⟨fun _ _ => rfl, fun _ hl => by cases hl⟩
  | append_singleton pages q ih =>
    have hq : Harmless r S pages q := h pages q [] rfl
    obtain ⟨hkept, hleaves⟩ := ih fun pre p post hp => h pre p (post ++ [q]) (by simp [hp])
    have hbig := S.mapAll_isBig pages q.region
    constructor
    · intro va hva
      rw [Space.mapAll_concat, lookup_map_of_harmless hbig hq hva, hkept va hva]
    · intro l hl
      rw [Space.leaves_append, List.mem_append] at hl
      rcases hl with hl | hl
      · exact hleaves l hl
      · rw [Space.leaves, Space.leaves, List.append_nil] at hl
        exact not_exposes_of_harmless hbig hq l hl

/-! ## Harmful pages -/

/-- The address is mapped to a byte of secure loader or runtime. -/
def Inside (r : Rpb) (S : Space) (va : Nat) : Prop :=
  ∃ g, S.lookup va = some g ∧ r.runtimePhysBase - pageSize2M ≤ g.addr ∧
    g.addr < r.runtimePhysBase + r.runtimeSize

/-- An address in a frame outside secure loader and runtime. -/
theorem FrameFree.outside {n a o : Nat} (h : FrameFree r n a) (ho : o < n) :
    ¬ (r.runtimePhysBase - pageSize2M ≤ a / n * n + o ∧
      a / n * n + o < r.runtimePhysBase + r.runtimeSize) := by
  rintro ⟨h1, h2⟩
  refine h.div_ne h1 h2 (by omega) ?_
  rw [Nat.add_comm, Nat.add_mul_div_right _ _ (by omega), Nat.div_eq_of_lt ho, Nat.zero_add]

theorem not_inside_small {k : Kind} {q : PageMap} {va : Nat} {g : PaeGrant}
    (hfree : FrameFree r pageSize4K q.paddr.toNat) (hpage : pageOf va = q.page)
    (h : (k.putSmall q.page (q.entry userFlags)).lookup va = some g) :
    ¬ (r.runtimePhysBase - pageSize2M ≤ g.addr ∧ g.addr < r.runtimePhysBase + r.runtimeSize) := by
  have hout := hfree.outside (o := va % 2 ^ 12) (Nat.mod_lt _ (by decide))
  cases k with
  | absent => cases h
  | big e =>
    simp only [Kind.putSmall, Kind.lookup, hpage, Function.update_self, entryAddr_userFlags] at h
    split at h
    · cases h
      exact hout
    · cases h
  | table rw user nx pte =>
    simp only [Kind.putSmall, Kind.lookup, hpage, Function.update_self, entryAddr_userFlags] at h
    split at h
    · cases h
      exact hout
    · cases h

/-- A page of 4KB leaves the rest of a region mapped by one entry without a mapping. -/
theorem lookup_putSmall_big {k : Kind} {i : Fin 512} {e : BitVec 64} {va : Nat}
    (hbig : k.isBig = true) (h : pageOf va ≠ i) : (k.putSmall i e).lookup va = none := by
  obtain ⟨e', rfl⟩ := Kind.eq_big_of_isBig hbig
  simp [Kind.putSmall, Kind.lookup, Function.update_of_ne h]

/-- The address is one of secure loader or runtime. -/
def Held (r : Rpb) (a : Nat) : Prop :=
  r.runtimePhysBase - pageSize2M ≤ a ∧ a < r.runtimePhysBase + r.runtimeSize

/-- A mapping to secure loader or runtime was there before, as long as no page exposes them. -/
theorem Space.lookup_of_map {S : Space} {q : PageMap} {va : Nat} {g : PaeGrant}
    (hleaf : ∀ l ∈ q.leaves (S q.region), ¬ l.Exposes r) (hg : (S.map q).lookup va = some g)
    (hin : Held r g.addr) : S.lookup va = some g := by
  by_cases hreg : regionOf va = q.region
  · rw [Space.lookup_map_of_region_eq hreg] at hg
    unfold PageMap.leaves at hleaf
    unfold PageMap.put at hg
    split at hg
    · next hsmall =>
      rw [if_pos hsmall] at hleaf
      have hfree := hleaf _ (List.mem_singleton.2 rfl)
      rw [small_exposes_iff, not_not] at hfree
      by_cases hpage : pageOf va = q.page
      · exact absurd hin (not_inside_small hfree hpage hg)
      · by_cases hbig : (S (regionOf va)).isBig = true
        · rw [lookup_putSmall_big hbig hpage] at hg
          cases hg
        · rw [Bool.not_eq_true] at hbig
          rwa [Kind.lookup_putSmall_of_ne hbig hpage] at hg
    · next hsmall =>
      rw [if_neg hsmall] at hleaf
      split at hg
      · next hhuge =>
        rw [if_pos hhuge] at hleaf
        by_cases hbig : (S (regionOf va)).isBig = true
        · rw [← hreg, if_pos hbig] at hleaf
          have hfree := hleaf _ (List.mem_singleton.2 rfl)
          rw [big_exposes_iff, not_not] at hfree
          obtain ⟨e, he⟩ := Kind.eq_big_of_isBig hbig
          rw [he] at hg
          simp only [Kind.putBig, Kind.lookup, entryAddrBig_userFlagsBig] at hg
          cases hg
          exact absurd hin (hfree.outside (Nat.mod_lt _ (by decide)))
        · rw [Bool.not_eq_true] at hbig
          rwa [Kind.putBig_of_not_isBig hbig] at hg
      · exact hg
  · rwa [Space.lookup_map_of_region_ne hreg] at hg

/-- **What is not mapped to the hypervisor stays so**, as long as no page exposes it. -/
theorem Space.lookup_of_mapAll {S : Space} {pages : List PageMap} {va : Nat} {g : PaeGrant}
    (hleaf : ∀ l ∈ S.leaves pages, ¬ l.Exposes r) (hg : (S.mapAll pages).lookup va = some g)
    (hin : Held r g.addr) : S.lookup va = some g := by
  induction pages generalizing S with
  | nil => exact hg
  | cons q pages ih =>
    rw [Space.leaves] at hleaf
    have hmap : (S.map q).lookup va = some g :=
      ih (fun l hl => hleaf l (List.mem_append_right _ hl)) hg
    exact Space.lookup_of_map (fun l hl => hleaf l (List.mem_append_left _ hl)) hmap hin

theorem Inside.of_mapAll {S : Space} {pages : List PageMap} {va : Nat}
    (h : Inside r (S.mapAll pages) va) (hleaf : ∀ l ∈ S.leaves pages, ¬ l.Exposes r) :
    Inside r S va := by
  obtain ⟨g, hg, hin⟩ := h
  exact ⟨g, Space.lookup_of_mapAll hleaf hg hin, hin⟩

section
variable {S : Space} {q : PageMap} (hsize : 0 < r.runtimeSize)
  (hin : ∀ va, Own r va → Inside r (S.map q) va)
include hsize hin

/-- A block that meets the runtime's range holds an address of it that is still inside. -/
theorem exists_inside {n : Nat} (hn : 0 < n) (h : ¬ RangeFree r n q.vaddr.toNat) :
    ∃ va, Own r va ∧ va / n = q.vaddr.toNat / n ∧ Inside r (S.map q) va := by
  obtain ⟨va, h1, h2, h3⟩ := exists_of_not_avoids (by omega) hn h
  exact ⟨va, ⟨h1, h2⟩, h3, hin va ⟨h1, h2⟩⟩

theorem rangeFree_small (hsmall : q.isHugePage = 0) (hfree : FrameFree r pageSize4K q.paddr.toNat) :
    RangeFree r pageSize4K q.vaddr.toNat := by
  by_contra hrange
  obtain ⟨va, hva, hdiv, g, hg, hgin⟩ := exists_inside hsize hin (by decide) hrange
  have hreg : regionOf va = q.region := by
    simp only [pageSize4K] at hdiv
    rw [PageMap.region, regionOf_eq_iff hva.lt q.vaddr.isLt]
    omega
  rw [Space.lookup_map_of_region_eq hreg, PageMap.put, if_pos hsmall] at hg
  exact not_inside_small hfree ((pageOf_eq_iff hva.lt q.vaddr.isLt hreg).2 hdiv) hg hgin

theorem rangeFree_split (hsmall : q.isHugePage = 0) (hfree : FrameFree r pageSize4K q.paddr.toNat)
    (hbig : (S q.region).isBig = true) : RangeFree r pageSize2M q.vaddr.toNat := by
  by_contra hrange
  obtain ⟨va, hva, hdiv, g, hg, hgin⟩ := exists_inside hsize hin (by decide) hrange
  have hreg : regionOf va = q.region := (regionOf_eq_iff hva.lt q.vaddr.isLt).2 hdiv
  rw [Space.lookup_map_of_region_eq hreg, PageMap.put, if_pos hsmall] at hg
  by_cases hpage : pageOf va = q.page
  · exact not_inside_small hfree hpage hg hgin
  · rw [lookup_putSmall_big (hreg ▸ hbig) hpage] at hg
    cases hg

theorem rangeFree_huge (hhuge : q.isHugePage = 1) (hfree : FrameFree r pageSize2M q.paddr.toNat)
    (hbig : (S q.region).isBig = true) : RangeFree r pageSize2M q.vaddr.toNat := by
  by_contra hrange
  obtain ⟨va, hva, hdiv, g, hg, hgin⟩ := exists_inside hsize hin (by decide) hrange
  have hreg : regionOf va = q.region := (regionOf_eq_iff hva.lt q.vaddr.isLt).2 hdiv
  have hsmall := PageMap.ne_small hhuge
  rw [Space.lookup_map_of_region_eq hreg, PageMap.put, if_neg hsmall, if_pos hhuge, hreg] at hg
  obtain ⟨e, he⟩ := Kind.eq_big_of_isBig hbig
  rw [he] at hg
  simp only [Kind.putBig, Kind.lookup, entryAddrBig_userFlagsBig] at hg
  cases hg
  exact hfree.outside (Nat.mod_lt _ (by decide)) hgin

end

/-- **Only harmless lists** leave the runtime's addresses inside and expose nothing. -/
theorem harmless_of_inside {S : Space} {pages : List PageMap} (hsize : 0 < r.runtimeSize)
    (hleaf : ∀ l ∈ S.leaves pages, ¬ l.Exposes r)
    (hin : ∀ va, Own r va → Inside r (S.mapAll pages) va) : AllHarmless r S pages := by
  -- the addresses are still inside after each page
  have hafter : ∀ pre q post, pages = pre ++ q :: post → ∀ va, Own r va →
      Inside r ((S.mapAll pre).map q) va := by
    intro pre q post hpages va hva
    rw [hpages, show pre ++ q :: post = (pre ++ [q]) ++ post by simp] at hleaf hin
    rw [← Space.mapAll_concat]
    have hlast : Inside r ((S.mapAll (pre ++ [q])).mapAll post) va := by
      rw [← Space.mapAll_append]
      exact hin va hva
    refine hlast.of_mapAll fun l hl => hleaf l ?_
    rw [Space.leaves_append]
    exact List.mem_append_right _ hl
  have hframe : ∀ pre q post, pages = pre ++ q :: post → q.isHugePage = 0 →
      FrameFree r pageSize4K q.paddr.toNat := by
    intro pre q post hpages hsmall
    have hl := hleaf ⟨false, q.entry userFlags⟩ (Space.mem_leaves hpages (by simp [PageMap.leaves, hsmall]))
    rwa [small_exposes_iff, not_not] at hl
  -- a region mapped by one entry is taken apart by the first page of 4KB in it
  have hsplit : ∀ n pre q post, pre.length = n → pages = pre ++ q :: post → q.isHugePage = 0 →
      (S q.region).isBig = true → RangeFree r pageSize2M q.vaddr.toNat := by
    intro n
    induction n using Nat.strong_induction_on with
    | _ n ih =>
      intro pre q post hn hpages hsmall hbig
      by_cases hs : Splits pre q.region
      · obtain ⟨p, hp, hpsmall, hpreg⟩ := hs
        obtain ⟨pre', post', hpre⟩ := List.append_of_mem hp
        have hrange := ih pre'.length (by rw [← hn, hpre]; simp) pre' p (post' ++ q :: post) rfl
          (by rw [hpages, hpre]; simp) hpsmall (hpreg ▸ hbig)
        have hdiv := (regionOf_eq_iff p.vaddr.isLt q.vaddr.isLt).1 hpreg
        unfold RangeFree Avoids pageSize2M at hrange ⊢
        rwa [← hdiv]
      · exact rangeFree_split hsize (hafter pre q post hpages) hsmall (hframe pre q post hpages hsmall)
          ((S.mapAll_isBig pre q.region).2 ⟨hbig, hs⟩)
  intro pre q post hpages
  unfold Harmless
  split
  · next hsmall =>
    have hfree := hframe pre q post hpages hsmall
    refine ⟨hfree, ?_⟩
    split
    · next hbig => exact hsplit _ pre q post rfl hpages hsmall hbig
    · exact rangeFree_small hsize (hafter pre q post hpages) hsmall hfree
  · next hsmall =>
    split
    · next hhuge =>
      intro hbig hs
      have hbig' := (S.mapAll_isBig pre q.region).2 ⟨hbig, hs⟩
      have hl := hleaf ⟨true, q.entry userFlagsBig⟩
        (Space.mem_leaves hpages (by simp [PageMap.leaves, hhuge, hbig']))
      rw [big_exposes_iff, not_not] at hl
      exact ⟨hl, rangeFree_huge hsize (hafter pre q post hpages) hhuge hl hbig'⟩
    · trivial

/-- Pages whose 2MB are outside the hypervisor, in virtual and in physical memory, are harmless whatever
their size. -/
theorem allHarmless_of_free {S : Space} {pages : List PageMap}
    (h : ∀ q ∈ pages, FrameFree r pageSize2M q.paddr.toNat ∧ RangeFree r pageSize2M q.vaddr.toNat) :
    AllHarmless r S pages := by
  have hpage : ∀ lo hi a, Avoids lo hi pageSize2M a → Avoids lo hi pageSize4K a := by
    intro lo hi a
    unfold Avoids pageSize2M pageSize4K
    omega
  intro pre q post hpages
  obtain ⟨hframe, hrange⟩ := h q (by rw [hpages]; exact List.mem_append_right _ List.mem_cons_self)
  rw [Harmless]
  split
  · refine ⟨hpage _ _ _ hframe, ?_⟩
    split
    · exact hrange
    · exact hpage _ _ _ hrange
  · split
    · exact fun _ _ => ⟨hframe, hrange⟩
    · trivial

end

end Xmhf.Hypapp
