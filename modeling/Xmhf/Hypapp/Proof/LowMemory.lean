import Xmhf.Hypapp.Proof.Collect
import Xmhf.Hypapp.Proof.LastPage
import Xmhf.Hypapp.Proof.Runs

/-!
# The hypervisor's view of guest memory

`gva2gpa` reads the guest's page tables at host address = physical address, which the boot table maps one to
one below the runtime's virtual range (`Unity`). The pages of a hypercall go into the same table, at the
virtual addresses of the guest's process.

`KeepsLow` says what a list of pages must be for these mappings to survive: a page below the runtime's
virtual range is mapped to itself, and where one of 4KB splits a region mapped by one entry, the list has
the other pages of the region too. `lowMemory_kept` is the result over runs.
-/

namespace Xmhf.Hypapp

open Xmhf.Memory Xmhf.Word Xmhf.Paging

section
variable {r : Rpb}

/-- The pages leave the addresses below the runtime's virtual range mapped one to one. -/
structure KeepsLow (r : Rpb) (S : Space) (pages : List PageMap) : Prop where
  small : ∀ q ∈ pages, q.isHugePage = 0 → q.vaddr.toNat / 2 ^ 12 * 2 ^ 12 < r.runtimeVirtBase →
    q.paddr.toNat / 2 ^ 12 = q.vaddr.toNat / 2 ^ 12
  split : ∀ q ∈ pages, q.isHugePage = 0 → (S q.region).isBig = true →
    ∀ va < r.runtimeVirtBase, regionOf va = q.region → ∃ p ∈ pages, p.isHugePage = 0 ∧ p.Covers va
  huge : ∀ q ∈ pages, q.isHugePage = 1 → (S q.region).isBig = true →
    q.vaddr.toNat / 2 ^ 21 * 2 ^ 21 < r.runtimeVirtBase →
    q.paddr.toNat / 2 ^ 21 = q.vaddr.toNat / 2 ^ 21

/-- An address that the space maps to itself. -/
def Space.UnityAt (S : Space) (va : Nat) : Prop := (S.lookup va).map PaeGrant.addr = some va

theorem Space.UnityAt.ne_absent {S : Space} {va : Nat} (h : S.UnityAt va) : S (regionOf va) ≠ .absent := by
  intro habs
  rw [Space.UnityAt, Space.lookup, habs] at h
  cases h

/-- A page of the list that maps an address below the runtime maps it to itself. -/
theorem KeepsLow.mapper_unity {S : Space} {pages : List PageMap} (h : KeepsLow r S pages) {va : Nat}
    (hva : va < r.runtimeVirtBase) {q : PageMap} (hq : S.mapper pages va = some q) :
    q.paddr.toNat / q.size * q.size + va % q.size = va := by
  have hlt : va < 2 ^ 32 := by
    have := r.virt_le
    omega
  unfold Space.mapper at hq
  split at hq
  · next hbig =>
    obtain ⟨hmem, hhuge, hcov⟩ := mem_of_lastPage hq
    have hsize := PageMap.ne_small hhuge
    have hr := (PageMap.covers_huge hsize hlt).1 hcov
    rw [PageMap.Covers, PageMap.size_huge hsize, pageSize2M] at hcov
    have hself := h.huge q hmem hhuge (hr ▸ hbig.1) (by omega)
    rw [PageMap.size_huge hsize, pageSize2M]
    omega
  · obtain ⟨hmem, hs, hcov⟩ := mem_of_lastPage hq
    rw [PageMap.Covers, PageMap.size_small hs, pageSize4K] at hcov
    have hself := h.small q hmem hs (by omega)
    rw [PageMap.size_small hs, pageSize4K]
    omega

/-- **The mappings below the runtime survive** a list that keeps them. -/
theorem unityAt_mapAll {S : Space} {pages : List PageMap} (h : KeepsLow r S pages) {va : Nat}
    (hva : va < r.runtimeVirtBase) (hunity : S.UnityAt va) : (S.mapAll pages).UnityAt va := by
  have hlt : va < 2 ^ 32 := by
    have := r.virt_le
    omega
  rw [Space.UnityAt, mapsTo_iff hlt, Space.MapsTo]
  cases hmapper : S.mapper pages va with
  | some q => exact ⟨hunity.ne_absent, h.mapper_unity hva hmapper⟩
  | none =>
    refine ⟨?_, hunity⟩
    -- a region that is split has every page below the runtime listed
    rintro ⟨hbig, hsplit⟩
    rw [Space.mapper, if_neg fun hkeeps => hkeeps.2 hsplit, lastPage_eq_none] at hmapper
    obtain ⟨q, hq, hs, hr⟩ := hsplit
    obtain ⟨p, hp, hps, hcov⟩ := h.split q hq hs (hr.symm ▸ hbig) va hva hr.symm
    exact hmapper p hp ⟨hps, hcov⟩

/-- An orderly call whose pages keep the mappings below the runtime. -/
structure OrderlyLow (c : Call r) (fuel : Nat) : Prop where
  orderly : Orderly c fuel
  low : KeepsLow r (c.view c.mem) (c.reached (c.pages fuel))

/-- One call keeps the mappings. -/
theorem unity_next {c c' : Call r} {fuel : Nat} (hwf : WellFormed c) (hunity : Unity c)
    (hlow : KeepsLow r (c.view c.mem) (c.reached (c.pages fuel)))
    (hnext : Follows c (c.quiesceHypercall fuel) c') : Unity c' := by
  intro p hp
  rw [hnext.tlb_eq hwf]
  refine unityAt_mapAll hlow hp ?_
  have hstart := paeWalk_of_tree hwf (tree_of_agree (m := c.mem) hwf fun _ _ _ _ => rfl).1 p
  rw [Space.UnityAt, ← hstart]
  exact hunity p hp

end

/-! ## Two runs -/

theorem tabledPages_low : KeepsLow relocated (tabledCall.view tabledCall.mem) tabledPages := by
  have hsmall : ∀ q ∈ tabledPages, q.isHugePage = 0 →
      q.region = 513 ∧ q.paddr.toNat / 2 ^ 12 = q.vaddr.toNat / 2 ^ 12 := by decide
  have hhuge : ∀ q ∈ tabledPages, q.isHugePage = 1 →
      ¬ q.vaddr.toNat / 2 ^ 21 * 2 ^ 21 < relocated.runtimeVirtBase := by decide
  have htable : (tabledCall.view tabledCall.mem 513).isBig = false := by decide +kernel
  refine ⟨fun q hq hs _ => (hsmall q hq hs).2, fun q hq hs hbig => ?_,
    fun q hq hh _ hlow => absurd hlow (hhuge q hq hh)⟩
  rw [(hsmall q hq hs).1, htable] at hbig
  cases hbig

end Xmhf.Hypapp
