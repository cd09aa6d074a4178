import Xmhf.Dmaprot.Vtd
import Xmhf.Memprot.Proof.Prot

/-!
# What the VT-d tables hold

`VtdInv t m f`: in the memory `m`, the upper two levels are the links of `_vtd_setuppagetables`, and the
leaf of page `n` is `f n`. The setup makes it so (`vtdInv_setup`), and protecting a page changes one
leaf (`VtdInv.protectPage`). A walk then meets the leaf of its page (`VtdInv.walk`).
-/

namespace Xmhf.Dmaprot

open Xmhf.Memory Xmhf.Word Xmhf.Loop Xmhf.Paging Xmhf.Memprot

variable {r : Rpb} {t : VtdTables r} {m : Mem} {f : Nat → BitVec 64} {a n x : Nat} {δ : Type}

/-! ## Addresses -/

/-- The shifts of the indices add up to the page number. -/
theorem vtdPte_eq {pts : Nat} (hx : x < 2 ^ 32) (hpts : pts + 2 ^ 23 ≤ 2 ^ 32) :
    vtdPte pts x = pts + 8 * (x / 2 ^ 12) := by
  have h1 : paePdptindex x = x / 2 ^ 30 := rfl
  have h2 : paePdtindex x = x / 2 ^ 21 % 512 := by
    rw [paePdtindex]
    omega
  have h3 : paePtindex x = x / 2 ^ 12 % 512 := by
    rw [paePtindex]
    omega
  have hsum : x / 2 ^ 30 * 2 ^ 12 * 512 + x / 2 ^ 21 % 512 * 2 ^ 12 + 8 * (x / 2 ^ 12 % 512) =
      8 * (x / 2 ^ 12) := by omega
  rw [vtdPte, h1, h2, h3, pageSize4K, add32_add32, add32_add32, ← Nat.add_assoc, hsum]
  exact add32_of_lt (by omega)

theorem VtdTables.pts_le (t : VtdTables r) : t.pts + 2 ^ 23 ≤ 2 ^ 32 := by
  have h1 := t.pts_block.le
  have h2 := r.virt_le
  rw [pageSize4K] at h1
  omega

/-- A link to the `i`-th page of a block of tables. -/
theorem vtdLink_isEntry {v k i : Nat} (h : Block r v k) (hi : i < k) :
    IsEntry (vtdLink (hva2spa1 r v) v (v + 4096 * i)) (hva2spa1 r (v + 4096 * i)) 3 := by
  have hpage := h.page hi
  have hle := h.le
  have hvirt := r.virt_le
  rw [pageSize4K] at hle
  have hsub : sub32 (v + 4096 * i) v = 4096 * i := by
    rw [sub32_of_le (Nat.le_add_right _ _) (by omega), Nat.add_sub_cancel_left]
  have hadd : add32 (hva2spa1 r v) (4096 * i) = hva2spa1 r (v + 4096 * i) := by
    have := h.hva2spa1_add (k := 4096 * i) (by omega)
    rw [add32, ← this, Nat.mod_eq_of_lt hpage.2]
  rw [vtdLink, hsub, hadd]
  exact .of_or (c := 3) hpage.1 hpage.2 (by decide)

theorem vtdLeaf_isEntry (hn : n < 2 ^ 20) : IsEntry (vtdLeaf (4096 * n)) (4096 * n) 3 :=
  .of_or (c := 3) (by omega) (by omega) (by decide)

/-! ## The invariant -/

/-- The links of the setup, over the leaves `f`. -/
structure VtdInv (t : VtdTables r) (m : Mem) (f : Nat → BitVec 64) : Prop where
  pdpte : ∀ i < 4, load64 m (hva2spa1 r (t.pdpt + 8 * i)) =
    vtdLink t.pdtsPaddr t.pdts (t.pdts + 4096 * i)
  pde : ∀ q < 2048, load64 m (hva2spa1 r (t.pdts + 8 * q)) =
    vtdLink t.ptsPaddr t.pts (t.pts + 4096 * q)
  pte : ∀ n < 2 ^ 20, leaf t.toTables m n = f n

theorem vtdInv_setup (t : VtdTables r) (s : Vtd δ) :
    ∃ s', vtdSetuppagetables t s = some s' ∧ VtdInv t s'.mem (fun n => vtdLeaf (4096 * n)) ∧
      s'.dev = s.dev ∧ s'.numDrhd = s.numDrhd ∧ s'.ptsVaddr = t.pts ∧
      (s'.pdptPaddr ≠ 0 ∧ s'.pdptVaddr ≠ 0) ∧ (s'.pdtsPaddr ≠ 0 ∧ s'.pdtsVaddr ≠ 0) ∧
      (s'.ptsPaddr ≠ 0 ∧ s'.ptsVaddr ≠ 0) := by
  have hpage {v k : Nat} (h : Block r v k) (hk : 0 < k) :
      hva2spa1 r v % pageSize4K = 0 ∧ hva2spa1 r v ≠ 0 := by
    have hphys := r.phys_ge
    have hle := h.le
    have hge := h.ge
    have h0 := (h.page hk).1
    simp only [pageSize2M, pageSize4K, Nat.mul_zero, Nat.add_zero] at hphys hle h0 ⊢
    refine ⟨h0, ?_⟩
    rw [hva2spa1_of_mem hge (by omega)]
    omega
  obtain ⟨a1, n1⟩ := hpage t.pdpt_block (by decide)
  obtain ⟨a2, n2⟩ := hpage t.pdts_block (by decide)
  obtain ⟨a3, n3⟩ := hpage t.pts_block (by decide)
  rw [← t.pdpt_paddr] at a1 n1
  rw [← t.pdts_paddr] at a2 n2
  rw [← t.pts_paddr] at a3 n3
  refine ⟨_, if_pos ⟨a1, a2, a3⟩, ⟨fun i hi => ?_, fun q hq => ?_, fun n hn => ?_⟩, rfl, rfl, rfl,
    ⟨n1, t.pdpt_ne⟩, ⟨n2, t.pdts_ne⟩, n3, t.pts_ne⟩
  · exact load_pdpte _ _ _ t.toTables s.mem hi
  · exact load_pde _ _ _ t.toTables s.mem hq
  · exact load_pte _ _ _ t.toTables s.mem hn

/-- A store to a leaf changes that leaf only. -/
theorem VtdInv.put (h : VtdInv t m f) (hn : n < 2 ^ 20) (w : BitVec 64) :
    VtdInv t (put r m (t.pts + 8 * n) w) (Function.update f n w) := by
  have h1 := t.pdpt_pts
  have h2 := t.pdts_pts
  simp only [Apart, pageSize4K] at h1 h2
  have hw := t.pts_block.isWord (k := n) (by omega)
  constructor
  · intro i hi
    rw [Memprot.put, load64_store64_of_disjoint, h.pdpte i hi]
    exact ((t.pdpt_block.isWord (k := i) (by omega)).eq_or_apart hw).resolve_left (by omega)
  · intro q hq
    rw [Memprot.put, load64_store64_of_disjoint, h.pde q hq]
    exact ((t.pdts_block.isWord (k := q) (by omega)).eq_or_apart hw).resolve_left (by omega)
  · intro k hk
    rw [leaf, leafAddr, Memprot.put]
    by_cases hkn : k = n
    · rw [hkn, load64_store64, Function.update_self]
    · rw [load64_store64_of_disjoint, Function.update_of_ne hkn]
      · exact h.pte k hk
      · exact ((t.pts_block.isWord (k := k) (by omega)).eq_or_apart hw).resolve_left (by omega)

/-- The leaf with reads and writes taken away. -/
def vtdClosed (e : BitVec 64) : BitVec 64 := e &&& ~~~(vtdRead ||| vtdWrite)

theorem VtdInv.protectPage (h : VtdInv t m f) (hx : x < 2 ^ 32) :
    VtdInv t (vtdProtectPage r t.pts x m)
      (Function.update f (x / 2 ^ 12) (vtdClosed (f (x / 2 ^ 12)))) := by
  have hn : x / 2 ^ 12 < 2 ^ 20 := by omega
  have hload := h.pte _ hn
  rw [leaf, leafAddr] at hload
  rw [vtdProtectPage, vtdPte_eq hx t.pts_le, hload]
  exact h.put hn _

/-! ## Walks -/

theorem vtdGrants_link {e : BitVec 64} {k : Nat} (h : IsEntry e k 3) :
    (vtdGrants e && !e.getLsbD 7) = true := by
  rw [vtdGrants, h.getLsbD (by decide), h.getLsbD (by decide), h.getLsbD (by decide)]
  decide

/-- **The walk** of an address goes through two links to the leaf of its page. -/
theorem VtdInv.walk (h : VtdInv t m f) (ha : a < 2 ^ 32) : vtdWalk m t.pdptPaddr a =
    some ⟨vtdLink t.pdtsPaddr t.pdts (t.pdts + 4096 * (a / 2 ^ 30)),
      vtdLink t.ptsPaddr t.pts (t.pts + 4096 * (a / 2 ^ 21)), f (a / 2 ^ 12)⟩ := by
  have e3 := vtdLink_isEntry t.pdts_block (i := a / 2 ^ 30) (by omega)
  have e2 := vtdLink_isEntry t.pts_block (i := a / 2 ^ 21) (by omega)
  rw [← t.pdts_paddr] at e3
  rw [← t.pts_paddr] at e2
  have h30 : a / 2 ^ 30 % 512 = a / 2 ^ 30 := by omega
  have l3 := h.pdpte (a / 2 ^ 30) (by omega)
  have l2 := h.pde (a / 2 ^ 21) (by omega)
  have l1 := h.pte (a / 2 ^ 12) (by omega)
  rw [leaf, leafAddr] at l1
  rw [vtdWalk, h30, t.pdpt_paddr, t.toTables.addr_pdpte ha, l3, if_pos (vtdGrants_link e3),
    e3.entryAddr, t.toTables.addr_pde ha, l2, if_pos (vtdGrants_link e2), e2.entryAddr,
    t.toTables.addr_pte ha, l1]

end Xmhf.Dmaprot
