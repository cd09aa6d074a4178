import Xmhf.Hpt.Proof.Leaf

/-!
# Checked accesses do not abort

For the types whose walks pass their assertions, whatever the tables are: `hptw_checked_access_va` returns
a pointer or NULL (`EmhfCtx.checkedAccessVa_total`).

The assertion of `hptw_next_lvl` that a page map is available as a whole holds for a guest because page
maps and pages are both at multiples of 4 KB (`GuestCtx.serves`).
-/

namespace Xmhf.Hpt

open Xmhf.Memory Xmhf.Bitfield Xmhf.Paging

variable {ctx : Ctx} {m : Mem} {va : Va} {pmo : Pmo} {e : Pmeo} {pa : Pa} {access : Prot} {cpl : Cpl}
  {n requested : Nat} {t : HptType} {lvl : Nat}

/-- `pa2ptr` does not abort, and makes a page map available as a whole or not at all. -/
structure Ctx.Serves (ctx : Ctx) : Prop where
  total : ∀ m pa sz access cpl, ∃ q, ctx.pa2ptr m pa sz access cpl = some q
  whole : ∀ m pa ptr avail, pa.toNat % hptPmSize = 0 →
    ctx.pa2ptr m pa hptPmSize protsR .cpl0 = some (ptr, avail) → ptr ≠ 0 → avail = hptPmSize

/-! ## Entries -/

theorem OnLvl.getPmeoByVa (h : OnLvl pmo.t pmo.lvl) (m : Mem) (va : Va) :
    ∃ e, pmo.getPmeoByVa m va = some e ∧ OnLvl e.t e.lvl := by
  rw [Pmo.getPmeoByVa, pmGetPmeByVa_eq h]
  exact ⟨_, rfl, h⟩

theorem OnLvl.isPage (h : OnLvl e.t e.lvl) : ∃ b, e.isPage = some b := ⟨_, pmeIsPage_eq h e.pme⟩

theorem OnLvl.isPresent (h : OnLvl e.t e.lvl) : ∃ b, e.isPresent = some b := ⟨_, pmeIsPresent_eq h e.pme⟩

/-- Below the root every page map is of 4 KB. -/
theorem OnLvl.pmSizes_pred (h : OnLvl t lvl) (h2 : 2 ≤ lvl) : pmSize t (lvl - 1) = some hptPmSize := by
  rw [pmSize_eq (h.pred h2)]
  rcases h.cases with ⟨rfl, rfl | rfl⟩ | ⟨rfl, rfl | rfl | rfl⟩ | ⟨rfl, rfl | rfl | rfl | rfl⟩ <;>
    first
    | rfl
    | omega

/-- Page maps and pages are at multiples of 4 KB. -/
theorem Pmeo.getAddress_mod (h : e.getAddress = some pa) : pa.toNat % hptPmSize = 0 := by
  have hcopy : ∀ {dst src : BitVec 64} {hi lo offset : Nat}, hi + offset < 64 → 12 ≤ lo + offset →
      dst.toNat % hptPmSize = 0 → (copyBits dst src hi lo offset).toNat % hptPmSize = 0 := by
    intro dst src hi lo offset hhi hlo hdst
    have hmod := toNat_copyBits_mod hhi hlo dst src
    rw [show hptPmSize = 2 ^ 12 from rfl] at hdst ⊢
    rw [hmod, hdst]
  have hzero : (0 : BitVec 64).toNat % hptPmSize = 0 := rfl
  obtain ⟨pme, t, lvl⟩ := e
  have h : pmeGetAddress t lvl pme = some pa := h
  unfold pmeGetAddress at h
  cases t with
  | norm =>
    obtain ⟨-, h⟩ := Option.ite_none_right_eq_some.1 h
    by_cases h2 : lvl = 2
    · rw [if_pos h2] at h
      obtain ⟨page, -, rfl⟩ := Option.map_eq_some_iff.1 h
      by_cases hpage : page = true
      · rw [if_pos hpage]
        exact hcopy (by decide) (by decide) (hcopy (by decide) (by decide) hzero)
      · rw [if_neg hpage]
        exact hcopy (by decide) (by decide) hzero
    · rw [if_neg h2] at h
      obtain rfl := Option.some.inj h
      exact hcopy (by decide) (by decide) hzero
  | pae =>
    obtain ⟨-, h⟩ := Option.ite_none_right_eq_some.1 h
    obtain ⟨page, -, h⟩ := Option.bind_eq_some_iff.1 h
    split at h
    · split at h
      · obtain rfl := Option.some.inj h
        exact hcopy (by decide) (by decide) hzero
      · obtain ⟨-, h⟩ := Option.ite_none_right_eq_some.1 h
        obtain rfl := Option.some.inj h
        exact hcopy (by decide) (by decide) hzero
    · obtain rfl := Option.some.inj h
      exact hcopy (by decide) (by decide) hzero
  | long =>
    obtain ⟨-, h⟩ := Option.ite_none_right_eq_some.1 h
    obtain ⟨page, -, rfl⟩ := Option.map_eq_some_iff.1 h
    split
    · split
      · exact hcopy (by decide) (by decide) hzero
      · exact hcopy (by decide) (by decide) hzero
    · exact hcopy (by decide) (by decide) hzero
  | ept =>
    obtain ⟨-, h⟩ := Option.ite_none_right_eq_some.1 h
    obtain rfl := Option.some.inj h
    exact hcopy (by decide) (by decide) hzero
  | invalid => cases h

theorem vaIdxHi_ge (h : t.Walked) (lvl : Nat) (hlvl : lvl ≤ typeMaxLvl t) : 11 ≤ vaIdxHi t lvl := by
  rcases h with rfl | rfl | rfl <;> simp only [typeMaxLvl] at hlvl <;> interval_cases lvl <;> decide

theorem Pmeo.le_remainingOnPage (h : OnLvl e.t e.lvl) (hpa : e.vaToPa va = some pa)
    (hva : va.toNat % hptPmSize = 0) : hptPmSize ≤ e.remainingOnPage pa := by
  have hlog : 12 ≤ e.pageSizeLog2 := by
    have hle := h.le
    exact Nat.succ_le_succ (vaIdxHi_ge h.walked (e.lvl - 1) (by omega))
  have hdvd : hptPmSize ∣ 2 ^ e.pageSizeLog2 := pow_dvd_pow 2 hlog
  have hdvd64 : hptPmSize ∣ 2 ^ 64 := ⟨2 ^ 52, rfl⟩
  simp only [vaToPa, Option.bind_eq_bind, Option.bind_eq_some_iff, Option.guard_eq_some', Option.pure_def,
    Option.some.injEq] at hpa
  obtain ⟨-, -, -, -, base, hbase, rfl⟩ := hpa
  have hoff : (va &&& maskRange64 (vaIdxHi e.t (e.lvl - 1)) 0).toNat % hptPmSize = 0 := by
    have hidx := vaIdxHi_lt e.t (e.lvl - 1)
    rw [pageSizeLog2] at hdvd
    rw [toNat_and_maskRange64 va (by omega), Nat.mod_mod_of_dvd _ hdvd, hva]
  set pa := base + (va &&& maskRange64 (vaIdxHi e.t (e.lvl - 1)) 0) with hpa
  have hpa0 : pa.toNat % hptPmSize = 0 := by
    rw [hpa, BitVec.toNat_add, Nat.mod_mod_of_dvd _ hdvd64, Nat.add_mod, hoff, Pmeo.getAddress_mod hbase]
    rfl
  have hlt := Nat.mod_lt pa.toNat (Nat.two_pow_pos e.pageSizeLog2)
  have hmod : pa.toNat % 2 ^ e.pageSizeLog2 % hptPmSize = 0 := by
    rw [Nat.mod_mod_of_dvd _ hdvd, hpa0]
  rw [remainingOnPage_eq]
  obtain ⟨k, hk⟩ := hdvd
  simp only [hptPmSize] at *
  omega

/-! ## Walks -/

theorem nextLvl_total (hctx : ctx.Serves) (h : OnLvl pmo.t pmo.lvl) (hpm : pmo.pm ≠ 0) :
    ∃ q, nextLvl ctx m va pmo = some q := by
  obtain ⟨e, he, hl⟩ := h.getPmeoByVa m va
  obtain ⟨ht, hlvl⟩ := getPmeoByVa_fields he
  obtain ⟨present, hpresent⟩ := hl.isPresent
  obtain ⟨page, hpage⟩ := hl.isPage
  have hstep : ∃ b pmo', Step ctx m pmo e b pmo' := by
    cases present with
    | false => exact ⟨_, _, .absent hpresent⟩
    | true =>
      cases page with
      | true => exact ⟨_, _, .page hpresent hpage⟩
      | false =>
        have hsz : pmSize pmo.t (pmo.lvl - 1) = some hptPmSize := h.pmSizes_pred (hlvl ▸ hl.two_le hpage)
        have haddr : e.getAddress = some _ := getAddress_map hl hpage
        obtain ⟨⟨pm, avail⟩, hptr⟩ := hctx.total m _ hptPmSize protsR .cpl0
        rcases Nat.eq_zero_or_pos pm with rfl | hpos
        · exact ⟨_, _, .lost hpresent hpage hsz haddr hptr⟩
        · obtain rfl := hctx.whole _ _ _ _ (Pmeo.getAddress_mod haddr) hptr (Nat.ne_of_gt hpos)
          exact ⟨_, _, .down hpresent hpage hsz haddr hptr (Nat.ne_of_gt hpos)⟩
  obtain ⟨b, pmo', hstep⟩ := hstep
  exact ⟨_, nextLvl_iff.2 ⟨hpm, e, he, hstep⟩⟩

theorem checkedLoop_total (hctx : ctx.Serves) (h : OnLvl pmo.t pmo.lvl) (hpm : pmo.pm ≠ 0)
    (hn : pmo.lvl ≤ n) : ∃ q, checkedLoop ctx m access cpl va n pmo = some q := by
  induction n generalizing pmo with
  | zero => exact absurd h.pos (by omega)
  | succ n ih =>
    obtain ⟨e, he, hl⟩ := h.getPmeoByVa m va
    obtain ⟨present, hpresent⟩ := hl.isPresent
    obtain ⟨prot, user, hprot, huser⟩ := e.fields_of_isPresent hpresent
    obtain ⟨⟨down, pmo'⟩, hnext⟩ : ∃ q, nextLvl ctx m va pmo = some q := nextLvl_total hctx h hpm
    by_cases hg : grants access cpl prot user
    · cases down with
      | false => exact ⟨_, by simp [checkedLoop, he, hprot, huser, hg, hnext]; rfl⟩
      | true =>
        obtain ⟨-, e', -, hstep⟩ := nextLvl_iff.1 hnext
        obtain ⟨-, hl'⟩ := hstep.onLvl h.walked
        cases hstep with
        | down _ _ _ _ _ hpm' =>
          obtain ⟨q, hq⟩ := ih hl' hpm' (Nat.sub_le_of_le_add hn)
          exact ⟨q, by simp [checkedLoop, he, hprot, huser, hg, hnext, hq]⟩
    · exact ⟨none, by simp [checkedLoop, he, hprot, huser, hg]⟩

theorem getRoot_total (hctx : ctx.Serves) (ht : ctx.t.Walked) : ∃ q, getRoot ctx m = some q := by
  have hl : OnLvl ctx.t (typeMaxLvl ctx.t) := by
    refine ⟨ht, ?_, Nat.le_refl _⟩
    rcases ht with h | h | h <;> rw [h] <;> decide
  obtain ⟨q, hq⟩ := hctx.total m ctx.rootPa (pmSizes ctx.t (typeMaxLvl ctx.t)) protsRW .cpl0
  exact ⟨_, by simp [getRoot, pmSize_eq hl, hq]; rfl⟩

theorem getRoot_pm (h : getRoot ctx m = some (some pmo)) : pmo.pm ≠ 0 := by
  simp only [getRoot, Option.bind_eq_bind, Option.bind_eq_some_iff] at h
  obtain ⟨sz, -, ⟨pm, avail⟩, -, h⟩ := h
  obtain ⟨⟨hpm, -⟩, h⟩ := Option.ite_none_right_eq_some.1 (Option.some.inj h)
  obtain rfl := Option.some.inj h
  exact hpm

/-- **A checked access does not abort** where `pa2ptr` serves whole page maps. -/
theorem checkedAccessVa_total (hctx : ctx.Serves) (ht : ctx.t.Walked) :
    ∃ q, checkedAccessVa ctx m access cpl va requested = some q := by
  obtain ⟨root, hroot⟩ := getRoot_total (m := m) hctx ht
  cases root with
  | none => exact ⟨_, by simp [checkedAccessVa, hroot]; rfl⟩
  | some root =>
    obtain ⟨-, hl⟩ := getRoot_onLvl ht hroot
    obtain ⟨found, hloop⟩ : ∃ q, checkedLoop ctx m access cpl va root.lvl root = some q :=
      checkedLoop_total hctx hl (getRoot_pm hroot) (Nat.le_refl _)
    cases found with
    | none => exact ⟨_, by simp [checkedAccessVa, hroot, hloop]; rfl⟩
    | some found =>
      obtain ⟨leaf, last⟩ := found
      obtain ⟨es, hw, -, hall⟩ := checkedLoop_some hloop
      obtain ⟨pmo', -, hstep⟩ := hw.stops
      rw [List.getLast_append_singleton] at hstep
      by_cases hlast : last.t = .invalid
      · exact ⟨_, by simp [checkedAccessVa, hroot, hloop, hlast]; rfl⟩
      · cases hstep with
        | absent hpresent => exact ⟨_, by simp [checkedAccessVa, hroot, hloop, hlast, hpresent]; rfl⟩
        | page hpresent hpage =>
          obtain ⟨pa, hpa⟩ := leaf.vaToPa_of_isPage hpage va
          obtain ⟨q, hq⟩ := hctx.total m pa (min requested (leaf.remainingOnPage pa)) access cpl
          exact ⟨q, by simp [checkedAccessVa, hroot, hloop, hlast, hpresent, hpage, hpa, hq]⟩
        | lost => exact absurd rfl hlast

/-! ## The contexts of the hypapp -/

theorem HostCtx.serves (r : Rpb) (h : HostCtx) : (h.super r).Serves where
  total _ _ _ _ _ := ⟨_, rfl⟩
  whole _ _ _ _ _ hrv _ := (Prod.mk.inj (Option.some.inj hrv)).2.symm

theorem GuestCtx.serves (r : Rpb) (g : GuestCtx) (hw : g.hostCtx.t.Walked) : (g.super r).Serves where
  total _ _ _ _ _ := checkedAccessVa_total (g.hostCtx.serves r) hw
  whole m gpa ptr avail hgpa hrv hptr := by
    obtain ⟨es, leaf, last, pa, hwalk, -, -, hpage, hpa, hrv⟩ := checkedAccessVa_inv hrv hptr
    obtain ⟨root, hroot, hwalks, -⟩ := walk_iff.1 hwalk
    obtain ⟨-, hl⟩ := getRoot_onLvl hw hroot
    obtain ⟨ht, hle, -⟩ := hwalks.levels leaf (List.mem_append_right _ (List.mem_singleton_self leaf))
    have hleaf : OnLvl leaf.t leaf.lvl :=
      ⟨ht ▸ hl.walked, leaf.pos_of_isPage hpage, ht ▸ hle.trans hl.le⟩
    obtain ⟨-, hk⟩ := Prod.mk.inj (Option.some.inj hrv)
    rw [← hk, Nat.min_eq_left (leaf.le_remainingOnPage hleaf hpa hgpa)]

theorem EmhfCtx.checkedAccessVa_total (r : Rpb) {c : EmhfCtx} (hw : c.Walked) :
    ∃ ptr avail, checkedAccessVa (c.super r) m access cpl va requested = some (ptr, avail) := by
  have hserves : (c.super r).Serves ∧ (c.super r).t.Walked := by
    cases c with
    | host h => exact ⟨h.serves r, hw⟩
    | guest g => exact ⟨g.serves r hw.2, hw.1⟩
  obtain ⟨⟨ptr, avail⟩, h⟩ : ∃ q, checkedAccessVa (c.super r) m access cpl va requested = some q :=
    Hpt.checkedAccessVa_total hserves.1 hserves.2
  exact ⟨ptr, avail, h⟩

end Xmhf.Hpt
