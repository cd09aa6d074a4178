import Mathlib.Tactic.IntervalCases
import Xmhf.Hpt.Proof.Tree

/-!
# The leaf of an address

`leafAt` is the page at the end of an address's walk and the address in it. The next address has the same
leaf as long as it is in the same page (`leafAt_add_one`), and a checked access depends on memory only
through the page maps (`Ctx.SameMaps.checkedAccessVa_eq`).
-/

namespace Xmhf.Hpt

open Xmhf.Memory Xmhf.Bitfield Xmhf.Paging

/-- The leaf of `va` and the address there. -/
def leafAt (ctx : Ctx) (m : Mem) (va : Va) : Option (Pmeo × Pa) := do
  let (es, last) ← walk ctx m va
  let leaf ← es.getLast?
  guard (Mapped last leaf)
  let pa ← leaf.vaToPa va
  return (leaf, pa)

/-- A byte of a page map that some walk reaches. -/
def InMaps (ctx : Ctx) (m : Mem) (x : Nat) : Prop :=
  ∃ va d pmo, mapAt ctx m va d = some pmo ∧ pmo.pm ≤ x ∧ x < pmo.pm + pmSizes pmo.t pmo.lvl

variable {ctx : Ctx} {m m' : Mem} {va va' : Va} {pmo pmo' last : Pmo} {leaf e : Pmeo} {pa : Pa}
  {es : List Pmeo} {n d : Nat} {t : HptType} {lvl : Nat}

theorem leafAt_eq_some : leafAt ctx m va = some (leaf, pa) ↔ ∃ es last,
    walk ctx m va = some (es ++ [leaf], last) ∧ Mapped last leaf ∧ leaf.vaToPa va = some pa := by
  constructor
  · intro h
    simp only [leafAt, Option.bind_eq_bind, Option.bind_eq_some_iff, Option.guard_eq_some', Option.pure_def,
      Option.some.injEq, Prod.mk.injEq] at h
    obtain ⟨⟨es, last⟩, hwalk, leaf', hleaf, -, hmapped, pa', hpa, rfl, rfl⟩ := h
    obtain ⟨ys, rfl⟩ := List.getLast?_eq_some_iff.1 hleaf
    exact ⟨ys, last, hwalk, hmapped, hpa⟩
  · rintro ⟨es, last, hwalk, hmapped, hpa⟩
    simp [leafAt, hwalk, hmapped, hpa]

/-! ## The same page -/

theorem getPmeoByVa_fields (h : pmo.getPmeoByVa m va = some e) : e.t = pmo.t ∧ e.lvl = pmo.lvl := by
  obtain ⟨pme, -, rfl⟩ := Option.map_eq_some_iff.1 h
  exact ⟨rfl, rfl⟩

/-- The levels on a walk, which go down to that of the leaf. -/
theorem Walks.levels (h : Walks ctx m va pmo es last) :
    ∀ x ∈ es, x.t = pmo.t ∧ x.lvl ≤ pmo.lvl ∧ (es.getLast h.ne_nil).lvl ≤ x.lvl := by
  induction h with
  | stop hpm he hstep =>
    intro x hx
    obtain ⟨ht, hl⟩ := getPmeoByVa_fields he
    rw [List.mem_singleton.1 hx]
    exact ⟨ht, hl.le, Nat.le_refl _⟩
  | down hpm he hstep hw ih =>
    intro x hx
    obtain ⟨ht, hl⟩ := getPmeoByVa_fields he
    rw [List.getLast_cons hw.ne_nil]
    cases hstep with
    | down =>
      rcases List.mem_cons.1 hx with rfl | hx
      · obtain ⟨-, h1, -⟩ := ih _ (List.getLast_mem hw.ne_nil)
        have h1 : (List.getLast _ hw.ne_nil).lvl ≤ _ - 1 := h1
        exact ⟨ht, hl.le, by omega⟩
      · obtain ⟨h1, h2, h3⟩ := ih x hx
        have h2 : x.lvl ≤ _ - 1 := h2
        exact ⟨h1, by omega, h3⟩

/-- Addresses with the same indices have the same walk. -/
theorem Walks.congr_va (h : Walks ctx m va pmo es last)
    (hidx : ∀ x ∈ es, getPmIdx x.t x.lvl va' = getPmIdx x.t x.lvl va) :
    Walks ctx m va' pmo es last := by
  have hget : ∀ {pmo : Pmo} {e : Pmeo}, pmo.getPmeoByVa m va = some e →
      getPmIdx e.t e.lvl va' = getPmIdx e.t e.lvl va → pmo.getPmeoByVa m va' = some e := by
    intro pmo e he hi
    obtain ⟨ht, hl⟩ := getPmeoByVa_fields he
    rw [ht, hl] at hi
    rwa [Pmo.getPmeoByVa, pmGetPmeByVa, hi]
  induction h with
  | stop hpm he hstep => exact .stop hpm (hget he (hidx _ List.mem_cons_self)) hstep
  | down hpm he hstep hw ih =>
    exact .down hpm (hget he (hidx _ List.mem_cons_self)) hstep
      (ih fun x hx => hidx x (List.mem_cons_of_mem _ hx))

theorem vaIdxHi_mono {a b : Nat} (hab : a ≤ b) (hb : b ≤ typeMaxLvl t) : vaIdxHi t a ≤ vaIdxHi t b := by
  cases t <;> simp only [typeMaxLvl] at hb <;> interval_cases b <;> interval_cases a <;> decide

theorem vaIdxHi_lt (t : HptType) (lvl : Nat) : vaIdxHi t lvl < 48 := by
  unfold vaIdxHi
  split <;> decide

theorem getPmIdx_congr {s : Nat} (hs : s ≤ vaIdxHi t (lvl - 1) + 1)
    (hva : va'.toNat / 2 ^ s = va.toNat / 2 ^ s) : getPmIdx t lvl va' = getPmIdx t lvl va := by
  have hhi : vaIdxHi t lvl < 64 := Nat.lt_trans (vaIdxHi_lt t lvl) (by decide)
  have hbits : getHL va' (vaIdxHi t lvl) (vaIdxHi t (lvl - 1) + 1) =
      getHL va (vaIdxHi t lvl) (vaIdxHi t (lvl - 1) + 1) := by
    apply BitVec.eq_of_getLsbD_eq
    intro i _
    rw [getLsbD_getHL hhi, getLsbD_getHL hhi]
    obtain ⟨k, hk⟩ := Nat.exists_eq_add_of_le (Nat.le_trans hs (Nat.le_add_right _ i))
    rw [hk, Nat.add_comm s k, BitVec.getLsbD, BitVec.getLsbD, ← Nat.testBit_div_two_pow,
      ← Nat.testBit_div_two_pow, hva]
  rw [getPmIdx, getPmIdx, hbits]

theorem Pmeo.pos_of_isPage (h : e.isPage = some true) : 1 ≤ e.lvl := by
  obtain ⟨pme, t, lvl⟩ := e
  rcases Nat.eq_zero_or_pos lvl with rfl | hpos
  · cases t <;> cases h
  · exact hpos

theorem Pmeo.isPage_of_vaToPa (h : e.vaToPa va = some pa) : e.isPage = some true := by
  simp only [vaToPa, Option.bind_eq_bind, Option.bind_eq_some_iff, Option.guard_eq_some'] at h
  obtain ⟨page, hpage, -, rfl, -⟩ := h
  exact hpage

theorem succ_in_page {v s : Nat} (h : (v + 1) % 2 ^ s ≠ 0) :
    (v + 1) / 2 ^ s = v / 2 ^ s ∧ (v + 1) % 2 ^ s = v % 2 ^ s + 1 := by
  have hdiv : (v + 1) / 2 ^ s = v / 2 ^ s :=
    Nat.succ_div_of_not_dvd fun hd => h (Nat.mod_eq_zero_of_dvd hd)
  have h1 := Nat.div_add_mod (v + 1) (2 ^ s)
  have h2 := Nat.div_add_mod v (2 ^ s)
  rw [hdiv] at h1
  exact ⟨hdiv, by omega⟩

theorem toNat_add_one {s : Nat} (hs : s ≤ 64) (h : (va.toNat + 1) % 2 ^ s ≠ 0) :
    (va + 1).toNat = va.toNat + 1 := by
  have hlt : va.toNat + 1 ≠ 2 ^ 64 := by
    intro heq
    rw [heq] at h
    exact h (Nat.mod_eq_zero_of_dvd (Nat.pow_dvd_pow 2 hs))
  have hva := va.isLt
  have h1 : (1 : Va).toNat = 1 := by decide
  rw [BitVec.toNat_add, h1]
  omega

theorem Pmeo.vaToPa_add_one (h : e.vaToPa va = some pa)
    (hin : (va.toNat + 1) % 2 ^ e.pageSizeLog2 ≠ 0) : e.vaToPa (va + 1) = some (pa + 1) := by
  have hhi := vaIdxHi_lt e.t (e.lvl - 1)
  have hs : e.pageSizeLog2 ≤ 64 := by
    rw [pageSizeLog2]
    omega
  have hpage := isPage_of_vaToPa h
  obtain ⟨base, hbase⟩ := e.getAddress_of_isPage hpage
  have hmask : (va + 1) &&& maskRange64 (vaIdxHi e.t (e.lvl - 1)) 0 =
      (va &&& maskRange64 (vaIdxHi e.t (e.lvl - 1)) 0) + 1 := by
    apply BitVec.eq_of_toNat_eq
    have hlt := Nat.mod_lt va.toNat (Nat.two_pow_pos (vaIdxHi e.t (e.lvl - 1) + 1))
    have hpow : 2 ^ (vaIdxHi e.t (e.lvl - 1) + 1) ≤ 2 ^ 48 :=
      Nat.pow_le_pow_right (by decide) (by omega)
    have h1 : (1 : Va).toNat = 1 := by decide
    have hnext := (succ_in_page hin).2
    rw [pageSizeLog2] at hnext
    rw [toNat_and_maskRange64 (va + 1) (by omega), toNat_add_one hs hin, hnext, BitVec.toNat_add, h1,
      toNat_and_maskRange64 va (by omega)]
    omega
  simp only [vaToPa, hpage, hbase, Option.bind_eq_bind, Option.bind_some, Option.pure_def] at h ⊢
  obtain ⟨u, hu, h⟩ := Option.bind_eq_some_iff.1 h
  rw [hu, Option.bind_some, hmask, ← BitVec.add_assoc, Option.some.inj h]

/-- **The next address in the page** has the same leaf, one byte further on. -/
theorem leafAt_add_one (h : leafAt ctx m va = some (leaf, pa))
    (hin : (va.toNat + 1) % 2 ^ leaf.pageSizeLog2 ≠ 0) :
    leafAt ctx m (va + 1) = some (leaf, pa + 1) := by
  obtain ⟨es, last, hwalk, hmapped, hpa⟩ := leafAt_eq_some.1 h
  obtain ⟨root, hroot, hw, hlen⟩ := walk_iff.1 hwalk
  have hpos := Pmeo.pos_of_isPage (Pmeo.isPage_of_vaToPa hpa)
  have hhi := vaIdxHi_lt leaf.t (leaf.lvl - 1)
  have hs : leaf.pageSizeLog2 ≤ 64 := by
    rw [Pmeo.pageSizeLog2]
    omega
  have hdiv : (va + 1).toNat / 2 ^ leaf.pageSizeLog2 = va.toNat / 2 ^ leaf.pageSizeLog2 := by
    rw [toNat_add_one hs hin, (succ_in_page hin).1]
  have hlevels := hw.levels
  have hleaf := hlevels leaf (List.mem_append_right _ (List.mem_singleton_self leaf))
  refine leafAt_eq_some.2 ⟨es, last, walk_iff.2 ⟨root, hroot, hw.congr_va fun x hx => ?_, hlen⟩,
    hmapped, Pmeo.vaToPa_add_one hpa hin⟩
  obtain ⟨ht, hle, hge⟩ := hlevels x hx
  rw [List.getLast_append_singleton] at hge
  by_cases hvalid : x.lvl ≤ typeMaxLvl x.t
  · refine getPmIdx_congr ?_ hdiv
    rw [Pmeo.pageSizeLog2, hleaf.1, ← ht]
    exact Nat.succ_le_succ (vaIdxHi_mono (by omega) (by omega))
  · simp [getPmIdx, lvlIsValid, hvalid]

/-! ## The same page maps -/

theorem OnLvl.of_pmSize (ht : t.Walked) (h : pmSize t lvl = some n) : OnLvl t lvl := by
  obtain ⟨⟨hle, h0⟩, -⟩ := Option.ite_none_right_eq_some.1 h
  rcases ht with rfl | rfl | rfl <;> interval_cases lvl <;>
    first
    | exact absurd rfl h0
    | exact ⟨by simp [HptType.Walked], by decide, by decide⟩

theorem getRoot_onLvl (ht : ctx.t.Walked) (h : getRoot ctx m = some (some pmo)) :
    pmo.t = ctx.t ∧ OnLvl pmo.t pmo.lvl := by
  simp only [getRoot, Option.bind_eq_bind, Option.bind_eq_some_iff] at h
  obtain ⟨sz, hsz, ⟨pm, avail⟩, -, h⟩ := h
  obtain ⟨-, h⟩ := Option.ite_none_right_eq_some.1 (Option.some.inj h)
  obtain rfl := Option.some.inj h
  exact ⟨rfl, .of_pmSize ht hsz⟩

theorem Step.onLvl (ht : pmo.t.Walked) (h : Step ctx m pmo e true pmo') :
    pmo'.t = pmo.t ∧ OnLvl pmo'.t pmo'.lvl := by
  cases h with
  | down _ _ hsz => exact ⟨rfl, .of_pmSize ht hsz⟩

theorem mapAt_succ (h : mapAt ctx m va d = some pmo) (hpm : pmo.pm ≠ 0)
    (he : pmo.getPmeoByVa m va = some e) (hstep : Step ctx m pmo e true pmo') :
    mapAt ctx m va (d + 1) = some pmo' := by
  rw [mapAt, h, Option.bind_some, nextLvl_iff.2 ⟨hpm, e, he, hstep⟩]
  rfl

theorem onLvl_of_mapAt (ht : ctx.t.Walked) (h : mapAt ctx m va d = some pmo) :
    pmo.t = ctx.t ∧ OnLvl pmo.t pmo.lvl := by
  induction d generalizing pmo with
  | zero =>
    obtain ⟨root, hroot, rfl⟩ := Option.bind_eq_some_iff.1 h
    exact getRoot_onLvl ht hroot
  | succ d ih =>
    obtain ⟨pmo', hmap, h⟩ := Option.bind_eq_some_iff.1 h
    obtain ⟨⟨b, pmo''⟩, hnext, h⟩ := Option.bind_eq_some_iff.1 h
    obtain ⟨rfl, h⟩ := Option.ite_none_right_eq_some.1 h
    obtain rfl := Option.some.inj h
    obtain ⟨-, e, -, hstep⟩ := nextLvl_iff.1 hnext
    obtain ⟨ht', hl⟩ := ih hmap
    obtain ⟨ht'', hl'⟩ := hstep.onLvl (ht' ▸ ht)
    exact ⟨ht''.trans ht', hl'⟩

/-- `m'` shows the page maps of `m`. -/
structure Ctx.SameMaps (ctx : Ctx) (m m' : Mem) : Prop where
  walked : ctx.t.Walked
  bytes : ∀ x, InMaps ctx m x → m' x = m x
  pa2ptr : ∀ {pa sz access cpl ptr avail}, ctx.pa2ptr m' pa sz access cpl = some (ptr, avail) →
    ptr ≠ 0 → ctx.pa2ptr m pa sz access cpl = some (ptr, avail)

namespace Ctx.SameMaps

theorem getPmeoByVa_eq (h : ctx.SameMaps m m') (hmap : mapAt ctx m va d = some pmo) :
    pmo.getPmeoByVa m' va = pmo.getPmeoByVa m va := by
  obtain ⟨-, hl⟩ := onLvl_of_mapAt h.walked hmap
  have hidx := (getPmIdx_eq hl va).2
  rw [Pmo.getPmeoByVa, Pmo.getPmeoByVa, pmGetPmeByVa_eq hl, pmGetPmeByVa_eq hl]
  rw [entryAt_congr hl.walked fun x h1 h2 =>
    h.bytes x ⟨va, d, pmo, hmap, Nat.le_of_add_right_le h1, by omega⟩]

theorem step (h : ctx.SameMaps m m') {b : Bool} (hstep : Step ctx m' pmo e b last)
    (hlast : last.t ≠ .invalid) : Step ctx m pmo e b last := by
  cases hstep with
  | absent hpresent => exact .absent hpresent
  | page hpresent hpage => exact .page hpresent hpage
  | lost => exact absurd rfl hlast
  | down hpresent hpage hsz hpa hptr h0 => exact .down hpresent hpage hsz hpa (h.pa2ptr hptr h0) h0

theorem walks (h : ctx.SameMaps m m') (hw : Walks ctx m' va pmo es last) (hlast : last.t ≠ .invalid)
    (hmap : mapAt ctx m va d = some pmo) : Walks ctx m va pmo es last := by
  induction hw generalizing d with
  | stop hpm he hstep =>
    rw [h.getPmeoByVa_eq hmap] at he
    exact .stop hpm he (h.step hstep hlast)
  | down hpm he hstep hw ih =>
    rw [h.getPmeoByVa_eq hmap] at he
    obtain ⟨ht, hl⟩ := onLvl_of_mapAt h.walked hmap
    have hvalid := (hstep.onLvl hl.walked).2.walked
    have hstep' := h.step hstep fun hinv => by
      rw [hinv] at hvalid
      rcases hvalid with h0 | h0 | h0 <;> cases h0
    exact .down hpm he hstep' (ih hlast (mapAt_succ hmap hpm he hstep'))

theorem getRoot_eq (h : ctx.SameMaps m m') (hroot : getRoot ctx m' = some (some pmo)) :
    getRoot ctx m = some (some pmo) := by
  simp only [getRoot, Option.bind_eq_bind, Option.bind_eq_some_iff] at hroot ⊢
  obtain ⟨sz, hsz, ⟨pm, avail⟩, hptr, hroot⟩ := hroot
  have hpm := (Option.ite_none_right_eq_some.1 (Option.some.inj hroot)).1.1
  exact ⟨sz, hsz, (pm, avail), h.pa2ptr hptr hpm, hroot⟩

theorem walk_eq (h : ctx.SameMaps m m') (hwalk : walk ctx m' va = some (es, last))
    (hlast : last.t ≠ .invalid) : walk ctx m va = some (es, last) := by
  obtain ⟨root, hroot, hw, hlen⟩ := walk_iff.1 hwalk
  have hroot' := h.getRoot_eq hroot
  have hmap : mapAt ctx m va 0 = some root := by
    rw [mapAt, hroot']
    rfl
  exact walk_iff.2 ⟨root, hroot', h.walks hw hlast hmap, hlen⟩

/-- **A checked access** only reads page maps. -/
theorem checkedAccessVa_eq (h : ctx.SameMaps m m') {access : Prot} {cpl : Cpl} {ptr avail : Nat}
    (hrv : checkedAccessVa ctx m' access cpl va n = some (ptr, avail)) (hptr : ptr ≠ 0) :
    checkedAccessVa ctx m access cpl va n = some (ptr, avail) := by
  obtain ⟨es, leaf, last, pa, hwalk, hlast, hall, hpage, hpa, hrv⟩ := checkedAccessVa_inv hrv hptr
  have hleaf := (hall leaf (List.mem_append_right _ (List.mem_singleton_self leaf))).1
  rw [checkedAccessVa_of_walk (h.walk_eq hwalk hlast) hlast (fun x hx => (hall x hx).2) hleaf hpage hpa]
  exact h.pa2ptr hrv hptr

end Ctx.SameMaps

/-- The types of the context's tables are NORM, PAE or EPT. -/
def EmhfCtx.Walked : EmhfCtx → Prop
  | host h => h.t.Walked
  | guest g => g.t.Walked ∧ g.hostCtx.t.Walked

/-- A byte of a page map of the context, the host's included. -/
def EmhfCtx.InMaps (r : Rpb) (m : Mem) : EmhfCtx → Nat → Prop
  | host h, x => Hpt.InMaps (h.super r) m x
  | guest g, x => Hpt.InMaps (g.super r) m x ∨ Hpt.InMaps (g.hostCtx.super r) m x

theorem EmhfCtx.sameMaps {r : Rpb} {c : EmhfCtx} (hw : c.Walked) (h : ∀ x, c.InMaps r m x → m' x = m x) :
    (c.super r).SameMaps m m' := by
  cases c with
  | host c => exact ⟨hw, h, fun hptr _ => hptr⟩
  | guest g =>
    have hhost : (g.hostCtx.super r).SameMaps m m' :=
      ⟨hw.2, fun x hx => h x (Or.inr hx), fun hptr _ => hptr⟩
    exact ⟨hw.1, fun x hx => h x (Or.inl hx), fun hptr h0 => hhost.checkedAccessVa_eq hptr h0⟩

end Xmhf.Hpt
