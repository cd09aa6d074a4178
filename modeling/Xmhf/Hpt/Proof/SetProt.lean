import Xmhf.Hpt.Proof.Insert
import Xmhf.Hpt.Proof.Unseen

/-!
# Setting protections

`hptw_set_prot` at level 1. The entry written has the new protections and all else as before
(`pmeSetprot_one`); in a tree of page maps no walk of another page sees it (`unseen_of_tree`), and the
upper levels of the address's own walk do not either (`Walks.rewrite`).

An address is looked up by its low bits, 32 or 48 of them: those above are not part of its page
(`pageNumber`).
-/

namespace Xmhf.Hpt

open Xmhf.Memory Xmhf.Bitfield Xmhf.Paging

variable {ctx : Ctx} {m m' : Mem} {va va' : Va} {pmo pmo' last : Pmo} {e leaf leaf' : Pmeo}
  {es upper : List Pmeo} {n d k : Nat} {t : HptType} {pme pme' : Pme} {prot : Prot}

/-! ## Pages -/

/-- The page of an address among the pages that the type's tables map. -/
def pageNumber (t : HptType) (va : Va) : Nat :=
  va.toNat % 2 ^ (vaIdxHi t (typeMaxLvl t) + 1) / 2 ^ 12

/-- An index is a part of the address. -/
theorem getPmIdx_some {lvl : Nat} (h : OnLvl t lvl) (va : Va) : getPmIdx t lvl va =
    some (va.toNat % 2 ^ (vaIdxHi t lvl + 1) / 2 ^ (vaIdxHi t (lvl - 1) + 1)) := by
  have hvalid : typeIsValid t := by
    rcases h.walked with rfl | rfl | rfl
    all_goals decide
  have hlt := vaIdxHi_lt t lvl
  rw [getPmIdx, if_pos ⟨hvalid, h.le⟩, toNat_getHL va (by omega)]

/-- Addresses with the same indices are on one page. -/
theorem pageNumber_of_sameSpan (hw : t.Walked) (h : SameSpan t 1 va va') :
    pageNumber t va' = pageNumber t va := by
  have hidx : ∀ l, OnLvl t l → va.toNat % 2 ^ (vaIdxHi t l + 1) / 2 ^ (vaIdxHi t (l - 1) + 1) =
      va'.toNat % 2 ^ (vaIdxHi t l + 1) / 2 ^ (vaIdxHi t (l - 1) + 1) := by
    intro l hl
    have heq := h l hl.pos hl.le
    rw [getPmIdx_some hl, getPmIdx_some hl] at heq
    exact Option.some.inj heq
  have hlvl : ∀ l, 1 ≤ l → l ≤ typeMaxLvl t → OnLvl t l := fun l h1 h2 => ⟨hw, h1, h2⟩
  rcases hw with rfl | rfl | rfl
  · have h1 := hidx 1 (hlvl 1 (by decide) (by decide))
    have h2 := hidx 2 (hlvl 2 (by decide) (by decide))
    simp only [pageNumber, typeMaxLvl, vaIdxHi, Nat.reduceSub, Nat.reduceAdd] at h1 h2 ⊢
    omega
  · have h1 := hidx 1 (hlvl 1 (by decide) (by decide))
    have h2 := hidx 2 (hlvl 2 (by decide) (by decide))
    have h3 := hidx 3 (hlvl 3 (by decide) (by decide))
    simp only [pageNumber, typeMaxLvl, vaIdxHi, Nat.reduceSub, Nat.reduceAdd] at h1 h2 h3 ⊢
    omega
  · have h1 := hidx 1 (hlvl 1 (by decide) (by decide))
    have h2 := hidx 2 (hlvl 2 (by decide) (by decide))
    have h3 := hidx 3 (hlvl 3 (by decide) (by decide))
    have h4 := hidx 4 (hlvl 4 (by decide) (by decide))
    simp only [pageNumber, typeMaxLvl, vaIdxHi, Nat.reduceSub, Nat.reduceAdd] at h1 h2 h3 h4 ⊢
    omega

/-! ## The entry -/

/-- `pme'` is `pme` with other protections. -/
structure Reprotected (t : HptType) (pme pme' : Pme) (prot : Prot) : Prop where
  prot : pmeGetprot t 1 pme' = some prot
  user : pmeGetuser t 1 pme' = pmeGetuser t 1 pme
  address : pmeGetAddress t 1 pme' = pmeGetAddress t 1 pme
  fits : Fits t pme → Fits t pme'

/-- The address of a level-1 entry. -/
theorem getAddress_one (hw : t.Walked) (pme : Pme) :
    pmeGetAddress t 1 pme = some (copyBits 0 pme (addrHi t) 12 0) := by
  rcases hw with rfl | rfl | rfl
  all_goals rfl

theorem copyBits_congr {hi lo : Nat} (hhi : hi + 0 < 64)
    (h : ∀ i, lo ≤ i → i ≤ hi → pme'.getLsbD i = pme.getLsbD i) :
    copyBits 0 pme' hi lo 0 = copyBits 0 pme hi lo 0 := by
  apply BitVec.eq_of_getLsbD_eq
  intro i _
  rw [getLsbD_copyBits hhi, getLsbD_copyBits hhi]
  by_cases hi' : lo + 0 ≤ i ∧ i ≤ hi + 0
  · rw [if_pos hi', if_pos hi', Nat.sub_zero, h i (by omega) (by omega)]
  · rw [if_neg hi', if_neg hi']

/-- Only protection bits change: 0 and 1, and 2 of EPT or 63 of PAE. -/
theorem reprotected_of_bits (hw : t.Walked) (hprot : pmeGetprot t 1 pme' = some prot)
    (h2 : t ≠ .ept → pme'.getLsbD 2 = pme.getLsbD 2)
    (hmid : ∀ i, 3 ≤ i → i < 63 → pme'.getLsbD i = pme.getLsbD i)
    (h63 : t = .norm → pme'.getLsbD 63 = pme.getLsbD 63) : Reprotected t pme pme' prot := by
  have hhi : addrHi t < 63 := by cases t <;> decide
  have hbit : t ≠ .ept → getBit pme' 2 = getBit pme 2 := by
    intro ht
    rw [getBit_eq (by decide), getBit_eq (by decide), h2 ht]
  refine ⟨hprot, ?_, ?_, fun hfit => fits_of_high hfit fun ht i hi => ?_⟩
  · rcases hw with rfl | rfl | rfl
    · exact congrArg some (hbit (by decide))
    · exact congrArg some (hbit (by decide))
    · rfl
  · rw [getAddress_one hw, getAddress_one hw,
      copyBits_congr (by omega) fun i h1 h2 => hmid i (by omega) (by omega)]
  · rcases Nat.lt_trichotomy i 63 with hlt | rfl | hgt
    · exact hmid i (by omega) hlt
    · exact h63 ht
    · rw [BitVec.getLsbD_of_ge _ _ hgt, BitVec.getLsbD_of_ge _ _ hgt]

/-- Protections are their flags. -/
theorem protOf_eq (h : prot.toNat < 8) :
    protOf (prot.getLsbD 0) (prot.getLsbD 1) (prot.getLsbD 2) = prot := by
  have hall : ∀ k < 8, protOf ((BitVec.ofNat 64 k).getLsbD 0) ((BitVec.ofNat 64 k).getLsbD 1)
      ((BitVec.ofNat 64 k).getLsbD 2) = BitVec.ofNat 64 k := by decide
  have heq : BitVec.ofNat 64 prot.toNat = prot := by rw [BitVec.ofNat_toNat, BitVec.setWidth_eq]
  rw [← heq]
  exact hall prot.toNat h

/-- NORM has no execute flag of its own. -/
theorem protOf_norm (h : protIsValid .norm 1 prot) :
    prot.toNat < 8 ∧ protOf (prot.getLsbD 0) (prot.getLsbD 1) (prot.getLsbD 0) = prot := by
  rcases h with rfl | rfl | rfl
  all_goals decide

theorem lt_of_protIsValid_pae (h : protIsValid .pae 1 prot) : prot.toNat < 8 := by
  rcases h with rfl | rfl | ⟨-, rfl⟩ | rfl | rfl
  all_goals decide

/-- Protections of EPT fit their field, or fail an assertion. -/
theorem setHL_prot (pme : Pme) (prot : Prot) :
    setHL pme 2 0 prot = if prot.toNat < 8 then some (insertHL pme 2 0 prot) else none := by
  have hfits : zeroHi64 prot (63 - (2 - 0)) = prot ↔ prot.toNat < 8 := by
    have hz : (zeroHi64 prot (63 - 2)).toNat = prot.toNat % 2 ^ (2 + 1) := toNat_zeroHi64 prot (by decide)
    constructor
    · intro heq
      rw [Nat.sub_zero] at heq
      rw [heq] at hz
      omega
    · intro hlt
      apply BitVec.eq_of_toNat_eq
      rw [Nat.sub_zero, hz]
      omega
  rw [setHL]
  by_cases hlt : prot.toNat < 8
  · rw [if_pos (hfits.2 hlt), if_pos hlt]
  · rw [if_neg (mt hfits.1 hlt), if_neg hlt]

theorem getLsbD_insertHL_prot (pme : Pme) (h : prot.toNat < 8) (i : Nat) :
    (insertHL pme 2 0 prot).getLsbD i = if i ≤ 2 then prot.getLsbD i else pme.getLsbD i := by
  have hget : getHL prot 2 0 = prot := by
    apply BitVec.eq_of_toNat_eq
    rw [toNat_getHL prot (by decide)]
    omega
  have hcopy : (copyBits pme prot 2 0 0).getLsbD i =
      if 0 + 0 ≤ i ∧ i ≤ 2 + 0 then prot.getLsbD (i - 0) else pme.getLsbD i :=
    getLsbD_copyBits (by decide) pme prot i
  rw [copyBits, hget] at hcopy
  simpa using hcopy

theorem pmeSetprot_norm (hprot : protIsValid .norm 1 prot) (pme : Pme) :
    ∃ pme', pmeSetprot .norm 1 pme prot = some pme' ∧ Reprotected .norm pme pme' prot := by
  have hflags := (protOf_norm hprot).2
  have hbit : ∀ i, (setBit (setBit pme 0 (prot.getLsbD 0)) 1 (prot.getLsbD 1)).getLsbD i =
      if i = 1 then prot.getLsbD 1 else if i = 0 then prot.getLsbD 0 else pme.getLsbD i := by
    intro i
    rw [getLsbD_setBit (by decide), getLsbD_setBit (by decide)]
  refine ⟨_, if_pos ⟨by decide, hprot⟩, reprotected_of_bits (Or.inl rfl) ?_ ?_ ?_ ?_⟩
  · simp only [pmeGetprot, if_pos (show lvlIsValid .norm 1 by decide), hbit]
    exact congrArg some hflags
  · exact fun _ => hbit 2
  · exact fun i h1 h2 => by rw [hbit, if_neg (by omega), if_neg (by omega)]
  · exact fun _ => hbit 63

/-- PAE keeps the execute flag inverted, in bit 63. -/
theorem pmeSetprot_pae (hprot : protIsValid .pae 1 prot) (pme : Pme) :
    ∃ pme', pmeSetprot .pae 1 pme prot = some pme' ∧ Reprotected .pae pme pme' prot := by
  have hlt := lt_of_protIsValid_pae hprot
  have hbit : ∀ i, (setBit (setBit (setBit pme 0 (prot.getLsbD 0)) 1 (prot.getLsbD 1)) 63
      (!prot.getLsbD 2)).getLsbD i =
      if i = 63 then !prot.getLsbD 2 else if i = 1 then prot.getLsbD 1
      else if i = 0 then prot.getLsbD 0 else pme.getLsbD i := by
    intro i
    rw [getLsbD_setBit (by decide), getLsbD_setBit (by decide), getLsbD_setBit (by decide)]
  refine ⟨_, (if_pos ⟨by decide, hprot⟩).trans (if_pos (Or.inr rfl)),
    reprotected_of_bits (Or.inr (Or.inl rfl)) ?_ ?_ ?_ ?_⟩
  · simp only [pmeGetprot, if_pos (show lvlIsValid .pae 1 by decide), or_true, if_true, hbit]
    exact congrArg some ((congrArg _ (Bool.not_not _)).trans (protOf_eq hlt))
  · exact fun _ => hbit 2
  · exact fun i h1 h2 => by rw [hbit, if_neg (by omega), if_neg (by omega), if_neg (by omega)]
  · exact fun ht => by cases ht

theorem reprotected_ept (hlt : prot.toNat < 8) (pme : Pme) :
    Reprotected .ept pme (insertHL pme 2 0 prot) prot := by
  have hbit := getLsbD_insertHL_prot pme hlt
  refine reprotected_of_bits (Or.inr (Or.inr rfl)) ?_ ?_ ?_ ?_
  · simp only [pmeGetprot, if_pos (show lvlIsValid .ept 1 by decide), hbit]
    exact congrArg some (protOf_eq hlt)
  · exact fun ht => absurd rfl ht
  · exact fun i h1 _ => by rw [hbit, if_neg (by omega)]
  · exact fun ht => by cases ht

/-- **`hpt_pme_setprot` at level 1** changes the protections only; it fails an assertion just when EPT is
given other bits than its three. -/
theorem pmeSetprot_one (hw : t.Walked) (hprot : protIsValid t 1 prot) (pme : Pme) :
    (8 ≤ prot.toNat ∧ pmeSetprot t 1 pme prot = none) ∨
      prot.toNat < 8 ∧ ∃ pme', pmeSetprot t 1 pme prot = some pme' ∧ Reprotected t pme pme' prot := by
  rcases hw with rfl | rfl | rfl
  · exact Or.inr ⟨(protOf_norm hprot).1, pmeSetprot_norm hprot pme⟩
  · exact Or.inr ⟨lt_of_protIsValid_pae hprot, pmeSetprot_pae hprot pme⟩
  · have hset : pmeSetprot .ept 1 pme prot = setHL pme 2 0 prot := if_pos ⟨by decide, trivial⟩
    rw [hset, setHL_prot]
    by_cases hlt : prot.toNat < 8
    · exact Or.inr ⟨hlt, _, if_pos hlt, reprotected_ept hlt pme⟩
    · exact Or.inl ⟨Nat.not_lt.1 hlt, if_neg hlt⟩

/-! ## The walk of the address -/

/-- A walk to level 1 ends in the page map of its last entry. -/
theorem Walks.last_map (hw : ctx.t.Walked) (h : Walks ctx m va pmo es last)
    (hmap : mapAt ctx m va d = some pmo) (h1 : (es.getLast h.ne_nil).lvl = 1) :
    mapAt ctx m va (d + es.length - 1) = some last ∧ last.lvl = 1 ∧ last.pm ≠ 0 ∧
      last.getPmeoByVa m va = some (es.getLast h.ne_nil) := by
  induction h generalizing d with
  | @stop pmo last e hpm he hstep =>
    obtain ⟨ht, hlvl⟩ := getPmeoByVa_fields he
    have hl := (onLvl_of_mapAt hw hmap).2
    cases hstep with
    | absent => exact ⟨hmap, hlvl ▸ h1, hpm, he⟩
    | page => exact ⟨hmap, hlvl ▸ h1, hpm, he⟩
    | lost _ hpage =>
      have h1 : e.lvl = 1 := h1
      have h2 := hl.two_le (e := e.pme) (by rw [← ht, ← hlvl]; exact hpage)
      omega
  | @down pmo pmo' last e es hpm he hstep hw' ih =>
    have hnext := ih (mapAt_succ hmap hpm he hstep) (by rwa [List.getLast_cons hw'.ne_nil] at h1)
    rw [List.getLast_cons hw'.ne_nil]
    rwa [List.length_cons, show d + (es.length + 1) - 1 = d + 1 + es.length - 1 by omega]

theorem Walks.getPmoLoop_eq (hw : ctx.t.Walked) (h : Walks ctx m va pmo es last)
    (hmap : mapAt ctx m va d = some pmo) (h1 : (es.getLast h.ne_nil).lvl = 1) (hlen : es.length ≤ n) :
    getPmoLoop ctx m 1 va n pmo = some last := by
  induction h generalizing d n with
  | @stop pmo last e hpm he hstep =>
    have hlast := (Walks.stop hpm he hstep).last_map hw hmap h1
    have hlvl : pmo.lvl = 1 := (getPmeoByVa_fields he).2.symm.trans h1
    obtain rfl : pmo = last := Option.some.inj (hmap.symm.trans hlast.1)
    obtain ⟨n, rfl⟩ : ∃ k, n = k + 1 := ⟨n - 1, by simp at hlen; omega⟩
    rw [getPmoLoop, if_neg (by omega)]
  | @down pmo pmo' last e es hpm he hstep hw' ih =>
    obtain ⟨n, rfl⟩ : ∃ k, n = k + 1 := ⟨n - 1, by simp at hlen; omega⟩
    have hnext : nextLvl ctx m va pmo = some (true, pmo') := nextLvl_iff.2 ⟨hpm, e, he, hstep⟩
    have hrest := ih (mapAt_succ hmap hpm he hstep) (by rwa [List.getLast_cons hw'.ne_nil] at h1)
      (by simpa using hlen)
    have hlvl : 1 < pmo.lvl := by
      have hpos := (hstep.onLvl (onLvl_of_mapAt hw hmap).2.walked).2.pos
      cases hstep with
      | down => exact Nat.lt_of_sub_pos hpos
    simp only [getPmoLoop, if_pos hlvl, hnext, Option.bind_eq_bind, Option.bind_some, if_true]
    exact hrest

/-- **The walk after its last entry is rewritten.** -/
theorem Walks.rewrite (hw : ctx.t.Walked) (h : Walks ctx m va pmo es last)
    (hmap : mapAt ctx m va d = some pmo) (h1 : (es.getLast h.ne_nil).lvl = 1) (hptrs : ctx.SamePtrs m m')
    (hupper : ∀ k pmo, k < d + es.length - 1 → mapAt ctx m va k = some pmo →
      pmo.getPmeoByVa m' va = pmo.getPmeoByVa m va)
    (hleaf : last.getPmeoByVa m' va = some leaf') :
    Walks ctx m' va pmo (es.dropLast ++ [leaf']) last := by
  induction h generalizing d with
  | @stop pmo last e hpm he hstep =>
    have hlast := (Walks.stop hpm he hstep).last_map hw hmap h1
    obtain rfl : pmo = last := Option.some.inj (hmap.symm.trans hlast.1)
    have hl := (onLvl_of_mapAt hw hmap).2
    obtain ⟨ht, hlvl⟩ := getPmeoByVa_fields hleaf
    have hl' : OnLvl leaf'.t leaf'.lvl := ht.symm ▸ hlvl.symm ▸ hl
    have hpage : leaf'.isPage = some true := by
      have hone : OnLvl leaf'.t 1 := by rw [← hlast.2.1, ← hlvl]; exact hl'
      rw [Pmeo.isPage, hlvl, hlast.2.1, pmeIsPage_one hone]
    obtain ⟨present, hpresent⟩ := hl'.isPresent
    refine .stop hpm hleaf ?_
    cases present with
    | false => exact .absent hpresent
    | true => exact .page hpresent hpage
  | @down pmo pmo' last e es hpm he hstep hw' ih =>
    have hne := hw'.ne_nil
    have hpos := List.length_pos_iff.2 hne
    have hstep' : Step ctx m' pmo e true pmo' := by
      cases hstep with
      | down hpresent hpage hsz hpa hptr h0 =>
        exact .down hpresent hpage hsz hpa ((hptrs _ _ _ _).trans hptr) h0
    rw [List.dropLast_cons_of_ne_nil hne, List.cons_append]
    refine .down hpm ?_ hstep' (ih (mapAt_succ hmap hpm he hstep) ?_ ?_ hleaf)
    · rw [hupper d pmo (by simp; omega) hmap, he]
    · rwa [List.getLast_cons hne] at h1
    · exact fun k pmo hk => hupper k pmo (by simp; omega)

/-! ## Trees -/

/-- **Frame**: in a tree of page maps, a write to the level-1 entry of `va` is not seen by the walk of an
address on another page. -/
theorem unseen_of_tree (hw : ctx.t.Walked) (htree : TreeOfMaps ctx m) {v : Nat}
    (hptrs : ctx.SamePtrs m (last.written m va v)) (hmap : mapAt ctx m va d = some last)
    (h1 : last.lvl = 1) (hother : ¬ SameSpan ctx.t 1 va va') :
    ctx.Unseen m (last.written m va v) va' := by
  refine ⟨hptrs, fun k pmo hpmo => ?_⟩
  obtain ⟨ht, hl⟩ := onLvl_of_mapAt hw hpmo
  obtain ⟨htlast, hllast⟩ := onLvl_of_mapAt hw hmap
  rcases htree _ _ _ _ _ _ hpmo hmap with ⟨rfl, hidx⟩ | hapart
  · obtain rfl : pmo = last := by
      rw [mapAt_congr_va hidx, hmap] at hpmo
      exact (Option.some.inj hpmo).symm
    refine getPmeoByVa_of_index hl (fun heq => hother fun l hl1 hl2 => ?_) m v
    have hlvl := (lvl_of_mapAt hmap).2
    rcases Nat.lt_or_eq_of_le hl1 with hlt | rfl
    · have hk := hidx (typeMaxLvl ctx.t - l) (by omega)
      rw [show typeMaxLvl ctx.t - (typeMaxLvl ctx.t - l) = l by omega] at hk
      exact hk.symm
    · have hone : OnLvl ctx.t 1 := ⟨hw, Nat.le_refl 1, hl2⟩
      rw [h1, ht] at heq
      rw [(getPmIdx_eq hone va).1, (getPmIdx_eq hone va').1, heq]
  · exact getPmeoByVa_of_apart hl hllast hapart m va va' v

/-- The page maps of the context are a tree; a guest's are apart from those of its host. -/
def EmhfCtx.TreeOfMaps (r : Rpb) (m : Mem) : EmhfCtx → Prop
  | host h => Hpt.TreeOfMaps (h.super r) m
  | guest g => Hpt.TreeOfMaps (g.super r) m ∧ ∀ va d pmo gpa k pmo', mapAt (g.super r) m va d = some pmo →
      mapAt (g.hostCtx.super r) m gpa k = some pmo' → pmo'.Apart pmo

/-- A write to a page map of the context changes no answer of `pa2ptr`. -/
theorem EmhfCtx.samePtrs {r : Rpb} {c : EmhfCtx} (hw : c.Walked) (htree : c.TreeOfMaps r m)
    (hmap : mapAt (c.super r) m va d = some last) (v : Nat) :
    (c.super r).SamePtrs m (last.written m va v) := by
  cases c with
  | host h => exact fun _ _ _ _ => rfl
  | guest g =>
    intro gpa sz access cpl
    have hunseen : (g.hostCtx.super r).Unseen m (last.written m va v) gpa := by
      refine ⟨fun _ _ _ _ => rfl, fun k pmo hpmo => ?_⟩
      have hguest : (g.super r).t.Walked := hw.1
      have hhost : (g.hostCtx.super r).t.Walked := hw.2
      exact getPmeoByVa_of_apart (onLvl_of_mapAt hhost hpmo).2 (onLvl_of_mapAt hguest hmap).2
        (htree.2 _ _ _ _ _ _ hmap hpmo) m va gpa v
    exact hunseen.checkedAccessVa_eq

theorem EmhfCtx.TreeOfMaps.super {r : Rpb} {c : EmhfCtx} (h : c.TreeOfMaps r m) :
    Hpt.TreeOfMaps (c.super r) m := by
  cases c with
  | host _ => exact h
  | guest _ => exact h.1

theorem EmhfCtx.Walked.super {c : EmhfCtx} (h : c.Walked) (r : Rpb) : (c.super r).t.Walked := by
  cases c with
  | host _ => exact h
  | guest _ => exact h.1

/-! ## The update -/

theorem protsOf_append (es : List Pmeo) (e : Pmeo) (p : Prot) (u : Bool) :
    protsOf (es ++ [e]) p u = ((protsOf es p u).1 &&& e.getprot.getD protsNone,
      (protsOf es p u).2 && e.getuser.getD false) := by
  induction es generalizing p u with
  | nil => rfl
  | cons x es ih => exact ih _ _

/-- The page map of level 1 in which a walk ends, with its entry there. -/
structure LevelOne (ctx : Ctx) (m : Mem) (va : Va) (d : Nat) (leaf : Pmeo) (last : Pmo) : Prop where
  map : mapAt ctx m va d = some last
  type : last.t = ctx.t
  lvl : last.lvl = 1
  onLvl : OnLvl ctx.t 1
  pm : last.pm ≠ 0
  entry : last.getPmeoByVa m va = some leaf
  getPmo : getPmo ctx m 1 va = some last

theorem levelOne_of_walk (hw : ctx.t.Walked) (hwalk : walk ctx m va = some (upper ++ [leaf], last))
    (h1 : leaf.lvl = 1) : LevelOne ctx m va upper.length leaf last := by
  obtain ⟨root, hroot, hwalks, hlen⟩ := walk_iff.1 hwalk
  have hmap₀ := mapAt_of_getRoot hroot va
  have h1' : ((upper ++ [leaf]).getLast hwalks.ne_nil).lvl = 1 := by rwa [List.getLast_append_singleton]
  obtain ⟨hmap, hlvl, hpm, hleaf⟩ := hwalks.last_map hw hmap₀ h1'
  rw [List.getLast_append_singleton] at hleaf
  rw [Nat.zero_add, List.length_append, List.length_singleton, Nat.add_sub_cancel] at hmap
  obtain ⟨ht, hl⟩ := onLvl_of_mapAt hw hmap
  refine ⟨hmap, ht, hlvl, by rwa [ht, hlvl] at hl, hpm, hleaf, ?_⟩
  simp only [getPmo, hroot, Option.bind_eq_bind, Option.bind_some]
  exact hwalks.getPmoLoop_eq hw hmap₀ h1' hlen

namespace LevelOne

variable (h : LevelOne ctx m va d leaf last)
include h

theorem leaf_eq : leaf = ⟨leaf.pme, ctx.t, 1⟩ := by
  obtain ⟨ht, hlvl⟩ := getPmeoByVa_fields h.entry
  rw [h.type] at ht
  rw [h.lvl] at hlvl
  rw [← ht, ← hlvl]

theorem fits : Fits ctx.t leaf.pme := by
  have hl : OnLvl last.t last.lvl := by rw [h.type, h.lvl]; exact h.onLvl
  have hentry := h.entry
  rw [Pmo.getPmeoByVa, pmGetPmeByVa_eq hl, Option.map_some, Option.some.injEq] at hentry
  rw [← hentry, ← h.type]
  exact entryAt_fits hl.walked ..

/-- `hptw_set_prot` there. -/
theorem setProt_eq : setProt ctx m va prot =
    (pmeSetprot ctx.t 1 leaf.pme prot).map fun pme => last.written m va pme.toNat := by
  have hl : OnLvl last.t last.lvl := by rw [h.type, h.lvl]; exact h.onLvl
  have hprot : leaf.setprot prot = (pmeSetprot ctx.t 1 leaf.pme prot).map fun pme => { leaf with pme } := by
    rw [h.leaf_eq]
    rfl
  simp only [setProt, h.getPmo, h.entry, hprot, h.pm, h.lvl, Option.bind_eq_bind, Option.bind_some, ne_eq,
    not_false_eq_true, guard_true, Option.pure_def]
  cases pmeSetprot ctx.t 1 leaf.pme prot with
  | none => rfl
  | some pme => exact pmSetPmeByVa_eq hl m last.pm va pme

end LevelOne

/-- **Effect**: in a tree of page maps only the last entry of the walk is another one. -/
theorem walk_written (hw : ctx.t.Walked) (htree : TreeOfMaps ctx m)
    (hwalk : walk ctx m va = some (upper ++ [leaf], last)) (h1 : leaf.lvl = 1)
    (hptrs : ctx.SamePtrs m (last.written m va pme.toNat)) (hfit : Fits ctx.t pme) :
    walk ctx (last.written m va pme.toNat) va = some (upper ++ [⟨pme, ctx.t, 1⟩], last) := by
  have hone := levelOne_of_walk hw hwalk h1
  have hl : OnLvl last.t last.lvl := by rw [hone.type, hone.lvl]; exact hone.onLvl
  obtain ⟨root, hroot, hwalks, hlen⟩ := walk_iff.1 hwalk
  have h1' : ((upper ++ [leaf]).getLast hwalks.ne_nil).lvl = 1 := by rwa [List.getLast_append_singleton]
  have hread := getPmeoByVa_written hl (hone.type ▸ hfit) m va
  rw [hone.type, hone.lvl] at hread
  have hwalks' := hwalks.rewrite hw (mapAt_of_getRoot hroot va) h1' hptrs (fun k pmo hk hpmo => ?_) hread
  · rw [List.dropLast_concat] at hwalks'
    exact walk_iff.2 ⟨root, hptrs.getRoot_eq.trans hroot, hwalks', by simpa using hlen⟩
  · have hk : k < upper.length := by simpa using hk
    rcases htree _ _ _ _ _ _ hpmo hone.map with ⟨rfl, -⟩ | hapart
    · exact absurd hk (Nat.lt_irrefl _)
    · exact getPmeoByVa_of_apart (onLvl_of_mapAt hw hpmo).2 hl hapart m va va _

theorem HptType.Walked.ne_invalid (h : t.Walked) : t ≠ .invalid := by
  rcases h with rfl | rfl | rfl
  all_goals decide

theorem getEffectiveProts_of_levelOne (hw : ctx.t.Walked)
    (hwalk : walk ctx m va = some (upper ++ [⟨pme, ctx.t, 1⟩], last)) (hprot : pmeGetprot ctx.t 1 pme = some prot) :
    getEffectiveProts ctx m va = some ((protsOf upper protsRWX true).1 &&& prot,
      some ((protsOf upper protsRWX true).2 && (pmeGetuser ctx.t 1 pme).getD false)) := by
  have hone := levelOne_of_walk hw hwalk rfl
  have hlast : last.t ≠ .invalid := hone.type ▸ hw.ne_invalid
  rw [getEffectiveProts_of_walk hwalk hlast, protsOf_append]
  simp only [Pmeo.getprot, Pmeo.getuser, hprot, Option.getD_some]

/-- **`hptw_set_prot` is local and effective.** For a context of type NORM, PAE or EPT whose page maps form
a tree, and an address whose walk reaches level 1: the update is made, unless EPT is given other bits than
its three. Then the effective protections are the new ones with those of the entries above, the address and
user bits of the entry stay, and so do the protections, user access and translation of every other page. -/
theorem EmhfCtx.setProt_spec (r : Rpb) {c : EmhfCtx} (hw : c.Walked) (htree : c.TreeOfMaps r m)
    (hwalk : walk (c.super r) m va = some (upper ++ [leaf], last)) (h1 : leaf.lvl = 1)
    (hprot : protIsValid (c.super r).t 1 prot) :
    ((∃ m', setProt (c.super r) m va prot = some m') ↔ prot.toNat < 8) ∧
      ∀ m', setProt (c.super r) m va prot = some m' →
        (∃ prots user, getEffectiveProts (c.super r) m va = some (prots, some user) ∧
          getEffectiveProts (c.super r) m' va =
            some ((protsOf upper protsRWX true).1 &&& prot, some user)) ∧
        (∃ leaf', walk (c.super r) m' va = some (upper ++ [leaf'], last) ∧
          leaf'.getAddress = leaf.getAddress ∧ leaf'.getuser = leaf.getuser) ∧
        ∀ va', pageNumber (c.super r).t va' ≠ pageNumber (c.super r).t va →
          getEffectiveProts (c.super r) m' va' = getEffectiveProts (c.super r) m va' ∧
            vaToPa (c.super r) m' va' = vaToPa (c.super r) m va' := by
  have hctx := hw.super r
  have hone := levelOne_of_walk hctx hwalk h1
  rw [hone.setProt_eq]
  rcases pmeSetprot_one hctx hprot leaf.pme with ⟨h8, hnone⟩ | ⟨h8, pme', hset, hpme⟩
  · rw [hnone]
    exact ⟨iff_of_false (fun ⟨_, hm⟩ => by cases hm) (Nat.not_lt.2 h8), fun _ hm => by cases hm⟩
  · rw [hset, Option.map_some]
    refine ⟨iff_of_true ⟨_, rfl⟩ h8, fun m' hm => ?_⟩
    cases hm
    have hptrs := EmhfCtx.samePtrs hw htree hone.map pme'.toNat
    have hwalk' := walk_written hctx htree.super hwalk h1 hptrs (hpme.fits hone.fits)
    obtain ⟨prot₀, -, hprot₀, -⟩ := leaf.fields_of_isPresent (b := leaf.pme.getLsbD 0) (by
      rw [hone.leaf_eq]
      exact pmeIsPresent_eq hone.onLvl _)
    rw [hone.leaf_eq] at hwalk hprot₀
    refine ⟨⟨_, _, getEffectiveProts_of_levelOne hctx hwalk hprot₀, ?_⟩,
      ⟨_, hwalk', ?_, ?_⟩, fun va' hother => ?_⟩
    · rw [getEffectiveProts_of_levelOne hctx hwalk' hpme.prot, hpme.user]
    · rw [hone.leaf_eq]
      exact hpme.address
    · rw [hone.leaf_eq]
      exact hpme.user
    · have hunseen := unseen_of_tree hctx htree.super hptrs hone.map hone.lvl fun hspan =>
        hother (pageNumber_of_sameSpan hctx hspan)
      exact ⟨hunseen.getEffectiveProts_eq, hunseen.vaToPa_eq⟩

/-! ## A directory and a table -/

/-- A NORM page directory at 0x1000 whose first entry links an empty page table at 0x2000, seen by the
runtime's pointers. -/
def directoryMem : Mem := writeLE (fun _ => 0) 0xB0001000 4 0x2007

/-- Its context. -/
def directoryHost : HostCtx := ⟨0x1000, .norm⟩

theorem entryAt_directory (i : Nat) :
    entryAt .norm directoryMem 0xB0001000 i = if i = 0 then 0x2007 else 0 := by
  have hw : HptType.norm.Walked := Or.inl rfl
  by_cases hi : i = 0
  · rw [if_pos hi, hi]
    exact entryAt_write (e := 0x2007) hw (show _ < _ by decide) (fun _ => 0) 0xB0001000 0
  · rw [if_neg hi]
    refine entryAt_zero hw fun x h1 _ => writeLE_apply_of_disjoint (Or.inr ?_)
    have hpos : 4 * 1 ≤ widthOf .norm * i := Nat.mul_le_mul_left 4 (Nat.one_le_iff_ne_zero.2 hi)
    omega

/-- The directory, and under its first entry the table. -/
theorem treeAt_directory {va : Va} {d p : Nat} (h : treeAt relocated directoryHost directoryMem va d = some p) :
    d = 0 ∧ p = 0xB0001000 ∨ d = 1 ∧ p = 0xB0002000 ∧ idxOf .norm 2 va = 0 := by
  have hw : directoryHost.t.Walked := Or.inl rfl
  have h0 : spa2hva1 relocated directoryHost.rootPa.toNat ≠ 0 := by decide
  have hd := (lt_of_mapAt hw h0 h).2
  have hd2 : d < 2 := hd
  rcases Nat.eq_zero_or_pos d with rfl | hpos
  · exact Or.inl ⟨rfl, (Option.some.inj h).symm⟩
  · obtain rfl : d = 1 := by omega
    obtain ⟨root, hroot, hchild⟩ := Radix.mapAt_succ_eq_some.1 h
    obtain rfl : 0xB0001000 = root := Option.some.inj hroot
    have hchild : childOf relocated .norm 2 (entryAt .norm directoryMem 0xB0001000 (idxOf .norm 2 va)) =
        some p := hchild
    rw [entryAt_directory] at hchild
    by_cases hi : idxOf .norm 2 va = 0
    · rw [if_pos hi, show childOf relocated .norm 2 0x2007 = some 0xB0002000 by decide +kernel] at hchild
      exact Or.inr ⟨rfl, (Option.some.inj hchild).symm, hi⟩
    · rw [if_neg hi, show childOf relocated .norm 2 0 = none by decide +kernel] at hchild
      cases hchild

theorem treeOfMaps_directory : EmhfCtx.TreeOfMaps relocated directoryMem (.host directoryHost) := by
  have hw : directoryHost.t.Walked := Or.inl rfl
  have h0 : spa2hva1 relocated directoryHost.rootPa.toNat ≠ 0 := by decide
  have hone : OnLvl .norm 2 := ⟨Or.inl rfl, by decide, by decide⟩
  intro va va' d d' pmo pmo' h h'
  rw [mapAt_eq hw h0] at h h'
  obtain ⟨p, hp, rfl⟩ := Option.map_eq_some_iff.1 h
  obtain ⟨p', hp', rfl⟩ := Option.map_eq_some_iff.1 h'
  rcases treeAt_directory hp with ⟨rfl, rfl⟩ | ⟨rfl, rfl, hidx⟩ <;>
    rcases treeAt_directory hp' with ⟨rfl, rfl⟩ | ⟨rfl, rfl, hidx'⟩
  · exact Or.inl ⟨rfl, fun k hk => absurd hk (Nat.not_lt_zero k)⟩
  · exact Or.inr (Or.inl (by decide))
  · exact Or.inr (Or.inr (by decide))
  · refine Or.inl ⟨rfl, fun k hk => ?_⟩
    obtain rfl := Nat.lt_one_iff.1 hk
    have hva : getPmIdx .norm 2 va = getPmIdx .norm 2 va' := by
      rw [(getPmIdx_eq hone va).1, (getPmIdx_eq hone va').1, hidx, hidx']
    exact hva

theorem walk_directory : walk ((EmhfCtx.host directoryHost).super relocated) directoryMem 0 =
    some ([⟨0x2007, .norm, 2⟩] ++ [⟨0, .norm, 1⟩], ⟨0xB0002000, .norm, 1⟩) := by decide +kernel

theorem EmhfCtx.setProt_spec_directory :
    ∃ m', setProt ((EmhfCtx.host directoryHost).super relocated) directoryMem 0 protsRX = some m' ∧
      (∃ user, getEffectiveProts ((EmhfCtx.host directoryHost).super relocated) m' 0 =
        some (protsRX, some user)) ∧
      ∀ va', pageNumber .norm va' ≠ 0 →
        getEffectiveProts ((EmhfCtx.host directoryHost).super relocated) m' va' =
          getEffectiveProts ((EmhfCtx.host directoryHost).super relocated) directoryMem va' := by
  obtain ⟨hreturns, hspec⟩ := EmhfCtx.setProt_spec relocated (c := .host directoryHost)
    (Or.inl rfl) treeOfMaps_directory walk_directory rfl
    (show protIsValid .norm 1 protsRX from Or.inr (Or.inl rfl))
  obtain ⟨m', hset⟩ := hreturns.2 (by decide)
  obtain ⟨⟨prots, user, -, hprots⟩, -, hframe⟩ := hspec m' hset
  have hupper : (protsOf [⟨0x2007, .norm, 2⟩] protsRWX true).1 &&& protsRX = protsRX := by decide +kernel
  rw [hupper] at hprots
  exact ⟨m', hset, ⟨user, hprots⟩, fun va' hva => (hframe va' hva).1⟩

/-- 2^32 is on another page, and is looked up as 0; and EPT has protections that are valid and abort. -/
theorem setProt_alias :
    EmhfCtx.TreeOfMaps relocated directoryMem (.host directoryHost) ∧
      walk ((EmhfCtx.host directoryHost).super relocated) directoryMem 0 =
        some ([⟨0x2007, .norm, 2⟩] ++ [⟨0, .norm, 1⟩], ⟨0xB0002000, .norm, 1⟩) ∧
      protIsValid .norm 1 protsRWX ∧ (0x100000000 : Va) >>> 12 ≠ (0 : Va) >>> 12 ∧
      ((setProt ((EmhfCtx.host directoryHost).super relocated) directoryMem 0 protsRWX).map fun m' =>
        getEffectiveProts ((EmhfCtx.host directoryHost).super relocated) m' 0x100000000) =
          some (some (protsRWX, some false)) ∧
      getEffectiveProts ((EmhfCtx.host directoryHost).super relocated) directoryMem 0x100000000 =
        some (protsNone, some false) ∧
      protIsValid .ept 1 8 ∧ pmeSetprot .ept 1 0 8 = none := by
  exact ⟨treeOfMaps_directory, walk_directory, by decide, by decide, by decide +kernel, by decide +kernel,
    trivial, by decide +kernel⟩

end Xmhf.Hpt
