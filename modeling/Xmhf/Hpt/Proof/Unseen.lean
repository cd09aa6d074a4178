import Xmhf.Hpt.Proof.Total

/-!
# Writes that a walk does not see

`Ctx.Unseen ctx m m' va`: from `m` to `m'` no entry on the walk of `va` and no answer of `pa2ptr` changes.
Then every function of the walker does the same for `va` (`Unseen.getEffectiveProts_eq` and its siblings).

One entry's write is not seen by the walks through page maps apart from its own (`getPmeoByVa_of_apart`)
or through another entry of it (`getPmeoByVa_of_index`).
-/

namespace Xmhf.Hpt

open Xmhf.Memory Xmhf.Bitfield Xmhf.Paging

variable {ctx : Ctx} {m m' : Mem} {va va' : Va} {pmo pmo' last : Pmo} {e leaf leaf' : Pmeo}
  {es : List Pmeo} {access : Prot} {cpl : Cpl} {n d k endLvl requested : Nat}

/-- `pa2ptr` answers the same. -/
def Ctx.SamePtrs (ctx : Ctx) (m m' : Mem) : Prop :=
  ∀ pa sz access cpl, ctx.pa2ptr m' pa sz access cpl = ctx.pa2ptr m pa sz access cpl

/-- The walk of `va` sees no difference between `m` and `m'`. -/
structure Ctx.Unseen (ctx : Ctx) (m m' : Mem) (va : Va) : Prop where
  ptrs : ctx.SamePtrs m m'
  entry : ∀ d pmo, mapAt ctx m va d = some pmo → pmo.getPmeoByVa m' va = pmo.getPmeoByVa m va

/-! ## The walker on such memories -/

theorem mapAt_of_nextLvl (hmap : mapAt ctx m va d = some pmo)
    (hnext : nextLvl ctx m va pmo = some (true, pmo')) : mapAt ctx m va (d + 1) = some pmo' := by
  rw [mapAt, hmap, Option.bind_some, hnext]
  rfl

theorem mapAt_of_getRoot (hroot : getRoot ctx m = some (some pmo)) (va : Va) :
    mapAt ctx m va 0 = some pmo := by
  rw [mapAt, hroot]
  rfl

/-- `hptw_get_pmo` ends at a page map of the walk, or has lost the next one. -/
theorem getPmoLoop_found (hmap : mapAt ctx m va d = some pmo)
    (h : getPmoLoop ctx m endLvl va n pmo = some last) :
    (∃ d', mapAt ctx m va d' = some last) ∨ last.t = .invalid := by
  induction n generalizing d pmo with
  | zero =>
    cases h
    exact Or.inl ⟨d, hmap⟩
  | succ n ih =>
    rw [getPmoLoop] at h
    by_cases hlvl : endLvl < pmo.lvl
    · simp only [if_pos hlvl, Option.bind_eq_bind, Option.bind_eq_some_iff] at h
      obtain ⟨⟨down, pmo'⟩, hnext, h⟩ := h
      cases down with
      | true => exact ih (mapAt_of_nextLvl hmap hnext) h
      | false =>
        cases h
        obtain ⟨-, e, -, hstep⟩ := nextLvl_iff.1 hnext
        cases hstep with
        | absent => exact Or.inl ⟨d, hmap⟩
        | page => exact Or.inl ⟨d, hmap⟩
        | lost => exact Or.inr rfl
    · rw [if_neg hlvl] at h
      cases h
      exact Or.inl ⟨d, hmap⟩

theorem Pmo.getPmeoByVa_invalid (h : pmo.t = .invalid) (m : Mem) (va : Va) :
    pmo.getPmeoByVa m va = none := by
  simp [getPmeoByVa, pmGetPmeByVa, getPmIdx, typeIsValid, h]

theorem Ctx.SamePtrs.getRoot_eq (h : ctx.SamePtrs m m') : getRoot ctx m' = getRoot ctx m := by
  simp only [getRoot, h _ _ _ _]

namespace Ctx.Unseen

variable (h : ctx.Unseen m m' va)
include h

theorem nextLvl_eq (hmap : mapAt ctx m va d = some pmo) :
    nextLvl ctx m' va pmo = nextLvl ctx m va pmo := by
  simp only [nextLvl, h.entry d pmo hmap, h.ptrs _ _ _ _]

theorem getPmoLoop_eq (hmap : mapAt ctx m va d = some pmo) :
    getPmoLoop ctx m' endLvl va n pmo = getPmoLoop ctx m endLvl va n pmo := by
  induction n generalizing d pmo with
  | zero => rfl
  | succ n ih =>
    simp only [getPmoLoop, h.nextLvl_eq hmap]
    by_cases hlvl : endLvl < pmo.lvl
    · simp only [if_pos hlvl]
      refine Option.bind_congr fun q hnext => ?_
      obtain ⟨down, pmo'⟩ := q
      cases down with
      | false => rfl
      | true => exact ih (mapAt_of_nextLvl hmap hnext)
    · simp only [if_neg hlvl]

theorem effectiveLoop_eq (hmap : mapAt ctx m va d = some pmo) (p : Prot) (u : Bool) :
    effectiveLoop ctx m' va n pmo p u = effectiveLoop ctx m va n pmo p u := by
  induction n generalizing d pmo p u with
  | zero => rfl
  | succ n ih =>
    simp only [effectiveLoop, h.entry d pmo hmap, h.nextLvl_eq hmap]
    refine Option.bind_congr fun e he => Option.bind_congr fun prot hprot => ?_
    refine Option.bind_congr fun user huser => Option.bind_congr fun q hnext => ?_
    obtain ⟨down, pmo'⟩ := q
    cases down with
    | false => rfl
    | true => exact ih (mapAt_of_nextLvl hmap hnext) _ _

theorem checkedLoop_eq (hmap : mapAt ctx m va d = some pmo) :
    checkedLoop ctx m' access cpl va n pmo = checkedLoop ctx m access cpl va n pmo := by
  induction n generalizing d pmo with
  | zero => rfl
  | succ n ih =>
    simp only [checkedLoop, h.entry d pmo hmap, h.nextLvl_eq hmap]
    refine Option.bind_congr fun e he => Option.bind_congr fun prot hprot => ?_
    refine Option.bind_congr fun user huser => ?_
    by_cases hg : grants access cpl prot user
    · simp only [if_pos hg]
      refine Option.bind_congr fun q hnext => ?_
      obtain ⟨down, pmo'⟩ := q
      cases down with
      | false => rfl
      | true => exact ih (mapAt_of_nextLvl hmap hnext)
    · simp only [if_neg hg]

theorem getEffectiveProts_eq : getEffectiveProts ctx m' va = getEffectiveProts ctx m va := by
  simp only [getEffectiveProts, h.ptrs.getRoot_eq]
  refine Option.bind_congr fun root hroot => ?_
  cases root with
  | none => rfl
  | some root => simp only [h.effectiveLoop_eq (mapAt_of_getRoot hroot va)]

theorem vaToPa_eq : vaToPa ctx m' va = vaToPa ctx m va := by
  simp only [vaToPa, getPmeo, getPmo, h.ptrs.getRoot_eq, Option.bind_eq_bind, Option.bind_assoc]
  refine Option.bind_congr fun root hroot => ?_
  cases root with
  | none => rfl
  | some root =>
    have hmap := mapAt_of_getRoot hroot va
    simp only [h.getPmoLoop_eq hmap]
    refine Option.bind_congr fun found hfound => ?_
    rcases getPmoLoop_found hmap hfound with ⟨d, hd⟩ | hinvalid
    · rw [h.entry d found hd]
    · rw [found.getPmeoByVa_invalid hinvalid, found.getPmeoByVa_invalid hinvalid]

theorem checkedAccessVa_eq : checkedAccessVa ctx m' access cpl va requested =
    checkedAccessVa ctx m access cpl va requested := by
  simp only [checkedAccessVa, h.ptrs.getRoot_eq, h.ptrs _ _ _ _]
  refine Option.bind_congr fun root hroot => ?_
  cases root with
  | none => rfl
  | some root => simp only [h.checkedLoop_eq (mapAt_of_getRoot hroot va)]

end Ctx.Unseen

/-! ## One entry's write -/

/-- `m` with `v` in the entry of `va` in the page map `pmo`. -/
def Pmo.written (m : Mem) (pmo : Pmo) (va : Va) (v : Nat) : Mem :=
  writeLE m (pmo.pm + widthOf pmo.t * idxOf pmo.t pmo.lvl va) (widthOf pmo.t) v

/-- The entries of other page maps stay. -/
theorem getPmeoByVa_of_apart (hl : OnLvl pmo.t pmo.lvl) (hlast : OnLvl last.t last.lvl)
    (hapart : pmo.Apart last) (m : Mem) (va va' : Va) (v : Nat) :
    pmo.getPmeoByVa (last.written m va v) va' = pmo.getPmeoByVa m va' := by
  have hin := (getPmIdx_eq hl va').2
  have hin' := (getPmIdx_eq hlast va).2
  have hsame : entryAt pmo.t (last.written m va v) pmo.pm (idxOf pmo.t pmo.lvl va') =
      entryAt pmo.t m pmo.pm (idxOf pmo.t pmo.lvl va') := by
    refine entryAt_congr hl.walked fun x h1 h2 => writeLE_apply_of_disjoint ?_
    rcases hapart with hapart | hapart
    · omega
    · omega
  rw [Pmo.getPmeoByVa, Pmo.getPmeoByVa, pmGetPmeByVa_eq hl, pmGetPmeByVa_eq hl, hsame]

theorem getPmeoByVa_of_index (hl : OnLvl pmo.t pmo.lvl)
    (hidx : idxOf pmo.t pmo.lvl va' ≠ idxOf pmo.t pmo.lvl va) (m : Mem) (v : Nat) :
    pmo.getPmeoByVa (pmo.written m va v) va' = pmo.getPmeoByVa m va' := by
  have hdisjoint := entry_apart (w := widthOf pmo.t) pmo.pm hidx
  have hsame : entryAt pmo.t (pmo.written m va v) pmo.pm (idxOf pmo.t pmo.lvl va') =
      entryAt pmo.t m pmo.pm (idxOf pmo.t pmo.lvl va') := by
    refine entryAt_congr hl.walked fun x h1 h2 => writeLE_apply_of_disjoint ?_
    omega
  rw [Pmo.getPmeoByVa, Pmo.getPmeoByVa, pmGetPmeByVa_eq hl, pmGetPmeByVa_eq hl, hsame]

theorem getPmeoByVa_written {pme : Pme} (hl : OnLvl pmo.t pmo.lvl) (hfit : Fits pmo.t pme) (m : Mem)
    (va : Va) : pmo.getPmeoByVa (pmo.written m va pme.toNat) va = some ⟨pme, pmo.t, pmo.lvl⟩ := by
  rw [Pmo.getPmeoByVa, pmGetPmeByVa_eq hl, Pmo.written, entryAt_write hl.walked hfit]
  rfl

/-! ## Trees -/

theorem lvl_of_mapAt (h : mapAt ctx m va d = some pmo) : pmo.t = ctx.t ∧ pmo.lvl = typeMaxLvl ctx.t - d := by
  induction d generalizing pmo with
  | zero =>
    obtain ⟨root, hroot, rfl⟩ := Option.bind_eq_some_iff.1 h
    simp only [getRoot, Option.bind_eq_bind, Option.bind_eq_some_iff] at hroot
    obtain ⟨sz, -, ⟨pm, avail⟩, -, hroot⟩ := hroot
    obtain ⟨-, hroot⟩ := Option.ite_none_right_eq_some.1 (Option.some.inj hroot)
    obtain rfl := Option.some.inj hroot
    exact ⟨rfl, rfl⟩
  | succ d ih =>
    obtain ⟨pmo', hmap, h⟩ := Option.bind_eq_some_iff.1 h
    obtain ⟨⟨b, pmo''⟩, hnext, h⟩ := Option.bind_eq_some_iff.1 h
    obtain ⟨rfl, h⟩ := Option.ite_none_right_eq_some.1 h
    obtain rfl := Option.some.inj h
    obtain ⟨-, e, -, hstep⟩ := nextLvl_iff.1 hnext
    obtain ⟨ht, hlvl⟩ := ih hmap
    cases hstep with
    | down => exact ⟨ht, by rw [Nat.sub_add_eq, ← hlvl]⟩

/-- Addresses with the same indices above a level share the page map there. -/
theorem mapAt_congr_va (h : ∀ k < d, getPmIdx ctx.t (typeMaxLvl ctx.t - k) va' =
    getPmIdx ctx.t (typeMaxLvl ctx.t - k) va) : mapAt ctx m va' d = mapAt ctx m va d := by
  induction d with
  | zero => rfl
  | succ d ih =>
    rw [mapAt, mapAt, ih fun k hk => h k (Nat.lt_succ_of_lt hk)]
    refine Option.bind_congr fun pmo hmap => ?_
    obtain ⟨ht, hlvl⟩ := lvl_of_mapAt hmap
    have hget : pmo.getPmeoByVa m va' = pmo.getPmeoByVa m va := by
      rw [Pmo.getPmeoByVa, Pmo.getPmeoByVa, pmGetPmeByVa, pmGetPmeByVa, ht, hlvl, h d (Nat.lt_succ_self d)]
    simp only [nextLvl, hget]

end Xmhf.Hpt
