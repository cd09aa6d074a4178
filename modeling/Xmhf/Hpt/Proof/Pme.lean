import Xmhf.Hpt.Insert

/-!
# Entries as the walker uses them

For the types whose walks pass their assertions (`HptType.Walked`), at the levels of their page maps:
the getters have values (`pmeIsPresent_eq`, `pmeIsPage_eq`, `getAddress_map`), an index stays in its
page map (`getPmIdx_eq`), an entry reads back (`entryAt_write`), and an entry made to link a page map
does (`link_spec`).
-/

namespace Xmhf.Hpt

open Xmhf.Memory Xmhf.Bitfield Xmhf.Paging

variable {t : HptType} {lvl : Nat} {e : Pme} {m : Mem} {va : Va}

/-- NORM, PAE and EPT. -/
def HptType.Walked (t : HptType) : Prop := t = .norm ∨ t = .pae ∨ t = .ept

/-- A level of the page maps of the type. -/
structure OnLvl (t : HptType) (lvl : Nat) : Prop where
  walked : t.Walked
  pos : 1 ≤ lvl
  le : lvl ≤ typeMaxLvl t

/-- The type and the level, one by one. -/
theorem OnLvl.cases (h : OnLvl t lvl) :
    (t = .norm ∧ (lvl = 1 ∨ lvl = 2)) ∨ (t = .pae ∧ (lvl = 1 ∨ lvl = 2 ∨ lvl = 3)) ∨
      (t = .ept ∧ (lvl = 1 ∨ lvl = 2 ∨ lvl = 3 ∨ lvl = 4)) := by
  obtain ⟨rfl | rfl | rfl, hpos, hle⟩ := h <;> simp only [typeMaxLvl] at hle
  · exact Or.inl ⟨rfl, by omega⟩
  · exact Or.inr (Or.inl ⟨rfl, by omega⟩)
  · exact Or.inr (Or.inr ⟨rfl, by omega⟩)

/-! ## Getters -/

theorem pmeIsPresent_eq (h : OnLvl t lvl) (e : Pme) : pmeIsPresent t lvl e = some (e.getLsbD 0) := by
  have hbit : ∀ r w x, (protOf r w x).getLsbD 0 = r := by decide
  rcases h.cases with ⟨rfl, rfl | rfl⟩ | ⟨rfl, rfl | rfl | rfl⟩ | ⟨rfl, rfl | rfl | rfl | rfl⟩ <;>
    exact congrArg some (hbit _ _ _)

theorem pmeIsPage_eq (h : OnLvl t lvl) (e : Pme) :
    pmeIsPage t lvl e = some (lvl == 1 || (decide (lvl ≤ 3 ∧ ¬ (t = .pae ∧ lvl = 3)) && e.getLsbD 7)) := by
  have hbit := getBit_eq (show 7 < 64 by decide) e
  rcases h.cases with ⟨rfl, rfl | rfl⟩ | ⟨rfl, rfl | rfl | rfl⟩ | ⟨rfl, rfl | rfl | rfl | rfl⟩ <;>
    simp [pmeIsPage, hbit]

theorem pmeIsPage_one (h : OnLvl t 1) (e : Pme) : pmeIsPage t 1 e = some true := by
  rw [pmeIsPage_eq h]
  rfl

theorem OnLvl.two_le (h : OnLvl t lvl) (hpage : pmeIsPage t lvl e = some false) : 2 ≤ lvl := by
  rcases Nat.lt_or_eq_of_le h.pos with hlt | rfl
  · exact hlt
  · rw [pmeIsPage_one h] at hpage
    cases hpage

theorem OnLvl.pred (h : OnLvl t lvl) (h2 : 2 ≤ lvl) : OnLvl t (lvl - 1) := by
  refine ⟨h.walked, by omega, ?_⟩
  have := h.le
  omega

theorem pmSize_eq (h : OnLvl t lvl) : pmSize t lvl = some (pmSizes t lvl) := by
  rcases h.cases with ⟨rfl, rfl | rfl⟩ | ⟨rfl, rfl | rfl | rfl⟩ | ⟨rfl, rfl | rfl | rfl | rfl⟩ <;> rfl

/-- The high bit of the address in an entry that links a page map. -/
def addrHi : HptType → Nat
  | .norm => 31
  | _ => 51

theorem getAddress_map (h : OnLvl t lvl) (hpage : pmeIsPage t lvl e = some false) :
    pmeGetAddress t lvl e = some (copyBits 0 e (addrHi t) 12 0) := by
  have h2 := h.two_le hpage
  rcases h.cases with ⟨rfl, rfl | rfl⟩ | ⟨rfl, rfl | rfl | rfl⟩ | ⟨rfl, rfl | rfl | rfl | rfl⟩ <;>
    simp [pmeGetAddress, hpage, addrHi] at h2 ⊢

theorem setAddress_map (h : OnLvl t lvl) (hpage : pmeIsPage t lvl e = some false) (pa : Pa) :
    pmeSetAddress t lvl e pa = some (copyBits e pa (addrHi t) 12 0) := by
  have h2 := h.two_le hpage
  rcases h.cases with ⟨rfl, rfl | rfl⟩ | ⟨rfl, rfl | rfl | rfl⟩ | ⟨rfl, rfl | rfl | rfl | rfl⟩ <;>
    simp [pmeSetAddress, hpage, addrHi] at h2 ⊢

/-! ## Entries in memory -/

/-- The width of an entry of the type. -/
def widthOf : HptType → Nat
  | .norm => 4
  | _ => 8

theorem HptType.Walked.pmeWidth (h : t.Walked) : pmeWidth t = some (widthOf t) := by
  rcases h with rfl | rfl | rfl <;> rfl

/-- The index of an address at a level. -/
def idxOf (t : HptType) (lvl : Nat) (va : Va) : Nat := (getPmIdx t lvl va).getD 0

/-- An index is there, and its entry lies in the page map. -/
theorem getPmIdx_eq (h : OnLvl t lvl) (va : Va) : getPmIdx t lvl va = some (idxOf t lvl va) ∧
    widthOf t * idxOf t lvl va + widthOf t ≤ pmSizes t lvl := by
  rcases h.cases with ⟨rfl, rfl | rfl⟩ | ⟨rfl, rfl | rfl | rfl⟩ | ⟨rfl, rfl | rfl | rfl | rfl⟩ <;>
    refine ⟨rfl, ?_⟩ <;>
    simp only [idxOf, getPmIdx, typeIsValid, lvlIsValid, typeMaxLvl, ne_eq, reduceCtorEq,
      not_false_eq_true, true_and, Nat.reduceLeDiff, Nat.le_refl, if_true, Option.getD_some, widthOf,
      pmSizes, hptPmSize, vaIdxHi, Nat.reduceAdd, Nat.reduceSub,
      toNat_getHL va (show 21 < 64 by decide), toNat_getHL va (show 31 < 64 by decide),
      toNat_getHL va (show 20 < 64 by decide), toNat_getHL va (show 29 < 64 by decide),
      toNat_getHL va (show 38 < 64 by decide), toNat_getHL va (show 47 < 64 by decide)] <;>
    omega

/-- The entry with index `i` of the page map at `p`. -/
def entryAt (t : HptType) (m : Mem) (p i : Nat) : Pme := (pmGetPmeByIdx t m p i).getD 0

theorem pmGetPmeByVa_eq (h : OnLvl t lvl) (m : Mem) (p : Nat) (va : Va) :
    pmGetPmeByVa t lvl m p va = some (entryAt t m p (idxOf t lvl va)) := by
  rw [pmGetPmeByVa, (getPmIdx_eq h va).1, Option.bind_some, entryAt, pmGetPmeByIdx,
    h.walked.pmeWidth]
  rfl

theorem pmSetPmeByVa_eq (h : OnLvl t lvl) (m : Mem) (p : Nat) (va : Va) (e : Pme) :
    pmSetPmeByVa t lvl m p va e =
      some (writeLE m (p + widthOf t * idxOf t lvl va) (widthOf t) e.toNat) := by
  rw [pmSetPmeByVa, (getPmIdx_eq h va).1, Option.bind_some, pmSetPmeByIdx, h.walked.pmeWidth]
  rfl

/-- The entry fits the width of its type. -/
def Fits (t : HptType) (e : Pme) : Prop := e.toNat < 256 ^ widthOf t

theorem entryAt_eq (h : t.Walked) (m : Mem) (p i : Nat) :
    entryAt t m p i = BitVec.ofNat 64 (readLE m (p + widthOf t * i) (widthOf t)) := by
  rw [entryAt, pmGetPmeByIdx, h.pmeWidth]
  rfl

theorem entryAt_fits (h : t.Walked) (m : Mem) (p i : Nat) : Fits t (entryAt t m p i) := by
  have hlt := readLE_lt m (p + widthOf t * i) (widthOf t)
  rw [Fits, entryAt_eq h, BitVec.toNat_ofNat]
  exact Nat.lt_of_le_of_lt (Nat.mod_le ..) hlt

theorem entryAt_write (h : t.Walked) (he : Fits t e) (m : Mem) (p i : Nat) :
    entryAt t (writeLE m (p + widthOf t * i) (widthOf t) e.toNat) p i = e := by
  rw [entryAt_eq h, readLE_writeLE, Nat.mod_eq_of_lt he, BitVec.ofNat_toNat, BitVec.setWidth_eq]

theorem entryAt_congr {m' : Mem} (h : t.Walked) {p i : Nat}
    (hm : ∀ x, p + widthOf t * i ≤ x → x < p + widthOf t * i + widthOf t → m x = m' x) :
    entryAt t m p i = entryAt t m' p i := by
  rw [entryAt_eq h, entryAt_eq h, readLE_congr hm]

/-- Two entries of one page map are apart. -/
theorem entry_apart {w i j : Nat} (p : Nat) (hij : i ≠ j) :
    p + w * i + w ≤ p + w * j ∨ p + w * j + w ≤ p + w * i := by
  rcases Nat.lt_or_gt_of_ne hij with hlt | hgt
  · have hmul := Nat.mul_le_mul_left w (Nat.succ_le_of_lt hlt)
    rw [Nat.mul_succ] at hmul
    omega
  · have hmul := Nat.mul_le_mul_left w (Nat.succ_le_of_lt hgt)
    rw [Nat.mul_succ] at hmul
    omega

theorem entryAt_zero (h : t.Walked) {p i : Nat}
    (hm : ∀ x, p + widthOf t * i ≤ x → x < p + widthOf t * i + widthOf t → m x = 0) :
    entryAt t m p i = 0 := by
  have hzero : ∀ a n, readLE (fun _ => 0) a n = 0 := by
    intro a n
    induction n generalizing a with
    | zero => rfl
    | succ n ih => rw [readLE, ih]; rfl
  rw [entryAt_eq h, readLE_congr hm, hzero]
  rfl

/-! ## Linking -/

theorem pmeIsPage_congr {e' : Pme} (h : OnLvl t lvl) (h7 : e'.getLsbD 7 = e.getLsbD 7) :
    pmeIsPage t lvl e' = pmeIsPage t lvl e := by
  rw [pmeIsPage_eq h, pmeIsPage_eq h, h7]

theorem addrHi_lt (t : HptType) : addrHi t + 0 < 64 := by
  cases t <;> decide

/-- The flags of a new link: the address stays, and so does the page size bit. -/
structure LinkFlags (t : HptType) (e e' : Pme) : Prop where
  present : e'.getLsbD 0 = true
  pageSize : e'.getLsbD 7 = e.getLsbD 7
  addr : ∀ i, 12 ≤ i → i ≤ addrHi t → e'.getLsbD i = e.getLsbD i
  high : t = .norm → ∀ i, 32 ≤ i → e'.getLsbD i = e.getLsbD i

/-- Only the flags R/W/X, user and no-execute change. -/
theorem linkFlags_of_bits {e' : Pme} (h0 : e'.getLsbD 0 = true)
    (hother : ∀ i, i ≠ 0 → i ≠ 1 → i ≠ 2 → i ≠ 63 → e'.getLsbD i = e.getLsbD i)
    (h63 : t = .norm → e'.getLsbD 63 = e.getLsbD 63) : LinkFlags t e e' := by
  have hhi : addrHi t < 63 := by cases t <;> decide
  refine ⟨h0, hother 7 (by decide) (by decide) (by decide) (by decide), ?_, ?_⟩
  · exact fun i h1 h2 => hother i (by omega) (by omega) (by omega) (by omega)
  · intro ht i hi
    rcases Nat.lt_trichotomy i 63 with hlt | rfl | hgt
    · exact hother i (by omega) (by omega) (by omega) (by omega)
    · exact h63 ht
    · rw [BitVec.getLsbD_of_ge _ _ hgt, BitVec.getLsbD_of_ge _ _ hgt]

theorem linkFlags_norm (e : Pme) :
    LinkFlags .norm e (setBit (setBit (setBit e 0 true) 1 true) 2 true) := by
  have hbit : ∀ i, (setBit (setBit (setBit e 0 true) 1 true) 2 true).getLsbD i =
      if i = 2 then true else if i = 1 then true else if i = 0 then true else e.getLsbD i := by
    intro i
    rw [getLsbD_setBit (by decide), getLsbD_setBit (by decide), getLsbD_setBit (by decide)]
  refine linkFlags_of_bits ?_ ?_ fun _ => ?_
  · rw [hbit]
    rfl
  · intro i h0 h1 h2 _
    rw [hbit, if_neg h2, if_neg h1, if_neg h0]
  · rw [hbit]
    rfl

/-- PAE, below the pointer table. -/
theorem linkFlags_pae (e : Pme) :
    LinkFlags .pae e (setBit (setBit (setBit (setBit e 0 true) 1 true) 63 false) 2 true) := by
  have hbit : ∀ i, (setBit (setBit (setBit (setBit e 0 true) 1 true) 63 false) 2 true).getLsbD i =
      if i = 2 then true else if i = 63 then false else if i = 1 then true
      else if i = 0 then true else e.getLsbD i := by
    intro i
    rw [getLsbD_setBit (by decide), getLsbD_setBit (by decide), getLsbD_setBit (by decide),
      getLsbD_setBit (by decide)]
  refine linkFlags_of_bits ?_ ?_ fun ht => by cases ht
  · rw [hbit]
    rfl
  · intro i h0 h1 h2 h63
    rw [hbit, if_neg h2, if_neg h63, if_neg h1, if_neg h0]

theorem linkFlags_paePointer (e : Pme) : LinkFlags .pae e (setBit e 0 true) := by
  refine linkFlags_of_bits ?_ ?_ fun ht => by cases ht
  · rw [getLsbD_setBit (by decide)]
    rfl
  · intro i h0 _ _ _
    rw [getLsbD_setBit (by decide), if_neg h0]

theorem linkFlags_ept (e : Pme) : LinkFlags .ept e (insertHL e 2 0 7) := by
  have hbit : ∀ i, (insertHL e 2 0 7).getLsbD i =
      if 0 + 0 ≤ i ∧ i ≤ 2 + 0 then (7#64).getLsbD (i - 0) else e.getLsbD i := by
    intro i
    rw [← getLsbD_copyBits (by decide), copyBits, show getHL 7#64 2 0 = 7#64 by decide]
    rfl
  refine linkFlags_of_bits ?_ ?_ fun ht => by cases ht
  · rw [hbit]
    rfl
  · intro i h0 h1 h2 _
    rw [hbit, if_neg (by omega)]

theorem setprot_setuser (h : OnLvl t lvl) (e : Pme) :
    ∃ e₁ e₂, pmeSetprot t lvl e protsRWX = some e₁ ∧ pmeSetuser t lvl e₁ true = some e₂ ∧
      LinkFlags t e e₂ := by
  rcases h.cases with ⟨rfl, rfl | rfl⟩ | ⟨rfl, rfl | rfl | rfl⟩ | ⟨rfl, rfl | rfl | rfl | rfl⟩
  · exact ⟨_, _, rfl, rfl, linkFlags_norm e⟩
  · exact ⟨_, _, rfl, rfl, linkFlags_norm e⟩
  · exact ⟨_, _, rfl, rfl, linkFlags_pae e⟩
  · exact ⟨_, _, rfl, rfl, linkFlags_pae e⟩
  · exact ⟨_, _, rfl, rfl, linkFlags_paePointer e⟩
  · exact ⟨_, _, rfl, rfl, linkFlags_ept e⟩
  · exact ⟨_, _, rfl, rfl, linkFlags_ept e⟩
  · exact ⟨_, _, rfl, rfl, linkFlags_ept e⟩
  · exact ⟨_, _, rfl, rfl, linkFlags_ept e⟩

theorem fits_of_high {e' : Pme} (he : Fits t e)
    (h : t = .norm → ∀ i, 32 ≤ i → e'.getLsbD i = e.getLsbD i) : Fits t e' := by
  by_cases ht : t = .norm
  · subst ht
    refine Nat.lt_pow_two_of_testBit _ (n := 32) fun i hi => ?_
    have hfit : e.toNat < 2 ^ i :=
      Nat.lt_of_lt_of_le he (Nat.pow_le_pow_right (show 0 < 2 by decide) hi)
    exact (h rfl i hi).trans (Nat.testBit_lt_two_pow hfit)
  · have hw : widthOf t = 8 := by cases t <;> first | rfl | exact absurd rfl ht
    rw [Fits, hw]
    exact e'.isLt

/-- **A linked page map**: the entry made for it is present, is no page, and has its address. -/
theorem link_spec {σ : Type} {ctx : AllocCtx σ} {pm : Nat} (h : OnLvl t lvl) (he : Fits t e)
    (hpage : pmeIsPage t lvl e = some false) (haligned : (ctx.ptr2pa pm).toNat % 2 ^ 12 = 0)
    (hlt : (ctx.ptr2pa pm).toNat < 2 ^ 32) :
    ∃ e', (⟨e, t, lvl⟩ : Pmeo).link ctx pm = some ⟨e', t, lvl⟩ ∧
      pmeIsPresent t lvl e' = some true ∧ pmeIsPage t lvl e' = some false ∧
      pmeGetAddress t lvl e' = some (ctx.ptr2pa pm) ∧ Fits t e' := by
  have hhi := addrHi_lt t
  have hhi' : 31 ≤ addrHi t := by cases t <;> decide
  have h31 : t = .norm → addrHi t = 31 := by rintro rfl; rfl
  have hcopy : ∀ i, (copyBits e (ctx.ptr2pa pm) (addrHi t) 12 0).getLsbD i =
      if 12 + 0 ≤ i ∧ i ≤ addrHi t + 0 then (ctx.ptr2pa pm).getLsbD (i - 0) else e.getLsbD i :=
    getLsbD_copyBits hhi e (ctx.ptr2pa pm)
  obtain ⟨e₁, e₂, hprot, huser, hflags⟩ := setprot_setuser h (copyBits e (ctx.ptr2pa pm) (addrHi t) 12 0)
  have hpage' : pmeIsPage t lvl e₂ = some false := by
    rw [pmeIsPage_congr h hflags.pageSize, pmeIsPage_congr h, hpage]
    rw [hcopy, if_neg (by omega)]
  refine ⟨e₂, ?_, ?_, hpage', ?_, ?_⟩
  · simp [Pmeo.link, Pmeo.setAddress, Pmeo.setprot, Pmeo.setuser, setAddress_map h hpage, hprot, huser]
  · rw [pmeIsPresent_eq h, hflags.present]
  · rw [getAddress_map h hpage']
    congr 1
    apply BitVec.eq_of_getLsbD_eq
    intro i _
    rw [getLsbD_copyBits hhi]
    by_cases hin : 12 + 0 ≤ i ∧ i ≤ addrHi t + 0
    · rw [if_pos hin, Nat.sub_zero, hflags.addr i hin.1 hin.2, hcopy, if_pos hin, Nat.sub_zero]
    · rw [if_neg hin]
      symm
      rcases Nat.lt_or_ge i 12 with hlow | hhigh
      · have h0 : (ctx.ptr2pa pm).toNat = 2 ^ 12 * ((ctx.ptr2pa pm).toNat / 2 ^ 12) + 0 := by omega
        rw [BitVec.getLsbD, h0, Nat.testBit_two_pow_mul_add _ (by decide), if_pos hlow]
        simp
      · have hpow : (ctx.ptr2pa pm).toNat < 2 ^ i :=
          Nat.lt_of_lt_of_le hlt (Nat.pow_le_pow_right (by decide) (by omega))
        rw [BitVec.getLsbD, Nat.testBit_lt_two_pow hpow]
        simp
  · refine fits_of_high he fun ht i hi => ?_
    have := h31 ht
    rw [hflags.high ht i hi, hcopy, if_neg (by omega)]

end Xmhf.Hpt
