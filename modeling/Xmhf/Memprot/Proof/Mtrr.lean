import Xmhf.Lib.Extent
import Xmhf.Memprot.Mtrr
import Mathlib.Data.List.TakeWhile
import Mathlib.Data.Multiset.Basic

/-!
# Memory types and the documented precedence

`Effective s t` says what the memory type of a page is whose valid matching variable ranges have the types
`s`; as `s` is a multiset, the order of the registers does not count. The loop over the variable ranges goes
through them in order (`foldlM_mergeType`), and it differs:

* it stops at two different types though a UC comes after them;
* it takes WT although another type than WB came before it or comes after it;
* it takes the reserved type for no type.

`MergeExact` says that none of this happens, and `getmemorytype_exact_iff` is the result. The fixed ranges
are consecutive, so below 1MB there is nothing to decide.
-/

namespace Xmhf.Memprot

open Xmhf.Extent

/-! ## The precedence -/

/-- "MTRR Precedences" above 1MB, for the types of all matches; `none` is an invalid combination. -/
inductive Effective (s : Multiset (BitVec 32)) : Option (BitVec 32) → Prop
  | default : s = 0 → Effective s (some mtrrTypeWB)
  | single {t : BitVec 32} : s ≠ 0 → (∀ x ∈ s, x = t) → Effective s (some t)
  | uc : mtrrTypeUC ∈ s → Effective s (some mtrrTypeUC)
  | wt : mtrrTypeWT ∈ s → mtrrTypeWB ∈ s → (∀ x ∈ s, x = mtrrTypeWT ∨ x = mtrrTypeWB) →
      Effective s (some mtrrTypeWT)
  | invalid : s ≠ 0 → (¬ ∃ t, ∀ x ∈ s, x = t) → mtrrTypeUC ∉ s →
      ¬ (mtrrTypeWT ∈ s ∧ mtrrTypeWB ∈ s ∧ ∀ x ∈ s, x = mtrrTypeWT ∨ x = mtrrTypeWB) → Effective s none

variable {s : Multiset (BitVec 32)} {o : Option (BitVec 32)} {l : List (BitVec 32)} {t prevType : BitVec 32}

theorem effective_zero : Effective 0 o ↔ o = some mtrrTypeWB := by
  constructor
  · intro h
    cases h with
    | default => rfl
    | single h => exact absurd rfl h
    | uc h => exact absurd h (Multiset.notMem_zero _)
    | wt h => exact absurd h (Multiset.notMem_zero _)
    | invalid h => exact absurd rfl h
  · rintro rfl
    exact .default rfl

theorem effective_of_uc (huc : mtrrTypeUC ∈ s) : Effective s o ↔ o = some mtrrTypeUC := by
  constructor
  · intro h
    cases h with
    | default h => rw [h] at huc; exact absurd huc (Multiset.notMem_zero _)
    | single _ h => rw [h _ huc]
    | uc => rfl
    | wt _ _ h => exact absurd (h _ huc) (by decide)
    | invalid _ _ h => exact absurd huc h
  · rintro rfl
    exact .uc huc

theorem effective_of_wt (huc : mtrrTypeUC ∉ s) (hwt : mtrrTypeWT ∈ s) :
    Effective s o ↔ o = if ∀ x ∈ s, x = mtrrTypeWT ∨ x = mtrrTypeWB then some mtrrTypeWT else none := by
  have hs : s ≠ 0 := fun h => Multiset.notMem_zero _ (h ▸ hwt)
  constructor
  · intro h
    cases h with
    | default h => exact absurd h hs
    | single _ h =>
      obtain rfl := h _ hwt
      rw [if_pos fun x hx => .inl (h x hx)]
    | uc h => exact absurd h huc
    | wt _ _ h => rw [if_pos h]
    | invalid _ h _ h' =>
      refine (if_neg fun hall => ?_).symm
      by_cases hwb : mtrrTypeWB ∈ s
      · exact h' ⟨hwt, hwb, hall⟩
      · exact h ⟨mtrrTypeWT, fun x hx => (hall x hx).resolve_right fun hx' => hwb (hx' ▸ hx)⟩
  · rintro rfl
    split_ifs with hall
    · by_cases hwb : mtrrTypeWB ∈ s
      · exact .wt hwt hwb hall
      · exact .single hs fun x hx => (hall x hx).resolve_right fun hx' => hwb (hx' ▸ hx)
    · refine .invalid hs ?_ huc fun h => hall h.2.2
      rintro ⟨t, ht⟩
      exact hall fun x hx => .inl ((ht x hx).trans (ht _ hwt).symm)

theorem effective_of_other (huc : mtrrTypeUC ∉ s) (hwt : mtrrTypeWT ∉ s) (ht : t ∈ s) :
    Effective s o ↔ o = if ∀ x ∈ s, x = t then some t else none := by
  have hs : s ≠ 0 := fun h => Multiset.notMem_zero _ (h ▸ ht)
  constructor
  · intro h
    cases h with
    | default h => exact absurd h hs
    | single _ h =>
      obtain rfl := h _ ht
      rw [if_pos h]
    | uc h => exact absurd h huc
    | wt h => exact absurd h hwt
    | invalid _ h => exact (if_neg fun hall => h ⟨t, hall⟩).symm
  · rintro rfl
    split_ifs with hall
    · exact .single hs hall
    · refine .invalid hs ?_ huc fun h => hwt h.1
      rintro ⟨t', ht'⟩
      exact hall fun x hx => (ht' x hx).trans (ht' t ht).symm

/-! ## The loop over the variable ranges -/

/-- The types before the first UC or WT. -/
def lead (l : List (BitVec 32)) : List (BitVec 32) :=
  l.takeWhile fun t => decide (t ≠ mtrrTypeUC ∧ t ≠ mtrrTypeWT)

/-- The types without the reserved ones at the start. -/
def dropResv (l : List (BitVec 32)) : List (BitVec 32) := l.dropWhile fun t => decide (t = mtrrTypeResv)

/-- After reserved types at the start, two types differ. -/
def Conflict (l : List (BitVec 32)) : Prop := ∃ x ∈ dropResv l, ∃ y ∈ dropResv l, x ≠ y

instance (l : List (BitVec 32)) : Decidable (Conflict l) :=
  inferInstanceAs (Decidable (∃ x ∈ dropResv l, ∃ y ∈ dropResv l, x ≠ y))

/-- The types of the matches, in the order of the registers, do not mislead the loop. -/
def MergeExact (l : List (BitVec 32)) : Prop :=
  if mtrrTypeUC ∈ l then ¬ Conflict (lead l)
  else if mtrrTypeWT ∈ l then Conflict (lead l) ∨ ∀ x ∈ l, x = mtrrTypeWT ∨ x = mtrrTypeWB
  else Conflict l ∨ l.head? ≠ some mtrrTypeResv

theorem mergeType_uc : mergeType mtrrTypeUC t = some mtrrTypeUC := by
  rw [mergeType]
  by_cases ht : t = mtrrTypeUC
  · rw [if_pos ht]
  · rw [if_neg ht, if_neg fun h => h.2 rfl, if_neg fun h => h.1 rfl]

theorem mergeType_wt (ht : t ≠ mtrrTypeUC) : mergeType mtrrTypeWT t = some mtrrTypeWT := by
  rw [mergeType, if_neg ht]
  by_cases hwt : t = mtrrTypeWT
  · rw [if_pos ⟨hwt, by decide⟩]
  · rw [if_neg fun h => hwt h.1, if_neg fun h => h.2 rfl]

/-- A type that is neither UC nor WT, after such types only. -/
theorem mergeType_other (h1 : t ≠ mtrrTypeUC) (h2 : t ≠ mtrrTypeWT) (h3 : prevType ≠ mtrrTypeUC)
    (h4 : prevType ≠ mtrrTypeWT) : mergeType prevType t =
      if prevType = mtrrTypeResv then some t else if prevType = t then some prevType else none := by
  rw [mergeType, if_neg h1, if_neg fun h => h2 h.1, if_pos ⟨h3, h4⟩]

theorem foldlM_uc (l : List (BitVec 32)) : l.foldlM mergeType mtrrTypeUC = some mtrrTypeUC := by
  induction l with
  | nil => rfl
  | cons t l ih => rw [List.foldlM_cons, mergeType_uc, Option.bind_eq_bind, Option.bind_some, ih]

theorem foldlM_wt (l : List (BitVec 32)) : l.foldlM mergeType mtrrTypeWT =
    some (if mtrrTypeUC ∈ l then mtrrTypeUC else mtrrTypeWT) := by
  induction l with
  | nil => rfl
  | cons t l ih =>
    rw [List.foldlM_cons, Option.bind_eq_bind]
    by_cases ht : t = mtrrTypeUC
    · subst ht
      rw [mergeType, if_pos rfl, Option.bind_some, foldlM_uc, if_pos (List.mem_cons_self ..)]
    · rw [mergeType_wt ht, Option.bind_some, ih]
      simp [Ne.symm ht]

theorem lead_cons_of (h : ¬ (t ≠ mtrrTypeUC ∧ t ≠ mtrrTypeWT)) : lead (t :: l) = [] :=
  List.takeWhile_cons_of_neg (by simpa using h)

theorem lead_cons (h1 : t ≠ mtrrTypeUC) (h2 : t ≠ mtrrTypeWT) : lead (t :: l) = t :: lead l :=
  List.takeWhile_cons_of_pos (by simp [h1, h2])

/-- **The loop is over at the first UC or WT**, up to a later UC; before it, it halts at two types that
differ. -/
theorem foldlM_mergeType (h1 : prevType ≠ mtrrTypeUC) (h2 : prevType ≠ mtrrTypeWT) :
    l.foldlM mergeType prevType = ((lead l).foldlM mergeType prevType).bind fun t =>
      some (if mtrrTypeUC ∈ l then mtrrTypeUC else if mtrrTypeWT ∈ l then mtrrTypeWT else t) := by
  induction l generalizing prevType with
  | nil => rfl
  | cons x l ih =>
    by_cases huc : x = mtrrTypeUC
    · rw [lead_cons_of fun h => h.1 huc, List.foldlM_cons, mergeType, if_pos huc, Option.bind_eq_bind,
        Option.bind_some, foldlM_uc]
      simp [huc]
    · by_cases hwt : x = mtrrTypeWT
      · rw [lead_cons_of fun h => h.2 hwt, List.foldlM_cons, mergeType, if_neg huc, if_pos ⟨hwt, h1⟩,
          Option.bind_eq_bind, Option.bind_some, foldlM_wt]
        simp [hwt, show mtrrTypeUC ≠ mtrrTypeWT by decide]
      · have hmem1 : mtrrTypeUC ∈ x :: l ↔ mtrrTypeUC ∈ l := List.mem_cons.trans (or_iff_right (Ne.symm huc))
        have hmem2 : mtrrTypeWT ∈ x :: l ↔ mtrrTypeWT ∈ l := List.mem_cons.trans (or_iff_right (Ne.symm hwt))
        simp only [lead_cons huc hwt, List.foldlM_cons, mergeType_other huc hwt h1 h2, hmem1, hmem2,
          Option.bind_eq_bind]
        by_cases hresv : prevType = mtrrTypeResv
        · rw [if_pos hresv, Option.bind_some, ih huc hwt, Option.bind_some]
        · rw [if_neg hresv]
          by_cases hsame : prevType = x
          · rw [if_pos hsame, Option.bind_some, ih h1 h2, Option.bind_some]
          · rw [if_neg hsame]
            rfl

theorem foldlM_same (hl : ∀ x ∈ l, x ≠ mtrrTypeUC ∧ x ≠ mtrrTypeWT) (h1 : t ≠ mtrrTypeUC)
    (h2 : t ≠ mtrrTypeWT) (h3 : t ≠ mtrrTypeResv) :
    l.foldlM mergeType t = if ∀ x ∈ l, x = t then some t else none := by
  induction l with
  | nil => rw [if_pos fun _ h => by cases h]; rfl
  | cons x l ih =>
    obtain ⟨hx, htail⟩ := List.forall_mem_cons.1 hl
    rw [List.foldlM_cons, mergeType_other hx.1 hx.2 h1 h2, if_neg h3]
    by_cases hxt : t = x
    · rw [if_pos hxt, Option.bind_eq_bind, Option.bind_some, ih htail]
      simp [hxt]
    · simp [hxt, Ne.symm hxt]

theorem dropResv_cons_resv : dropResv (mtrrTypeResv :: l) = dropResv l :=
  List.dropWhile_cons_of_pos (by simp)

theorem dropResv_cons (ht : t ≠ mtrrTypeResv) : dropResv (t :: l) = t :: l :=
  List.dropWhile_cons_of_neg (by simpa using ht)

theorem conflict_cons (ht : t ≠ mtrrTypeResv) : Conflict (t :: l) ↔ ¬ ∀ x ∈ l, x = t := by
  rw [Conflict, dropResv_cons ht]
  constructor
  · rintro ⟨x, hx, y, hy, hxy⟩ hall
    have heq : ∀ z ∈ t :: l, z = t := List.forall_mem_cons.2 ⟨rfl, hall⟩
    exact hxy ((heq x hx).trans (heq y hy).symm)
  · intro h
    obtain ⟨x, hx, hxt⟩ : ∃ x, x ∈ l ∧ x ≠ t := by simpa using h
    exact ⟨x, List.mem_cons_of_mem _ hx, t, List.mem_cons_self .., hxt⟩

theorem foldlM_lead (hl : ∀ x ∈ l, x ≠ mtrrTypeUC ∧ x ≠ mtrrTypeWT) :
    l.foldlM mergeType mtrrTypeResv =
      if Conflict l then none else some ((dropResv l).headD mtrrTypeResv) := by
  induction l with
  | nil => rw [if_neg fun ⟨_, hx, _⟩ => List.not_mem_nil hx]; rfl
  | cons x l ih =>
    obtain ⟨hx, htail⟩ := List.forall_mem_cons.1 hl
    rw [List.foldlM_cons, mergeType_other hx.1 hx.2 (by decide) (by decide), if_pos rfl,
      Option.bind_eq_bind, Option.bind_some]
    by_cases hresv : x = mtrrTypeResv
    · have hc : Conflict l ↔ Conflict (x :: l) := by rw [Conflict, Conflict, hresv, dropResv_cons_resv]
      rw [hresv, ih htail, dropResv_cons_resv]
      exact if_congr (hresv ▸ hc) rfl rfl
    · rw [foldlM_same htail hx.1 hx.2 hresv, dropResv_cons hresv]
      by_cases hall : ∀ y ∈ l, y = x
      · rw [if_pos hall, if_neg fun h => (conflict_cons hresv).1 h hall]
        rfl
      · rw [if_neg hall, if_pos ((conflict_cons hresv).2 hall)]

/-! ## What the loop leaves -/

/-- The type after the loop, with the default. -/
def mergedType (l : List (BitVec 32)) : Option (BitVec 32) :=
  (l.foldlM mergeType mtrrTypeResv).map fun prevType =>
    if prevType = mtrrTypeResv then mtrrTypeWB else prevType

theorem mem_lead {x : BitVec 32} (h : x ∈ lead l) : x ≠ mtrrTypeUC ∧ x ≠ mtrrTypeWT := by
  simpa using List.mem_takeWhile_imp h

theorem head_dropResv {d : List (BitVec 32)} (h : dropResv l = t :: d) : t ≠ mtrrTypeResv := by
  have hhead := List.head?_dropWhile_not (fun t => decide (t = mtrrTypeResv)) l
  rw [show l.dropWhile _ = _ from h] at hhead
  simpa using hhead

theorem headD_dropResv : (dropResv l).headD mtrrTypeWB ≠ mtrrTypeResv := by
  cases hd : dropResv l with
  | nil => exact (by decide : mtrrTypeWB ≠ mtrrTypeResv)
  | cons t d => exact head_dropResv hd

theorem mergedType_eq : mergedType l = if Conflict (lead l) then none else
    some (if mtrrTypeUC ∈ l then mtrrTypeUC else if mtrrTypeWT ∈ l then mtrrTypeWT
      else (dropResv (lead l)).headD mtrrTypeWB) := by
  rw [mergedType, foldlM_mergeType (by decide) (by decide), foldlM_lead fun x => mem_lead]
  by_cases hc : Conflict (lead l)
  · rw [if_pos hc, if_pos hc]
    rfl
  · rw [if_neg hc, if_neg hc, Option.bind_some, Option.map_some]
    congr 1
    by_cases huc : mtrrTypeUC ∈ l
    · simp only [if_pos huc]
      rfl
    · by_cases hwt : mtrrTypeWT ∈ l
      · simp only [if_neg huc, if_pos hwt]
        rfl
      · simp only [if_neg huc, if_neg hwt]
        cases hd : dropResv (lead l) with
        | nil => rfl
        | cons t d => exact if_neg (head_dropResv hd)

theorem mem_of_dropResv_lead {x : BitVec 32} (h : x ∈ dropResv (lead l)) :
    x ∈ l ∧ x ≠ mtrrTypeUC ∧ x ≠ mtrrTypeWT := by
  have hlead := (List.dropWhile_sublist _).subset h
  exact ⟨(List.takeWhile_sublist _).subset hlead, mem_lead hlead⟩

/-- Two types that differ before the first WT are not just WT and WB. -/
theorem not_wtWb_of_conflict (hc : Conflict (lead l)) :
    ¬ ∀ x ∈ l, x = mtrrTypeWT ∨ x = mtrrTypeWB := by
  intro hall
  obtain ⟨x, hx, y, hy, hxy⟩ := hc
  have hwb {z : BitVec 32} (hz : z ∈ dropResv (lead l)) : z = mtrrTypeWB :=
    (hall z (mem_of_dropResv_lead hz).1).resolve_left (mem_of_dropResv_lead hz).2.2
  exact hxy ((hwb hx).trans (hwb hy).symm)

theorem lead_eq_self (huc : mtrrTypeUC ∉ l) (hwt : mtrrTypeWT ∉ l) : lead l = l :=
  List.takeWhile_eq_self_iff.2 fun _ hx =>
    decide_eq_true ⟨fun h => huc (h ▸ hx), fun h => hwt (h ▸ hx)⟩

theorem effective_mergedType_wt (huc : mtrrTypeUC ∉ l) (hwt : mtrrTypeWT ∈ l) :
    Effective l (mergedType l) ↔ Conflict (lead l) ∨ ∀ x ∈ l, x = mtrrTypeWT ∨ x = mtrrTypeWB := by
  rw [effective_of_wt (fun h => huc (Multiset.mem_coe.1 h)) (Multiset.mem_coe.2 hwt), mergedType_eq,
    if_neg huc, if_pos hwt]
  by_cases hc : Conflict (lead l)
  · rw [if_pos hc]
    exact iff_of_true (if_neg (not_wtWb_of_conflict hc)).symm (.inl hc)
  · rw [if_neg hc, or_iff_right hc]
    by_cases hall : ∀ x ∈ l, x = mtrrTypeWT ∨ x = mtrrTypeWB
    · exact iff_of_true (if_pos hall).symm hall
    · refine iff_of_false (fun h => ?_) hall
      cases h.trans (if_neg hall)

theorem effective_mergedType_other (huc : mtrrTypeUC ∉ l) (hwt : mtrrTypeWT ∉ l) :
    Effective l (mergedType l) ↔ Conflict l ∨ l.head? ≠ some mtrrTypeResv := by
  rw [mergedType_eq, if_neg huc, if_neg hwt, lead_eq_self huc hwt]
  cases l with
  | nil =>
    rw [if_neg fun ⟨_, hx, _⟩ => List.not_mem_nil hx]
    exact iff_of_true (effective_zero.2 rfl) (.inr fun h => by cases h)
  | cons t l =>
    rw [effective_of_other (fun h => huc (Multiset.mem_coe.1 h)) (fun h => hwt (Multiset.mem_coe.1 h))
      (Multiset.mem_coe.2 (List.mem_cons_self ..) : t ∈ _)]
    by_cases ht : t = mtrrTypeResv
    · by_cases hc : Conflict (t :: l)
      · have hall : ¬ ∀ x ∈ t :: l, x = t := by
          intro hall
          obtain ⟨x, hx, y, hy, hxy⟩ := hc
          have heq {z : BitVec 32} (hz : z ∈ dropResv (t :: l)) : z = t :=
            hall z ((List.dropWhile_sublist _).subset hz)
          exact hxy ((heq hx).trans (heq hy).symm)
        rw [if_pos hc]
        exact iff_of_true (if_neg hall).symm (.inl hc)
      · rw [if_neg hc]
        refine iff_of_false (fun h => ?_) (not_or.2 ⟨hc, not_not.2 (congrArg some ht)⟩)
        split_ifs at h
        exact headD_dropResv (Option.some.inj h ▸ ht)
    · rw [if_congr (conflict_cons ht) rfl rfl, dropResv_cons ht]
      refine iff_of_true ?_ (.inr fun h => ht (Option.some.inj h))
      by_cases hall : ∀ x ∈ l, x = t
      · rw [if_neg (not_not.2 hall), if_pos]
        · rfl
        · exact fun x hx => (List.mem_cons.1 hx).elim id (hall x)
      · rw [if_pos hall, if_neg fun h => hall fun x hx => h x (List.mem_cons_of_mem _ hx)]

/-- **What the loop leaves** is the effective type exactly if the types do not mislead it. -/
theorem mergedType_iff : Effective l (mergedType l) ↔ MergeExact l := by
  rw [MergeExact]
  by_cases huc : mtrrTypeUC ∈ l
  · rw [effective_of_uc (Multiset.mem_coe.2 huc), mergedType_eq, if_pos huc, if_pos huc]
    by_cases hc : Conflict (lead l)
    · simp [hc]
    · simp [hc]
  · rw [if_neg huc]
    by_cases hwt : mtrrTypeWT ∈ l
    · rw [if_pos hwt]
      exact effective_mergedType_wt huc hwt
    · rw [if_neg hwt]
      exact effective_mergedType_other huc hwt

/-! ## Below 1MB -/

/-- The `k`-th type field of a fixed-range MTRR. -/
def typeField (v : BitVec 32 × BitVec 32) (k : Nat) : BitVec 32 :=
  ((msr64 v).extractLsb' (8 * k) 8).setWidth 32

/-- The type of the fixed range that has address `a`: 8 ranges of 64KB, 16 of 16KB, and 64 of 4KB. -/
def fixedType (rdmsr : Rdmsr) (a : Nat) : BitVec 32 :=
  if a < 0x80000 then typeField (rdmsr 0x250) (a / 0x10000)
  else if a < 0xC0000 then typeField (rdmsr (0x258 + (a - 0x80000) / 0x20000)) (a % 0x20000 / 0x4000)
  else typeField (rdmsr (0x268 + (a - 0xC0000) / 0x8000)) (a % 0x8000 / 0x1000)

variable {rdmsr : Rdmsr} {r : FixedMtrr} {a k : Nat} {pagebaseaddr : BitVec 64} {e : Memorytype}

theorem type_fixedEntry (hk : k < 8) : (fixedEntry rdmsr r k).type = typeField (rdmsr r.msr) k := by
  apply BitVec.eq_of_getLsbD_eq
  intro i hi
  have hff : (255#32).getLsbD i = decide (i < 8) := by
    rw [BitVec.getLsbD_ofNat, show 255 = 2 ^ 8 - 1 from rfl, Nat.testBit_two_pow_sub_one]
    simp [hi]
  unfold fixedEntry typeField typeByte msr64
  by_cases hk4 : k < 4
  · by_cases hi8 : i < 8
    · simp [hk4, hff, hi, hi8, show 8 * k + i < 32 by omega, show 8 * k + i < 64 by omega]
    · simp [hk4, hff, hi8]
  · by_cases hi8 : i < 8
    · have hge : (rdmsr r.msr).1.getLsbD (8 * k + i) = false := BitVec.getLsbD_of_ge _ _ (by omega)
      simp [hk4, hff, hi, hi8, hge, show 8 * (k - 4) + i < 32 by omega, show ¬ 8 * k + i < 32 by omega,
        show 8 * k + i < 64 by omega, show 8 * k + i - 32 = 8 * (k - 4) + i by omega]
    · simp [hk4, hff, hi8]

theorem consecutive_fixedMtrrs :
    Consecutive FixedMtrr.base (fun r => r.size * 8) 0 fixedMtrrs 0x100000 := by
  unfold fixedMtrrs
  simp [Consecutive]

theorem typeField_congr {msr msr' k' : Nat} (hmsr : msr = msr') (hk : k = k') :
    typeField (rdmsr msr) k = typeField (rdmsr msr') k' := by
  rw [hmsr, hk]

theorem fixedType_of_within (hr : r ∈ fixedMtrrs)
    (ha : Within FixedMtrr.base (fun r => r.size * 8) r a) :
    fixedType rdmsr a = typeField (rdmsr r.msr) ((a - r.base) / r.size) := by
  obtain ⟨hlo, hhi⟩ := ha
  simp only [fixedMtrrs, List.mem_cons, List.not_mem_nil, or_false] at hr
  rcases hr with rfl | rfl | rfl | rfl | rfl | rfl | rfl | rfl | rfl | rfl | rfl <;>
    simp only at hlo hhi ⊢ <;> unfold fixedType
  · rw [if_pos hhi, Nat.sub_zero]
  all_goals
    rw [if_neg (by omega)]
    split_ifs
    · exact typeField_congr (by omega) (by omega)
    · exact typeField_congr (by omega) (by omega)

/-- All addresses of the page are in the range. -/
def Memorytype.Covers (e : Memorytype) (pagebaseaddr : BitVec 64) : Prop :=
  e.startaddr.toNat ≤ pagebaseaddr.toNat ∧ pagebaseaddr.toNat + 4095 ≤ e.endaddr.toNat

instance (e : Memorytype) (pagebaseaddr : BitVec 64) : Decidable (e.Covers pagebaseaddr) :=
  inferInstanceAs (Decidable (_ ∧ _))

theorem hasPage_iff (hp : pagebaseaddr.toNat % 4096 = 0) :
    e.hasPage pagebaseaddr = decide (e.Covers pagebaseaddr) := by
  have hlast : (pagebaseaddr + 0x1000 - 1).toNat = pagebaseaddr.toNat + 4095 := by bv_omega
  rw [Bool.eq_iff_iff, Memorytype.hasPage, Bool.and_eq_true, decide_eq_true_iff, decide_eq_true_iff,
    decide_eq_true_iff, ge_iff_le, BitVec.le_def, BitVec.le_def, hlast, Memorytype.Covers]

/-- The entries of the fixed-range MTRRs. -/
def fixedEntries (rdmsr : Rdmsr) : List Memorytype :=
  fixedMtrrs.flatMap fun r => (List.range 8).map (fixedEntry rdmsr r)

theorem mem_fixedEntries : e ∈ fixedEntries rdmsr ↔
    ∃ r ∈ fixedMtrrs, ∃ k < 8, e = fixedEntry rdmsr r k := by
  simp [fixedEntries, eq_comm]

theorem covers_fixedEntry (hr : r ∈ fixedMtrrs) (hk : k < 8) (hp : pagebaseaddr.toNat % 4096 = 0) :
    (fixedEntry rdmsr r k).Covers pagebaseaddr ↔
      Within FixedMtrr.base (fun r => r.size * 8) r pagebaseaddr.toNat ∧
        (pagebaseaddr.toNat - r.base) / r.size = k := by
  unfold Memorytype.Covers Within fixedEntry
  simp only [fixedMtrrs, List.mem_cons, List.not_mem_nil, or_false] at hr
  rcases hr with rfl | rfl | rfl | rfl | rfl | rfl | rfl | rfl | rfl | rfl | rfl <;>
    simp only [BitVec.toNat_ofNat] <;> omega

/-- Below 1MB, the first fixed range that has the page gives its type. -/
theorem find?_fixedEntries (hp : pagebaseaddr.toNat % 4096 = 0) (h1M : pagebaseaddr.toNat < 0x100000) :
    ((fixedEntries rdmsr).find? (·.hasPage pagebaseaddr)).map (·.type) =
      some (fixedType rdmsr pagebaseaddr.toNat) := by
  cases hfind : (fixedEntries rdmsr).find? (·.hasPage pagebaseaddr) with
  | none =>
    obtain ⟨r, hr, hw⟩ := consecutive_fixedMtrrs.complete (Nat.zero_le _) h1M
    have hk : (pagebaseaddr.toNat - r.base) / r.size < 8 :=
      Nat.div_lt_of_lt_mul (Nat.sub_lt_left_of_lt_add hw.1 hw.2)
    have hpage : (fixedEntry rdmsr r ((pagebaseaddr.toNat - r.base) / r.size)).Covers pagebaseaddr :=
      (covers_fixedEntry hr hk hp).2 ⟨hw, rfl⟩
    have hno := List.find?_eq_none.1 hfind _ (mem_fixedEntries.2 ⟨r, hr, _, hk, rfl⟩)
    rw [hasPage_iff hp] at hno
    exact absurd (decide_eq_true hpage) hno
  | some e =>
    obtain ⟨r, hr, k, hk, rfl⟩ := mem_fixedEntries.1 (List.mem_of_find?_eq_some hfind)
    have hpage := List.find?_some hfind
    rw [hasPage_iff hp] at hpage
    obtain ⟨hw, rfl⟩ := (covers_fixedEntry hr hk hp).1 (of_decide_eq_true hpage)
    rw [Option.map_some, type_fixedEntry hk, fixedType_of_within hr hw]

/-! ## The function -/

/-- The types of the valid variable ranges that have the page, in the order of the registers. -/
def matchTypes (rdmsr : Rdmsr) (pagebaseaddr : BitVec 64) : List (BitVec 32) :=
  (((List.range (numVmtrrs rdmsr)).map (variableEntry rdmsr)).filter fun e =>
    decide (e.Covers pagebaseaddr) && decide (e.invalid = 0)).map (·.type)

/-- The documented memory type of a page, or a halt. -/
def MemoryType (rdmsr : Rdmsr) (pagebaseaddr : BitVec 64) (o : Option (BitVec 32)) : Prop :=
  if pagebaseaddr.toNat < 0x100000 then o = some (fixedType rdmsr pagebaseaddr.toNat)
  else Effective (matchTypes rdmsr pagebaseaddr) o

theorem gathermemorytypes_eq {edx : BitVec 32} {memorytypes : List Memorytype}
    (h : gathermemorytypes edx rdmsr = some memorytypes) : ∃ n, memorytypes = fixedEntries rdmsr ++
      ((List.range (numVmtrrs rdmsr)).map (variableEntry rdmsr) ++ List.replicate n ⟨0, 0, 0, 0⟩) := by
  unfold gathermemorytypes at h
  split_ifs at h
  exact ⟨_, by rw [← Option.some.inj h, gatheredEntries, List.append_assoc, fixedEntries]⟩

theorem length_fixedEntries : (fixedEntries rdmsr).length = maxFixedMemorytypeEntries := rfl

theorem foldlM_stepType (hp : pagebaseaddr.toNat % 4096 = 0) (entries : List Memorytype) :
    entries.foldlM (stepType pagebaseaddr) t = ((entries.filter fun e =>
      decide (e.Covers pagebaseaddr) && decide (e.invalid = 0)).map (·.type)).foldlM mergeType t := by
  rw [List.foldlM_map, List.foldlM_filter]
  congr 1
  funext t e
  rw [stepType, hasPage_iff hp]
  rfl

/-- The entries that were not written have no page. -/
theorem filter_unwritten (n : Nat) : (List.replicate n (⟨0, 0, 0, 0⟩ : Memorytype)).filter (fun e =>
    decide (e.Covers pagebaseaddr) && decide (e.invalid = 0)) = [] := by
  refine List.filter_eq_nil_iff.2 fun e he hcov => ?_
  obtain rfl := (List.mem_replicate.1 he).2
  have hend := (of_decide_eq_true (Bool.and_eq_true_iff.1 hcov).1 : Memorytype.Covers _ _).2
  exact absurd hend (by simp)

/-- **The memory type of a page is the documented one** below 1MB, and above it if the types of the matches
do not mislead the loop. -/
theorem getmemorytype_exact_iff {edx : BitVec 32} {memorytypes : List Memorytype}
    (h : gathermemorytypes edx rdmsr = some memorytypes) (hp : pagebaseaddr.toNat % 4096 = 0) :
    MemoryType rdmsr pagebaseaddr (getmemorytypeforphysicalpage memorytypes pagebaseaddr) ↔
      pagebaseaddr.toNat < 0x100000 ∨ MergeExact (matchTypes rdmsr pagebaseaddr) := by
  obtain ⟨n, rfl⟩ := gathermemorytypes_eq h
  rw [getmemorytypeforphysicalpage, MemoryType, List.take_left' length_fixedEntries,
    List.drop_left' length_fixedEntries]
  by_cases h1M : pagebaseaddr.toNat < 0x100000
  · rw [if_pos h1M, if_pos (show pagebaseaddr < 1024 * 1024 from h1M)]
    exact iff_of_true (find?_fixedEntries hp h1M) (.inl h1M)
  · rw [if_neg h1M, if_neg (show ¬ pagebaseaddr < 1024 * 1024 from h1M), or_iff_right h1M,
      ← mergedType_iff, mergedType, foldlM_stepType hp, List.filter_append,
      filter_unwritten, List.append_nil, matchTypes]

/-- Three variable ranges of 256MB at 2GB, with the given types. -/
def threeRanges (t0 t1 t2 : BitVec 32) : Rdmsr
  | 0xfe => (0x103, 0)
  | 0x200 => (0x80000000 ||| t0, 0)
  | 0x202 => (0x80000000 ||| t1, 0)
  | 0x204 => (0x80000000 ||| t2, 0)
  | 0x201 | 0x203 | 0x205 => (0xF0000800, 0xF)
  | _ => (0, 0)

/-- With a UC after a WC and a WB, the type is UC, but the loop has halted at the WB. -/
theorem memoryType_not : ∃ memorytypes, gathermemorytypes 0x1000 (threeRanges 1 6 0) = some memorytypes ∧
    ¬ MemoryType (threeRanges 1 6 0) 0x80000000 (getmemorytypeforphysicalpage memorytypes 0x80000000) := by
  refine ⟨_, rfl, fun h => ?_⟩
  have hmatch : matchTypes (threeRanges 1 6 0) 0x80000000 = [1, 6, 0] := by decide +kernel
  rw [MemoryType, if_neg (by decide), hmatch, effective_of_uc (by decide)] at h
  exact absurd h (by decide +kernel)

theorem getmemorytype_exact_iff_ucFirst : ∃ memorytypes,
    gathermemorytypes 0x1000 (threeRanges 0 1 6) = some memorytypes ∧
    (MemoryType (threeRanges 0 1 6) 0x80000000 (getmemorytypeforphysicalpage memorytypes 0x80000000) ↔
      (0x80000000 : BitVec 64).toNat < 0x100000 ∨ MergeExact (matchTypes (threeRanges 0 1 6) 0x80000000)) :=
  ⟨_, rfl, getmemorytype_exact_iff (rfl : gathermemorytypes 0x1000 _ = _) (by decide)⟩

end Xmhf.Memprot
