import Xmhf.Hpt.Proof.Codec
import Xmhf.Hpt.Proof.Insert
import Xmhf.Lib.Digits

/-!
# Indices of an address

The indices of an address are its digits at the weights that `hpt_va_idx_hi` gives (`getPmIdx_digit`), so that they
and the low 12 bits make up the address (`pmIdx_tiles`).
-/

namespace Xmhf.Hpt

open Xmhf.Bitfield Xmhf.Digits

variable {t : HptType} {lvl : Nat} {va va' : Va}

/-- The bits of the addresses of a type. -/
def vaWidth : HptType → Nat
  | .norm | .pae => 32
  | .long | .ept => 48
  | .invalid => 0

/-- The number of bytes that an entry at the level maps; at the level above the root, all of them. -/
def weight (t : HptType) (lvl : Nat) : Nat := 2 ^ (vaIdxHi t lvl + 1)

theorem weight_pos (t : HptType) (lvl : Nat) : 0 < weight t lvl := Nat.two_pow_pos _

theorem weight_dvd {k : Nat} (h : k < typeMaxLvl t) : weight t k ∣ weight t (k + 1) :=
  Nat.pow_dvd_pow 2 (Nat.succ_le_succ (vaIdxHi_mono (Nat.le_succ k) h))

theorem weight_zero (ht : t ≠ .invalid) : weight t 0 = 2 ^ 12 := by
  cases t <;> first | exact absurd rfl ht | rfl

theorem weight_root (ht : t ≠ .invalid) : weight t (typeMaxLvl t) = 2 ^ vaWidth t := by
  cases t <;> first | exact absurd rfl ht | rfl

/-- **An index is a digit.** -/
theorem getPmIdx_digit (h : IsLevel t lvl) (va : Va) :
    getPmIdx t lvl va = some (digit (weight t) (lvl - 1) va.toNat) := by
  have hlt := vaIdxHi_lt t lvl
  have hlvl : lvl - 1 + 1 = lvl := Nat.sub_add_cancel h.pos
  rw [getPmIdx, if_pos ⟨h.type, h.le⟩, toNat_getHL va (by omega), digit, hlvl]
  rfl

/-- The entries of a page map are as many as the digits. -/
theorem pmSizes_eq (h : IsLevel t lvl) : ∃ w, pmeWidth t = some w ∧ 0 < w ∧
    pmSize t lvl = some (pmSizes t lvl) ∧ pmSizes t lvl / w = weight t lvl / weight t (lvl - 1) := by
  rcases h.cases with ⟨rfl, rfl | rfl⟩ | ⟨rfl, rfl | rfl | rfl⟩ | ⟨rfl, rfl | rfl | rfl | rfl⟩ |
    ⟨rfl, rfl | rfl | rfl | rfl⟩ <;> exact ⟨_, rfl, by decide, rfl, by decide⟩

/-- The same entries from a level up, as one equation. -/
theorem sameSpan_iff (h : IsLevel t lvl) : SameSpan t lvl va va' ↔
    va.toNat % 2 ^ vaWidth t / weight t (lvl - 1) = va'.toNat % 2 ^ vaWidth t / weight t (lvl - 1) := by
  have hpos := h.pos
  have hle := h.le
  rw [← weight_root h.type, ← digits_eq_iff (weight_pos t) (fun k _ hk => weight_dvd hk) (by omega)]
  constructor
  · intro hs k hk hkn
    have hl : IsLevel t (k + 1) := ⟨h.type, by omega, hkn⟩
    have heq := hs (k + 1) (by omega) hkn
    rw [getPmIdx_digit hl, getPmIdx_digit hl] at heq
    exact Option.some.inj heq
  · intro hd l hl hln
    have hl' : IsLevel t l := ⟨h.type, by omega, hln⟩
    rw [getPmIdx_digit hl', getPmIdx_digit hl', hd (l - 1) (by omega) (by omega)]

/-- Numbers that agree above a weight. -/
theorem div_eq_iff_testBit {x y s : Nat} : x / 2 ^ s = y / 2 ^ s ↔ ∀ i, s ≤ i → x.testBit i = y.testBit i := by
  constructor
  · intro h i hi
    have hbit := congrArg (Nat.testBit · (i - s)) h
    simpa only [Nat.testBit_div_two_pow, Nat.sub_add_cancel hi] using hbit
  · intro h
    apply Nat.eq_of_testBit_eq
    intro i
    rw [Nat.testBit_div_two_pow, Nat.testBit_div_two_pow]
    exact h _ (Nat.le_add_left s i)

theorem eq_iff_sameSpan (ht : t ≠ .invalid) (hva : va.toNat < 2 ^ vaWidth t) (hva' : va'.toNat < 2 ^ vaWidth t) :
    va = va' ↔ SameSpan t 1 va va' ∧ va.toNat % 2 ^ 12 = va'.toNat % 2 ^ 12 := by
  have hl : IsLevel t 1 := ⟨ht, Nat.le_refl 1, by cases t <;> first | exact absurd rfl ht | decide⟩
  rw [sameSpan_iff hl, Nat.mod_eq_of_lt hva, Nat.mod_eq_of_lt hva', ← weight_zero ht]
  constructor
  · rintro rfl
    exact ⟨rfl, rfl⟩
  · rintro ⟨hdiv, hmod⟩
    apply BitVec.eq_of_toNat_eq
    rw [← Nat.div_add_mod va.toNat (weight t 0), ← Nat.div_add_mod va'.toNat (weight t 0), hmod]
    exact congrArg (fun q => weight t 0 * q + _) hdiv

/-- An index has its entry in the page map. -/
theorem getPmIdx_lt (h : IsLevel t lvl) (va : Va) : ∃ i n w, getPmIdx t lvl va = some i ∧
    pmSize t lvl = some n ∧ pmeWidth t = some w ∧ i < n / w := by
  obtain ⟨w, hw, -, hn, hsize⟩ := pmSizes_eq h
  have hpos := h.pos
  have hle := h.le
  have hlvl : lvl - 1 + 1 = lvl := Nat.sub_add_cancel hpos
  have hlt : digit (weight t) (lvl - 1) va.toNat < weight t (lvl - 1 + 1) / weight t (lvl - 1) :=
    digit_lt (weight_dvd (by omega)) (weight_pos _ _)
  rw [hlvl, ← hsize] at hlt
  exact ⟨_, _, w, getPmIdx_digit h va, hn, hw, hlt⟩

theorem and_maskRange64_eq (va : Va) {hi : Nat} (h : hi < 64) :
    va &&& maskRange64 hi 0 = BitVec.ofNat 64 (va.toNat % 2 ^ (hi + 1)) := by
  apply BitVec.eq_of_toNat_eq
  rw [toNat_and_maskRange64 va h, BitVec.toNat_ofNat]
  exact (Nat.mod_eq_of_lt (Nat.lt_of_le_of_lt (Nat.mod_le ..) va.isLt)).symm

theorem Pmeo.vaToPa_eq {e : Pmeo} {pa : Pa} (h : e.vaToPa va = some pa) : ∃ base, e.getAddress = some base ∧
    pa = base + BitVec.ofNat 64 (va.toNat % weight e.t (e.lvl - 1)) := by
  have hlt := vaIdxHi_lt e.t (e.lvl - 1)
  simp only [vaToPa, Option.bind_eq_bind, Option.bind_eq_some_iff, Option.pure_def, Option.some.injEq] at h
  obtain ⟨page, -, -, -, base, hbase, hpa⟩ := h
  exact ⟨base, hbase, by rw [← hpa, and_maskRange64_eq va (by omega)]; rfl⟩

/-- What the tables of indices and sizes do to two addresses. -/
structure IndexTiles (t : HptType) (va va' : Va) : Prop where
  /-- The indices and the low 12 bits make up an address. -/
  eq_iff : va = va' ↔ (∀ l, 1 ≤ l → l ≤ typeMaxLvl t → getPmIdx t l va = getPmIdx t l va') ∧
    va.toNat % 2 ^ 12 = va'.toNat % 2 ^ 12
  /-- An index has its entry in the page map. -/
  lt : ∀ l, IsLevel t l → ∃ i n w, getPmIdx t l va = some i ∧ pmSize t l = some n ∧
    pmeWidth t = some w ∧ i < n / w
  /-- Addresses that differ below an entry's index bits share it. -/
  shares_iff : ∀ l, IsLevel t l →
    (SameSpan t l va va' ↔ ∀ i, vaIdxHi t (l - 1) < i → va.getLsbD i = va'.getLsbD i)
  /-- The offset in a page is what is below these bits. -/
  vaToPa : ∀ (e : Pmeo) (pa : Pa), e.t = t → e.vaToPa va = some pa → ∃ base, e.getAddress = some base ∧
    pa = base + BitVec.ofNat 64 (va.toNat % 2 ^ (vaIdxHi t (e.lvl - 1) + 1))
  remaining : ∀ e : Pmeo, e.t = t → e.remainingOnPage va =
    2 ^ (vaIdxHi t (e.lvl - 1) + 1) - va.toNat % 2 ^ (vaIdxHi t (e.lvl - 1) + 1)

/-- **Page map indexing** tells addresses apart, page by page. -/
theorem pmIdx_tiles (ht : t ≠ .invalid) (hva : va.toNat < 2 ^ vaWidth t) (hva' : va'.toNat < 2 ^ vaWidth t) :
    IndexTiles t va va' where
  eq_iff := eq_iff_sameSpan ht hva hva'
  lt l hl := getPmIdx_lt hl va
  shares_iff l hl := by
    rw [sameSpan_iff hl, Nat.mod_eq_of_lt hva, Nat.mod_eq_of_lt hva']
    exact div_eq_iff_testBit
  vaToPa e pa het hpa := by
    subst het
    exact e.vaToPa_eq hpa
  remaining e het := by
    subst het
    exact e.remainingOnPage_eq va

/-- Two addresses of one 2 MB page of PAE -/
theorem pmIdx_tiles_pae : IndexTiles .pae 0xC0201000 0xC0300FFF :=
  pmIdx_tiles (by decide) (by decide) (by decide)

end Xmhf.Hpt
