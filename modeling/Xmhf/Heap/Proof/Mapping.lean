import Mathlib.Order.Monotone.Basic
import Xmhf.Heap.Proof.Bits

/-!
# Sizes and free lists

The free lists in order of their indices: list `k` has first-level index `k / 32` and second-level index
`k % 32`, and holds the blocks from `keyMin k` up to the next list's.

* `keyMin_le_iff`: list `k` is not above the list of `size` just when `keyMin k ≤ size`.
* `keyOf_search_le_iff`: the list that `mapping_search` gives is the first one whose blocks are all large
  enough.
* `mappingSearch_inside_iff`: its index is inside the tables just for sizes up to `searchMax`.
-/

namespace Xmhf.Tlsf

open Xmhf.Word

/-- The number of a list in order. -/
def key (list : Nat × Nat) : Nat := slIndexCount * list.1 + list.2

/-- The smallest size in list `k`. -/
def keyMin (k : Nat) : Nat := if k < 32 then 4 * k else (32 + k % 32) * 2 ^ (k / 32 + 1)

/-- The number of the list of a size. -/
def keyOf (size : Nat) : Nat := key (mappingInsert size)

/-- The largest size that `mapping_search` has a list for. -/
def searchMax : Nat := 2 ^ 30 - 2 ^ 24

/-- How far apart the smallest sizes of list `k` and of the next one are. -/
def gap (k : Nat) : Nat := if k < 32 then 4 else 2 ^ (k / 32 + 1)

theorem gap_pos (k : Nat) : 0 < gap k := by
  unfold gap
  split
  · exact Nat.succ_pos 3
  · exact Nat.two_pow_pos _

theorem gap_mono (k : Nat) : gap k ≤ gap (k + 1) := by
  unfold gap
  split
  · split
    · exact Nat.le_refl _
    · exact Nat.pow_le_pow_right (n := 2) Nat.two_pos (show 2 ≤ (k + 1) / 32 + 1 by omega)
  · rw [if_neg (by omega)]
    exact Nat.pow_le_pow_right (by decide) (by omega)

theorem keyMin_succ (k : Nat) : keyMin (k + 1) = keyMin k + gap k := by
  unfold keyMin gap
  rcases Nat.lt_trichotomy k 31 with h | rfl | h
  · rw [if_pos (by omega), if_pos (by omega), if_pos (by omega)]
    omega
  · decide
  · rw [if_neg (by omega), if_neg (by omega), if_neg (by omega), ← Nat.succ_mul]
    by_cases hlast : k % 32 = 31
    · -- on to the next power of two
      rw [show (k + 1) / 32 = k / 32 + 1 by omega, show (k + 1) % 32 = 0 by omega, hlast,
        Nat.pow_succ 2 (k / 32 + 1)]
      omega
    · rw [show (k + 1) / 32 = k / 32 by omega, show (k + 1) % 32 = k % 32 + 1 by omega]
      rfl

theorem keyMin_strictMono : StrictMono keyMin :=
  strictMono_nat_of_lt_succ fun k => keyMin_succ k ▸ Nat.lt_add_of_pos_right (gap_pos k)

/-! ## The list of a size -/

theorem xor_32 : ∀ q < 32, (32 + q) ^^^ 1 <<< slIndexCountLog2 = q := by decide

theorem mappingInsert_small {size : Nat} (h : size < 128) : mappingInsert size = (0, size / 4) :=
  if_pos h

theorem fls_size {size : Nat} (hne : size ≠ 0) (h32 : size < 2 ^ 32) :
    (tlsfFls (BitVec.ofNat 32 size)).toNat = size.log2 := by
  have hnat : (BitVec.ofNat 32 size).toNat = size := by
    rw [BitVec.toNat_ofNat, Nat.mod_eq_of_lt h32]
  rw [tlsfFls_spec fun h0 => hne (by rw [← hnat, h0]; rfl), hnat, Int.toNat_natCast]

/-- A size that is not small has 32 lists up to the next power of two. -/
theorem keyOf_large {size : Nat} (h : 128 ≤ size) (h32 : size < 2 ^ 32) :
    ∃ q, q < 32 ∧ mappingInsert size = (size.log2 - 6, q) ∧ keyOf size = 32 * (size.log2 - 6) + q ∧
      keyMin (keyOf size) = (32 + q) * 2 ^ (size.log2 - 5) ∧ gap (keyOf size) = 2 ^ (size.log2 - 5) ∧
      32 + q = size / 2 ^ (size.log2 - 5) := by
  have hne : size ≠ 0 := by omega
  have hl : 7 ≤ size.log2 := (Nat.le_log2 hne).2 h
  have hunit : 2 ^ (size.log2 - 5) * 32 = 2 ^ size.log2 := by
    rw [show 32 = 2 ^ 5 from rfl, ← Nat.pow_add, Nat.sub_add_cancel (by omega)]
  have hlow := Nat.log2_self_le hne
  have hhigh := @Nat.lt_log2_self size
  rw [Nat.pow_succ] at hhigh
  have hpos := Nat.two_pow_pos (size.log2 - 5)
  have hq : 32 ≤ size / 2 ^ (size.log2 - 5) := (Nat.le_div_iff_mul_le hpos).2 (by omega)
  have hq' : size / 2 ^ (size.log2 - 5) < 64 := (Nat.div_lt_iff_lt_mul hpos).2 (by omega)
  obtain ⟨q, hdiv⟩ : ∃ q, size / 2 ^ (size.log2 - 5) = 32 + q := Nat.exists_eq_add_of_le hq
  have hins : mappingInsert size = (size.log2 - 6, q) := by
    rw [mappingInsert, if_neg (show ¬size < smallBlockSize from Nat.not_lt.2 h)]
    simp only [fls_size hne h32, Nat.shiftRight_eq_div_pow]
    rw [show size.log2 - slIndexCountLog2 = size.log2 - 5 from rfl, hdiv, xor_32 q (by omega)]
    rfl
  have hkey : keyOf size = 32 * (size.log2 - 6) + q := by
    rw [keyOf, hins]
    rfl
  refine ⟨q, by omega, hins, hkey, ?_, ?_, hdiv.symm⟩
  · rw [hkey, keyMin, if_neg (by omega), show (32 * (size.log2 - 6) + q) % 32 = q by omega,
      show (32 * (size.log2 - 6) + q) / 32 + 1 = size.log2 - 5 by omega]
  · rw [hkey, gap, if_neg (by omega),
      show (32 * (size.log2 - 6) + q) / 32 + 1 = size.log2 - 5 by omega]

/-- The list of a size that is small. -/
theorem keyOf_small {size : Nat} (h : size < 128) :
    keyOf size = size / 4 ∧ keyMin (keyOf size) = 4 * (size / 4) ∧ gap (keyOf size) = 4 := by
  have hkey : keyOf size = size / 4 := by
    rw [keyOf, mappingInsert_small h]
    exact Nat.zero_add _
  rw [hkey]
  exact ⟨rfl, if_pos (by omega), if_pos (by omega)⟩

/-- A size is in its list. -/
theorem keyMin_keyOf {size : Nat} (h32 : size < 2 ^ 32) :
    keyMin (keyOf size) ≤ size ∧ size < keyMin (keyOf size) + gap (keyOf size) := by
  rcases Nat.lt_or_ge size 128 with h | h
  · obtain ⟨-, hmin, hgap⟩ := keyOf_small h
    rw [hmin, hgap]
    omega
  · obtain ⟨q, -, -, -, hmin, hgap, hdiv⟩ := keyOf_large h h32
    rw [hmin, hgap, hdiv, ← Nat.succ_mul]
    refine ⟨Nat.div_mul_le_self .., ?_⟩
    rw [Nat.mul_comm]
    exact Nat.lt_mul_div_succ size (Nat.two_pow_pos _)

/-- **The lists in order**: list `k` is not above that of `size` if it holds smaller sizes. -/
theorem keyMin_le_iff {size k : Nat} (h32 : size < 2 ^ 32) : keyMin k ≤ size ↔ k ≤ keyOf size := by
  obtain ⟨hlow, hhigh⟩ := keyMin_keyOf h32
  rw [← keyMin_succ] at hhigh
  constructor
  · intro h
    exact Nat.le_of_lt_succ (keyMin_strictMono.lt_iff_lt.1 (Nat.lt_of_le_of_lt h hhigh))
  · intro h
    exact Nat.le_trans (keyMin_strictMono.monotone h) hlow

theorem mappingInsert_snd_lt {size : Nat} (h32 : size < 2 ^ 32) : (mappingInsert size).2 < slIndexCount := by
  rcases Nat.lt_or_ge size 128 with h | h
  · rw [mappingInsert_small h]
    exact show size / 4 < 32 by omega
  · obtain ⟨q, hq, hins, -⟩ := keyOf_large h h32
    rw [hins]
    exact hq

/-- The first-level index is inside the tables for sizes below `block_size_max`. -/
theorem mappingInsert_fst_lt_iff {size : Nat} (h32 : size < 2 ^ 32) :
    (mappingInsert size).1 < flIndexCount ↔ size < 2 ^ 30 := by
  have hsnd := mappingInsert_snd_lt h32
  have hiff := keyMin_le_iff (k := 768) h32
  have hmin : keyMin 768 = 2 ^ 30 := by decide
  have hkey : keyOf size = 32 * (mappingInsert size).1 + (mappingInsert size).2 := rfl
  have hcount : flIndexCount = 24 := rfl
  have hcount' : slIndexCount = 32 := rfl
  rw [hmin] at hiff
  omega

/-! ## The list to search -/

/-- What `mapping_search` adds to a size. -/
def searchRound (size : Nat) : Nat := if 32 ≤ size then 2 ^ (size.log2 - 5) - 1 else 0

theorem mappingSearch_eq {size : Nat} (h31 : size < 2 ^ 31) :
    mappingSearch size = mappingInsert (size + searchRound size) := by
  unfold mappingSearch searchRound
  by_cases h : 32 ≤ size
  · have hne : size ≠ 0 := by omega
    have hround : 2 ^ (size.log2 - 5) ≤ size :=
      Nat.le_trans (Nat.pow_le_pow_right (by decide) (Nat.sub_le ..)) (Nat.log2_self_le hne)
    simp only [fls_size hne (by omega), Nat.one_shiftLeft]
    rw [if_pos h, if_pos (show 2 ^ slIndexCountLog2 ≤ size from h), show slIndexCountLog2 = 5 from rfl,
      add32_of_lt (by omega)]
  · rw [if_neg (show ¬1 <<< slIndexCountLog2 ≤ size from h), if_neg h, Nat.add_zero]

theorem add_searchRound_lt {size : Nat} (h31 : size < 2 ^ 31) : size + searchRound size < 2 ^ 32 := by
  unfold searchRound
  split
  · have hround : 2 ^ (size.log2 - 5) ≤ size :=
      Nat.le_trans (Nat.pow_le_pow_right (by decide) (Nat.sub_le ..)) (Nat.log2_self_le (by omega))
    omega
  · omega

/-- What is added leads to the next list, and not beyond it, unless the size is the smallest in its own. -/
theorem searchRound_spec {size : Nat} (h4 : size % 4 = 0) (h32 : size < 2 ^ 32) :
    searchRound size < gap (keyOf size) ∧
      (keyMin (keyOf size) < size → keyMin (keyOf size) + gap (keyOf size) ≤ size + searchRound size) := by
  unfold searchRound
  rcases Nat.lt_or_ge size 128 with h | h
  · obtain ⟨-, hmin, hgap⟩ := keyOf_small h
    rw [hmin, hgap]
    refine ⟨?_, fun hlt => by omega⟩
    split
    · have hl : size.log2 < 7 := (Nat.log2_lt (by omega)).2 h
      have hpow : 2 ^ (size.log2 - 5) ≤ 2 ^ 1 := Nat.pow_le_pow_right (by decide) (by omega)
      omega
    · decide
  · obtain ⟨q, -, -, -, -, hgap, -⟩ := keyOf_large h h32
    have hpos := Nat.two_pow_pos (size.log2 - 5)
    rw [if_pos (by omega), hgap]
    omega

/-- **The search starts at the first list whose blocks are all large enough.** -/
theorem key_search_le_iff {size k : Nat} (h4 : size % 4 = 0) (h31 : size < 2 ^ 31) :
    key (mappingSearch size) ≤ k ↔ size ≤ keyMin k := by
  obtain ⟨hround, hnext⟩ := searchRound_spec h4 (Nat.lt_trans h31 (by decide))
  obtain ⟨hlow, hhigh⟩ := keyMin_keyOf (show size < 2 ^ 32 from Nat.lt_trans h31 (by decide))
  have hgap := gap_mono (keyOf size)
  have hle : key (mappingSearch size) ≤ k ↔ size + searchRound size < keyMin (k + 1) := by
    rw [mappingSearch_eq h31, ← Nat.not_le, keyMin_le_iff (add_searchRound_lt h31), Nat.not_le]
    exact Nat.lt_succ_iff.symm
  rw [hle]
  constructor
  · intro h
    by_contra hlt
    have hk : k ≤ keyOf size := (keyMin_le_iff (by omega)).1 (by omega)
    rcases Nat.eq_or_lt_of_le hlow with heq | hgt
    · -- the smallest size of its list: `k` is a list before it
      have hk' : k < keyOf size := Nat.lt_of_le_of_ne hk fun he => hlt (he ▸ Nat.le_of_eq heq.symm)
      have hle : keyMin (k + 1) ≤ keyMin (keyOf size) := keyMin_strictMono.monotone hk'
      exact absurd h (by omega)
    · have hle : keyMin (k + 1) ≤ keyMin (keyOf size + 1) :=
        keyMin_strictMono.monotone (Nat.succ_le_succ hk)
      rw [keyMin_succ (keyOf size)] at hle
      have := hnext hgt
      omega
  · intro h
    rcases Nat.eq_or_lt_of_le hlow with heq | hgt
    · have hk : keyOf size ≤ k := keyMin_strictMono.le_iff_le.1 (by omega)
      have hle : keyMin (keyOf size + 1) ≤ keyMin (k + 1) :=
        keyMin_strictMono.monotone (Nat.succ_le_succ hk)
      rw [keyMin_succ (keyOf size)] at hle
      omega
    · have hk : keyOf size < k := keyMin_strictMono.lt_iff_lt.1 (by omega)
      have hle : keyMin (keyOf size + 1 + 1) ≤ keyMin (k + 1) :=
        keyMin_strictMono.monotone (Nat.succ_le_succ hk)
      rw [keyMin_succ (keyOf size + 1), keyMin_succ (keyOf size)] at hle
      omega

/-- A block of a list from that one on is large enough. -/
theorem le_of_key_search_le {size b : Nat} (h4 : size % 4 = 0) (h31 : size < 2 ^ 31) (hb : b < 2 ^ 32)
    (h : key (mappingSearch size) ≤ keyOf b) : size ≤ b :=
  Nat.le_trans ((key_search_le_iff h4 h31).1 h) (keyMin_keyOf hb).1

/-- **The indices are inside the tables** just for sizes up to `searchMax`. -/
theorem mappingSearch_inside_iff {size : Nat} (h4 : size % 4 = 0) (h31 : size < 2 ^ 31) :
    (mappingSearch size).1 < flIndexCount ↔ size ≤ searchMax := by
  have hsnd : (mappingSearch size).2 < slIndexCount := by
    rw [mappingSearch_eq h31]
    exact mappingInsert_snd_lt (add_searchRound_lt h31)
  have hiff := key_search_le_iff (k := 767) h4 h31
  have hmin : keyMin 767 = searchMax := by decide
  have hkey : key (mappingSearch size) = 32 * (mappingSearch size).1 + (mappingSearch size).2 := rfl
  have hcount : flIndexCount = 24 := rfl
  have hcount' : slIndexCount = 32 := rfl
  rw [hmin] at hiff
  omega

end Xmhf.Tlsf
