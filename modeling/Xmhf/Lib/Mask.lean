import Mathlib.Data.Nat.BitIndices
import Mathlib.Data.List.Basic

/-!
# Ranges given by masks

A range of `2 ^ k` values is the values that agree with its start on a mask of the bits from `k` on.

* `High mask k`: the ones of the mask are its bits from `k` on. Two such masks are nested (`High.and_eq`).
* `pieces b n` are the ranges of the powers of two of `n`, the largest one first and each after the one
  before. They have just the `n` values from `b` on if and only if the largest of them is aligned
  (`pieces_exact_iff`), and there are as many as `n` has ones (`length_pieces`).
-/

namespace Xmhf.Mask

variable {w k l : Nat} {mask m n : BitVec w}

/-- The ones of the mask are its bits from `k` on. -/
def High (mask : BitVec w) (k : Nat) : Prop := ∀ i < w, mask.getLsbD i = decide (k ≤ i)

theorem High.and_eq (hm : High m k) (hn : High n l) (hkl : k ≤ l) : m &&& n = n := by
  apply BitVec.eq_of_getLsbD_eq
  intro i hi
  rw [BitVec.getLsbD_and, hm i hi, hn i hi]
  by_cases hl : l ≤ i
  · simp [hl, Nat.le_trans hkl hl]
  · simp [hl]

/-- Of two masks, one has all the ones of the other. -/
theorem High.nested (hm : High m k) (hn : High n l) : m &&& n = n ∨ m &&& n = m := by
  rcases Nat.le_total k l with h | h
  · exact Or.inl (hm.and_eq hn h)
  · exact Or.inr ((BitVec.and_comm m n).trans (hn.and_eq hm h))

/-- Values that agree on the mask are those of one range. -/
theorem High.and_eq_iff (h : High mask k) (x y : BitVec w) :
    x &&& mask = y &&& mask ↔ x.toNat / 2 ^ k = y.toNat / 2 ^ k := by
  have hbit (z : BitVec w) (i : Nat) (hi : i < w) :
      (z &&& mask).getLsbD i = (decide (k ≤ i) && z.getLsbD i) := by
    rw [BitVec.getLsbD_and, h i hi, Bool.and_comm]
  constructor
  · intro heq
    apply Nat.eq_of_testBit_eq
    intro i
    rw [Nat.testBit_div_two_pow, Nat.testBit_div_two_pow, ← BitVec.getLsbD, ← BitVec.getLsbD]
    by_cases hi : i + k < w
    · have := congrArg (fun z => z.getLsbD (i + k)) heq
      simpa [hbit _ _ hi] using this
    · rw [BitVec.getLsbD_of_ge _ _ (Nat.not_lt.1 hi), BitVec.getLsbD_of_ge _ _ (Nat.not_lt.1 hi)]
  · intro heq
    apply BitVec.eq_of_getLsbD_eq
    intro i hi
    rw [hbit _ _ hi, hbit _ _ hi]
    by_cases hk : k ≤ i
    · have hx := congrArg (fun z => z.testBit (i - k)) heq
      simp only [Nat.testBit_div_two_pow, Nat.sub_add_cancel hk, BitVec.testBit_toNat] at hx
      rw [hx]
    · simp [hk]

/-- `~(2 ^ k - 1)` -/
theorem high_not_ofNat (k : Nat) : High (~~~BitVec.ofNat w (2 ^ k - 1)) k := by
  intro i hi
  rw [BitVec.getLsbD_not, BitVec.getLsbD_ofNat, Nat.testBit_two_pow_sub_one]
  by_cases hk : i < k
  · simp [hi, hk]
  · simp [hi, hk, Nat.not_lt.1 hk]

theorem High.setWidth {w' : Nat} (h : High mask k) (hle : w' ≤ w) : High (mask.setWidth w') k := by
  intro i hi
  rw [BitVec.getLsbD_setWidth, h i (Nat.lt_of_lt_of_le hi hle), decide_eq_true hi, Bool.true_and]

/-! ## The powers of two of a length -/

/-- The ranges of the powers of two of `n` from `b` on: where each starts, and its exponent. -/
def pieces (b n : Nat) : List (Nat × Nat) :=
  if h : n = 0 then [] else (b, n.log2) :: pieces (b + 2 ^ n.log2) (n - 2 ^ n.log2)
termination_by n
decreasing_by exact Nat.sub_lt (Nat.pos_of_ne_zero h) (Nat.two_pow_pos _)

/-- A value is in one of the ranges. -/
def InPieces (b n x : Nat) : Prop := ∃ p ∈ pieces b n, x / 2 ^ p.2 = p.1 / 2 ^ p.2

theorem pieces_zero (b : Nat) : pieces b 0 = [] := by rw [pieces, dif_pos rfl]

theorem pieces_of_ne_zero {n : Nat} (h : n ≠ 0) (b : Nat) :
    pieces b n = (b, n.log2) :: pieces (b + 2 ^ n.log2) (n - 2 ^ n.log2) := by
  rw [pieces, dif_neg h]

/-- What is left after the largest power of two is less than that power. -/
theorem sub_two_pow_log2_lt (n : Nat) : n - 2 ^ n.log2 < 2 ^ n.log2 := by
  have := Nat.lt_log2_self (n := n)
  rw [Nat.pow_succ] at this
  have := Nat.two_pow_pos n.log2
  omega

/-- The next power of two divides what the largest one and the start have in common. -/
theorem two_pow_log2_rest_dvd {b n : Nat} (hdvd : 2 ^ n.log2 ∣ b) :
    2 ^ (n - 2 ^ n.log2).log2 ∣ b + 2 ^ n.log2 := by
  have hle : (n - 2 ^ n.log2).log2 ≤ n.log2 := by
    rcases Nat.eq_zero_or_pos (n - 2 ^ n.log2) with h | h
    · rw [h]
      exact Nat.zero_le _
    · exact Nat.le_of_lt ((Nat.log2_lt (Nat.ne_of_gt h)).2 (sub_two_pow_log2_lt n))
  have hpow := Nat.pow_dvd_pow 2 hle
  exact Nat.dvd_add (Nat.dvd_trans hpow hdvd) hpow

/-- The values that agree with an aligned start. -/
theorem div_eq_div_iff_of_dvd {b x k : Nat} (hdvd : 2 ^ k ∣ b) :
    x / 2 ^ k = b / 2 ^ k ↔ b ≤ x ∧ x < b + 2 ^ k := by
  obtain ⟨q, rfl⟩ := hdvd
  rw [Nat.mul_div_cancel_left _ (Nat.two_pow_pos k), Nat.div_eq_iff (Nat.two_pow_pos k), Nat.mul_comm q]
  have := Nat.two_pow_pos k
  omega

/-- Aligned pieces have just the values of the length. -/
theorem inPieces_iff {b n x : Nat} (hdvd : n = 0 ∨ 2 ^ n.log2 ∣ b) :
    InPieces b n x ↔ b ≤ x ∧ x < b + n := by
  induction n using Nat.strongRecOn generalizing b with
  | ind n ih =>
    by_cases hn : n = 0
    · subst hn
      simp [InPieces, pieces_zero]
    · have hd := hdvd.resolve_left hn
      have hlog := Nat.log2_self_le hn
      have hpos := Nat.two_pow_pos n.log2
      have hrest := ih (n - 2 ^ n.log2) (by omega) (Or.inr (two_pow_log2_rest_dvd hd))
      unfold InPieces at hrest ⊢
      simp only [pieces_of_ne_zero hn, List.mem_cons, exists_eq_or_imp, hrest, div_eq_div_iff_of_dvd hd]
      omega

/-- **The pieces are exact** if and only if the largest one is aligned. -/
theorem pieces_exact_iff {b n : Nat} :
    (∀ x < b + n, InPieces b n x ↔ b ≤ x ∧ x < b + n) ↔ n = 0 ∨ 2 ^ n.log2 ∣ b := by
  refine ⟨fun h => ?_, fun h x _ => inPieces_iff h⟩
  by_contra hne
  obtain ⟨hn, hd⟩ := not_or.1 hne
  -- the range of the first piece starts below `b`
  have hlt : b / 2 ^ n.log2 * 2 ^ n.log2 < b :=
    Nat.lt_of_le_of_ne (Nat.div_mul_le_self ..) fun heq => hd ⟨_, by rw [Nat.mul_comm]; exact heq.symm⟩
  have hin : InPieces b n (b / 2 ^ n.log2 * 2 ^ n.log2) :=
    ⟨(b, n.log2), by simp [pieces_of_ne_zero hn], Nat.mul_div_cancel _ (Nat.two_pow_pos _)⟩
  exact absurd ((h _ (by omega)).1 hin).1 (Nat.not_le.2 hlt)

/-- There are as many pieces as the length has ones. -/
theorem length_pieces (b n : Nat) : (pieces b n).length = n.bitIndices.length := by
  induction n using Nat.strongRecOn generalizing b with
  | ind n ih =>
    by_cases hn : n = 0
    · subst hn
      simp [pieces_zero]
    · have hlog := Nat.log2_self_le hn
      have hpos := Nat.two_pow_pos n.log2
      have hrest := sub_two_pow_log2_lt n
      have hsorted : ((n - 2 ^ n.log2).bitIndices ++ [n.log2]).SortedLT := by
        rw [List.sortedLT_iff_pairwise, List.pairwise_append]
        refine ⟨Nat.bitIndices_sorted.pairwise, List.pairwise_singleton .., fun i hi j hj => ?_⟩
        rw [List.mem_singleton.1 hj]
        have hle := Nat.two_pow_le_of_mem_bitIndices hi
        exact (Nat.pow_lt_pow_iff_right (by decide)).1 (Nat.lt_of_le_of_lt hle hrest)
      have hbits : n.bitIndices = (n - 2 ^ n.log2).bitIndices ++ [n.log2] := by
        rw [← Nat.bitIndices_sum_map_two_pow hsorted]
        simp [Nat.sub_add_cancel hlog]
      rw [pieces_of_ne_zero hn, List.length_cons, ih _ (by omega), hbits, List.length_append,
        List.length_singleton]

end Xmhf.Mask
