import Mathlib.Data.Nat.Find
import Xmhf.Heap.Tlsf

/-!
# Bit searches

* `tlsfFfs_spec`, `tlsfFls_spec`: `tlsf_ffs` finds the lowest bit that is set, `tlsf_fls` the highest.
* `tlsfFlsGeneric_eq`: each step of the fall back keeps the sum of its result and the highest bit
  (`FlsInv.step`), and the last one leaves bit 31.
* `generic_agrees`: the fall back is the builtin, for every word.
-/

namespace Xmhf.Tlsf

variable {word : BitVec 32}

theorem exists_bit (h : word ≠ 0) : ∃ i < 32, word.getLsbD i = true := by
  by_contra hno
  refine h (BitVec.eq_of_getLsbD_eq fun i hi => ?_)
  rw [BitVec.ofNat_eq_ofNat, BitVec.getLsbD_zero]
  exact Bool.eq_false_iff.2 fun hb => hno ⟨i, hi, hb⟩

/-- A test of bit `i`. -/
theorem and_bit_ne_zero {b : BitVec 32} {i : Nat} (hb : ∀ j < 32, b.getLsbD j = decide (j = i)) :
    word &&& b ≠ 0 ↔ word.getLsbD i = true := by
  constructor
  · intro hne
    obtain ⟨j, hj, hbit⟩ := exists_bit hne
    rw [BitVec.getLsbD_and, hb j hj, Bool.and_eq_true, decide_eq_true_eq] at hbit
    exact hbit.2 ▸ hbit.1
  · intro hbit h0
    have := congrArg (fun v => v.getLsbD i) h0
    simp [hb i (BitVec.lt_of_getLsbD hbit), hbit] at this

/-! ## The lowest bit -/

theorem tlsfFfs_eq {i : Nat} (hi : i < 32) (hbit : word.getLsbD i = true)
    (hlow : ∀ j < i, word.getLsbD j = false) : tlsfFfs word = i := by
  have hfind : (List.range 32).find? (word.getLsbD ·) = some i :=
    List.find?_range_eq_some.2 ⟨hbit, List.mem_range.2 hi, fun j hj => by simp [hlow j hj]⟩
  simp [tlsfFfs, builtinFfs, hfind]

/-- **The lowest bit that is set.** -/
theorem tlsfFfs_spec (h : word ≠ 0) : ∃ i, tlsfFfs word = (i : Nat) ∧ i < 32 ∧ word.getLsbD i = true ∧
    ∀ j < i, word.getLsbD j = false := by
  obtain ⟨k, hk, hbit⟩ := exists_bit h
  have hex : ∃ i, i < 32 ∧ word.getLsbD i = true := ⟨k, hk, hbit⟩
  have hlow : ∀ j < Nat.find hex, word.getLsbD j = false := fun j hj =>
    Bool.eq_false_iff.2 fun hb => Nat.find_min hex hj ⟨Nat.lt_trans hj (Nat.find_spec hex).1, hb⟩
  exact ⟨_, tlsfFfs_eq (Nat.find_spec hex).1 (Nat.find_spec hex).2 hlow, (Nat.find_spec hex).1,
    (Nat.find_spec hex).2, hlow⟩

/-! ## The highest bit -/

theorem toNat_ne_zero (h : word ≠ 0) : word.toNat ≠ 0 := fun h0 => h (BitVec.eq_of_toNat_eq h0)

/-- **The highest bit that is set.** -/
theorem tlsfFls_spec (h : word ≠ 0) : tlsfFls word = (word.toNat.log2 : Int) := by
  have hlt : word.toNat.log2 < 32 := (Nat.log2_lt (toNat_ne_zero h)).2 word.isLt
  rw [tlsfFls, if_pos h, builtinClz]
  omega

/-- The state of `tlsf_fls_generic`: of the word's value only the `k` high places may still be clear. -/
structure FlsInv (word : BitVec 32) (k : Nat) (s : BitVec 32 × Int) : Prop where
  high : 2 ^ (31 - k) ≤ s.1.toNat
  sum : s.1.toNat.log2 + s.2 = word.toNat.log2 + 32

theorem FlsInv.step {s : BitVec 32 × Int} {n k : Nat} (h : FlsInv word (n + k) s) (hn : n + k < 32)
    (hnk : n ≤ k + 1) (hmask : ∀ i < 32, (BitVec.allOnes 32 <<< (32 - n)).getLsbD i = decide (32 - n ≤ i)) :
    FlsInv word k (flsStep (BitVec.allOnes 32 <<< (32 - n)) n s) := by
  obtain ⟨w, bit⟩ := s
  have hhigh : 2 ^ (31 - (n + k)) ≤ w.toNat := h.high
  have hsum : w.toNat.log2 + bit = word.toNat.log2 + 32 := h.sum
  have hne : w.toNat ≠ 0 := Nat.ne_of_gt (Nat.lt_of_lt_of_le (Nat.two_pow_pos _) hhigh)
  unfold flsStep
  split
  · -- the `n` high places are clear
    rename_i hclear
    have hlt : w.toNat < 2 ^ (32 - n) := by
      refine Nat.lt_pow_two_of_testBit _ fun i hi => ?_
      by_cases h32 : i < 32
      · have hbit := congrArg (fun v => v.getLsbD i) hclear
        simp only [BitVec.getLsbD_and, hmask i h32, decide_eq_true hi, Bool.and_true] at hbit
        simpa [← BitVec.testBit_toNat] using hbit
      · exact Nat.testBit_lt_two_pow (Nat.lt_of_lt_of_le w.isLt (Nat.pow_le_pow_right (by decide)
          (Nat.le_of_not_lt h32)))
    have hshift : (w <<< n).toNat = w.toNat * 2 ^ n := by
      rw [BitVec.toNat_shiftLeft, Nat.shiftLeft_eq, Nat.mod_eq_of_lt]
      have hpow : 2 ^ (32 - n) * 2 ^ n = 2 ^ 32 := by rw [← Nat.pow_add, Nat.sub_add_cancel (by omega)]
      exact hpow ▸ Nat.mul_lt_mul_of_pos_right hlt (Nat.two_pow_pos n)
    have hlog : (w.toNat * 2 ^ n).log2 = w.toNat.log2 + n := by
      have hmul : w.toNat * 2 ^ n ≠ 0 := Nat.mul_ne_zero hne (Nat.ne_of_gt (Nat.two_pow_pos n))
      rw [Nat.log2_eq_iff hmul]
      have h1 := Nat.mul_le_mul_right (2 ^ n) (Nat.log2_self_le hne)
      have h2 := Nat.mul_lt_mul_of_pos_right (@Nat.lt_log2_self w.toNat) (Nat.two_pow_pos n)
      rw [← Nat.pow_add] at h1 h2
      exact ⟨h1, by rwa [Nat.add_right_comm] at h2⟩
    refine ⟨?_, ?_⟩
    · have h1 := Nat.mul_le_mul_right (2 ^ n) hhigh
      rw [← Nat.pow_add, show 31 - (n + k) + n = 31 - k by omega] at h1
      exact hshift ▸ h1
    · rw [hshift, hlog]
      push_cast
      omega
  · -- one of them is set
    rename_i hset
    obtain ⟨i, hi, hbit⟩ := exists_bit hset
    rw [BitVec.getLsbD_and, hmask i hi] at hbit
    simp only [Bool.and_eq_true, decide_eq_true_eq] at hbit
    refine ⟨?_, hsum⟩
    calc 2 ^ (31 - k) ≤ 2 ^ i := Nat.pow_le_pow_right (by decide) (by omega)
      _ ≤ w.toNat := Nat.ge_two_pow_of_testBit hbit.1

/-- **The fall back counts up to the highest bit.** -/
theorem tlsfFlsGeneric_eq (h : word ≠ 0) : tlsfFlsGeneric word = word.toNat.log2 + 1 := by
  have h0 : FlsInv word 31 (word, if word = 0 then 31 else 32) :=
    ⟨Nat.one_le_iff_ne_zero.2 (toNat_ne_zero h), by rw [if_neg h]⟩
  have h1 := h0.step (n := 16) (k := 15) (by decide) (by decide) (by decide)
  have h2 := h1.step (n := 8) (k := 7) (by decide) (by decide) (by decide)
  have h3 := h2.step (n := 4) (k := 3) (by decide) (by decide) (by decide)
  have h4 := h3.step (n := 2) (k := 1) (by decide) (by decide) (by decide)
  have h5 := h4.step (n := 1) (k := 0) (by decide) (by decide) (by decide)
  -- bit 31 is set in the end
  have hlast := h5.high
  have hsum := h5.sum
  have hlog := (Nat.log2_eq_iff (Nat.ne_of_gt (Nat.lt_of_lt_of_le (by decide) hlast))).2
    ⟨hlast, BitVec.isLt _⟩
  rw [hlog] at hsum
  have hdef : tlsfFlsGeneric word = (flsStep (BitVec.allOnes 32 <<< (32 - 1)) 1
      (flsStep (BitVec.allOnes 32 <<< (32 - 2)) 2 (flsStep (BitVec.allOnes 32 <<< (32 - 4)) 4
        (flsStep (BitVec.allOnes 32 <<< (32 - 8)) 8 (flsStep (BitVec.allOnes 32 <<< (32 - 16)) 16
          (word, if word = 0 then 31 else 32)))))).2 := rfl
  rw [hdef]
  omega

/-! ## The fall back -/

/-- `word & (~word + 1)` is the lowest bit that is set. -/
theorem and_neg_eq {i : Nat} (hi : i < 32) (hbit : word.getLsbD i = true)
    (hlow : ∀ j < i, word.getLsbD j = false) : word &&& (~~~word + 1) = BitVec.twoPow 32 i := by
  rw [BitVec.ofNat_eq_ofNat, ← BitVec.neg_eq_not_add]
  apply BitVec.eq_of_getLsbD_eq
  intro j hj
  rw [BitVec.getLsbD_and, BitVec.getLsbD_neg, BitVec.getLsbD_twoPow, decide_eq_true hj,
    decide_eq_true hi, Bool.true_and, Bool.true_and]
  rcases Nat.lt_trichotomy j i with h | rfl | h
  · simp [hlow j h, Nat.ne_of_gt h]
  · have hno : ¬∃ k < j, word.getLsbD k = true := fun ⟨k, hk, hb⟩ => by simp [hlow k hk] at hb
    simp [hbit, hno]
  · have hex : ∃ k < j, word.getLsbD k = true := ⟨i, h, hbit⟩
    simp [hex, Nat.ne_of_lt h]

/-- **The fall back agrees with the builtins** on every word. -/
theorem generic_agrees (word : BitVec 32) :
    tlsfFfsGeneric word = tlsfFfs word ∧ tlsfFlsGeneric word - 1 = tlsfFls word := by
  by_cases h : word = 0
  · subst h
    decide
  · obtain ⟨i, hffs, hi, hbit, hlow⟩ := tlsfFfs_spec h
    have hpow : (BitVec.twoPow 32 i).toNat = 2 ^ i := by
      rw [BitVec.toNat_twoPow, Nat.mod_eq_of_lt (Nat.pow_lt_pow_right (by decide) hi)]
    have hne : BitVec.twoPow 32 i ≠ 0 := fun h0 => by
      rw [h0] at hpow
      exact absurd hpow.symm (Nat.ne_of_gt (Nat.two_pow_pos i))
    constructor
    · rw [tlsfFfsGeneric, and_neg_eq hi hbit hlow, tlsfFlsGeneric_eq hne, hpow, Nat.log2_two_pow, hffs]
      omega
    · rw [tlsfFlsGeneric_eq h, tlsfFls_spec h]
      omega

end Xmhf.Tlsf
