import Xmhf.Heap.Tlsf

/-!
# Alignment

`align_up`, `align_down` and `align_ptr` to a power of two are rounding up and down to a multiple of it
(`alignUp_eq`, `alignDown_eq`, `alignPtr_eq`), and `adjust_request_size` rounds a request up to words, with a
minimum (`adjustRequestSize_spec`).
-/

namespace Xmhf.Tlsf

open Xmhf.Word

/-- `x` rounded up to a multiple of `n`. -/
def roundUp (n x : Nat) : Nat := (x + (n - 1)) / n * n

theorem le_roundUp {n x : Nat} (hn : 0 < n) : x ≤ roundUp n x := by
  have := Nat.lt_div_mul_add (a := x + (n - 1)) hn
  unfold roundUp
  omega

theorem roundUp_lt {n x : Nat} (hn : 0 < n) : roundUp n x < x + n := by
  have := Nat.div_mul_le_self (x + (n - 1)) n
  unfold roundUp
  omega

theorem roundUp_mod (n x : Nat) : roundUp n x % n = 0 := Nat.mul_mod_left ..

theorem roundUp_of_mod {n x : Nat} (hn : 0 < n) (h : x % n = 0) : roundUp n x = x := by
  obtain ⟨k, rfl⟩ := Nat.dvd_of_mod_eq_zero h
  rw [roundUp, Nat.mul_add_div hn, Nat.div_eq_of_lt (by omega), Nat.add_zero, Nat.mul_comm]

/-- A multiple of a power of two of at least 4 is one of 4. -/
theorem mod_four_of_mod {k x : Nat} (hk : 2 ≤ k) (h : x % 2 ^ k = 0) : x % 4 = 0 :=
  Nat.mod_eq_zero_of_dvd (Nat.dvd_trans (Nat.pow_dvd_pow 2 hk) (Nat.dvd_of_mod_eq_zero h))

section
variable {k : Nat} (hk : k < 32)
include hk

theorem mask_eq : BitVec.ofNat 32 (2 ^ k) - 1 = BitVec.ofNat 32 (2 ^ k - 1) := by
  have hpow := Nat.two_pow_pos k
  have hlt : 2 ^ k < 2 ^ 32 := Nat.pow_lt_pow_right (by decide) hk
  apply BitVec.eq_of_toNat_eq
  rw [BitVec.toNat_sub, BitVec.toNat_ofNat, BitVec.toNat_ofNat, Nat.mod_eq_of_lt hlt]
  exact show (2 ^ 32 - 1 + 2 ^ k) % 2 ^ 32 = _ by omega

theorem isPowerOfTwo_pow : isPowerOfTwo (2 ^ k) := by
  rw [isPowerOfTwo, mask_eq hk]
  apply BitVec.eq_of_getLsbD_eq
  intro i _
  rw [BitVec.getLsbD_and, BitVec.getLsbD_ofNat, BitVec.getLsbD_ofNat, Nat.testBit_two_pow,
    Nat.testBit_two_pow_sub_one, BitVec.ofNat_eq_ofNat, BitVec.getLsbD_zero]
  by_cases h : k = i <;> simp [h]

theorem toNat_roundUp {x : Nat} (hx : x + (2 ^ k - 1) < 2 ^ 32) :
    ((BitVec.ofNat 32 x + (BitVec.ofNat 32 (2 ^ k) - 1)) &&& ~~~(BitVec.ofNat 32 (2 ^ k) - 1)).toNat =
      roundUp (2 ^ k) x := by
  rw [mask_eq hk, toNat_and_not_mask, ← BitVec.ofNat_add, BitVec.toNat_ofNat, Nat.mod_eq_of_lt hx, roundUp]

theorem alignUp_eq {x : Nat} (hx : x + (2 ^ k - 1) < 2 ^ 32) : alignUp x (2 ^ k) = some (roundUp (2 ^ k) x) := by
  simp only [alignUp, tlsfAssert, if_pos (isPowerOfTwo_pow hk), Option.bind_eq_bind, Option.bind_some,
    Option.pure_def, toNat_roundUp hk hx]

theorem alignPtr_eq {x : Nat} (hx : x + (2 ^ k - 1) < 2 ^ 32) : alignPtr x (2 ^ k) = some (roundUp (2 ^ k) x) := by
  simp only [alignPtr, tlsfAssert, if_pos (isPowerOfTwo_pow hk), Option.bind_eq_bind, Option.bind_some,
    Option.pure_def, toNat_roundUp hk hx]

theorem alignDown_eq {x : Nat} (hx : x < 2 ^ 32) : alignDown x (2 ^ k) = some (x - x % 2 ^ k) := by
  have hand : (BitVec.ofNat 32 x &&& (BitVec.ofNat 32 (2 ^ k) - 1)).toNat = x % 2 ^ k := by
    rw [mask_eq hk, toNat_and_mask _ hk, BitVec.toNat_ofNat, Nat.mod_eq_of_lt hx]
  simp only [alignDown, tlsfAssert, if_pos (isPowerOfTwo_pow hk), Option.bind_eq_bind, Option.bind_some,
    Option.pure_def, hand]
  rw [sub32_of_le (Nat.mod_le _ _) hx]

end

/-- An aligned pointer. -/
theorem alignPtr_of_aligned {p : Nat} (h : p % 4 = 0) (hp : p < 2 ^ 32) : alignPtr p alignSize = some p := by
  have halign : alignPtr p alignSize = some (roundUp 4 p) := alignPtr_eq (k := 2) (by decide) (by omega)
  rw [halign, roundUp_of_mod (by decide) h]

/-! ## Requests -/

/-- The size of the block for a request of `size` bytes, 0 if it cannot be made. -/
def adjusted (size : Nat) : Nat := if size ≠ 0 ∧ size < 2 ^ 30 then max (roundUp 4 size) 12 else 0

/-- **`adjust_request_size`** for a power of two. -/
theorem adjustRequestSize_pow {k : Nat} (hk : k < 32) (size : Nat) : adjustRequestSize size (2 ^ k) =
    some (if size ≠ 0 ∧ size < 2 ^ 30 then max (roundUp (2 ^ k) size) 12 else 0) := by
  have hlt : 2 ^ k ≤ 2 ^ 31 := Nat.pow_le_pow_right (by decide) (by omega)
  unfold adjustRequestSize
  by_cases h : size ≠ 0 ∧ size < 2 ^ 30
  · rw [if_pos h, if_pos (show size ≠ 0 ∧ size < blockSizeMax from h), alignUp_eq hk (by omega)]
    rfl
  · rw [if_neg h, if_neg (show ¬(size ≠ 0 ∧ size < blockSizeMax) from h)]
    rfl

/-- **`adjust_request_size`** for words. -/
theorem adjustRequestSize_eq (size : Nat) : adjustRequestSize size alignSize = some (adjusted size) :=
  adjustRequestSize_pow (k := 2) (by decide) size

theorem adjusted_spec {size : Nat} (h : size ≠ 0) (h30 : size < 2 ^ 30) : size ≤ adjusted size ∧
    12 ≤ adjusted size ∧ adjusted size % 4 = 0 ∧ adjusted size ≤ 2 ^ 30 := by
  have hle := le_roundUp (n := 4) (x := size) (by decide)
  have hlt := roundUp_lt (n := 4) (x := size) (by decide)
  have hmod := roundUp_mod 4 size
  rw [adjusted, if_pos ⟨h, h30⟩]
  omega

end Xmhf.Tlsf
