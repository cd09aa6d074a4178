import Xmhf.Lib.Memory

/-!
# Bitmaps in byte memory

Bit `n` of the bitmap at `base` is bit `n % 8` of byte `n / 8`.
-/

namespace Xmhf.Bitmap

open Xmhf.Memory

/-- Bit `n` of the bitmap at `base`. -/
def bit (m : Mem) (base n : Nat) : Bool := (m (base + n / 8)).getLsbD (n % 8)

/-- `m` with bit `k` of the bitmap at `base` set. -/
def setBit (m : Mem) (base k : Nat) : Mem :=
  Function.update m (base + k / 8) (m (base + k / 8) ||| 1#8 <<< (k % 8))

variable {m : Mem} {base k n : Nat}

@[simp] theorem bit_setBit : bit (setBit m base k) base n = (decide (n = k) || bit m base n) := by
  unfold bit setBit
  by_cases hbyte : n / 8 = k / 8
  · rw [hbyte, Function.update_self, BitVec.getLsbD_or, BitVec.getLsbD_shiftLeft, BitVec.getLsbD_one,
      Bool.or_comm]
    congr 1
    rw [Bool.eq_iff_iff]
    simp
    omega
  · have hne : n ≠ k := fun h => hbyte (h ▸ rfl)
    rw [Function.update_of_ne (by omega), decide_eq_false hne, Bool.false_or]

/-- Every bit of a byte of ones is set. -/
theorem bit_of_ones (h : m (base + n / 8) = 0xFF#8) : bit m base n = true := by
  rw [bit, h]
  have : ∀ i < 8, (0xFF#8).getLsbD i = true := by decide
  exact this _ (Nat.mod_lt _ (by decide))

end Xmhf.Bitmap
