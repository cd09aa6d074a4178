import Mathlib.Algebra.Group.Nat.Defs
import Mathlib.Data.Nat.Basic

/-!
# 32-bit words

The `u32` counters and addresses of the source as natural numbers below `2 ^ 32`.
-/

namespace Xmhf.Word

/-- `x++` of a `u32`. -/
def inc32 (k : Nat) : Nat := (k + 1) % 2 ^ 32

theorem inc32_le (k : Nat) : inc32 k ≤ k + 1 := Nat.mod_le _ _

theorem inc32_of_lt {k : Nat} (h : k + 1 < 2 ^ 32) : inc32 k = k + 1 := Nat.mod_eq_of_lt h

/-- `x + y` of two `u32`. -/
def add32 (x y : Nat) : Nat := (x + y) % 2 ^ 32

/-- `x - y` of two `u32`. -/
def sub32 (x y : Nat) : Nat := (x + (2 ^ 32 - y % 2 ^ 32)) % 2 ^ 32

theorem add32_lt (x y : Nat) : add32 x y < 2 ^ 32 := Nat.mod_lt _ (by decide)

theorem add32_of_lt {x y : Nat} (h : x + y < 2 ^ 32) : add32 x y = x + y := Nat.mod_eq_of_lt h

theorem add32_zero {x : Nat} (h : x < 2 ^ 32) : add32 x 0 = x := Nat.mod_eq_of_lt h

theorem add32_add32 (x y z : Nat) : add32 (add32 x y) z = add32 x (y + z) := by
  unfold add32
  omega

theorem sub32_of_le {x y : Nat} (h : y ≤ x) (hx : x < 2 ^ 32) : sub32 x y = x - y := by
  unfold sub32
  omega

/-- The low `n` bits cleared. -/
theorem toNat_and_not_mask (x : BitVec 32) (n : Nat) :
    (x &&& ~~~BitVec.ofNat 32 (2 ^ n - 1)).toNat = x.toNat / 2 ^ n * 2 ^ n := by
  have hx : x &&& ~~~BitVec.ofNat 32 (2 ^ n - 1) = (x >>> n) <<< n := by
    apply BitVec.eq_of_getLsbD_eq
    intro i hi
    rw [BitVec.getLsbD_and, BitVec.getLsbD_not, BitVec.getLsbD_ofNat, Nat.testBit_two_pow_sub_one,
      BitVec.getLsbD_shiftLeft, BitVec.getLsbD_ushiftRight]
    by_cases h : i < n
    · simp [h, hi]
    · simp [h, hi, show n + (i - n) = i by omega]
  have hlt : x.toNat / 2 ^ n * 2 ^ n < 2 ^ 32 := Nat.lt_of_le_of_lt (Nat.div_mul_le_self ..) x.isLt
  rw [hx, BitVec.toNat_shiftLeft, BitVec.toNat_ushiftRight, Nat.shiftRight_eq_div_pow,
    Nat.shiftLeft_eq, Nat.mod_eq_of_lt hlt]

theorem setWidth_add_setWidth (a b : BitVec 32) :
    (a.setWidth 64 + b.setWidth 64).setWidth 32 = a + b := by
  rw [BitVec.setWidth_add _ _ (by decide), BitVec.setWidth_setWidth_of_le _ (by decide),
    BitVec.setWidth_setWidth_of_le _ (by decide), BitVec.setWidth_eq, BitVec.setWidth_eq]

theorem toNat_and_mask (x : BitVec 32) {n : Nat} (hn : n < 32) :
    (x &&& BitVec.ofNat 32 (2 ^ n - 1)).toNat = x.toNat % 2 ^ n := by
  have hlt : 2 ^ n - 1 < 2 ^ 32 :=
    Nat.lt_of_le_of_lt (Nat.sub_le ..) (Nat.pow_lt_pow_right (by decide) hn)
  rw [BitVec.toNat_and, BitVec.toNat_ofNat, Nat.mod_eq_of_lt hlt, Nat.and_two_pow_sub_one_eq_mod]

/-- An address without its low `n` bits, and an offset of `n` bits. -/
theorem toNat_base_add_offset (x y : BitVec 32) {n : Nat} (hn : n < 32) :
    ((x &&& ~~~BitVec.ofNat 32 (2 ^ n - 1)) + (y &&& BitVec.ofNat 32 (2 ^ n - 1))).toNat =
      x.toNat / 2 ^ n * 2 ^ n + y.toNat % 2 ^ n := by
  have hx := x.isLt
  have hpow : 2 ^ 32 = 2 ^ (32 - n) * 2 ^ n := by rw [← Nat.pow_add, Nat.sub_add_cancel (by omega)]
  have hdiv : x.toNat / 2 ^ n + 1 ≤ 2 ^ (32 - n) :=
    Nat.div_lt_of_lt_mul (by rw [Nat.mul_comm, ← hpow]; exact hx)
  have hmul := Nat.mul_le_mul_right (2 ^ n) hdiv
  have hoff := Nat.mod_lt y.toNat (Nat.two_pow_pos n)
  rw [BitVec.toNat_add, toNat_and_not_mask, toNat_and_mask y hn, Nat.mod_eq_of_lt]
  rw [Nat.add_mul, Nat.one_mul, ← hpow] at hmul
  omega

end Xmhf.Word
