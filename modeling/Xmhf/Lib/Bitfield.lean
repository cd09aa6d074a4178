import Mathlib.Algebra.Group.Nat.Defs
import Mathlib.Data.Nat.Basic

/-!
# Bit ranges of 64-bit words

Bits `hi` to `lo` of a word, read (`getHL`), written (`insertHL`, with the check of the value in
`setHL`) and copied to another word (`copyBits`), by the shifts and masks that compute them.

* `getLsbD_getHL`, `getLsbD_copyBits`, `getLsbD_setBit`: the results bit by bit.
* `toNat_getHL`, `toNat_and_maskRange64`: the same as division and remainder.
-/

namespace Xmhf.Bitfield

/-- The `bits` highest bits cleared. -/
def zeroHi64 (x : BitVec 64) (bits : Nat) : BitVec 64 := x <<< bits >>> bits

/-- The `bits` lowest bits cleared. -/
def zeroLo64 (x : BitVec 64) (bits : Nat) : BitVec 64 := x >>> bits <<< bits

/-- Ones from bit `hi` down to bit `lo`. -/
def maskRange64 (hi lo : Nat) : BitVec 64 :=
  zeroLo64 (zeroHi64 (BitVec.allOnes 64) (64 - hi - 1)) lo

/-- Bits `hi` to `lo`. -/
def getHL (x : BitVec 64) (hi lo : Nat) : BitVec 64 := zeroHi64 x (63 - hi) >>> lo

/-- `x` with `val` in its bits `hi` to `lo`. -/
def insertHL (x : BitVec 64) (hi lo : Nat) (val : BitVec 64) : BitVec 64 :=
  (x &&& ~~~maskRange64 hi lo) ||| val <<< lo

/-- `insertHL` for a value that fits. -/
def setHL (x : BitVec 64) (hi lo : Nat) (val : BitVec 64) : Option (BitVec 64) :=
  if zeroHi64 val (63 - (hi - lo)) = val then some (insertHL x hi lo val) else none

/-- Bit `pos`. -/
def getBit (x : BitVec 64) (pos : Nat) : Bool := (x &&& maskRange64 pos pos) >>> pos != 0

/-- `x` with `val` for its bit `pos`. -/
def setBit (x : BitVec 64) (pos : Nat) (val : Bool) : BitVec 64 :=
  (x &&& ~~~(1#64 <<< pos)) ||| (if val then 1#64 else 0#64) <<< pos

/-- `dst` with bits `srcHi` to `srcLo` of `src`, `offset` bits further up. -/
def copyBits (dst src : BitVec 64) (srcHi srcLo offset : Nat) : BitVec 64 :=
  insertHL dst (srcHi + offset) (srcLo + offset) (getHL src srcHi srcLo)

/-! ## Bit by bit -/

theorem getLsbD_zeroHi64 (x : BitVec 64) (bits i : Nat) :
    (zeroHi64 x bits).getLsbD i = (decide (bits + i < 64) && x.getLsbD i) := by
  rw [zeroHi64, BitVec.getLsbD_ushiftRight, BitVec.getLsbD_shiftLeft, Nat.add_sub_cancel_left,
    decide_eq_false (Nat.not_lt.2 (Nat.le_add_right bits i)), Bool.not_false, Bool.and_true]

theorem getLsbD_zeroLo64 (x : BitVec 64) (bits i : Nat) :
    (zeroLo64 x bits).getLsbD i = (decide (bits ≤ i) && x.getLsbD i) := by
  rw [zeroLo64, BitVec.getLsbD_shiftLeft, BitVec.getLsbD_ushiftRight]
  by_cases h : bits ≤ i
  · rw [Nat.add_sub_cancel' h]
    by_cases hi : i < 64
    · simp [h, hi, Nat.not_lt.2 h]
    · simp [hi, BitVec.getLsbD_of_ge x i (Nat.not_lt.1 hi)]
  · simp [h, Nat.not_le.1 h]

theorem getLsbD_maskRange64 {hi lo : Nat} (h : hi < 64) (i : Nat) :
    (maskRange64 hi lo).getLsbD i = decide (lo ≤ i ∧ i ≤ hi) := by
  rw [maskRange64, getLsbD_zeroLo64, getLsbD_zeroHi64, BitVec.getLsbD_allOnes]
  by_cases hi' : i ≤ hi
  · simp [hi', show 64 - hi - 1 + i < 64 by omega, show i < 64 by omega]
  · simp [hi', show ¬ 64 - hi - 1 + i < 64 by omega]

theorem getLsbD_getHL {hi lo : Nat} (h : hi < 64) (x : BitVec 64) (i : Nat) :
    (getHL x hi lo).getLsbD i = (decide (lo + i ≤ hi) && x.getLsbD (lo + i)) := by
  rw [getHL, BitVec.getLsbD_ushiftRight, getLsbD_zeroHi64]
  congr 2
  rw [eq_iff_iff]
  omega

theorem getLsbD_copyBits {hi lo offset : Nat} (h : hi + offset < 64) (dst src : BitVec 64) (i : Nat) :
    (copyBits dst src hi lo offset).getLsbD i =
      if lo + offset ≤ i ∧ i ≤ hi + offset then src.getLsbD (i - offset) else dst.getLsbD i := by
  rw [copyBits, insertHL, BitVec.getLsbD_or, BitVec.getLsbD_and, BitVec.getLsbD_not,
    getLsbD_maskRange64 h, BitVec.getLsbD_shiftLeft, getLsbD_getHL (by omega)]
  by_cases hin : lo + offset ≤ i ∧ i ≤ hi + offset
  · have hsum : lo + (i - (lo + offset)) = i - offset := by omega
    simp [hin, hsum, show i < 64 by omega, show ¬ i < lo + offset by omega,
      show i - offset ≤ hi by omega]
  · rw [if_neg hin]
    have hout : (decide (i < 64) && !decide (i < lo + offset) &&
        (decide (lo + (i - (lo + offset)) ≤ hi) && src.getLsbD (lo + (i - (lo + offset))))) =
          false := by
      by_cases hlo : i < lo + offset
      · simp [hlo]
      · simp [show ¬ lo + (i - (lo + offset)) ≤ hi by omega]
    rw [hout, Bool.or_false, decide_eq_false hin, Bool.not_false, Bool.and_true]
    by_cases hi64 : i < 64
    · simp [hi64]
    · simp [BitVec.getLsbD_of_ge dst i (Nat.not_lt.1 hi64)]

theorem getBit_eq {pos : Nat} (h : pos < 64) (x : BitVec 64) : getBit x pos = x.getLsbD pos := by
  have hval : (x &&& maskRange64 pos pos) >>> pos = if x.getLsbD pos then 1#64 else 0#64 := by
    apply BitVec.eq_of_getLsbD_eq
    intro i _
    rw [BitVec.getLsbD_ushiftRight, BitVec.getLsbD_and, getLsbD_maskRange64 h]
    rcases Nat.eq_zero_or_pos i with rfl | hi
    · cases x.getLsbD pos <;> simp
    · have hone : (1#64).getLsbD i = false := by simp [BitVec.getLsbD_one]; omega
      cases x.getLsbD pos <;> simp [hone, show ¬ pos + i ≤ pos by omega]
  rw [getBit, hval]
  cases x.getLsbD pos <;> rfl

theorem getLsbD_setBit {pos : Nat} (h : pos < 64) (x : BitVec 64) (val : Bool) (i : Nat) :
    (setBit x pos val).getLsbD i = if i = pos then val else x.getLsbD i := by
  rw [setBit, BitVec.getLsbD_or, BitVec.getLsbD_and, BitVec.getLsbD_not, BitVec.getLsbD_shiftLeft,
    BitVec.getLsbD_shiftLeft]
  rcases Nat.lt_trichotomy i pos with hlt | rfl | hgt
  · simp [hlt, Nat.ne_of_lt hlt, show i < 64 by omega]
  · cases val <;> simp [h]
  · have hone : (1#64).getLsbD (i - pos) = false := by simp [BitVec.getLsbD_one]; omega
    by_cases hi : i < 64
    · cases val <;> simp [hone, hi, Nat.ne_of_gt hgt, Nat.not_lt.2 (Nat.le_of_lt hgt)]
    · simp [hi, Nat.ne_of_gt hgt, BitVec.getLsbD_of_ge x i (Nat.not_lt.1 hi)]

/-! ## As numbers -/

theorem toNat_zeroHi64 (x : BitVec 64) {hi : Nat} (h : hi < 64) :
    (zeroHi64 x (63 - hi)).toNat = x.toNat % 2 ^ (hi + 1) := by
  apply Nat.eq_of_testBit_eq
  intro i
  rw [Nat.testBit_mod_two_pow, ← BitVec.getLsbD, ← BitVec.getLsbD, getLsbD_zeroHi64]
  congr 2
  rw [eq_iff_iff]
  omega

theorem toNat_getHL (x : BitVec 64) {hi : Nat} (h : hi < 64) (lo : Nat) :
    (getHL x hi lo).toNat = x.toNat % 2 ^ (hi + 1) / 2 ^ lo := by
  rw [getHL, BitVec.toNat_ushiftRight, toNat_zeroHi64 x h, Nat.shiftRight_eq_div_pow]

theorem toNat_copyBits_mod {hi lo offset s : Nat} (h : hi + offset < 64) (hs : s ≤ lo + offset)
    (dst src : BitVec 64) : (copyBits dst src hi lo offset).toNat % 2 ^ s = dst.toNat % 2 ^ s := by
  apply Nat.eq_of_testBit_eq
  intro i
  rw [Nat.testBit_mod_two_pow, Nat.testBit_mod_two_pow, ← BitVec.getLsbD, ← BitVec.getLsbD,
    getLsbD_copyBits h]
  by_cases hi : i < s
  · rw [if_neg (by omega)]
  · simp [hi]

theorem toNat_and_maskRange64 (x : BitVec 64) {hi : Nat} (h : hi < 64) :
    (x &&& maskRange64 hi 0).toNat = x.toNat % 2 ^ (hi + 1) := by
  apply Nat.eq_of_testBit_eq
  intro i
  rw [Nat.testBit_mod_two_pow, ← BitVec.getLsbD, ← BitVec.getLsbD, BitVec.getLsbD_and,
    getLsbD_maskRange64 h, Bool.and_comm]
  congr 2
  rw [eq_iff_iff]
  omega

end Xmhf.Bitfield
