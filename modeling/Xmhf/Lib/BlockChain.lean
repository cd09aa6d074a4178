import Xmhf.Lib.Bytes

/-!
# Cipher block chaining

Strings of bytes XORed, and the CBC mode of any block cipher on strings of whole blocks.

* `xor_xor`: XORing twice.
* `leBytes_xor`: words XORed as numbers are their bytes XORed.
* `dec_enc`: decryption undoes encryption.
-/

namespace Xmhf.BlockChain

open Xmhf.Bytes

/-- Byte by byte. -/
def xor (a b : Octets) : Octets := List.zipWith (· ^^^ ·) a b

theorem length_xor {a b : Octets} (h : a.length = b.length) : (xor a b).length = b.length := by
  rw [xor, List.length_zipWith, h, Nat.min_self]

theorem xor_xor {a b : Octets} (h : a.length = b.length) : xor a (xor a b) = b := by
  induction a generalizing b with
  | nil =>
    rw [List.eq_nil_of_length_eq_zero h.symm]
    rfl
  | cons x a ih =>
    cases b with
    | nil => cases h
    | cons y b =>
      have hxy : x ^^^ (x ^^^ y) = y := by rw [← BitVec.xor_assoc, BitVec.xor_self, BitVec.zero_xor]
      exact congrArg₂ List.cons hxy (ih (Nat.succ.inj h))

theorem xor_append {a a' b b' : Octets} (h : a.length = b.length) :
    xor (a ++ a') (b ++ b') = xor a b ++ xor a' b' := List.zipWith_append h

/-- **A word** XORed as a number. -/
theorem leBytes_xor {a b : Octets} (h : a.length = b.length) :
    leBytes a.length (ofLeBytes a ^^^ ofLeBytes b) = xor a b := by
  induction a generalizing b with
  | nil => rfl
  | cons x a ih =>
    cases b with
    | nil => cases h
    | cons y b =>
      have hdiv : ∀ (c : BitVec 8) (n : Nat), (c.toNat + 256 * n) / 256 = n := fun c n => by
        have := c.isLt
        omega
      have hlow : ∀ (c : BitVec 8) (n : Nat), BitVec.ofNat 8 (c.toNat + 256 * n) = c := fun c n => by
        apply BitVec.eq_of_toNat_eq
        have := c.isLt
        rw [BitVec.toNat_ofNat]
        omega
      have hhead : BitVec.ofNat 8 ((x.toNat + 256 * ofLeBytes a) ^^^ (y.toNat + 256 * ofLeBytes b)) = x ^^^ y := by
        rw [BitVec.ofNat_xor, hlow, hlow]
      have htail : ((x.toNat + 256 * ofLeBytes a) ^^^ (y.toNat + 256 * ofLeBytes b)) / 256 =
          ofLeBytes a ^^^ ofLeBytes b := by
        rw [show 256 = 2 ^ 8 from rfl, Nat.xor_div_two_pow, ← show 256 = 2 ^ 8 from rfl, hdiv, hdiv]
      rw [List.length_cons, leBytes, ofLeBytes, ofLeBytes, hhead, htail, ih (Nat.succ.inj h)]
      rfl

/-! ## The mode -/

variable {n : Nat} {E D : Octets → Octets}

/-- `k` blocks of `n` bytes encrypted: each block is XORed with the one before it, the first with `iv`. -/
def enc (n : Nat) (E : Octets → Octets) (iv : Octets) : Nat → Octets → Octets
  | 0, _ => []
  | k + 1, x => E (xor iv (x.take n)) ++ enc n E (E (xor iv (x.take n))) k (x.drop n)

/-- `k` blocks decrypted. -/
def dec (n : Nat) (D : Octets → Octets) (iv : Octets) : Nat → Octets → Octets
  | 0, _ => []
  | k + 1, y => xor iv (D (y.take n)) ++ dec n D (y.take n) k (y.drop n)

/-- **Decryption undoes encryption**, for a cipher in which it does so on one block. -/
theorem dec_enc (hE : ∀ x, x.length = n → (E x).length = n) (hD : ∀ x, x.length = n → D (E x) = x)
    {iv x : Octets} {k : Nat} (hiv : iv.length = n) (hx : x.length = n * k) : dec n D iv k (enc n E iv k x) = x := by
  induction k generalizing iv x with
  | zero => exact (List.eq_nil_of_length_eq_zero hx).symm
  | succ k ih =>
    rw [Nat.mul_succ] at hx
    have htake : (x.take n).length = n := List.length_take_of_le (by omega)
    have hxor : (xor iv (x.take n)).length = n := by rw [length_xor (by rw [hiv, htake]), htake]
    have hblock := hE _ hxor
    have hrest := ih hblock (by rw [List.length_drop]; omega : (x.drop n).length = n * k)
    rw [enc, dec, List.take_left' hblock, List.drop_left' hblock, hrest, hD _ hxor,
      xor_xor (by rw [hiv, htake]), List.take_append_drop]

end Xmhf.BlockChain
