import Xmhf.Platform.Paging

/-!
# Entries made from an address and flags

An entry is a page-aligned address with flags in its low 12 bits (`IsEntry`): the address reads back
through `entryAddr` and the flags bit by bit.
-/

namespace Xmhf.Paging

/-- `e` is the page-aligned address `x` with the flags `c`. -/
structure IsEntry (e : BitVec 64) (x c : Nat) : Prop where
  toNat : e.toNat = x + c
  aligned : x % 2 ^ 12 = 0
  addr : x < 2 ^ 32
  flags : c < 2 ^ 12

namespace IsEntry

variable {e : BitVec 64} {x c : Nat}

theorem entryAddr (h : IsEntry e x c) : Paging.entryAddr e = x := by
  obtain ⟨h1, h2, h3, h4⟩ := h
  rw [Paging.entryAddr, h1]
  omega

/-- The address of a 2MB page reads back. -/
theorem entryAddrBig (h : IsEntry e x c) (hx : x % 2 ^ 21 = 0) : Paging.entryAddrBig e = x := by
  obtain ⟨h1, h2, h3, h4⟩ := h
  rw [Paging.entryAddrBig, h1]
  omega

theorem getLsbD (h : IsEntry e x c) {i : Nat} (hi : i < 12) : e.getLsbD i = c.testBit i := by
  have hx : x + c = 2 ^ 12 * (x / 2 ^ 12) + c := by
    have := h.aligned
    omega
  rw [BitVec.getLsbD, h.toNat, hx, Nat.testBit_two_pow_mul_add _ h.flags, if_pos hi]

theorem nx (h : IsEntry e x c) : e.getLsbD 63 = false := by
  rw [BitVec.getLsbD, h.toNat]
  have h1 := h.addr
  have h2 := h.flags
  exact Nat.testBit_lt_two_pow (by omega)

theorem of_or (hx : x % 2 ^ 12 = 0) (hx' : x < 2 ^ 32) (hc : c < 2 ^ 12) :
    IsEntry (BitVec.ofNat 64 x ||| BitVec.ofNat 64 c) x c := by
  refine ⟨?_, hx, hx', hc⟩
  have hsum : x + c = 2 ^ 12 * (x / 2 ^ 12) + c := by omega
  rw [BitVec.toNat_or, BitVec.toNat_ofNat, BitVec.toNat_ofNat, Nat.mod_eq_of_lt (by omega),
    Nat.mod_eq_of_lt (by omega), hsum, Nat.two_pow_add_eq_or_of_lt hc]
  congr 1
  omega

end IsEntry

/-- An aligned 32-bit address has no bit of a mask of the low `n` bits and bit 63. -/
theorem and_not_mask_eq {x n : Nat} {mask : BitVec 64} (hx : x % 2 ^ n = 0) (hx' : x < 2 ^ 32)
    (hmask : ∀ i : Fin 64, mask.getLsbD i = (decide (i.val < n) || decide (i.val = 63))) :
    BitVec.ofNat 64 x &&& ~~~mask = BitVec.ofNat 64 x := by
  apply BitVec.eq_of_getLsbD_eq
  intro i hi
  rw [BitVec.getLsbD_and, BitVec.getLsbD_not, hmask ⟨i, hi⟩]
  by_cases hlow : i < n
  · have hbit : (BitVec.ofNat 64 x).getLsbD i = false := by
      have h0 : x = 2 ^ n * (x / 2 ^ n) + 0 := by
        rw [Nat.add_zero, Nat.mul_div_cancel' (Nat.dvd_of_mod_eq_zero hx)]
      rw [BitVec.getLsbD_ofNat, h0, Nat.testBit_two_pow_mul_add _ (Nat.two_pow_pos n), if_pos hlow]
      simp
    simp [hbit]
  · by_cases htop : i = 63
    · have hbit : (BitVec.ofNat 64 x).getLsbD i = false := by
        rw [BitVec.getLsbD_ofNat, htop, Nat.testBit_lt_two_pow (by omega), Bool.and_false]
      simp [hbit]
    · simp [hi, hlow, htop]

/-- The macros keep an aligned 32-bit address as it is. -/
theorem paeMakePte_eq {x : Nat} (hx : x % 2 ^ 12 = 0) (hx' : x < 2 ^ 32) (flags : BitVec 64) :
    paeMakePte x flags = BitVec.ofNat 64 x ||| flags := by
  rw [paeMakePte, and_not_mask_eq hx hx' (by decide)]

theorem paeMakePdeBig_eq {x : Nat} (hx : x % 2 ^ 21 = 0) (hx' : x < 2 ^ 32) (flags : BitVec 64) :
    paeMakePdeBig x flags = BitVec.ofNat 64 x ||| flags := by
  rw [paeMakePdeBig, and_not_mask_eq hx hx' (by decide)]

theorem IsEntry.of_paeMakePte {x c : Nat} (hx : x % 2 ^ 12 = 0) (hx' : x < 2 ^ 32)
    (hc : c < 2 ^ 12) : IsEntry (paeMakePte x (BitVec.ofNat 64 c)) x c := by
  rw [paeMakePte_eq hx hx']
  exact .of_or hx hx' hc

theorem IsEntry.of_paeMakePdeBig {x c : Nat} (hx : x % 2 ^ 21 = 0) (hx' : x < 2 ^ 32)
    (hc : c < 2 ^ 12) : IsEntry (paeMakePdeBig x (BitVec.ofNat 64 c)) x c := by
  rw [paeMakePdeBig_eq hx hx']
  exact .of_or (by omega) hx' hc

end Xmhf.Paging
