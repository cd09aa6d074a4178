import Xmhf.Heap.Proof.Bits

/-!
# The header word

`sizeWord size free prevFree` is the field `size` of a block with its two flags. Every access to the field
reads or writes such a word (`blockSize_of`, `blockIsFree_of`, `blockSetFree_of`, ...); `block_set_size`
keeps the flags that it finds, whatever they are (`blockSetSize_eq`).
-/

namespace Xmhf.Tlsf

open Xmhf.Memory

/-- The field `size` of a block. -/
def sizeWord (size : Nat) (free prevFree : Bool) : BitVec 32 :=
  BitVec.ofNat 32 size ||| ((bif free then freeBit else 0) ||| (bif prevFree then prevFreeBit else 0))

@[simp] theorem sizeField_eq (block : Nat) : sizeField block = block + 4 := rfl

@[simp] theorem nextFree_eq (block : Nat) : nextFree block = block + 8 := rfl

@[simp] theorem prevFree_eq (block : Nat) : prevFree block = block + 12 := rfl

theorem getLsbD_freeBit (i : Nat) : freeBit.getLsbD i = decide (i = 0) := BitVec.getLsbD_one.trans (by simp)

theorem getLsbD_prevFreeBit (i : Nat) : prevFreeBit.getLsbD i = decide (i = 1) := by
  rw [show prevFreeBit = BitVec.twoPow 32 1 from rfl, BitVec.getLsbD_twoPow]
  by_cases h : i = 1
  · simp [h]
  · simp [h, Ne.symm h]

theorem getLsbD_flag (c : Bool) (w : BitVec 32) (i : Nat) :
    (bif c then w else 0).getLsbD i = (c && w.getLsbD i) := by
  cases c <;> simp

theorem testBit_of_aligned {size : Nat} (h : size % 4 = 0) {i : Nat} (hi : i < 2) : size.testBit i = false := by
  have hmod := Nat.testBit_mod_two_pow size 2 i
  rw [show (2 : Nat) ^ 2 = 4 from rfl, h, Nat.zero_testBit, decide_eq_true hi, Bool.true_and] at hmod
  exact hmod.symm

section
variable {size : Nat} {free prevFree : Bool}

theorem getLsbD_sizeWord {i : Nat} (hi : i < 32) : (sizeWord size free prevFree).getLsbD i =
    (size.testBit i || (free && decide (i = 0) || prevFree && decide (i = 1))) := by
  rw [sizeWord, BitVec.getLsbD_or, BitVec.getLsbD_or, BitVec.getLsbD_ofNat, getLsbD_flag, getLsbD_flag,
    getLsbD_freeBit, getLsbD_prevFreeBit, decide_eq_true hi, Bool.true_and]

/-- The flags of a word are those that `block_set_size` keeps. -/
theorem flags_eq (w : BitVec 32) : w &&& (freeBit ||| prevFreeBit) =
    (bif w.getLsbD 0 then freeBit else 0) ||| (bif w.getLsbD 1 then prevFreeBit else 0) := by
  apply BitVec.eq_of_getLsbD_eq
  intro i _
  rw [BitVec.getLsbD_and, BitVec.getLsbD_or, BitVec.getLsbD_or, getLsbD_flag, getLsbD_flag, getLsbD_freeBit,
    getLsbD_prevFreeBit]
  rcases i with _ | _ | i <;> simp

theorem sizeWord_or_free : sizeWord size free prevFree ||| freeBit = sizeWord size true prevFree := by
  apply BitVec.eq_of_getLsbD_eq
  intro i hi
  rw [BitVec.getLsbD_or, getLsbD_sizeWord hi, getLsbD_sizeWord hi, getLsbD_freeBit]
  by_cases h0 : i = 0 <;> simp [h0]

theorem sizeWord_or_prevFree : sizeWord size free prevFree ||| prevFreeBit = sizeWord size free true := by
  apply BitVec.eq_of_getLsbD_eq
  intro i hi
  rw [BitVec.getLsbD_or, getLsbD_sizeWord hi, getLsbD_sizeWord hi, getLsbD_prevFreeBit]
  by_cases h1 : i = 1 <;> simp [h1]

variable (h : size % 4 = 0)
include h

theorem free_sizeWord : (sizeWord size free prevFree).getLsbD 0 = free := by
  rw [getLsbD_sizeWord (by decide), testBit_of_aligned h (by decide)]
  simp

theorem prevFree_sizeWord : (sizeWord size free prevFree).getLsbD 1 = prevFree := by
  rw [getLsbD_sizeWord (by decide), testBit_of_aligned h (by decide)]
  simp

theorem sizeWord_and_not : sizeWord size free prevFree &&& ~~~(freeBit ||| prevFreeBit) =
    BitVec.ofNat 32 size := by
  apply BitVec.eq_of_getLsbD_eq
  intro i hi
  rw [BitVec.getLsbD_and, getLsbD_sizeWord hi, BitVec.getLsbD_not, BitVec.getLsbD_or, getLsbD_freeBit,
    getLsbD_prevFreeBit, BitVec.getLsbD_ofNat, decide_eq_true hi]
  rcases i with _ | _ | i
  · simp [testBit_of_aligned h]
  · simp [testBit_of_aligned h]
  · simp

theorem sizeWord_and_not_free : sizeWord size free prevFree &&& ~~~freeBit =
    sizeWord size false prevFree := by
  apply BitVec.eq_of_getLsbD_eq
  intro i hi
  rw [BitVec.getLsbD_and, getLsbD_sizeWord hi, getLsbD_sizeWord hi, BitVec.getLsbD_not, getLsbD_freeBit,
    decide_eq_true hi]
  by_cases h0 : i = 0
  · simp [h0, testBit_of_aligned h]
  · simp [h0]

theorem sizeWord_and_not_prevFree : sizeWord size free prevFree &&& ~~~prevFreeBit =
    sizeWord size free false := by
  apply BitVec.eq_of_getLsbD_eq
  intro i hi
  rw [BitVec.getLsbD_and, getLsbD_sizeWord hi, getLsbD_sizeWord hi, BitVec.getLsbD_not,
    getLsbD_prevFreeBit, decide_eq_true hi]
  by_cases h1 : i = 1
  · simp [h1, testBit_of_aligned h]
  · simp [h1]

/-- A size is added to, and the flags stay. -/
theorem sizeWord_add {n : Nat} (hn : n % 4 = 0) :
    sizeWord size free prevFree + BitVec.ofNat 32 n = sizeWord (size + n) free prevFree := by
  have hflags : ∀ s : Nat, s % 4 = 0 → BitVec.ofNat 32 s &&&
      ((bif free then freeBit else 0) ||| (bif prevFree then prevFreeBit else 0)) = 0 := by
    intro s hs
    apply BitVec.eq_of_getLsbD_eq
    intro i _
    rw [BitVec.getLsbD_and, BitVec.getLsbD_ofNat, BitVec.getLsbD_or, getLsbD_flag, getLsbD_flag,
      getLsbD_freeBit, getLsbD_prevFreeBit]
    rcases i with _ | _ | i
    · simp [testBit_of_aligned hs]
    · simp [testBit_of_aligned hs]
    · simp
  rw [sizeWord, sizeWord, ← BitVec.add_eq_or_of_and_eq_zero _ _ (hflags size h),
    ← BitVec.add_eq_or_of_and_eq_zero _ _ (hflags (size + n) (by omega)), BitVec.ofNat_add]
  ac_rfl

end

/-! ## Accesses -/

section
variable {m : Mem} {block size : Nat} {free prevFree : Bool}

/-- **`block_set_size`** keeps the flags. -/
theorem blockSetSize_eq (m : Mem) (block size : Nat) : blockSetSize m block size =
    store32 m (block + 4) (sizeWord size ((load32 m (block + 4)).getLsbD 0)
      ((load32 m (block + 4)).getLsbD 1)) := by
  rw [blockSetSize, sizeField_eq, flags_eq]
  rfl

variable (h : size % 4 = 0) (hw : load32 m (block + 4) = sizeWord size free prevFree)
include h hw

theorem blockSize_of (h32 : size < 2 ^ 32) : blockSize m block = size := by
  rw [blockSize, sizeField_eq, hw, sizeWord_and_not h, BitVec.toNat_ofNat, Nat.mod_eq_of_lt h32]

theorem blockIsFree_of : blockIsFree m block ↔ free = true := by
  rw [blockIsFree, sizeField_eq, hw, and_bit_ne_zero fun j _ => getLsbD_freeBit j,
    free_sizeWord h]

theorem blockIsPrevFree_of : blockIsPrevFree m block ↔ prevFree = true := by
  rw [blockIsPrevFree, sizeField_eq, hw,
    and_bit_ne_zero fun j _ => getLsbD_prevFreeBit j, prevFree_sizeWord h]

omit h in
theorem blockSetFree_of : blockSetFree m block = store32 m (block + 4) (sizeWord size true prevFree) := by
  rw [blockSetFree, sizeField_eq, hw, sizeWord_or_free]

theorem blockSetUsed_of : blockSetUsed m block = store32 m (block + 4) (sizeWord size false prevFree) := by
  rw [blockSetUsed, sizeField_eq, hw, sizeWord_and_not_free h]

omit h in
theorem blockSetPrevFree_of : blockSetPrevFree m block = store32 m (block + 4) (sizeWord size free true) := by
  rw [blockSetPrevFree, sizeField_eq, hw, sizeWord_or_prevFree]

theorem blockSetPrevUsed_of :
    blockSetPrevUsed m block = store32 m (block + 4) (sizeWord size free false) := by
  rw [blockSetPrevUsed, sizeField_eq, hw, sizeWord_and_not_prevFree h]

theorem blockSetSize_of (n : Nat) : blockSetSize m block n = store32 m (block + 4) (sizeWord n free prevFree) := by
  rw [blockSetSize_eq, hw, free_sizeWord h, prevFree_sizeWord h]

/-- **`block_next`** is after the header and the size. -/
theorem blockNext_of (h4 : 4 ≤ size) (hfits : block + size + 4 < 2 ^ 32) :
    blockNext m block = some (block + size + 4) := by
  have hsize := blockSize_of h hw (by omega)
  have hnext : offsetToBlock (blockToPtr block) (Word.sub32 size blockHeaderOverhead) = block + size + 4 := by
    simp only [offsetToBlock, blockToPtr, blockHeaderOverhead, blockStartOffset, Word.sub32, Word.add32]
    omega
  have hlast : ¬blockIsLast m block := fun h0 => by
    rw [blockIsLast, hsize] at h0
    omega
  simp [blockNext, hsize, tlsfAssert, hlast, hnext]

end

end Xmhf.Tlsf
