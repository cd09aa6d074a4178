import Xmhf.Lib.Bytes

/-!
# One's-complement checksums

Bytes as big-endian 16-bit words, added up with the end-around carry. The sum is all ones just when the words add
up to a multiple of 65535 other than 0 (`verifies_iff`): of the two representations of zero, words that are not all
zero get the one with all bits set.
-/

namespace Xmhf.OnesComplement

open Xmhf.Bytes

/-- The sum of two words, with the carry added at the low end. -/
def add1c (a b : Nat) : Nat := (a + b) % 65536 + (a + b) / 65536

/-- The words of a message; an odd byte at the end is padded with zero. -/
def words : Octets → List Nat
  | [] => []
  | [b] => [b.toNat * 256]
  | b :: b' :: bs => (b.toNat * 256 + b'.toNat) :: words bs

/-- The one's-complement sum. -/
def onesSum (bs : Octets) : Nat := (words bs).foldl add1c 0

/-- A message that holds its checksum adds up to all ones. -/
def Verifies (bs : Octets) : Prop := onesSum bs = 0xFFFF

instance (bs : Octets) : Decidable (Verifies bs) := inferInstanceAs (Decidable (_ = _))

/-- The plain sum of words. -/
def plainSum : List Nat → Nat
  | [] => 0
  | w :: ws => w + plainSum ws

/-- The plain sum of the words of a message. -/
def total (bs : Octets) : Nat := plainSum (words bs)

theorem words_lt (bs : Octets) : ∀ w ∈ words bs, w < 65536 := by
  induction bs using words.induct with
  | case1 => simp [words]
  | case2 b =>
    intro w hw
    obtain rfl := List.mem_singleton.1 hw
    have := b.isLt
    omega
  | case3 b b' bs ih =>
    intro w hw
    rcases List.mem_cons.1 hw with rfl | hw
    · have := b.isLt
      have := b'.isLt
      omega
    · exact ih w hw

/-- The sum with carries stays a word, equal to the plain sum modulo 65535, and 0 only for words that are. -/
theorem foldl_add1c (ws : List Nat) (acc : Nat) (hacc : acc < 65536) (hws : ∀ w ∈ ws, w < 65536) :
    ws.foldl add1c acc < 65536 ∧ ws.foldl add1c acc % 65535 = (acc + plainSum ws) % 65535 ∧
      (ws.foldl add1c acc = 0 ↔ acc + plainSum ws = 0) := by
  induction ws generalizing acc with
  | nil => exact ⟨hacc, rfl, Iff.rfl⟩
  | cons w ws ih =>
    have hw := hws w List.mem_cons_self
    have hlt : add1c acc w < 65536 := by
      unfold add1c
      omega
    have hmod : add1c acc w % 65535 = (acc + w) % 65535 := by
      unfold add1c
      omega
    have hzero : add1c acc w = 0 ↔ acc + w = 0 := by
      unfold add1c
      omega
    obtain ⟨h1, h2, h3⟩ := ih (add1c acc w) hlt fun w' hw' => hws w' (List.mem_cons_of_mem _ hw')
    rw [List.foldl_cons, plainSum]
    refine ⟨h1, ?_, ?_⟩
    · rw [h2, Nat.add_mod, hmod, ← Nat.add_mod, Nat.add_assoc]
    · rw [h3]
      omega

theorem verifies_iff (bs : Octets) : Verifies bs ↔ total bs % 65535 = 0 ∧ total bs ≠ 0 := by
  obtain ⟨hlt, hmod, hzero⟩ := foldl_add1c (words bs) 0 (by decide) (words_lt bs)
  rw [Nat.zero_add] at hmod hzero
  unfold Verifies onesSum total
  omega

theorem total_eq_zero_iff (bs : Octets) : total bs = 0 ↔ ∀ b ∈ bs, b = 0 := by
  have hbyte : ∀ b : BitVec 8, b.toNat = 0 ↔ b = 0 := fun b =>
    ⟨fun h => BitVec.eq_of_toNat_eq h, fun h => h ▸ rfl⟩
  induction bs using words.induct with
  | case1 => simp [total, words, plainSum]
  | case2 b =>
    simp only [total, words, plainSum, Nat.add_zero, List.mem_singleton, forall_eq, ← hbyte]
    omega
  | case3 b b' bs ih =>
    have htotal : total (b :: b' :: bs) = b.toNat * 256 + b'.toNat + total bs := rfl
    have hrest : total bs = 0 ↔ ∀ b ∈ bs, b = 0 := ih
    rw [List.forall_mem_cons, List.forall_mem_cons, ← hrest, ← hbyte, ← hbyte, htotal]
    omega

end Xmhf.OnesComplement
