import Xmhf.Heap.Proof.Malloc

/-!
# Aligned allocation

* `alignGap_spec`: the gap before the aligned address is 0, or room for a free block.
* `Window.trimLeading`: the gap goes to the lists.
* `tlsfMemalign_spec`: `tlsf_memalign` on a sound heap.
-/

namespace Xmhf.Tlsf

open Xmhf.Memory Xmhf.Extent Xmhf.Word

variable {m m' : Mem} {pool stop size k p : Nat} {bs pre mid post : List Block} {b c : Block}

/-! ## The gap -/

/-- There is room for the rest of a power of two that starts in the address space. -/
theorem add_mask_lt {x : Nat} (hk : k ≤ 32) (h : x % 2 ^ k = 0) (h32 : x < 2 ^ 32) : x + (2 ^ k - 1) < 2 ^ 32 := by
  obtain ⟨q, rfl⟩ := Nat.dvd_of_mod_eq_zero h
  have hpow : 2 ^ k * 2 ^ (32 - k) = 2 ^ 32 := by rw [← Nat.pow_add, Nat.add_sub_cancel' hk]
  have hpos := Nat.two_pow_pos k
  have hq : q + 1 ≤ 2 ^ (32 - k) := Nat.lt_of_mul_lt_mul_left (hpow ▸ h32)
  have hle := Nat.mul_le_mul_left (2 ^ k) hq
  rw [hpow, Nat.mul_succ] at hle
  omega

theorem alignGap_of {gap : Nat} (hk : k < 32) (h32 : p + 2 ^ k + 28 < 2 ^ 32)
    (hgap : roundUp (2 ^ k) p = p + gap) (hlt : gap < 2 ^ k) :
    alignGap p (2 ^ k) = if gap ≠ 0 ∧ gap < 16 then
      (alignPtr (p + gap + max (16 - gap) (2 ^ k)) (2 ^ k)).bind fun aligned => some (sub32 aligned p)
    else some gap := by
  have hsub : sub32 (p + gap) p = gap := by
    rw [sub32_of_le (by omega) (by omega), Nat.add_sub_cancel_left]
  simp only [alignGap, alignPtr_eq hk (show p + (2 ^ k - 1) < 2 ^ 32 by omega), hgap, hsub,
    Option.bind_eq_bind, Option.bind_some, Option.pure_def, blockHeaderSize]
  split
  · rw [sub32_of_le (show gap ≤ 16 by omega) (by decide), add32_of_lt (by omega)]
  · rfl

/-- **The gap** is 0, or at least a block header, and what is added to the request covers it. -/
theorem alignGap_spec (h4 : p % 4 = 0) (hk : k < 32) (hp32 : p < 2 ^ 32)
    (h32 : 2 < k → p + 2 ^ k + 28 < 2 ^ 32) :
    ∃ gap, alignGap p (2 ^ k) = some gap ∧ (p + gap) % 2 ^ k = 0 ∧ gap % 4 = 0 ∧
      (gap = 0 ∨ 16 ≤ gap ∧ 2 < k ∧ gap ≤ 2 ^ k + 12) := by
  have hpos := Nat.two_pow_pos k
  by_cases hk2 : k ≤ 2
  · -- the pointer is aligned
    have hp : p % 2 ^ k = 0 :=
      Nat.mod_eq_zero_of_dvd (Nat.dvd_trans (Nat.pow_dvd_pow 2 hk2) (Nat.dvd_of_mod_eq_zero h4))
    refine ⟨0, ?_, hp, rfl, Or.inl rfl⟩
    simp only [alignGap, alignPtr_eq hk (add_mask_lt (by omega) hp hp32), roundUp_of_mod hpos hp,
      sub32_of_le (Nat.le_refl p) hp32, Nat.sub_self, Option.bind_eq_bind, Option.bind_some, Option.pure_def,
      ne_eq, not_true_eq_false, false_and, if_false]
  · have h32 := h32 (by omega)
    have hle := le_roundUp hpos (x := p)
    have hlt := roundUp_lt hpos (x := p)
    have hmod := roundUp_mod (2 ^ k) p
    obtain ⟨gap, hgap⟩ := Nat.exists_eq_add_of_le hle
    rw [hgap] at hmod hlt
    rw [alignGap_of hk h32 hgap (by omega)]
    have hgap4 : gap % 4 = 0 := by
      have := mod_four_of_mod (by omega) hmod
      omega
    by_cases hsmall : gap ≠ 0 ∧ gap < 16
    · rw [if_pos hsmall]
      -- the next aligned address
      obtain ⟨next, hptr, hnmod, hle16, hroom⟩ : ∃ next,
          alignPtr (p + gap + max (16 - gap) (2 ^ k)) (2 ^ k) = some (p + gap + next) ∧ next % 2 ^ k = 0 ∧
            16 ≤ gap + next ∧ gap + next ≤ 2 ^ k + 12 := by
        by_cases hk3 : k = 3
        · subst hk3
          refine ⟨16, ?_, by decide, by omega, by omega⟩
          rw [alignPtr_eq hk (by omega), roundUp]
          congr 1
          omega
        · have h16 : 2 ^ 4 ≤ 2 ^ k := Nat.pow_le_pow_right (by decide) (by omega)
          have hmax : max (16 - gap) (2 ^ k) = 2 ^ k := by omega
          have hx : (p + gap + 2 ^ k) % 2 ^ k = 0 := by rw [Nat.add_mod_right, hmod]
          refine ⟨2 ^ k, ?_, Nat.mod_self _, by omega, by omega⟩
          rw [hmax, alignPtr_eq hk (add_mask_lt (by omega) hx (by omega)), roundUp_of_mod hpos hx]
      refine ⟨gap + next, ?_, ?_, ?_, Or.inr ⟨hle16, by omega, hroom⟩⟩
      · rw [hptr, Option.bind_some, sub32_of_le (by omega) (by omega)]
        congr 1
        omega
      · rw [← Nat.add_assoc, Nat.add_mod, hmod, hnmod]
        exact Nat.zero_mod _
      · have := mod_four_of_mod (by omega) hnmod
        omega
    · rw [if_neg hsmall]
      exact ⟨gap, rfl, hmod, hgap4, by omega⟩

/-! ## The leading block -/

/-- **`block_trim_free_leading`**: the gap becomes a free block. -/
theorem Window.trimLeading (h : Window m pool stop pre [b] post) (hfree : b.free = true) {gap : Nat}
    (h4 : gap % 4 = 0) (hmin : 16 ≤ gap) (hroom : gap + 16 ≤ b.size) :
    ∃ m', blockTrimFreeLeading m pool b.addr gap = some ((restOf b (gap - 4)).addr, m') ∧
      Window m' pool stop (pre ++ [keptOf b (gap - 4)]) [restOf b (gap - 4)] post ∧
      Keeps m m' pool stop (pre ++ post) := by
  have hlaid : Laid m pool stop (pre ++ b :: post) := by simpa using h.laid
  have hmax := (hlaid.facts (b := b) (by simp)).max
  have hcan : blockCanSplit m b.addr gap := (blockCanSplit_iff hlaid (by simp) (by omega)).2 hroom
  have hsub : sub32 gap blockHeaderOverhead = gap - 4 :=
    sub32_of_le (show 4 ≤ gap by omega) (show gap < 2 ^ 32 by omega)
  obtain ⟨m₁, hsplit, -, m₂, hlink, hwindow, hkeeps⟩ :=
    h.splitFree hfree (show (gap - 4) % 4 = 0 by omega) (by omega) (by omega)
  obtain ⟨m', hinsert, hwindow', hkeeps'⟩ := hwindow.insertFirst hfree
  refine ⟨m', ?_, hwindow', hkeeps.trans (hkeeps'.of_usedOf ?_)⟩
  · simp only [blockTrimFreeLeading, if_pos hcan, hsub, hsplit, hlink, Option.bind_eq_bind,
      Option.bind_some, Option.pure_def]
    rw [show b.addr = (keptOf b (gap - 4)).addr from rfl, hinsert]
    rfl
  · simp [usedOf_cons_of_free (show (keptOf b (gap - 4)).free = true from hfree),
      usedOf_cons_of_free (show (restOf b (gap - 4)).free = true from rfl)]

/-! ## `tlsf_memalign` -/

/-- What `tlsf_memalign` asks the lists for. -/
def memalignSize (k size : Nat) : Nat :=
  if k ≤ 2 then adjusted size else roundUp (2 ^ k) (adjusted size + 2 ^ k + 16)

theorem memalignSize_spec (hk : k < 32) (h0 : size ≠ 0) (hsize : size ≤ searchMax)
    (hmax : memalignSize k size ≤ searchMax) :
    memalignSize k size % 4 = 0 ∧ adjusted size ≤ memalignSize k size ∧
      (2 < k → adjusted size + 2 ^ k + 16 ≤ memalignSize k size) ∧ ∃ gapped,
        adjustRequestSize (add32 (add32 (adjusted size) (2 ^ k)) blockHeaderSize) (2 ^ k) = some gapped ∧
          (if 2 ^ k ≤ alignSize then adjusted size else gapped) = memalignSize k size := by
  obtain ⟨-, hmin, h4, hmax'⟩ := adjusted_le_searchMax h0 hsize
  have hpos := Nat.two_pow_pos k
  have hlt : 2 ^ k ≤ 2 ^ 31 := Nat.pow_le_pow_right (by decide) (by omega)
  have hsm : searchMax = 2 ^ 30 - 2 ^ 24 := rfl
  have hadd : add32 (add32 (adjusted size) (2 ^ k)) blockHeaderSize = adjusted size + 2 ^ k + 16 := by
    rw [blockHeaderSize, add32_of_lt (show adjusted size + 2 ^ k < 2 ^ 32 by omega), add32_of_lt (by omega)]
  have halign : 2 ^ k ≤ alignSize ↔ k ≤ 2 :=
    Nat.pow_le_pow_iff_right (a := 2) (m := 2) (by decide)
  rw [hadd, adjustRequestSize_pow hk]
  unfold memalignSize at hmax ⊢
  by_cases hk2 : k ≤ 2
  · simp only [if_pos hk2] at hmax ⊢
    exact ⟨h4, Nat.le_refl _, fun hk => absurd hk2 (by omega), _, rfl, if_pos (halign.2 hk2)⟩
  · simp only [if_neg hk2] at hmax ⊢
    have hle := le_roundUp hpos (x := adjusted size + 2 ^ k + 16)
    refine ⟨mod_four_of_mod (by omega) (roundUp_mod ..), by omega, fun _ => hle, _, rfl, ?_⟩
    rw [if_neg fun hc => hk2 (halign.1 hc), if_pos (by omega)]
    omega

/-- **`tlsf_memalign`** on a sound heap: as `tlsf_malloc`, with the pointer at a multiple of the alignment. -/
theorem tlsfMemalign_spec (h : Sound m pool stop bs) (hk : k < 32) (h0 : size ≠ 0) (hsize : size ≤ searchMax)
    (hmax : memalignSize k size ≤ searchMax) :
    (tlsfMemalign m pool (2 ^ k) size = some (0, m) ∧
      ∀ b ∈ bs, b.free = true → b.size < goodSize (memalignSize k size)) ∨
    ∃ m' bs' c, tlsfMemalign m pool (2 ^ k) size = some (c.addr + 8, m') ∧ (c.addr + 8) % 2 ^ k = 0 ∧
      (∃ b ∈ bs, b.free = true ∧ goodSize (memalignSize k size) ≤ b.size) ∧
      Allocated m m' pool stop bs bs' c (adjusted size) := by
  obtain ⟨-, hmin, h4, hmax'⟩ := adjusted_le_searchMax h0 hsize
  obtain ⟨hn4, hle, hgapped, gapped, hadjust, hasked⟩ := memalignSize_spec hk h0 hsize hmax
  have h31 : memalignSize k size < 2 ^ 31 := Nat.lt_of_le_of_lt hmax (by decide)
  rcases blockLocateFree_spec h.toPlain (by omega) hn4 hmax with
    ⟨hlocate, hnone⟩ | ⟨pre, b, post, m₁, rfl, hfree, hgood, hlocate, hwindow, hkeeps⟩
  · refine Or.inl ⟨?_, hnone⟩
    simp only [tlsfMemalign, adjustRequestSize_eq, hadjust, hasked, hlocate, Option.bind_eq_bind,
      Option.bind_some, blockPrepareUsed, ne_eq, not_true_eq_false, if_false, Option.pure_def]
  · obtain ⟨hpre, hlast, hpost⟩ := coalesced_append.1 h.coalesced
    rw [hfree] at hpost
    have hb := h.laid.facts (b := b) (by simp)
    have hlo := hb.lo
    have hhi := hb.hi
    have hstop := hb.stop_le
    have ha4 := hb.aligned
    have hpos := h.laid.pos
    have hfit : memalignSize k size ≤ b.size := Nat.le_trans (le_goodSize hn4 h31) hgood
    have hblock : b ∈ pre ++ b :: post := by simp
    obtain ⟨gap, hgap, hmod, hgap4, hcase⟩ := alignGap_spec (show (b.addr + 8) % 4 = 0 by omega) hk
      (by omega) fun hk2 => by have := hgapped hk2; omega
    simp only [tlsfMemalign, adjustRequestSize_eq, hadjust, hasked, hlocate, Option.bind_eq_bind,
      Option.bind_some, if_pos (show b.addr ≠ 0 by omega), toPtr_eq hb, hgap]
    rcases hcase with rfl | ⟨hgmin, hk2, hgmax⟩
    · -- the pointer is aligned as it is
      obtain ⟨m', bs', hprepare, hgiven⟩ := hwindow.prepareUsed hfree h4 hmin (by omega) hpre hpost
      exact Or.inr ⟨m', bs', givenOf b (adjusted size), by rw [if_neg (fun hne => hne rfl), hprepare]; rfl,
        hmod, ⟨b, hblock, hfree, hgood⟩, hgiven.sound, hgiven.used, hgiven.size_le, hkeeps.trans hgiven.keeps⟩
    · have hroom := hgapped hk2
      obtain ⟨m₂, htrim, hwindow', hkeeps'⟩ := hwindow.trimLeading hfree hgap4 hgmin (by omega)
      have hkept : (keptOf b (gap - 4)).free = true := hfree
      have hpre' : Coalesced false (pre ++ [keptOf b (gap - 4)]) :=
        coalesced_append.2 ⟨hpre, fun hf => hlast ⟨hf.1, hfree⟩, trivial⟩
      obtain ⟨m', bs', hprepare, hgiven⟩ := hwindow'.prepareUsed rfl h4 hmin
        (show adjusted size ≤ b.size - (gap - 4 + 4) by omega) hpre' hpost
      have hused : usedOf (pre ++ [keptOf b (gap - 4)] ++ restOf b (gap - 4) :: post) =
          usedOf (pre ++ b :: post) := by
        rw [usedOf_append, usedOf_append, usedOf_cons_of_free hkept, usedOf_cons_of_free (by rfl),
          usedOf_append, usedOf_cons_of_free hfree, show usedOf [] = [] from rfl, List.append_nil]
      have haddr : (restOf b (gap - 4)).addr + 8 = b.addr + 8 + gap := by
        unfold restOf
        simp only
        omega
      refine Or.inr ⟨m', bs', givenOf (restOf b (gap - 4)) (adjusted size), ?_, ?_, ⟨b, hblock, hfree, hgood⟩,
        hgiven.sound, hused ▸ hgiven.used, hgiven.size_le, hkeeps.trans ((hkeeps'.of_usedOf ?_).trans
          (hgiven.keeps.of_usedOf (hused ▸ fun _ => id)))⟩
      · rw [if_pos (show gap ≠ 0 by omega), tlsfAssert, if_pos (show blockHeaderSize ≤ gap from hgmin)]
        simp only [Option.bind_some, htrim, hprepare]
        rfl
      · exact haddr ▸ hmod
      · simp [usedOf_cons_of_free hfree]

end Xmhf.Tlsf
