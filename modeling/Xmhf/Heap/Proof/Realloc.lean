import Xmhf.Heap.Proof.Free

/-!
# Reallocation

* `Sound.write`: what users write into their blocks does not matter to the heap.
* `blockTrimUsed_spec`: a block in use gives its rest back.
* `Window.grow`: a block in use takes the free block after it.
* `tlsfRealloc_moves`: allocation, copy and release.
* `tlsfRealloc_spec`: `tlsf_realloc` on a sound heap.
-/

namespace Xmhf.Tlsf

open Xmhf.Memory Xmhf.Extent Xmhf.Word Xmhf.Bytes

variable {m m' : Mem} {pool stop size : Nat} {bs bs' pre mid post : List Block} {b c : Block} {f : Bool}

/-! ## Writes of the users -/

/-- A word of the heap's own is not a user's. -/
theorem word_own (hw : ∀ x, ¬Untouched pool stop bs x → m' x = m x) {a : Nat} (hlo : pool ≤ a)
    (hhi : a ≤ stop + 4) (ha : ∀ b ∈ bs, b.free = false → a + 4 ≤ b.addr + 8 ∨ b.next + 4 ≤ a) :
    load32 m' a = load32 m a := by
  rw [load32, load32, readLE_congr fun x h1 h2 => hw x ?_]
  rintro (hx | hx | ⟨b, hb, hfree, hx⟩)
  · omega
  · omega
  · have := ha b hb hfree
    omega

/-- **Users may write into their blocks**, and outside the pool. -/
theorem Plain.write (h : Plain m pool stop bs) (hw : ∀ x, ¬Untouched pool stop bs x → m' x = m x) :
    Plain m' pool stop bs := by
  have hlaid := h.laid
  have hfirst := hlaid.first_le_stop
  -- two blocks, of which the second is in use
  have hapart : ∀ b ∈ bs, ∀ c ∈ bs, b = c ∨ b.addr + b.size + 4 ≤ c.addr ∨ c.next ≤ b.addr :=
    fun b hb c hc => hlaid.apart hb hc
  have hback : ∀ b ∈ bs, b.free = true → ∀ a, b.addr + 8 ≤ a → a ≤ b.next → load32 m' a = load32 m a := by
    intro b hb hfree a h1 h2
    have hbf := hlaid.facts hb
    have hlo := hbf.lo
    have hhi := hbf.hi
    unfold Block.next at h2
    refine word_own hw (by omega) (by omega) fun c hc hused => ?_
    rcases hapart b hb c hc with rfl | hlt | hlt
    · rw [hfree] at hused
      cases hused
    · omega
    · omega
  constructor
  · refine hlaid.congr (fun b hb => ?_) (fun b hb hfree => ?_) ?_
    · have hbf := hlaid.facts hb
      have hlo := hbf.lo
      have hhi := hbf.hi
      refine word_own hw (by omega) (by omega) fun c hc hused => ?_
      rcases hapart b hb c hc with rfl | hlt | hlt <;> omega
    · refine hback b hb hfree _ ?_ (Nat.le_refl _)
      have := (hlaid.facts hb).min
      unfold Block.next
      omega
    · refine word_own hw (by omega) (by omega) fun c hc _ => ?_
      have := (hlaid.facts hc).hi
      unfold Block.next
      omega
  · obtain ⟨L, hi, hh⟩ := h.lists
    refine ⟨L, hi.congr (fun x h1 h2 => ?_) fun f s y hy => ?_, hh⟩
    · refine word_own hw (by omega) (by omega) fun c hc _ => ?_
      have := (hlaid.facts hc).lo
      omega
    · obtain ⟨b, hb, hfree, rfl, -⟩ := (hh.mem f s y).1 hy
      have hmin := (hlaid.facts hb).min
      have hn : b.addr + b.size + 4 = b.next := rfl
      exact ⟨hback b hb hfree _ (by omega) (by omega), hback b hb hfree _ (by omega) (by omega)⟩

theorem Sound.write (h : Sound m pool stop bs) (hw : ∀ x, ¬Untouched pool stop bs x → m' x = m x) :
    Sound m' pool stop bs := ⟨h.toPlain.write hw, h.coalesced⟩

/-! ## Giving back, and taking more -/

/-- A block in use keeps its neighbours apart. -/
theorem coalesced_around (hused : b.free = false) :
    Coalesced false (pre ++ b :: post) ↔ Coalesced false pre ∧ Coalesced false post := by
  rw [coalesced_append, Coalesced, hused]
  exact and_congr_right fun _ => and_iff_right fun h => Bool.false_ne_true h.2

/-- **`block_trim_used`**: the rest of the block is released, if it makes a block. -/
theorem blockTrimUsed_spec (h : Window m pool stop pre [b] post) (hused : b.free = false)
    (h4 : size % 4 = 0) (hmin : 12 ≤ size) (hsize : size ≤ b.size) (hpre : Coalesced false pre)
    (hpost : Coalesced false post) :
    ∃ m' bs' c, blockTrimUsed m pool b.addr size = some m' ∧ Sound m' pool stop bs' ∧
      usedOf bs' = usedOf pre ++ c :: usedOf post ∧ c.addr = b.addr ∧ size ≤ c.size ∧ c.free = false ∧
      Keeps m m' pool stop (pre ++ c :: post) := by
  have hlaid : Laid m pool stop (pre ++ b :: post) := by simpa using h.laid
  have hmem : b ∈ pre ++ b :: post := by simp
  have hmax := (hlaid.facts hmem).max
  have hnfree : ¬blockIsFree m b.addr := fun hf => by
    rw [(hlaid.blockIsFree_iff hmem).1 hf] at hused
    cases hused
  by_cases hroom : size + 16 ≤ b.size
  · have hcan : blockCanSplit m b.addr size := (blockCanSplit_iff hlaid hmem (by omega)).2 hroom
    obtain ⟨m₁, hsplit, hwindow, hkeeps⟩ := h.splitUsed hused h4 hmin hroom
    have hkept : (keptOf b size).free = false := hused
    have hlast : lastFree false (pre ++ [keptOf b size]) = false := by
      rw [lastFree_append]
      exact hkept
    obtain ⟨m₂, m', bs', hmerge, hinsert, hsound, husedbs, hkeeps'⟩ :=
      (hwindow.shift hkept).release rfl ((coalesced_around hkept).2 ⟨hpre, trivial⟩) hlast hpost
    refine ⟨m', bs', keptOf b size, ?_, hsound, ?_, rfl, Nat.le_refl _, hused, hkeeps.trans ?_⟩
    · simp only [blockTrimUsed, tlsfAssert, if_pos hnfree, Option.bind_eq_bind, Option.bind_some,
        if_pos hcan, hsplit, hmerge, hinsert]
    · rw [husedbs, usedOf_append, usedOf_append, usedOf_cons_of_used hkept, List.append_assoc]
      rfl
    · exact hkeeps'.of_usedOf (by simp)
  · have hcan : ¬blockCanSplit m b.addr size := fun hc =>
      hroom ((blockCanSplit_iff hlaid hmem (by omega)).1 hc)
    refine ⟨m, pre ++ b :: post, b, ?_, ⟨h.plain hused, (coalesced_around hused).2 ⟨hpre, hpost⟩⟩, ?_, rfl,
      hsize, hused, Keeps.refl m pool stop _⟩
    · simp only [blockTrimUsed, tlsfAssert, if_pos hnfree, Option.bind_eq_bind, Option.bind_some,
        if_neg hcan, Option.pure_def]
    · rw [usedOf_append, usedOf_cons_of_used hused]

/-- `block_merge_next` and `block_mark_as_used` of a block in use before a free one. -/
theorem Window.grow (h : Window m pool stop pre [b] (c :: post)) (hused : b.free = false)
    (hc : c.free = true) :
    ∃ m₁ m', blockMergeNext m pool b.addr = some m₁ ∧ blockMarkAsUsed m₁ b.addr = some m' ∧
      Window m' pool stop pre [joined b c] post ∧ Keeps m m' pool stop (pre ++ b :: post) := by
  obtain ⟨m₁, hwindow, hkeeps, hrun⟩ := blockMergeNext_of_free h hc
  obtain ⟨m₂, m', habsorb, hmark, hwindow', hkeeps'⟩ := hwindow.absorbUsed hused
  refine ⟨m₂, m', hrun.trans habsorb, hmark, hwindow', (hkeeps.of_usedOf ?_).trans hkeeps'⟩
  simp only [usedOf_append, usedOf_cons_of_used hused, usedOf_cons_of_free hc, List.append_assoc]
  exact fun _ => id

/-! ## `tlsf_realloc` -/

/-- **The block `b` became `c`**: at least `size` bytes, the first of which are those of `b`. -/
structure Resized (m m' : Mem) (pool stop : Nat) (bs bs' : List Block) (b c : Block) (size : Nat) : Prop where
  sound : Sound m' pool stop bs'
  used : (usedOf bs').Perm (c :: usedOf bs)
  size_le : size ≤ c.size
  bytes : ∀ i < min b.size size, m' (c.addr + 8 + i) = m (b.addr + 8 + i)
  keeps : Keeps m m' pool stop bs

/-- The user's bytes of a block in use. -/
theorem Untouched.of_used (hb : b ∈ bs) (hused : b.free = false) {i : Nat} (hi : i < b.size) :
    Untouched pool stop bs (b.addr + 8 + i) := by
  refine Or.inr (Or.inr ⟨b, hb, hused, by omega, ?_⟩)
  unfold Block.next
  omega

theorem Laid.nodup (h : Laid m pool stop bs) : bs.Nodup :=
  (pairwise_of_consecutive h.consecutive).imp fun {b c} hlt hbc => by
    subst hbc
    unfold Block.next at hlt
    omega

/-- A block in use, in a list with the same blocks in use. -/
theorem Sound.split (h : Sound m pool stop bs) (hb : b ∈ usedOf bs) :
    ∃ pre post, bs = pre ++ b :: post ∧ b.free = false ∧ usedOf bs = usedOf pre ++ b :: usedOf post := by
  obtain ⟨hb, hused⟩ := mem_usedOf.1 hb
  obtain ⟨pre, post, rfl⟩ := List.append_of_mem hb
  exact ⟨pre, post, rfl, hused, by rw [usedOf_append, usedOf_cons_of_used hused]⟩

/-- **Allocation, copy and release**: `tlsf_realloc` where there is no room after the block. -/
theorem tlsfRealloc_moves (hused : b.free = false) {m₁ : Mem} {n : Nat} (hn : size ≤ n)
    (hgot : Allocated m m₁ pool stop (pre ++ b :: post) bs c n) :
    ∃ m' bs', tlsfFree (memcpy m₁ (c.addr + 8) (b.addr + 8) (min b.size size)) pool (b.addr + 8) = some m' ∧
      Resized m m' pool stop (pre ++ post) bs' b c size := by
  have hlaid := hgot.sound.laid
  -- the blocks in use: the new one, the old one and the others
  have hold : usedOf (pre ++ b :: post) = usedOf pre ++ b :: usedOf post := by
    rw [usedOf_append, usedOf_cons_of_used hused]
  have hperm : (usedOf bs).Perm (c :: b :: usedOf (pre ++ post)) := by
    refine hgot.used.trans (List.Perm.cons c ?_)
    rw [hold, usedOf_append]
    exact List.perm_middle
  have hnodup := hperm.nodup_iff.1 (hlaid.nodup.filter _)
  have hmem : ∀ d, d ∈ bs ∧ d.free = false ↔ d = c ∨ d = b ∨ d ∈ usedOf (pre ++ post) := fun d => by
    rw [← mem_usedOf, hperm.mem_iff, List.mem_cons, List.mem_cons]
  obtain ⟨hc, hcused⟩ := (hmem c).2 (Or.inl rfl)
  have hb := ((hmem b).2 (Or.inr (Or.inl rfl))).1
  obtain ⟨hcnot, hbnot⟩ := List.nodup_cons.1 hnodup
  have hcb : ¬c = b := fun he => hcnot (he ▸ List.mem_cons_self)
  have happart := (hlaid.apart hc hb).resolve_left hcb
  have hcsize := hgot.size_le
  have hcf := hlaid.facts hc
  unfold Block.next at happart
  -- the copy
  obtain ⟨m₂, hm₂⟩ : ∃ m₂, m₂ = memcpy m₁ (c.addr + 8) (b.addr + 8) (min b.size size) := ⟨_, rfl⟩
  have hother : ∀ x, x < c.addr + 8 ∨ c.next + 4 ≤ x → m₂ x = m₁ x := fun x hx => by
    unfold Block.next at hx
    rw [hm₂, memcpy_of_disjoint (by omega)]
  have hsound₂ : Sound m₂ pool stop bs := hgot.sound.write fun x hx => by
    refine hother x ?_
    by_contra hin
    exact hx (Or.inr (Or.inr ⟨c, hc, hcused, by omega, by omega⟩))
  -- the release
  obtain ⟨p, q, rfl, -, hsplit⟩ := hsound₂.split (mem_usedOf.2 ⟨hb, hused⟩)
  obtain ⟨m', bs', hrun, hsound', hused', hkeeps'⟩ := tlsfFree_spec hsound₂ hused
  have hperm' : (usedOf bs').Perm (c :: usedOf (pre ++ post)) := by
    rw [hused', usedOf_append]
    refine List.Perm.cons_inv (a := b) (List.perm_middle.symm.trans ?_)
    rw [← hsplit]
    exact hperm.trans (List.Perm.swap ..)
  have hmem' : ∀ d, d = c ∨ d ∈ usedOf (pre ++ post) → d ∈ p ++ q ∧ d.free = false := fun d hd => by
    rw [← mem_usedOf, ← hused', hperm'.mem_iff, List.mem_cons]
    exact hd
  refine ⟨m', bs', hm₂ ▸ hrun, hsound', hperm', by omega, fun i hi => ?_, ?_⟩
  · calc m' (c.addr + 8 + i) = m₂ (c.addr + 8 + i) :=
          hkeeps' _ (Untouched.of_used (hmem' c (Or.inl rfl)).1 hcused (by omega))
      _ = m₁ (b.addr + 8 + i) := by rw [hm₂, memcpy_of_apart (by omega) hi]
      _ = m (b.addr + 8 + i) := hgot.keeps _ (Untouched.of_used (by simp) hused (by omega))
  · have hlo := hcf.lo
    have hhi := hcf.hi
    rintro x (hx | hx | ⟨d, hd, hdused, hin⟩)
    · rw [hkeeps' x (Or.inl hx), hother x (by omega), hgot.keeps x (Or.inl hx)]
    · have hn : c.next = c.addr + c.size + 4 := rfl
      rw [hkeeps' x (Or.inr (Or.inl hx)), hother x (by omega), hgot.keeps x (Or.inr (Or.inl hx))]
    · have hduse := mem_usedOf.2 ⟨hd, hdused⟩
      have hdc : ¬d = c := fun he => hcnot (List.mem_cons_of_mem b (he ▸ hduse))
      have hdapart := (hlaid.apart ((hmem d).2 (Or.inr (Or.inr hduse))).1 hc).resolve_left hdc
      have hdold : d ∈ pre ++ b :: post := (mem_usedOf.1 (by
        rw [hold]
        rw [usedOf_append] at hduse
        exact List.perm_middle.mem_iff.2 (List.mem_cons_of_mem b hduse))).1
      rw [hkeeps' x (Or.inr (Or.inr ⟨d, (hmem' d (Or.inr hduse)).1, hdused, hin⟩)), hother x (by omega),
        hgot.keeps x (Or.inr (Or.inr ⟨d, hdold, hdused, hin⟩))]

/-- The block stays where it is, and is trimmed to what is asked for. -/
theorem Window.trimmed {d : Block} {m₁ : Mem} {n : Nat} (h : Window m₁ pool stop pre [d] post)
    (hdused : d.free = false) (haddr : d.addr = b.addr) (hused : b.free = false)
    (hkeeps : Keeps m m₁ pool stop (pre ++ b :: post)) (h4 : n % 4 = 0) (hmin : 12 ≤ n) (hn : n ≤ d.size)
    (hsize : size ≤ n) (hpre : Coalesced false pre) (hpost : Coalesced false post) :
    ∃ m' bs' c, blockTrimUsed m₁ pool b.addr n = some m' ∧ c.addr = b.addr ∧
      Resized m m' pool stop (pre ++ post) bs' b c size := by
  obtain ⟨m', bs', c, hrun, hsound, husedbs, hcaddr, hcsize, hcused, hkeeps'⟩ :=
    blockTrimUsed_spec h hdused h4 hmin hn hpre hpost
  rw [haddr] at hrun hcaddr
  refine ⟨m', bs', c, hrun, hcaddr, hsound, ?_, Nat.le_trans hsize hcsize, fun i hi => ?_, ?_⟩
  · rw [husedbs, usedOf_append]
    exact List.perm_middle
  · have hnew := hkeeps' _ (Untouched.of_used (i := i) (b := c) (by simp) hcused (by omega))
    rw [hcaddr] at hnew ⊢
    rw [hnew, hkeeps _ (Untouched.of_used (by simp) hused (by omega))]
  · refine (hkeeps.of_usedOf ?_).trans (hkeeps'.of_usedOf ?_)
    · simp [usedOf_cons_of_used hused]
    · simp [usedOf_cons_of_used hcused]

theorem blockSize_next (h : Laid m pool stop (pre ++ b :: post)) :
    blockSize m b.next = (nextBlock stop post).size ∧ (nextBlock stop post).size < 2 ^ 30 := by
  have hlt : (nextBlock stop post).size < 2 ^ 30 := by
    cases post with
    | nil => exact Nat.two_pow_pos 30
    | cons c post => exact (h.facts (b := c) (by simp)).max
  exact ⟨blockSize_of (nextBlock_aligned h) h.next_size (Nat.lt_trans hlt (by decide)), hlt⟩

/-- **`tlsf_realloc`** of a block in use: it becomes a block of the size that is asked for, or nothing
changes. -/
theorem tlsfRealloc_spec (h : Sound m pool stop (pre ++ b :: post)) (hused : b.free = false) (h0 : size ≠ 0)
    (hmax : size ≤ searchMax) :
    (tlsfRealloc m pool (b.addr + 8) size = some (0, m) ∧ b.size < adjusted size ∧
      ∀ d ∈ pre ++ b :: post, d.free = true → d.size < goodSize (adjusted size)) ∨
    ∃ m' bs' c, tlsfRealloc m pool (b.addr + 8) size = some (c.addr + 8, m') ∧
      Resized m m' pool stop (pre ++ post) bs' b c size := by
  have hlaid := h.laid
  have hmem : b ∈ pre ++ b :: post := by simp
  have hb := hlaid.facts hmem
  have hbmax := hb.max
  obtain ⟨hle, hmin, h4, hmax'⟩ := adjusted_le_searchMax h0 hmax
  obtain ⟨hpre, hpost⟩ := (coalesced_around hused).1 h.coalesced
  obtain ⟨hnsize, hnmax⟩ := blockSize_next hlaid
  have hcombined : add32 (add32 b.size (nextBlock stop post).size) blockHeaderOverhead =
      b.size + (nextBlock stop post).size + 4 := by
    rw [blockHeaderOverhead, add32_of_lt (show b.size + (nextBlock stop post).size < 2 ^ 32 by omega),
      add32_of_lt (by omega)]
  have hne : ¬(b.addr + 8 ≠ 0 ∧ size = 0) := fun hz => h0 hz.2
  simp only [tlsfRealloc, if_neg hne, if_neg (show b.addr + 8 ≠ 0 by omega), fromPtr_eq hb,
    hlaid.blockNext_eq hmem, hlaid.blockSize_eq hmem, hnsize, hcombined, adjustRequestSize_eq,
    Option.bind_eq_bind, Option.bind_some, blockIsFree_next hlaid]
  by_cases hsmall : b.size < adjusted size
  · by_cases hnext : (nextBlock stop post).free = true ∧
        adjusted size ≤ b.size + (nextBlock stop post).size + 4
    · -- the next block is taken
      rw [if_neg (by rintro ⟨-, hn | hn⟩ <;> [exact hn hnext.1; omega]), if_pos hsmall]
      cases post with
      | nil => cases hnext.1
      | cons c post =>
        obtain ⟨hcfree, hroom⟩ := hnext
        obtain ⟨m₁, m₂, hmerge, hmark, hwindow, hkeeps⟩ := (h.toPlain.window hused).grow hused hcfree
        have hco : Coalesced false post := by
          have hrest := hpost.2
          cases post with
          | nil => trivial
          | cons d post => exact ⟨fun hf => Bool.false_ne_true hf.1, hrest.2⟩
        have hj : adjusted size ≤ (joined b c).size := by
          have hcs : (nextBlock stop (c :: post)).size = c.size := rfl
          unfold joined
          simp only
          omega
        obtain ⟨m', bs', d, htrim, haddr, hresized⟩ :=
          hwindow.trimmed (b := b) hused rfl hused hkeeps h4 hmin hj hle hpre hco
        have hsame : usedOf (pre ++ c :: post) = usedOf (pre ++ post) := by
          rw [usedOf_append, usedOf_cons_of_free (b := c) hcfree, usedOf_append]
        refine Or.inr ⟨m', bs', d, ?_, hresized.sound, hsame ▸ hresized.used, hresized.size_le,
          hresized.bytes, hresized.keeps.of_usedOf (hsame ▸ fun _ => id)⟩
        simp only [hmerge, hmark, htrim, Option.bind_some, haddr, Option.pure_def]
    · -- the block moves
      have hmove : b.size < adjusted size ∧ (¬(nextBlock stop post).free = true ∨
          b.size + (nextBlock stop post).size + 4 < adjusted size) := by
        refine ⟨hsmall, ?_⟩
        by_cases hf : (nextBlock stop post).free = true
        · exact Or.inr (Nat.lt_of_not_le fun hl => hnext ⟨hf, hl⟩)
        · exact Or.inl hf
      rw [if_pos hmove]
      rcases tlsfMalloc_spec h h0 hmax with ⟨hrun, hnone⟩ | ⟨m₁, bs₁, c, hrun, -, hgot⟩
      · refine Or.inl ⟨?_, hsmall, hnone⟩
        simp only [hrun, Option.bind_some, ne_eq, not_true_eq_false, if_false, Option.pure_def]
      · obtain ⟨m', bs', hfree, hresized⟩ := tlsfRealloc_moves hused hle hgot
        refine Or.inr ⟨m', bs', c, ?_, hresized⟩
        simp only [hrun, Option.bind_some, ne_eq, if_pos (show ¬c.addr + 8 = 0 by omega), hfree,
          Option.pure_def]
  · -- the block is large enough
    rw [if_neg fun hc => hsmall hc.1, if_neg hsmall]
    obtain ⟨m', bs', d, htrim, haddr, hresized⟩ := (h.toPlain.window hused).trimmed hused rfl hused
      (Keeps.refl m pool stop _) h4 hmin (Nat.le_of_not_lt hsmall) hle hpre hpost
    refine Or.inr ⟨m', bs', d, ?_, hresized⟩
    simp only [Option.bind_some, htrim, haddr, Option.pure_def]

end Xmhf.Tlsf
