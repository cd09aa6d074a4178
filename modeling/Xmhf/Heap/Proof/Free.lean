import Xmhf.Heap.Proof.Malloc

/-!
# Release

A block that is given back is merged with its free neighbours, and the result goes to the free lists.

* `blockMergePrev_spec`, `blockMergeNext_spec`: one neighbour.
* `Window.release`: the merge with the next block, and the insertion.
* `tlsfFree_spec`: `tlsf_free` on a sound heap.
-/

namespace Xmhf.Tlsf

open Xmhf.Memory Xmhf.Extent Xmhf.Word

variable {m m' : Mem} {pool stop size : Nat} {bs pre mid post : List Block} {b c : Block} {f : Bool}

/-! ## Merging with a neighbour -/

/-- **`block_merge_prev`** of a free block. -/
theorem blockMergePrev_spec (h : Window m pool stop pre [b] post) (hfree : b.free = true)
    (hpre : Coalesced false pre) :
    ∃ m' pre' c, blockMergePrev m pool b.addr = some (c.addr, m') ∧ Window m' pool stop pre' [c] post ∧
      c.free = true ∧ Coalesced false pre' ∧ lastFree false pre' = false ∧ usedOf pre' = usedOf pre ∧
      Keeps m m' pool stop (pre ++ post) := by
  have hlaid : Laid m pool stop (pre ++ b :: post) := by simpa using h.laid
  have hb := hlaid.facts (b := b) (by simp)
  have hisprev : blockIsPrevFree m b.addr ↔ lastFree false pre = true :=
    blockIsPrevFree_of hb.size_aligned hlaid.size_before
  by_cases hlast : lastFree false pre = true
  · rcases List.eq_nil_or_concat pre with rfl | ⟨pre', a, rfl⟩
    · cases hlast
    · -- the block before is free, and the one before that is not
      rw [List.concat_eq_append] at *
      rw [lastFree_append] at hlast
      have ha : a.free = true := hlast
      have haf := hlaid.facts (b := a) (by simp)
      have hpos := hlaid.pos
      have hlo := haf.lo
      have hlist : pre' ++ [a] ++ b :: post = pre' ++ a :: b :: post := by simp
      have haddr : b.addr = a.next := (hlist ▸ hlaid).next_addr
      have hback : blockPrev m b.addr = a.addr := by
        rw [blockPrev, haddr]
        exact hlaid.back (by simp) ha
      have hafree : blockIsFree m a.addr := (hlaid.blockIsFree_iff (b := a) (by simp)).2 ha
      obtain ⟨m₁, hremove, hwindow, hkeeps⟩ := h.removeLast ha
      obtain ⟨m', habsorb, hwindow', hkeeps'⟩ := hwindow.absorb ha hfree
      obtain ⟨hco, hcoa⟩ := coalesced_append.1 hpre
      have hused : usedOf (pre' ++ [a]) = usedOf pre' := by
        rw [usedOf_append, usedOf_cons_of_free ha, show usedOf [] = [] from rfl, List.append_nil]
      refine ⟨m', pre', joined a b, ?_, hwindow', ha, hco, ?_, hused.symm, ?_⟩
      · simp only [blockMergePrev, if_pos (hisprev.2 (by rw [lastFree_append]; exact ha)), hback, tlsfAssert,
          if_pos (show a.addr ≠ 0 by omega), if_pos hafree, Option.bind_eq_bind, Option.bind_some, hremove,
          habsorb, Option.pure_def]
        rfl
      · exact Bool.eq_false_iff.2 fun hf => hcoa.1 ⟨hf, ha⟩
      · refine (hkeeps.of_usedOf ?_).trans (hkeeps'.of_usedOf ?_)
        · simp only [usedOf_append, usedOf_cons_of_free ha, usedOf_cons_of_free hfree, List.append_assoc]
          exact fun _ => id
        · rw [usedOf_append, hused, usedOf_append]
          exact fun _ => id
  · refine ⟨m, pre, b, ?_, h, hfree, hpre, Bool.eq_false_iff.2 hlast, rfl, Keeps.refl m pool stop _⟩
    rw [blockMergePrev, if_neg fun hp => hlast (hisprev.1 hp)]
    rfl

/-- The next block is free, or not. -/
theorem blockIsFree_next (h : Laid m pool stop (pre ++ b :: post)) :
    blockIsFree m b.next ↔ (nextBlock stop post).free = true :=
  blockIsFree_of (nextBlock_aligned h) h.next_size

/-- `block_merge_next` leaves the block before one in use alone. -/
theorem blockMergeNext_of_used (h : Laid m pool stop (pre ++ b :: post))
    (hused : (nextBlock stop post).free = false) : blockMergeNext m pool b.addr = some m := by
  have hnfree : ¬blockIsFree m b.next := fun hf => by
    rw [(blockIsFree_next h).1 hf] at hused
    cases hused
  have hne : b.next ≠ 0 := by
    unfold Block.next
    omega
  simp only [blockMergeNext, h.blockNext_eq (b := b) (by simp), Option.bind_eq_bind, Option.bind_some,
    tlsfAssert, if_pos hne, if_neg hnfree, Option.pure_def]

/-- `block_merge_next` before a free block: the block is taken out of its list and absorbed. -/
theorem blockMergeNext_of_free (h : Window m pool stop pre [b] (c :: post)) (hc : c.free = true) :
    ∃ m₁, Window m₁ pool stop pre [b, c] post ∧ Keeps m m₁ pool stop (pre ++ [b] ++ c :: post) ∧
      blockMergeNext m pool b.addr = blockAbsorb m₁ b.addr c.addr := by
  have hlaid : Laid m pool stop (pre ++ b :: c :: post) := by simpa using h.laid
  have hb := hlaid.facts (b := b) (by simp)
  have hmin := hb.min
  have haddr : c.addr = b.next := hlaid.next_addr
  have hne : b.next ≠ 0 := by
    unfold Block.next
    omega
  have hlast : ¬blockIsLast m b.addr := by
    rw [blockIsLast, hlaid.blockSize_eq (b := b) (by simp)]
    omega
  obtain ⟨m₁, hremove, hwindow, hkeeps⟩ := h.removeNext hc
  refine ⟨m₁, hwindow, hkeeps, ?_⟩
  rw [haddr] at hremove ⊢
  simp only [blockMergeNext, hlaid.blockNext_eq (b := b) (by simp), Option.bind_eq_bind, Option.bind_some,
    tlsfAssert, if_pos hne, if_pos ((blockIsFree_next hlaid).2 hc), if_pos hlast, hremove]

/-- **`block_merge_next`** of a free block. -/
theorem blockMergeNext_spec (h : Window m pool stop pre [b] post) (hfree : b.free = true)
    (hpost : Coalesced false post) :
    ∃ m' post' c, blockMergeNext m pool b.addr = some m' ∧ Window m' pool stop pre [c] post' ∧
      c.addr = b.addr ∧ c.free = true ∧ Coalesced true post' ∧ usedOf post' = usedOf post ∧
      Keeps m m' pool stop (pre ++ post) := by
  have hlaid : Laid m pool stop (pre ++ b :: post) := by simpa using h.laid
  by_cases hnext : (nextBlock stop post).free = true
  · cases post with
    | nil => cases hnext
    | cons c post =>
      have hc : c.free = true := hnext
      obtain ⟨m₁, hwindow, hkeeps, hrun⟩ := blockMergeNext_of_free h hc
      obtain ⟨m', habsorb, hwindow', hkeeps'⟩ := hwindow.absorb hfree hc
      have hused : usedOf (c :: post) = usedOf post := usedOf_cons_of_free hc post
      refine ⟨m', post, joined b c, hrun.trans habsorb, hwindow', rfl, hfree, ?_, hused.symm, ?_⟩
      · have := hpost.2
        rwa [hc] at this
      · refine (hkeeps.of_usedOf ?_).trans (hkeeps'.of_usedOf ?_)
        · simp only [usedOf_append, usedOf_cons_of_free hfree, List.append_assoc]
          exact fun _ => id
        · rw [usedOf_append, hused, usedOf_append]
          exact fun _ => id
  · have hused : (nextBlock stop post).free = false := Bool.eq_false_iff.2 hnext
    refine ⟨m, post, b, blockMergeNext_of_used hlaid hused, h, rfl, hfree, ?_, rfl, Keeps.refl m pool stop _⟩
    cases post with
    | nil => trivial
    | cons c post => exact ⟨fun hf => hnext hf.2, hpost.2⟩

/-- **The rest of a release**: the merge with the next block, and the insertion. -/
theorem Window.release (h : Window m pool stop pre [b] post) (hfree : b.free = true)
    (hpre : Coalesced false pre) (hlast : lastFree false pre = false) (hpost : Coalesced false post) :
    ∃ m₁ m' bs', blockMergeNext m pool b.addr = some m₁ ∧ blockInsert m₁ pool b.addr = some m' ∧
      Sound m' pool stop bs' ∧ usedOf bs' = usedOf (pre ++ post) ∧ Keeps m m' pool stop (pre ++ post) := by
  obtain ⟨m₁, post', c, hmerge, hwindow, haddr, hc, hco, hused, hkeeps⟩ := blockMergeNext_spec h hfree hpost
  obtain ⟨m', hinsert, hwindow', hkeeps'⟩ := @Window.insertLast _ _ _ _ [] _ _ hwindow hc
  have hplain := window_nil.1 hwindow'
  have husedc : usedOf (pre ++ c :: post') = usedOf (pre ++ post) := by
    rw [usedOf_append, usedOf_cons_of_free hc, hused, usedOf_append]
  refine ⟨m₁, m', pre ++ c :: post', hmerge, haddr ▸ hinsert, ⟨hplain, ?_⟩, husedc, hkeeps.trans ?_⟩
  · refine coalesced_append.2 ⟨hpre, fun hf => ?_, hc ▸ hco⟩
    rw [hlast] at hf
    exact Bool.false_ne_true hf.1
  · refine hkeeps'.of_usedOf ?_
    rw [List.append_nil, husedc]
    exact fun _ => id

/-! ## `tlsf_free` -/

theorem fromPtr_eq (h : Placed pool stop b) : blockFromPtr (b.addr + 8) = b.addr := by
  have := h.hi
  have := h.stop_le
  simp only [blockFromPtr, blockStartOffset, sub32]
  omega

/-- **`tlsf_free`** of a block in use: the others stay, and the heap stays sound. -/
theorem tlsfFree_spec (h : Sound m pool stop (pre ++ b :: post)) (hused : b.free = false) :
    ∃ m' bs', tlsfFree m pool (b.addr + 8) = some m' ∧ Sound m' pool stop bs' ∧
      usedOf bs' = usedOf (pre ++ post) ∧ Keeps m m' pool stop (pre ++ post) := by
  have hb := h.laid.facts (b := b) (by simp)
  obtain ⟨hpre, -, hpost⟩ := coalesced_append.1 h.coalesced
  rw [hused] at hpost
  obtain ⟨m₁, hmark, hwindow, hkeeps⟩ := (h.toPlain.window hused).markAsFree
  obtain ⟨m₂, pre', c, hprev, hwindow', hc, hpre', hlast, hused', hkeeps'⟩ :=
    blockMergePrev_spec hwindow rfl hpre
  obtain ⟨m₃, m', bs', hnext, hinsert, hsound, husedbs, hkeeps''⟩ := hwindow'.release hc hpre' hlast hpost
  have heq : usedOf (pre' ++ post) = usedOf (pre ++ post) := by rw [usedOf_append, hused', usedOf_append]
  refine ⟨m', bs', ?_, hsound, husedbs.trans heq, hkeeps.trans (hkeeps'.trans (hkeeps''.of_usedOf ?_))⟩
  · simp only [tlsfFree, if_pos (show b.addr + 8 ≠ 0 by omega), fromPtr_eq hb, hmark, Option.bind_eq_bind,
      Option.bind_some]
    simp only [hprev, Option.bind_some, hnext, hinsert]
  · rw [heq]
    exact fun _ => id

end Xmhf.Tlsf
