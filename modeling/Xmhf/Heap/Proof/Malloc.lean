import Xmhf.Heap.Proof.Ops

/-!
# Allocation

`Sound m pool stop bs`: the heap is laid out as `bs`, its free lists hold the free blocks, and no two
neighbours are both free.

* `blockLocateFree_spec`: the search finds a block exactly when some free block has `goodSize` bytes.
* `blockTrimFree_spec`, `blockPrepareUsed_spec`: what is not needed goes back to the lists.
* `tlsfMalloc_spec`: `tlsf_malloc` on a sound heap.
-/

namespace Xmhf.Tlsf

open Xmhf.Memory Xmhf.Extent Xmhf.Word

/-- No two blocks after each other are free; the first one comes after a block that is free, or not. -/
def Coalesced : Bool → List Block → Prop
  | _, [] => True
  | f, b :: bs => ¬(f = true ∧ b.free = true) ∧ Coalesced b.free bs

/-- The heap, with the free blocks in the free lists. -/
structure Plain (m : Mem) (pool stop : Nat) (bs : List Block) : Prop where
  laid : Laid m pool stop bs
  lists : ∃ L, Indexed m pool L ∧ Holds L fun b => b ∈ bs

/-- **A sound heap.** -/
structure Sound (m : Mem) (pool stop : Nat) (bs : List Block) : Prop extends Plain m pool stop bs where
  coalesced : Coalesced false bs

/-- The blocks in use. -/
def usedOf (bs : List Block) : List Block := bs.filter fun b => !b.free

/-- **A user got the block `c`**, of at least `size` bytes; the other blocks in use and their bytes are the
same. -/
structure Allocated (m m' : Mem) (pool stop : Nat) (bs bs' : List Block) (c : Block) (size : Nat) : Prop where
  sound : Sound m' pool stop bs'
  used : (usedOf bs').Perm (c :: usedOf bs)
  size_le : size ≤ c.size
  keeps : Keeps m m' pool stop bs

/-- The least size of the blocks that a request of `size` bytes is served from. -/
def goodSize (size : Nat) : Nat := keyMin (key (mappingSearch size))

/-- What becomes of a free block from which `size` bytes are allocated. -/
def allocate (b : Block) (size : Nat) : List Block :=
  if size + 16 ≤ b.size then [{ b with size := size, free := false }, restOf b size]
  else [{ b with free := false }]

variable {m m' : Mem} {pool stop size : Nat} {bs pre mid post : List Block} {b c : Block} {f : Bool}

theorem coalesced_append {xs ys : List Block} :
    Coalesced f (xs ++ ys) ↔ Coalesced f xs ∧ Coalesced (lastFree f xs) ys := by
  induction xs generalizing f with
  | nil => exact (and_iff_right trivial).symm
  | cons b xs ih => rw [List.cons_append, Coalesced, Coalesced, ih, lastFree, and_assoc]

@[simp] theorem usedOf_append (xs ys : List Block) : usedOf (xs ++ ys) = usedOf xs ++ usedOf ys :=
  List.filter_append ..

theorem usedOf_cons_of_free (h : b.free = true) (bs : List Block) : usedOf (b :: bs) = usedOf bs :=
  List.filter_cons_of_neg (by simp [h])

theorem usedOf_cons_of_used (h : b.free = false) (bs : List Block) : usedOf (b :: bs) = b :: usedOf bs :=
  List.filter_cons_of_pos (by simp [h])

theorem mem_usedOf : b ∈ usedOf bs ↔ b ∈ bs ∧ b.free = false := by simp [usedOf]

/-- What users have depends on the blocks in use. -/
theorem Keeps.of_usedOf {bs' : List Block} (h : Keeps m m' pool stop bs) (hsub : usedOf bs' ⊆ usedOf bs) :
    Keeps m m' pool stop bs' :=
  h.mono fun _ hb hfree => (mem_usedOf.1 (hsub (mem_usedOf.2 ⟨hb, hfree⟩))).1

theorem window_nil : Window m pool stop pre [] post ↔ Plain m pool stop (pre ++ post) := by
  constructor
  · rintro ⟨hlaid, L, hi, hh⟩
    refine ⟨by simpa using hlaid, L, hi, hh.congr fun b _ => List.mem_append⟩
  · rintro ⟨hlaid, L, hi, hh⟩
    refine ⟨by simpa using hlaid, L, hi, hh.congr fun b _ => List.mem_append.symm⟩

/-- A block in use as the window. -/
theorem Plain.window (h : Plain m pool stop (pre ++ b :: post)) (hused : b.free = false) :
    Window m pool stop pre [b] post :=
  Window.unshift (window_nil.2 (by simpa using h)) hused

theorem Window.plain (h : Window m pool stop pre [b] post) (hused : b.free = false) :
    Plain m pool stop (pre ++ b :: post) := by
  have := window_nil.1 (h.shift hused)
  simpa using this

/-! ## The search -/

theorem le_goodSize (h4 : size % 4 = 0) (h31 : size < 2 ^ 31) : size ≤ goodSize size :=
  (key_search_le_iff h4 h31).1 (Nat.le_refl _)

/-- **`block_locate_free`**: it finds a block if there is one of `goodSize` bytes, and takes it out of its
list. -/
theorem blockLocateFree_spec (h : Plain m pool stop bs) (h0 : size ≠ 0) (h4 : size % 4 = 0)
    (hmax : size ≤ searchMax) :
    (blockLocateFree m pool size = some (0, m) ∧ ∀ b ∈ bs, b.free = true → b.size < goodSize size) ∨
    ∃ pre b post m', bs = pre ++ b :: post ∧ b.free = true ∧ goodSize size ≤ b.size ∧
      blockLocateFree m pool size = some (b.addr, m') ∧ Window m' pool stop pre [b] post ∧
      Keeps m m' pool stop bs := by
  have h31 : size < 2 ^ 31 := Nat.lt_of_le_of_lt hmax (by decide)
  obtain ⟨L, hi, hh⟩ := h.lists
  obtain ⟨fs, hfs⟩ : ∃ fs, fs = mappingSearch size := ⟨_, rfl⟩
  have hf : fs.1 < 24 := hfs ▸ (mappingSearch_inside_iff h4 h31).2 hmax
  have hs : fs.2 < 32 := by
    rw [hfs, mappingSearch_eq h31]
    exact mappingInsert_snd_lt (add_searchRound_lt h31)
  have hgood : goodSize size = keyMin (key fs) := by rw [goodSize, hfs]
  -- by the order of the lists
  have hkey : ∀ b ∈ bs, goodSize size ≤ b.size ↔ key fs ≤ key (mappingInsert b.size) := fun b hb => by
    rw [hgood]
    exact keyMin_le_iff (Nat.lt_trans (h.laid.facts hb).max (by decide))
  rcases searchSuitableBlock_spec hi hf hs with ⟨hrun, hnone⟩ | ⟨f', hf', s', hs', a, l, hrun, hlist, hle⟩
  · refine Or.inl ⟨?_, fun b hb hfree => ?_⟩
    · rw [hfs] at hrun
      simp only [blockLocateFree, if_pos h0, hrun, Option.bind_eq_bind, Option.bind_some, ne_eq,
        not_true_eq_false, if_false, Option.pure_def]
    · rw [← Nat.not_le, hkey b hb]
      intro hle
      obtain ⟨hf', hs'⟩ := (h.laid.facts hb).list_lt
      have hmem : b.addr ∈ L (mappingInsert b.size).1 (mappingInsert b.size).2 :=
        (hh.mem _ _ _).2 ⟨b, hb, hfree, rfl, rfl⟩
      rw [hnone _ hf' _ hs' hle] at hmem
      exact (List.not_mem_nil hmem).elim
  · have hmem : a ∈ L f' s' := by rw [hlist]; exact List.mem_cons_self
    obtain ⟨b, hb, hfree, rfl, hmap⟩ := (hh.mem f' s' a).1 hmem
    obtain ⟨pre, post, rfl⟩ := List.append_of_mem hb
    have hlarge : goodSize size ≤ b.size := (hkey b hb).2 (hmap ▸ hle)
    have hwindow : Window m pool stop pre [] (b :: post) := window_nil.2 h
    obtain ⟨m', hremove, hwindow', hkeeps⟩ := hwindow.removeNext hfree
    have hsize := h.laid.blockSize_eq hb
    have hremove' : removeFreeBlock m pool b.addr f' s' = some m' := by
      rw [blockRemove, hsize, hmap] at hremove
      exact hremove
    have hlo := (h.laid.facts hb).lo
    have hpos := h.laid.pos
    rw [hfs] at hrun
    refine Or.inr ⟨pre, b, post, m', rfl, hfree, hlarge, ?_, hwindow', ?_⟩
    · have hfit : size ≤ b.size := Nat.le_trans (le_goodSize h4 h31) hlarge
      simp only [blockLocateFree, if_pos h0, hrun, Option.bind_eq_bind, Option.bind_some, hsize, tlsfAssert,
        if_pos hfit, if_pos (show b.addr ≠ 0 by omega), Option.pure_def]
      rw [hremove']
      rfl
    · simpa using hkeeps

/-! ## The block that is found -/

theorem blockCanSplit_iff (h : Laid m pool stop bs) (hb : b ∈ bs) (hsize : size < 2 ^ 31) :
    blockCanSplit m b.addr size ↔ size + 16 ≤ b.size := by
  have hadd : add32 blockHeaderSize size = 16 + size := add32_of_lt (show 16 + size < 2 ^ 32 by omega)
  rw [blockCanSplit, h.blockSize_eq hb, hadd, Nat.add_comm]

/-- **`block_trim_free`**: the rest of the block goes to the lists, if it makes a block. -/
theorem blockTrimFree_spec (h : Window m pool stop pre [b] post) (hfree : b.free = true)
    (h4 : size % 4 = 0) (hmin : 12 ≤ size) (hsize : size < 2 ^ 31) :
    ∃ m', blockTrimFree m pool b.addr size = some m' ∧ Keeps m m' pool stop (pre ++ post) ∧
      if size + 16 ≤ b.size then Window m' pool stop pre [keptOf b size] (restOf b size :: post)
      else Window m' pool stop pre [b] post := by
  have hlaid : Laid m pool stop (pre ++ b :: post) := by simpa using h.laid
  have hmem : b ∈ pre ++ b :: post := by simp
  have hisfree : blockIsFree m b.addr := (hlaid.blockIsFree_iff hmem).2 hfree
  by_cases hroom : size + 16 ≤ b.size
  · have hcan : blockCanSplit m b.addr size := (blockCanSplit_iff hlaid hmem hsize).2 hroom
    obtain ⟨m₁, hsplit, ⟨m₂, hlink, hwindow, hkeeps⟩, -⟩ := h.splitFree hfree h4 hmin hroom
    obtain ⟨m₃, hinsert, hwindow', hkeeps'⟩ := @Window.insertLast _ _ _ _ [keptOf b size] _ _ hwindow rfl
    refine ⟨m₃, ?_, hkeeps.trans (hkeeps'.mono fun d hd _ => ?_), ?_⟩
    · simp only [blockTrimFree, tlsfAssert, if_pos hisfree, Option.bind_eq_bind, Option.bind_some,
        if_pos hcan, hsplit, hlink, hinsert]
    · simp only [List.mem_append, List.mem_cons] at hd ⊢
      rcases hd with hd | hd
      · exact Or.inl (Or.inl hd)
      · exact Or.inr (Or.inr hd)
    · rw [if_pos hroom]
      exact hwindow'
  · have hcan : ¬blockCanSplit m b.addr size := fun hc => hroom ((blockCanSplit_iff hlaid hmem hsize).1 hc)
    refine ⟨m, ?_, Keeps.refl m pool stop _, ?_⟩
    · simp only [blockTrimFree, tlsfAssert, if_pos hisfree, Option.bind_eq_bind, Option.bind_some,
        if_neg hcan, Option.pure_def]
    · rw [if_neg hroom]
      exact h

theorem toPtr_eq (h : Placed pool stop b) : blockToPtr b.addr = b.addr + 8 := by
  have := h.hi
  have := h.stop_le
  exact add32_of_lt (show b.addr + 8 < 2 ^ 32 by omega)

/-- **`block_prepare_used`** -/
theorem blockPrepareUsed_spec (h : Window m pool stop pre [b] post) (hfree : b.free = true)
    (h4 : size % 4 = 0) (hmin : 12 ≤ size) (hsize : size < 2 ^ 31) :
    ∃ m', blockPrepareUsed m pool b.addr size = some (b.addr + 8, m') ∧
      Plain m' pool stop (pre ++ allocate b size ++ post) ∧ Keeps m m' pool stop (pre ++ post) := by
  have hlaid : Laid m pool stop (pre ++ b :: post) := by simpa using h.laid
  have hb := hlaid.facts (b := b) (by simp)
  have hlo := hb.lo
  have hpos := hlaid.pos
  obtain ⟨m₁, htrim, hkeeps, hwindow⟩ := blockTrimFree_spec h hfree h4 hmin hsize
  have hrun : ∀ m', blockMarkAsUsed m₁ b.addr = some m' →
      blockPrepareUsed m pool b.addr size = some (b.addr + 8, m') := fun m' hused => by
    simp only [blockPrepareUsed, if_pos (show b.addr ≠ 0 by omega), htrim, hused, Option.bind_eq_bind,
      Option.bind_some, Option.pure_def, toPtr_eq hb]
  unfold allocate
  split at hwindow
  · next hroom =>
    obtain ⟨m', hused, hwindow', hkeeps'⟩ := hwindow.markAsUsed
    refine ⟨m', hrun m' hused, ?_, hkeeps.trans (hkeeps'.mono fun d hd _ => ?_)⟩
    · rw [if_pos hroom]
      have hplain := hwindow'.plain rfl
      simpa [keptOf] using hplain
    · rcases List.mem_append.1 hd with hd | hd
      · exact List.mem_append_left _ hd
      · exact List.mem_append_right _ (List.mem_cons_of_mem _ hd)
  · next hroom =>
    obtain ⟨m', hused, hwindow', hkeeps'⟩ := hwindow.markAsUsed
    refine ⟨m', hrun m' hused, ?_, hkeeps.trans hkeeps'⟩
    rw [if_neg hroom]
    have hplain := hwindow'.plain rfl
    simpa using hplain

/-- An allocation from a free block keeps its neighbours apart. -/
theorem coalesced_allocate (hpre : Coalesced false pre) (hpost : Coalesced true post) :
    Coalesced false (pre ++ allocate b size ++ post) := by
  rw [List.append_assoc, coalesced_append]
  refine ⟨hpre, ?_⟩
  unfold allocate
  split
  · exact ⟨fun h => Bool.false_ne_true h.2, fun h => Bool.false_ne_true h.1, hpost⟩
  · refine ⟨fun h => Bool.false_ne_true h.2, ?_⟩
    cases post with
    | nil => trivial
    | cons d post => exact ⟨fun h => Bool.false_ne_true h.1, hpost.2⟩

/-! ## `tlsf_malloc` -/

/-- A request of 0 bytes, or of `block_size_max` bytes or more, fails. -/
theorem tlsfMalloc_refused (h : size = 0 ∨ 2 ^ 30 ≤ size) : tlsfMalloc m pool size = some (0, m) := by
  have hadjust : adjusted size = 0 := if_neg (by omega)
  simp [tlsfMalloc, adjustRequestSize_eq, hadjust, blockLocateFree, blockPrepareUsed]

/-- The block that is allocated from `b`. -/
def givenOf (b : Block) (size : Nat) : Block :=
  { b with size := if size + 16 ≤ b.size then size else b.size, free := false }

theorem usedOf_allocate (size : Nat) : usedOf (allocate b size) = [givenOf b size] := by
  unfold allocate givenOf
  split
  · rw [usedOf_cons_of_used rfl, usedOf_cons_of_free rfl]
    rfl
  · rw [usedOf_cons_of_used rfl]
    rfl

/-- A free block is prepared for its user. -/
theorem Window.prepareUsed (h : Window m pool stop pre [b] post) (hfree : b.free = true)
    (h4 : size % 4 = 0) (hmin : 12 ≤ size) (hsize : size ≤ b.size) (hpre : Coalesced false pre)
    (hpost : Coalesced true post) :
    ∃ m' bs', blockPrepareUsed m pool b.addr size = some (b.addr + 8, m') ∧
      Allocated m m' pool stop (pre ++ b :: post) bs' (givenOf b size) size := by
  have hlaid : Laid m pool stop (pre ++ b :: post) := by simpa using h.laid
  have hmax := (hlaid.facts (b := b) (by simp)).max
  obtain ⟨m', hrun, hplain, hkeeps⟩ := blockPrepareUsed_spec h hfree h4 hmin (by omega)
  refine ⟨m', _, hrun, ⟨hplain, coalesced_allocate hpre hpost⟩, ?_, ?_, hkeeps.of_usedOf ?_⟩
  · rw [usedOf_append, usedOf_append, usedOf_allocate, usedOf_append, usedOf_cons_of_free hfree,
      List.append_assoc]
    exact List.perm_middle
  · unfold givenOf
    simp only
    split <;> omega
  · rw [usedOf_append, usedOf_append, usedOf_cons_of_free hfree]
    exact fun _ => id

/-- What is asked for, in whole words. -/
theorem adjusted_le_searchMax (h0 : size ≠ 0) (hmax : size ≤ searchMax) : size ≤ adjusted size ∧
    12 ≤ adjusted size ∧ adjusted size % 4 = 0 ∧ adjusted size ≤ searchMax := by
  have h30 : size < 2 ^ 30 := Nat.lt_of_le_of_lt hmax (by decide)
  obtain ⟨hle, hmin, h4, -⟩ := adjusted_spec h0 h30
  have hlt := roundUp_lt (n := 4) (x := size) (by decide)
  have hmod := roundUp_mod 4 size
  have hsm : searchMax = 2 ^ 30 - 2 ^ 24 := rfl
  refine ⟨hle, hmin, h4, ?_⟩
  rw [adjusted, if_pos ⟨h0, h30⟩]
  omega

/-- **`tlsf_malloc`** on a sound heap: it takes the bytes from a free block of `goodSize` bytes, or there is
no such block and nothing changes. -/
theorem tlsfMalloc_spec (h : Sound m pool stop bs) (h0 : size ≠ 0) (hmax : size ≤ searchMax) :
    (tlsfMalloc m pool size = some (0, m) ∧
      ∀ b ∈ bs, b.free = true → b.size < goodSize (adjusted size)) ∨
    ∃ m' bs' c, tlsfMalloc m pool size = some (c.addr + 8, m') ∧
      (∃ b ∈ bs, b.free = true ∧ goodSize (adjusted size) ≤ b.size) ∧
      Allocated m m' pool stop bs bs' c (adjusted size) := by
  obtain ⟨-, hmin, h4, hmax'⟩ := adjusted_le_searchMax h0 hmax
  have h31 : adjusted size < 2 ^ 31 := Nat.lt_of_le_of_lt hmax' (by decide)
  rcases blockLocateFree_spec h.toPlain (by omega) h4 hmax' with
    ⟨hrun, hnone⟩ | ⟨pre, b, post, m₁, rfl, hfree, hgood, hrun, hwindow, hkeeps⟩
  · refine Or.inl ⟨?_, hnone⟩
    simp only [tlsfMalloc, adjustRequestSize_eq, hrun, Option.bind_eq_bind, Option.bind_some,
      blockPrepareUsed, ne_eq, not_true_eq_false, if_false, Option.pure_def]
  · obtain ⟨hpre, -, hpost⟩ := coalesced_append.1 h.coalesced
    obtain ⟨m', bs', hprepare, hgiven⟩ := hwindow.prepareUsed hfree h4 hmin
      (Nat.le_trans (le_goodSize h4 h31) hgood) hpre (hfree ▸ hpost)
    refine Or.inr ⟨m', bs', givenOf b (adjusted size), ?_, ⟨b, by simp, hfree, hgood⟩, hgiven.sound,
      hgiven.used, hgiven.size_le, hkeeps.trans hgiven.keeps⟩
    simp only [tlsfMalloc, adjustRequestSize_eq, hrun, Option.bind_eq_bind, Option.bind_some, hprepare]
    rfl

end Xmhf.Tlsf
