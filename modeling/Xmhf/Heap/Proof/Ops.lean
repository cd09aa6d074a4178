import Xmhf.Heap.Proof.Window

/-!
# Operations on the blocks of the window

What the block operations do to a heap with a window on the block that they are given.

* `Window.markAsUsed`, `Window.markAsFree`: the block changes its state, and the next block records it.
* `Window.splitFree`, `Window.splitUsed`: `block_split` and the stores after it leave two blocks.
* `Window.absorb`, `Window.absorbUsed`: `block_absorb` leaves one block of two.
-/

namespace Xmhf.Tlsf

open Xmhf.Memory Xmhf.Extent Xmhf.Word

variable {m m' : Mem} {pool stop : Nat} {pre mid post : List Block} {b c : Block}

/-! ## The words around a block -/

section
variable {block size nsize : Nat} {f p nf np : Bool} (h4 : size % 4 = 0) (hmin : 12 ≤ size)
  (hfits : block + size + 4 < 2 ^ 32) (hw : load32 m (block + 4) = sizeWord size f p)
  (hn4 : nsize % 4 = 0) (hnw : load32 m (block + size + 4 + 4) = sizeWord nsize nf np)
include h4 hmin hfits hw

theorem blockLinkNext_eq :
    blockLinkNext m block = some (block + size + 4, setPtr m (block + size + 4) block) := by
  simp only [blockLinkNext, blockNext_of h4 hw (by omega) hfits, Option.bind_eq_bind, Option.bind_some,
    Option.pure_def]

include hnw

theorem blockMarkAsFree_eq : blockMarkAsFree m block = some
    (store32 (store32 (setPtr m (block + size + 4) block) (block + size + 4 + 4) (sizeWord nsize nf true))
      (block + 4) (sizeWord size true p)) := by
  have hnw' : load32 (setPtr m (block + size + 4) block) (block + size + 4 + 4) = sizeWord nsize nf np := by
    rw [load32_setPtr (by omega), hnw]
  have hw' : load32 (store32 (setPtr m (block + size + 4) block) (block + size + 4 + 4)
      (sizeWord nsize nf true)) (block + 4) = sizeWord size f p := by
    rw [load32_store32_of_disjoint (by omega), load32_setPtr (by omega), hw]
  simp only [blockMarkAsFree, blockLinkNext_eq h4 hmin hfits hw, Option.bind_eq_bind, Option.bind_some,
    Option.pure_def, blockSetPrevFree_of hnw', blockSetFree_of hw']

include hn4

theorem blockMarkAsUsed_eq : blockMarkAsUsed m block = some
    (store32 (store32 m (block + size + 4 + 4) (sizeWord nsize nf false)) (block + 4)
      (sizeWord size false p)) := by
  have hw' : load32 (store32 m (block + size + 4 + 4) (sizeWord nsize nf false)) (block + 4) =
      sizeWord size f p := by rw [load32_store32_of_disjoint (by omega), hw]
  simp only [blockMarkAsUsed, blockNext_of h4 hw (by omega) hfits, Option.bind_eq_bind, Option.bind_some,
    Option.pure_def, blockSetPrevUsed_of hn4 hnw, blockSetUsed_of h4 hw']

end

theorem nextBlock_aligned (h : Laid m pool stop (pre ++ b :: post)) : (nextBlock stop post).size % 4 = 0 := by
  cases post with
  | nil => rfl
  | cons c post => exact (h.sizes c (by simp)).2

/-- The parts of a pool around one block. -/
theorem Laid.around (h : Laid m pool stop (pre ++ b :: post)) :
    Consecutive Block.addr Block.len (firstAddr pool) pre b.addr ∧
      Consecutive Block.addr Block.len b.next post stop := by
  obtain ⟨lo, hpre, hlo, -, hpost⟩ := consecutive_append.1 h.consecutive
  subst hlo
  exact ⟨hpre, hpost⟩

/-! ## The state of a block -/

/-- **`block_mark_as_used`** -/
theorem Window.markAsUsed (h : Window m pool stop pre [b] post) :
    ∃ m', blockMarkAsUsed m b.addr = some m' ∧
      Window m' pool stop pre [{ b with free := false }] post ∧ Keeps m m' pool stop (pre ++ post) := by
  have hlaid : Laid m pool stop (pre ++ b :: post) := by simpa using h.laid
  have hb := hlaid.facts (b := b) (by simp)
  have hmin := hb.min
  have hhi := hb.hi
  have hstop := hb.stop_le
  obtain ⟨hpre, hpost⟩ := hlaid.around
  refine ⟨_, blockMarkAsUsed_eq hb.size_aligned hb.min (by omega) hlaid.size_before
    (nextBlock_aligned hlaid) hlaid.next_size, h.replace hpre ⟨rfl, Nat.succ_pos _, rfl⟩ hpost
    (fun c hc => ?_) (fun x hx => ?_) ⟨?_, fun hf => (Bool.false_ne_true hf).elim, trivial⟩ ?_⟩
  · obtain rfl := List.mem_singleton.1 hc
    exact ⟨hb.min, hb.size_aligned⟩
  · unfold Block.len at hx
    simp only at hx
    rw [store32_apply (by omega), store32_apply (by omega)]
  · rw [load32_store32]
  · rw [load32_store32_of_disjoint (by unfold Block.len; simp only; omega)]
    exact load32_store32 ..

/-- **`block_mark_as_free`** -/
theorem Window.markAsFree (h : Window m pool stop pre [b] post) :
    ∃ m', blockMarkAsFree m b.addr = some m' ∧
      Window m' pool stop pre [{ b with free := true }] post ∧ Keeps m m' pool stop (pre ++ post) := by
  have hlaid : Laid m pool stop (pre ++ b :: post) := by simpa using h.laid
  have hb := hlaid.facts (b := b) (by simp)
  have hmin := hb.min
  have hhi := hb.hi
  have hstop := hb.stop_le
  obtain ⟨hpre, hpost⟩ := hlaid.around
  refine ⟨_, blockMarkAsFree_eq hb.size_aligned hb.min (by omega) hlaid.size_before
    hlaid.next_size, h.replace hpre ⟨rfl, Nat.succ_pos _, rfl⟩ hpost (fun c hc => ?_)
    (fun x hx => ?_) ⟨?_, fun _ => ?_, trivial⟩ ?_⟩
  · obtain rfl := List.mem_singleton.1 hc
    exact ⟨hb.min, hb.size_aligned⟩
  · unfold Block.len at hx
    simp only at hx
    rw [store32_apply (by omega), store32_apply (by omega), setPtr_apply (by omega)]
  · rw [load32_store32]
  · unfold Block.next
    rw [ptr_store32_of_disjoint (by simp only; omega), ptr_store32_of_disjoint (by simp only; omega)]
    exact ptr_setPtr (by omega)
  · rw [load32_store32_of_disjoint (by unfold Block.len; simp only; omega)]
    exact load32_store32 ..

/-! ## Splitting -/

/-- The rest of a block of which `size` bytes are kept. -/
def restOf (b : Block) (size : Nat) : Block :=
  { addr := b.addr + size + 4, size := b.size - (size + 4), free := true }

/-- **`block_split`**: the words that it leaves, of which the rest's flag for the block before is any. -/
theorem blockSplit_eq (hlaid : Laid m pool stop (pre ++ b :: post)) {size : Nat} (h4 : size % 4 = 0)
    (hmin : 12 ≤ size) (hroom : size + 16 ≤ b.size) :
    ∃ m' p, blockSplit m b.addr size = some ((restOf b size).addr, m') ∧
      load32 m' (b.addr + 4) = sizeWord size b.free (lastFree false pre) ∧
      load32 m' ((restOf b size).addr + 4) = sizeWord (restOf b size).size true p ∧
      ptr m' b.next = (restOf b size).addr ∧
      load32 m' (b.next + 4) = sizeWord (nextBlock stop post).size (nextBlock stop post).free true ∧
      (∀ x, x < b.addr + 4 ∨ b.next + 8 ≤ x → m' x = m x) ∧
      ∀ x, b.addr + 8 ≤ x → x < (restOf b size).addr + 4 → m' x = m x := by
  have hb := hlaid.facts (b := b) (by simp)
  have hhi := hb.hi
  have hstop := hb.stop_le
  have hb4 := hb.size_aligned
  have ha4 := hb.aligned
  have hmax := hb.max
  obtain ⟨r, hr⟩ : ∃ r, r = b.addr + size + 4 := ⟨_, rfl⟩
  obtain ⟨rs, hrs⟩ : ∃ rs, rs = b.size - (size + 4) := ⟨_, rfl⟩
  have hrest : restOf b size = { addr := r, size := rs, free := true } := by rw [restOf, hr, hrs]
  have hnext : b.next = r + rs + 4 := by unfold Block.next; omega
  rw [hrest, hnext]
  simp only
  obtain ⟨g, g', hm₁⟩ : ∃ g g', blockSetSize m r rs = store32 m (r + 4) (sizeWord rs g g') :=
    ⟨_, _, blockSetSize_eq m r rs⟩
  have hw₁ : load32 (store32 m (r + 4) (sizeWord rs g g')) (b.addr + 4) =
      sizeWord b.size b.free (lastFree false pre) := by
    rw [load32_store32_of_disjoint (by omega), hlaid.size_before]
  obtain ⟨m₂, hm₂⟩ : ∃ m₂, m₂ = store32 (store32 m (r + 4) (sizeWord rs g g')) (b.addr + 4)
      (sizeWord size b.free (lastFree false pre)) := ⟨_, rfl⟩
  have hrw : load32 m₂ (r + 4) = sizeWord rs g g' := by
    rw [hm₂, load32_store32_of_disjoint (by omega), load32_store32]
  have hnw : load32 m₂ (r + rs + 4 + 4) =
      sizeWord (nextBlock stop post).size (nextBlock stop post).free b.free := by
    rw [hm₂, load32_store32_of_disjoint (by omega), load32_store32_of_disjoint (by omega), ← hnext]
    exact hlaid.next_size
  have hfree := blockMarkAsFree_eq (by omega) (by omega) (by omega) hrw hnw
  obtain ⟨m₃, hm₃⟩ : ∃ m₃, m₃ = store32 (store32 (setPtr m₂ (r + rs + 4) r) (r + rs + 4 + 4)
      (sizeWord (nextBlock stop post).size (nextBlock stop post).free true)) (r + 4)
      (sizeWord rs true g') := ⟨_, rfl⟩
  rw [← hm₃] at hfree
  have hremaining : offsetToBlock (blockToPtr b.addr) (sub32 size blockHeaderOverhead) = r := by
    simp only [offsetToBlock, blockToPtr, blockHeaderOverhead, blockStartOffset, sub32, add32]
    omega
  have hremain : sub32 b.size (add32 size blockHeaderOverhead) = rs := by
    simp only [blockHeaderOverhead, sub32, add32]
    omega
  have hsum : b.size = add32 (add32 rs size) blockHeaderOverhead := by
    simp only [blockHeaderOverhead, add32]
    omega
  have hptr : blockToPtr r = r + 8 := add32_of_lt (show r + 8 < 2 ^ 32 by omega)
  have halign : alignPtr (r + 8) alignSize = some (r + 8) := alignPtr_of_aligned (by omega) (by omega)
  have hsize₁ : blockSize (store32 m (r + 4) (sizeWord rs g g')) r = rs :=
    blockSize_of (by omega) (load32_store32 ..) (by omega)
  refine ⟨m₃, g', ?_, ?_, ?_, ?_, ?_, fun x hx => ?_, fun x h1 h2 => ?_⟩
  · simp only [blockSplit, hlaid.blockSize_eq (b := b) (by simp), hremaining, hremain, hptr, halign,
      Option.bind_eq_bind, Option.bind_some, tlsfAssert, if_pos hsum, hm₁, hsize₁, if_true,
      if_pos (show blockSizeMin ≤ rs from show 12 ≤ rs by omega), blockSetSize_of hb4 hw₁, ← hm₂, hfree,
      Option.pure_def]
  · rw [hm₃, load32_store32_of_disjoint (by omega), load32_store32_of_disjoint (by omega),
      load32_setPtr (by omega), hm₂, load32_store32]
  · rw [hm₃, load32_store32]
  · rw [hm₃, ptr_store32_of_disjoint (by omega), ptr_store32_of_disjoint (by omega), ptr_setPtr (by omega)]
  · rw [hm₃, load32_store32_of_disjoint (by omega), load32_store32]
  · rw [hm₃, store32_apply (by omega), store32_apply (by omega), setPtr_apply (by omega), hm₂,
      store32_apply (by omega), store32_apply (by omega)]
  · rw [hm₃, store32_apply (by omega), store32_apply (by omega), setPtr_apply (by omega), hm₂,
      store32_apply (by omega), store32_apply (by omega)]

/-- The first part of a block of which `size` bytes are kept. -/
def keptOf (b : Block) (size : Nat) : Block := { b with size := size }

/-- The two parts of a block, from their words. -/
theorem Window.split (h : Window m pool stop pre [b] post) (m' : Mem) {size : Nat} (h4 : size % 4 = 0)
    (hmin : 12 ≤ size) (hroom : size + 16 ≤ b.size)
    (hkept : load32 m' (b.addr + 4) = sizeWord size b.free (lastFree false pre))
    (hrest : load32 m' ((restOf b size).addr + 4) = sizeWord (restOf b size).size true b.free)
    (hback : b.free = true → ptr m' (restOf b size).addr = b.addr)
    (hrback : ptr m' b.next = (restOf b size).addr)
    (hnext : load32 m' (b.next + 4) = sizeWord (nextBlock stop post).size (nextBlock stop post).free true)
    (hagree : ∀ x, x < b.addr + 4 ∨ b.next + 8 ≤ x → m' x = m x) :
    Window m' pool stop pre [keptOf b size, restOf b size] post ∧ Keeps m m' pool stop (pre ++ post) := by
  have hlaid : Laid m pool stop (pre ++ b :: post) := by simpa using h.laid
  have hb4 := (hlaid.facts (b := b) (by simp)).size_aligned
  obtain ⟨hpre, hpost⟩ := hlaid.around
  have hrnext : (restOf b size).next = b.next := by
    unfold Block.next restOf
    simp only
    omega
  have hkn : (keptOf b size).next = (restOf b size).addr := rfl
  refine h.replace hpre ⟨rfl, Nat.succ_pos _, ?_, Nat.succ_pos _, ?_⟩ hpost (fun c hc => ?_) hagree
    ⟨hkept, hback, hrest, fun _ => hrnext ▸ hrback, trivial⟩ hnext
  · unfold restOf keptOf Block.len
    simp only
    omega
  · unfold Consecutive restOf keptOf Block.len Block.next
    simp only
    omega
  · rcases List.mem_cons.1 hc with rfl | hc
    · exact ⟨hmin, h4⟩
    · obtain rfl := List.mem_singleton.1 hc
      unfold restOf
      simp only
      omega

/-- **`block_split` of a free block**, with the links between its parts made in either order. -/
theorem Window.splitFree (h : Window m pool stop pre [b] post) (hfree : b.free = true) {size : Nat}
    (h4 : size % 4 = 0) (hmin : 12 ≤ size) (hroom : size + 16 ≤ b.size) :
    ∃ m₁, blockSplit m b.addr size = some ((restOf b size).addr, m₁) ∧
      (∃ m₂, blockLinkNext m₁ b.addr = some ((restOf b size).addr, m₂) ∧
        Window (blockSetPrevFree m₂ (restOf b size).addr) pool stop pre [keptOf b size, restOf b size] post ∧
        Keeps m (blockSetPrevFree m₂ (restOf b size).addr) pool stop (pre ++ post)) ∧
      ∃ m₂, blockLinkNext (blockSetPrevFree m₁ (restOf b size).addr) b.addr =
          some ((restOf b size).addr, m₂) ∧
        Window m₂ pool stop pre [keptOf b size, restOf b size] post ∧ Keeps m m₂ pool stop (pre ++ post) := by
  have hlaid : Laid m pool stop (pre ++ b :: post) := by simpa using h.laid
  have hb := hlaid.facts (b := b) (by simp)
  have hhi := hb.hi
  have hstop := hb.stop_le
  obtain ⟨m₁, p, hsplit, hkept, hrest, hrback, hnext, hagree, -⟩ := blockSplit_eq hlaid h4 hmin hroom
  have hr : (restOf b size).addr = b.addr + size + 4 := rfl
  have hn : b.next = b.addr + b.size + 4 := rfl
  rw [hr] at hsplit hrest hrback ⊢
  rw [hfree] at hkept
  refine ⟨m₁, hsplit, ⟨_, blockLinkNext_eq h4 hmin (by omega) hkept, ?_⟩, ?_⟩
  · have hrw : load32 (setPtr m₁ (b.addr + size + 4) b.addr) (b.addr + size + 4 + 4) =
        sizeWord (restOf b size).size true p := by rw [load32_setPtr (by omega), hrest]
    rw [blockSetPrevFree_of hrw]
    refine h.split _ h4 hmin hroom ?_ ?_ (fun _ => ?_) ?_ ?_ fun x hx => ?_
    · rw [load32_store32_of_disjoint (by omega), load32_setPtr (by omega), hkept, hfree]
    · rw [hr, load32_store32, hfree]
    · rw [hr, ptr_store32_of_disjoint (by omega), ptr_setPtr (by omega)]
    · rw [hr, ptr_store32_of_disjoint (by omega), ptr_setPtr_of_disjoint (by omega), hrback]
    · rw [load32_store32_of_disjoint (by omega), load32_setPtr (by omega), hnext]
    · rw [store32_apply (by omega), setPtr_apply (by omega), hagree x hx]
  · rw [blockSetPrevFree_of hrest]
    have hkw : load32 (store32 m₁ (b.addr + size + 4 + 4) (sizeWord (restOf b size).size true true))
        (b.addr + 4) = sizeWord size true (lastFree false pre) := by
      rw [load32_store32_of_disjoint (by omega), hkept]
    refine ⟨_, blockLinkNext_eq h4 hmin (by omega) hkw, ?_⟩
    refine h.split _ h4 hmin hroom ?_ ?_ (fun _ => ?_) ?_ ?_ fun x hx => ?_
    · rw [load32_setPtr (by omega), hkw, hfree]
    · rw [hr, load32_setPtr (by omega), load32_store32, hfree]
    · rw [hr, ptr_setPtr (by omega)]
    · rw [hr, ptr_setPtr_of_disjoint (by omega), ptr_store32_of_disjoint (by omega), hrback]
    · rw [load32_setPtr (by omega), load32_store32_of_disjoint (by omega), hnext]
    · rw [setPtr_apply (by omega), store32_apply (by omega), hagree x hx]

/-- **`block_split` of a block in use.** Its user keeps the first bytes. -/
theorem Window.splitUsed (h : Window m pool stop pre [b] post) (hused : b.free = false) {size : Nat}
    (h4 : size % 4 = 0) (hmin : 12 ≤ size) (hroom : size + 16 ≤ b.size) :
    ∃ m₁, blockSplit m b.addr size = some ((restOf b size).addr, m₁) ∧
      Window (blockSetPrevUsed m₁ (restOf b size).addr) pool stop pre [keptOf b size, restOf b size] post ∧
      Keeps m (blockSetPrevUsed m₁ (restOf b size).addr) pool stop (pre ++ keptOf b size :: post) := by
  have hlaid : Laid m pool stop (pre ++ b :: post) := by simpa using h.laid
  have hb := hlaid.facts (b := b) (by simp)
  have hhi := hb.hi
  have hstop := hb.stop_le
  obtain ⟨m₁, p, hsplit, hkept, hrest, hrback, hnext, hagree, hkeep⟩ := blockSplit_eq hlaid h4 hmin hroom
  have hr : (restOf b size).addr = b.addr + size + 4 := rfl
  have hn : b.next = b.addr + b.size + 4 := rfl
  have hr4 : (restOf b size).size % 4 = 0 := by
    have := hb.size_aligned
    unfold restOf
    simp only
    omega
  refine ⟨m₁, hsplit, ?_⟩
  rw [blockSetPrevUsed_of hr4 hrest]
  rw [hr] at hkeep
  have hwindow := h.split (store32 m₁ ((restOf b size).addr + 4) (sizeWord (restOf b size).size true false))
    h4 hmin hroom (by rw [hr, load32_store32_of_disjoint (by omega), hkept]) (by rw [load32_store32, hused])
    (fun hf => by rw [hused] at hf; cases hf)
    (by rw [hr, ptr_store32_of_disjoint (by omega), hrback, hr])
    (by rw [hr, load32_store32_of_disjoint (by omega), hnext])
    (fun x hx => by rw [hr, store32_apply (by omega), hagree x hx])
  refine ⟨hwindow.1, ?_⟩
  rintro x (hx | hx | ⟨c, hc, hcfree, hlo, hhi'⟩)
  · exact hwindow.2 x (Or.inl hx)
  · exact hwindow.2 x (Or.inr (Or.inl hx))
  · rcases List.mem_append.1 hc with hc | hc
    · exact hwindow.2 x (Or.inr (Or.inr ⟨c, List.mem_append_left _ hc, hcfree, hlo, hhi'⟩))
    · rcases List.mem_cons.1 hc with rfl | hc
      · simp only [keptOf, Block.next] at hhi' hlo
        rw [hr, store32_apply (by omega), hkeep x hlo (by omega)]
      · exact hwindow.2 x (Or.inr (Or.inr ⟨c, List.mem_append_right _ hc, hcfree, hlo, hhi'⟩))

/-! ## Merging -/

/-- Two blocks as one, in the state of the first. -/
def joined (b c : Block) : Block := { b with size := b.size + (c.size + 4) }

/-- **`block_absorb`**: the words that it leaves. -/
theorem blockAbsorb_eq (hlaid : Laid m pool stop (pre ++ b :: c :: post)) :
    blockAbsorb m b.addr c.addr = some (setPtr (store32 m (b.addr + 4)
      (sizeWord (joined b c).size b.free (lastFree false pre))) c.next b.addr) := by
  have hb := hlaid.facts (b := b) (by simp)
  have hc := hlaid.facts (b := c) (by simp)
  have hlist : pre ++ b :: c :: post = (pre ++ [b]) ++ c :: post := by simp
  have hcaddr : c.addr = b.next := hlaid.next_addr
  have hbmin := hb.min
  have hbmax := hb.max
  have hcmax := hc.max
  have hchi := hc.hi
  have hstop := hb.stop_le
  have hb4 := hb.size_aligned
  have hc4 := hc.size_aligned
  have hsize := hlaid.blockSize_eq (b := b) (by simp)
  have hlast : ¬blockIsLast m b.addr := by
    rw [blockIsLast, hsize]
    omega
  have hadd : add32 c.size blockHeaderOverhead = c.size + 4 := add32_of_lt (show c.size + 4 < 2 ^ 32 by omega)
  unfold Block.next at hcaddr
  have hnext : b.addr + (joined b c).size + 4 = c.next := by
    unfold joined Block.next
    simp only
    omega
  have hlink := @blockLinkNext_eq (store32 m (b.addr + 4)
    (sizeWord (joined b c).size b.free (lastFree false pre))) b.addr _ _ _
    (show (b.size + (c.size + 4)) % 4 = 0 by omega) (by omega) (by omega) (load32_store32 ..)
  rw [show b.size + (c.size + 4) = (joined b c).size from rfl, hnext] at hlink
  simp only [blockAbsorb, tlsfAssert, if_pos hlast, Option.bind_eq_bind, Option.bind_some, Option.pure_def,
    sizeField_eq, hlaid.size_before, hlaid.blockSize_eq (b := c) (by simp), hadd,
    sizeWord_add hb4 (show (c.size + 4) % 4 = 0 by omega)]
  rw [show b.size + (c.size + 4) = (joined b c).size from rfl, hlink]
  rfl

/-- Two blocks as one, from their words. -/
theorem Window.join {f : Bool} (h : Window m pool stop pre [b, c] post) (m' : Mem)
    (hsize : load32 m' (b.addr + 4) = sizeWord (joined b c).size f (lastFree false pre))
    (hback : f = true → ptr m' c.next = b.addr)
    (hnext : load32 m' (c.next + 4) = sizeWord (nextBlock stop post).size (nextBlock stop post).free f)
    (hagree : ∀ x, x < b.addr + 4 ∨ c.next + 8 ≤ x → m' x = m x) :
    Window m' pool stop pre [{ joined b c with free := f }] post ∧ Keeps m m' pool stop (pre ++ post) := by
  have hlaid : Laid m pool stop (pre ++ b :: c :: post) := by simpa using h.laid
  have hb := hlaid.facts (b := b) (by simp)
  have hc := hlaid.facts (b := c) (by simp)
  have hcaddr : c.addr = b.next := hlaid.next_addr
  have hlist : pre ++ b :: c :: post = (pre ++ [b]) ++ c :: post := by simp
  have hpre := hlaid.around.1
  have hpost := (hlist ▸ hlaid).around.2
  have hjoin : (joined b c).next = c.next := by
    unfold joined Block.next at *
    simp only
    omega
  refine h.replace hpre ⟨rfl, Nat.succ_pos _, ?_⟩ hpost (fun d hd => ?_) hagree
    ⟨hsize, fun hf => hjoin ▸ hback hf, trivial⟩ hnext
  · rw [← hjoin]
    rfl
  · obtain rfl := List.mem_singleton.1 hd
    have h1 := hb.min
    have h2 := hb.size_aligned
    have h3 := hc.size_aligned
    unfold joined
    simp only
    omega

/-- **`block_absorb` of free blocks.** -/
theorem Window.absorb (h : Window m pool stop pre [b, c] post) (hb : b.free = true) (hc : c.free = true) :
    ∃ m', blockAbsorb m b.addr c.addr = some m' ∧ Window m' pool stop pre [joined b c] post ∧
      Keeps m m' pool stop (pre ++ post) := by
  have hlaid : Laid m pool stop (pre ++ b :: c :: post) := by simpa using h.laid
  have hlist : pre ++ b :: c :: post = (pre ++ [b]) ++ c :: post := by simp
  have hbf := hlaid.facts (b := b) (by simp)
  have hcf := hlaid.facts (b := c) (by simp)
  have hcaddr : c.addr = b.next := hlaid.next_addr
  have hn := (hlist ▸ hlaid).next_size
  have hhi := hcf.hi
  have hstop := hcf.stop_le
  have hbmin := hbf.min
  unfold Block.next at hcaddr
  have hcn : c.next = c.addr + c.size + 4 := rfl
  have hwindow := h.join (f := b.free) (setPtr (store32 m (b.addr + 4)
      (sizeWord (joined b c).size b.free (lastFree false pre))) c.next b.addr)
    (by rw [load32_setPtr (by omega), load32_store32]) (fun _ => ptr_setPtr (by omega))
    (by rw [load32_setPtr (by omega), load32_store32_of_disjoint (by omega), hn, hb, hc])
    (fun x hx => by rw [setPtr_apply (by omega), store32_apply (by omega)])
  exact ⟨_, blockAbsorb_eq hlaid, hwindow⟩

/-- **`block_absorb` into a block in use**, and `block_mark_as_used`. Its user keeps its bytes. -/
theorem Window.absorbUsed (h : Window m pool stop pre [b, c] post) (hb : b.free = false) :
    ∃ m₁ m', blockAbsorb m b.addr c.addr = some m₁ ∧ blockMarkAsUsed m₁ b.addr = some m' ∧
      Window m' pool stop pre [joined b c] post ∧ Keeps m m' pool stop (pre ++ b :: post) := by
  have hlaid : Laid m pool stop (pre ++ b :: c :: post) := by simpa using h.laid
  have hlist : pre ++ b :: c :: post = (pre ++ [b]) ++ c :: post := by simp
  have hbf := hlaid.facts (b := b) (by simp)
  have hcf := hlaid.facts (b := c) (by simp)
  have hcaddr : c.addr = b.next := hlaid.next_addr
  have hn := (hlist ▸ hlaid).next_size
  have hhi := hcf.hi
  have hstop := hcf.stop_le
  have hbmin := hbf.min
  have hb4 := hbf.size_aligned
  have hc4 := hcf.size_aligned
  unfold Block.next at hcaddr
  have hcn : c.next = c.addr + c.size + 4 := rfl
  have hj : (joined b c).size = b.size + (c.size + 4) := rfl
  have hnext : b.addr + (joined b c).size + 4 = c.next := by omega
  obtain ⟨m₁, hm₁⟩ : ∃ m₁, m₁ = setPtr (store32 m (b.addr + 4)
      (sizeWord (joined b c).size b.free (lastFree false pre))) c.next b.addr := ⟨_, rfl⟩
  have hw₁ : load32 m₁ (b.addr + 4) = sizeWord (joined b c).size false (lastFree false pre) := by
    rw [hm₁, load32_setPtr (by omega), load32_store32, hb]
  have hn₁ : load32 m₁ (b.addr + (joined b c).size + 4 + 4) =
      sizeWord (nextBlock stop post).size (nextBlock stop post).free c.free := by
    rw [hnext, hm₁, load32_setPtr (by omega), load32_store32_of_disjoint (by omega), hn]
  have hused := blockMarkAsUsed_eq (by omega) (by omega) (by omega) hw₁
    (nextBlock_aligned (hlist ▸ hlaid)) hn₁
  rw [hnext] at hused
  have hwindow := h.join (f := false) (store32 (store32 m₁ (c.next + 4)
      (sizeWord (nextBlock stop post).size (nextBlock stop post).free false)) (b.addr + 4)
      (sizeWord (joined b c).size false (lastFree false pre))) (load32_store32 ..)
    (fun hf => (Bool.false_ne_true hf).elim)
    (by rw [load32_store32_of_disjoint (by omega), load32_store32])
    (fun x hx => by
      rw [store32_apply (by omega), store32_apply (by omega), hm₁, setPtr_apply (by omega),
        store32_apply (by omega)])
  have hjb : { joined b c with free := false } = joined b c := by rw [joined, hb]
  refine ⟨m₁, _, hm₁ ▸ blockAbsorb_eq hlaid, hused, hjb ▸ hwindow.1, ?_⟩
  rintro x (hx | hx | ⟨d, hd, hdfree, hlo, hhi'⟩)
  · exact hwindow.2 x (Or.inl hx)
  · exact hwindow.2 x (Or.inr (Or.inl hx))
  · rcases List.mem_append.1 hd with hd | hd
    · exact hwindow.2 x (Or.inr (Or.inr ⟨d, List.mem_append_left _ hd, hdfree, hlo, hhi'⟩))
    · rcases List.mem_cons.1 hd with rfl | hd
      · unfold Block.next at hhi'
        rw [store32_apply (by omega), store32_apply (by omega), hm₁, setPtr_apply (by omega),
          store32_apply (by omega)]
      · exact hwindow.2 x (Or.inr (Or.inr ⟨d, List.mem_append_right _ hd, hdfree, hlo, hhi'⟩))

end Xmhf.Tlsf
