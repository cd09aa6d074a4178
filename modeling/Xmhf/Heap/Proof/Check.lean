import Mathlib.Data.List.Perm.Subperm
import Xmhf.Heap.Proof.Malloc

/-!
# The debugging utilities

* `walkLoop_spec`: the walk meets the blocks in order and ends at the sentinel.
* `checkBlocks_spec`, `checkList_spec`: what is checked of a free list.
* `tlsfCheckHeap_spec`: `tlsf_check_heap` finds nothing wrong with a sound heap.
-/

namespace Xmhf.Tlsf

open Xmhf.Memory Xmhf.Extent Xmhf.Word Xmhf.Loop Xmhf.Dlist

variable {m : Mem} {pool stop n : Nat} {bs pre post : List Block} {b : Block} {L : Nat → Nat → List Nat}

theorem tlsfInsist_of {x : Prop} [Decidable x] (h : x) (status : Int) : tlsfInsist x status = some status := by
  simp only [tlsfInsist, tlsfAssert, if_pos h, Option.bind_eq_bind, Option.bind_some, Option.pure_def]

/-! ## The walk -/

/-- **`tlsf_walk_heap`** with `integrity_walker`, from the blocks `post` on. -/
theorem walkLoop_spec (h : Laid m pool stop (pre ++ post)) (hn : post.length < n) : ∃ prevStatus,
    walkLoop m (integrityWalker m) n (nextBlock stop post).addr
      { prevStatus := if lastFree false pre = true then 1 else 0, status := 0 } =
      some { prevStatus := prevStatus, status := 0 } := by
  induction post generalizing pre n with
  | nil =>
    obtain ⟨n, rfl⟩ := Nat.exists_eq_add_of_lt hn
    -- the sentinel
    rw [List.append_nil] at h
    have hw := (headers_append.1 h.headers).2.1
    have hlast : blockIsLast m stop := (blockSize_of rfl hw (Nat.two_pow_pos 32)).symm
    exact ⟨_, if_neg fun hc => hc.2 hlast⟩
  | cons b post ih =>
    obtain ⟨n, rfl⟩ := Nat.exists_eq_add_of_lt hn
    have hmem : b ∈ pre ++ b :: post := by simp
    have hb := h.facts hmem
    have hlo := hb.lo
    have hmin := hb.min
    have hsize := h.blockSize_eq hmem
    have hlast : ¬blockIsLast m b.addr := by
      rw [blockIsLast, hsize]
      omega
    have hprev : blockIsPrevFree m b.addr ↔ lastFree false pre = true :=
      blockIsPrevFree_of hb.size_aligned h.size_before
    have hfree := h.blockIsFree_iff hmem
    have hlist : pre ++ b :: post = (pre ++ [b]) ++ post := by simp
    obtain ⟨prevStatus, hrest⟩ := @ih ((b :: post).length + n) (pre ++ [b]) (hlist ▸ h)
      (by rw [List.length_cons]; omega)
    have hto : blockFromPtr (blockToPtr b.addr) = b.addr := by
      have := hb.hi
      have := hb.stop_le
      simp only [blockFromPtr, blockToPtr, blockStartOffset, sub32, add32]
      omega
    rw [h.next_addr, lastFree_append, show lastFree (lastFree false pre) [b] = b.free from rfl] at hrest
    refine ⟨prevStatus, ?_⟩
    rw [show (nextBlock stop (b :: post)).addr = b.addr from rfl]
    simp only [walkLoop, if_pos (show b.addr ≠ 0 ∧ ¬blockIsLast m b.addr from ⟨by omega, hlast⟩),
      integrityWalker, hto, hsize, hprev, hfree, tlsfInsist_of, h.blockNext_eq hmem, Option.bind_eq_bind,
      Option.bind_some, Option.pure_def, Int.add_zero]
    exact hrest

/-! ## The lists -/

/-- A free block of a sound heap, as `tlsf_check_heap` wants it. -/
theorem Sound.neighbours (h : Sound m pool stop bs) (hb : b ∈ bs) (hfree : b.free = true) :
    ¬blockIsPrevFree m b.addr ∧ ¬blockIsFree m b.next ∧ blockIsPrevFree m b.next := by
  obtain ⟨pre, post, rfl⟩ := List.append_of_mem hb
  obtain ⟨-, hbefore, hafter⟩ := coalesced_append.1 h.coalesced
  have hb' := h.laid.facts hb
  have hnext := h.laid.next_size
  have hn4 := nextBlock_aligned h.laid
  refine ⟨fun hp => ?_, fun hf => ?_, ?_⟩
  · exact hbefore ⟨(blockIsPrevFree_of hb'.size_aligned h.laid.size_before).1 hp, hfree⟩
  · have hnfree := (blockIsFree_of hn4 hnext).1 hf
    cases post with
    | nil => cases hnfree
    | cons c post => exact hafter.1 ⟨hfree, hnfree⟩
  · exact (blockIsPrevFree_of hn4 hnext).2 hfree

/-- The loop over a list of free blocks. -/
theorem checkBlocks_spec (h : Sound m pool stop bs) {f s x : Nat} {l : List Nat}
    (hl : Linked (nextOf m pool f s) (prevOf m) pool x l)
    (hmem : ∀ a ∈ l, ∃ b ∈ bs, b.free = true ∧ b.addr = a ∧ mappingInsert b.size = (f, s))
    (hn : l.length < n) (status : Int) :
    checkBlocks m pool f s n (nextOf m pool f s x) status = some status := by
  induction l generalizing x n with
  | nil =>
    obtain ⟨n, rfl⟩ := Nat.exists_eq_add_of_lt hn
    exact if_neg fun hne => hne hl
  | cons a l ih =>
    obtain ⟨n, rfl⟩ := Nat.exists_eq_add_of_lt hn
    obtain ⟨hnext, -, hrest⟩ := hl
    obtain ⟨b, hb, hfree, rfl, hmap⟩ := hmem a List.mem_cons_self
    have hbf := h.laid.facts hb
    have hlo := hbf.lo
    have hmin : blockSizeMin ≤ b.size := hbf.min
    obtain ⟨hprev, hnfree, hnprev⟩ := h.neighbours hb hfree
    have hnode : nextOf m pool f s b.addr = ptr m (b.addr + 8) := if_neg (by omega)
    have hloop := ih hrest (fun a ha => hmem a (List.mem_cons_of_mem _ ha)) (n := (b.addr :: l).length + n)
      (by rw [List.length_cons]; omega)
    rw [hnode] at hloop
    rw [hnext]
    simp only [checkBlocks, blockNull, if_pos (show b.addr ≠ pool by omega),
      tlsfInsist_of ((h.laid.blockIsFree_iff hb).2 hfree), tlsfInsist_of hprev, h.laid.blockNext_eq hb,
      tlsfInsist_of hnfree, tlsfInsist_of hnprev, h.laid.blockSize_eq hb, tlsfInsist_of hmin, hmap,
      and_self, tlsfInsist_of, nextFree_eq, Option.bind_eq_bind, Option.bind_some]
    exact hloop

/-- A list that is in the bitmaps has a block, and one that is not has none. -/
theorem checkList_spec (h : Sound m pool stop bs) (hn : bs.length < n) {f s : Nat} (hf : f < 24) (hs : s < 32)
    (status : Int) : checkList m pool n f s status = some status := by
  obtain ⟨L, hi, hh⟩ := h.lists
  have hnodes := hh.nodes h.laid fun b hb => hb
  have hl := hi.linked f hf s hs
  have hbit := hi.slBits f hf s hs
  have hfl := hi.flBits f (by omega)
  have hhead : nextOf m pool f s pool = ptr m (blocks pool f s) := if_pos rfl
  have hempty := hl.eq_nil_iff hnodes.pool_not_mem
  rw [hhead] at hempty
  -- the masks of the bitmaps
  have hmask : ∀ w : BitVec 32, ∀ i : Nat, w &&& 1#32 <<< i = 0 ↔ w.getLsbD i ≠ true := fun w i => by
    rw [ne_eq, ← and_bit_ne_zero fun j hj => getLsbD_bit hj, ne_eq, not_not]
  by_cases hlist : L f s = []
  · have hsl : load32 m (slBitmap pool f) &&& 1#32 <<< s = 0 := (hmask _ s).2 fun hb => hbit.1 hb hlist
    simp only [checkList, hsl, tlsfInsist_of, Option.bind_eq_bind, ite_self, Option.bind_some, if_true,
      hempty.1 hlist, blockNull]
  · have hset := hbit.2 hlist
    have hne : load32 m (slBitmap pool f) ≠ 0 := ne_zero_iff.2 ⟨s, hs, hset⟩
    have hsl : ¬load32 m (slBitmap pool f) &&& 1#32 <<< s = 0 := fun hz => (hmask _ s).1 hz hset
    have hflm : ¬load32 m (flBitmap pool) &&& 1#32 <<< f = 0 := fun hz => (hmask _ f).1 hz (hfl.2 ⟨hf, hne⟩)
    have hmem : ∀ a ∈ L f s, ∃ b ∈ bs, b.free = true ∧ b.addr = a ∧ mappingInsert b.size = (f, s) :=
      fun a ha => by
        obtain ⟨b, hb, hfree, haddr, hmap⟩ := (hh.mem f s a).1 ha
        exact ⟨b, hb, hfree, haddr, hmap⟩
    -- each block is in a list once
    have hlen : (L f s).length ≤ bs.length := by
      have hsub : L f s ⊆ bs.map Block.addr := fun a ha => by
        obtain ⟨b, hb, -, rfl, -⟩ := hmem a ha
        exact List.mem_map_of_mem hb
      have hle := (List.subperm_of_subset (hh.nodup f s) hsub).length_le
      rwa [List.length_map] at hle
    have hhne : ptr m (blocks pool f s) ≠ blockNull pool := fun hp => hlist (hempty.2 hp)
    have hloop := checkBlocks_spec h hl hmem (Nat.lt_of_le_of_lt hlen hn) status
    rw [hhead] at hloop
    simp only [checkList, if_neg hflm, if_neg hsl, tlsfInsist_of hne, Option.bind_eq_bind, Option.bind_some,
      tlsfInsist_of hhne, hloop]

/-- **`tlsf_check_heap`** finds nothing wrong with a sound heap. -/
theorem tlsfCheckHeap_spec (h : Sound m pool stop bs) (hn : bs.length < n) :
    tlsfCheckHeap m pool n = some 0 := by
  have hfirst : offsetToBlock pool (sub32 poolSize blockHeaderOverhead) = (nextBlock stop bs).addr := by
    have hstop := h.laid.first_le_stop
    have h32 := h.laid.stop_le
    rw [nextBlock_addr h.laid.consecutive]
    exact add32_of_lt (show pool + 3184 < 2 ^ 32 by omega)
  obtain ⟨prevStatus, hwalk⟩ := @walkLoop_spec m pool stop n [] bs h.laid hn
  rw [show (if lastFree false [] = true then (1 : Int) else 0) = 0 from rfl] at hwalk
  simp only [tlsfCheckHeap, tlsfWalkHeap, hfirst, hwalk, Option.bind_eq_bind, Option.bind_some]
  refine forLoop_inv (P := fun _ status => status = some 0) rfl fun i status hi hstatus => ?_
  refine forLoop_inv (P := fun _ status => status = some 0) hstatus fun j status hj hstatus => ?_
  rw [hstatus, Option.bind_some]
  exact checkList_spec h hn hi hj 0

end Xmhf.Tlsf
