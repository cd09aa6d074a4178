import Mathlib.Data.List.Pairwise
import Xmhf.Heap.Proof.Header
import Xmhf.Lib.Extent

/-!
# The blocks of a pool

A pool at `pool` with its sentinel at `stop` is laid out as a list of blocks (`Laid`): they follow each other
from the first one's place to the sentinel, each header holds the block's size, its state and the state of
the block before, and a free block is pointed back to by the block after it.

* `Laid.facts`, `Laid.apart`: bounds and alignment of a block; two blocks do not overlap.
* `Laid.size_before`, `Laid.next_size`: the header of a block, and of the one after it.
* `Laid.replace`: blocks in the place of others, where memory changes only there and in the state that the
  next block records.
* `Laid.congr`: the words that the layout depends on.
-/

namespace Xmhf.Tlsf

open Xmhf.Memory Xmhf.Extent

/-- A block: the address of its header, the size of its payload, and whether it is free. -/
structure Block where
  addr : Nat
  size : Nat
  free : Bool
  deriving DecidableEq, Repr

namespace Block

/-- How far the next block is. -/
def len (b : Block) : Nat := b.size + 4

/-- The address of the next block. -/
def next (b : Block) : Nat := b.addr + b.size + 4

/-- The zero-size block at the end of a pool. -/
def sentinel (stop : Nat) : Block := { addr := stop, size := 0, free := false }

end Block

open Block

/-- The place of a pool's first block. -/
def firstAddr (pool : Nat) : Nat := pool + 3184

/-- Whether the last block is free; `free` before the first. -/
def lastFree : Bool → List Block → Bool
  | free, [] => free
  | _, b :: bs => lastFree b.free bs

@[simp] theorem lastFree_append (free : Bool) (xs ys : List Block) :
    lastFree free (xs ++ ys) = lastFree (lastFree free xs) ys := by
  induction xs generalizing free with
  | nil => rfl
  | cons b xs ih => exact ih b.free

/-- The headers of the blocks `bs`, the first of which comes after a block that is free, or not. -/
def Headers (m : Mem) : Bool → List Block → Prop
  | _, [] => True
  | prevFree, b :: bs => load32 m (b.addr + 4) = sizeWord b.size b.free prevFree ∧
      (b.free = true → ptr m b.next = b.addr) ∧ Headers m b.free bs

variable {m m' : Mem} {pool stop : Nat} {bs pre mid mid' post : List Block} {b c : Block} {f f' : Bool}

theorem headers_append {xs ys : List Block} :
    Headers m f (xs ++ ys) ↔ Headers m f xs ∧ Headers m (lastFree f xs) ys := by
  induction xs generalizing f with
  | nil => exact (and_iff_right trivial).symm
  | cons b xs ih =>
    rw [List.cons_append, Headers, Headers, ih, lastFree]
    exact ⟨fun ⟨h1, h2, h3, h4⟩ => ⟨⟨h1, h2, h3⟩, h4⟩, fun ⟨⟨h1, h2, h3⟩, h4⟩ => ⟨h1, h2, h3, h4⟩⟩

theorem Headers.congr (h : Headers m f bs)
    (hsize : ∀ b ∈ bs, load32 m' (b.addr + 4) = load32 m (b.addr + 4))
    (hback : ∀ b ∈ bs, b.free = true → load32 m' b.next = load32 m b.next) : Headers m' f bs := by
  induction bs generalizing f with
  | nil => trivial
  | cons b bs ih =>
    obtain ⟨h1, h2, h3⟩ := h
    refine ⟨(hsize b List.mem_cons_self).trans h1, fun hf => ?_, ih h3
      (fun c hc => hsize c (List.mem_cons_of_mem b hc)) fun c hc => hback c (List.mem_cons_of_mem b hc)⟩
    rw [ptr, hback b List.mem_cons_self hf]
    exact h2 hf

/-! ## The layout -/

/-- **The pool is laid out** as the blocks `bs`. -/
structure Laid (m : Mem) (pool stop : Nat) (bs : List Block) : Prop where
  pos : 0 < pool
  aligned : pool % 4 = 0
  stop_le : stop + 8 ≤ 2 ^ 32
  room : stop < firstAddr pool + 4 + 2 ^ 30
  consecutive : Consecutive Block.addr Block.len (firstAddr pool) bs stop
  sizes : ∀ b ∈ bs, 12 ≤ b.size ∧ b.size % 4 = 0
  headers : Headers m false (bs ++ [sentinel stop])

/-- Bounds and alignment of a block. -/
structure Placed (pool stop : Nat) (b : Block) : Prop where
  lo : pool + 3184 ≤ b.addr
  hi : b.addr + b.size + 4 ≤ stop
  stop_le : stop + 8 ≤ 2 ^ 32
  min : 12 ≤ b.size
  max : b.size < 2 ^ 30
  aligned : b.addr % 4 = 0
  size_aligned : b.size % 4 = 0

theorem aligned_of_consecutive {lo hi : Nat} (h : Consecutive Block.addr Block.len lo bs hi)
    (hlo : lo % 4 = 0) (hs : ∀ b ∈ bs, b.size % 4 = 0) : (∀ b ∈ bs, b.addr % 4 = 0) ∧ hi % 4 = 0 := by
  induction bs generalizing lo with
  | nil =>
    cases h
    exact ⟨fun b hb => (List.not_mem_nil hb).elim, hlo⟩
  | cons b bs ih =>
    obtain ⟨haddr, -, hrest⟩ := h
    have hb := hs b List.mem_cons_self
    obtain ⟨hal, hhi⟩ := ih hrest (by unfold len; omega) fun c hc => hs c (List.mem_cons_of_mem b hc)
    refine ⟨fun c hc => ?_, hhi⟩
    rcases List.mem_cons.1 hc with rfl | hc
    · omega
    · exact hal c hc

theorem Laid.facts (h : Laid m pool stop bs) (hb : b ∈ bs) : Placed pool stop b := by
  obtain ⟨hlo, -, hhi⟩ := h.consecutive.of_mem hb
  obtain ⟨hmin, hal⟩ := h.sizes b hb
  have hpool := h.aligned
  have hstart : firstAddr pool % 4 = 0 := by unfold firstAddr; omega
  have haddr := (aligned_of_consecutive h.consecutive hstart fun c hc => (h.sizes c hc).2).1 b hb
  have hroom := h.room
  unfold firstAddr len at *
  exact ⟨hlo, by omega, h.stop_le, hmin, by omega, haddr, hal⟩

theorem Laid.first_le_stop (h : Laid m pool stop bs) : pool + 3184 ≤ stop := h.consecutive.le

theorem pairwise_of_consecutive {lo hi : Nat} (h : Consecutive Block.addr Block.len lo bs hi) :
    bs.Pairwise fun b c => b.next ≤ c.addr := by
  induction bs generalizing lo with
  | nil => exact List.Pairwise.nil
  | cons b bs ih =>
    obtain ⟨haddr, -, hrest⟩ := h
    refine List.pairwise_cons.2 ⟨fun c hc => ?_, ih hrest⟩
    have := (hrest.of_mem hc).1
    unfold next
    unfold len at this
    omega

/-- **Two blocks do not overlap.** -/
theorem Laid.apart (h : Laid m pool stop bs) (hb : b ∈ bs) (hc : c ∈ bs) :
    b = c ∨ b.next ≤ c.addr ∨ c.next ≤ b.addr := by
  have hpair : bs.Pairwise fun b c : Block => b.next ≤ c.addr ∨ c.next ≤ b.addr :=
    (pairwise_of_consecutive h.consecutive).imp Or.inl
  by_cases hbc : b = c
  · exact Or.inl hbc
  · have : Std.Symm fun b c : Block => b.next ≤ c.addr ∨ c.next ≤ b.addr := ⟨fun _ _ => Or.symm⟩
    exact Or.inr (hpair.forall hb hc hbc)

theorem Laid.eq_of_addr (h : Laid m pool stop bs) (hb : b ∈ bs) (hc : c ∈ bs) (haddr : b.addr = c.addr) :
    b = c := by
  rcases h.apart hb hc with rfl | hlt | hlt
  · rfl
  · unfold next at hlt
    omega
  · unfold next at hlt
    omega

/-! ## A block and the next one -/

/-- The block after the blocks before `post`. -/
def nextBlock (stop : Nat) (post : List Block) : Block := post.headD (sentinel stop)

theorem nextBlock_addr {lo : Nat} (h : Consecutive Block.addr Block.len lo post stop) :
    (nextBlock stop post).addr = lo := by
  cases post with
  | nil => exact h.symm
  | cons c post => exact h.1

theorem Laid.next_addr (h : Laid m pool stop (pre ++ b :: post)) : (nextBlock stop post).addr = b.next := by
  obtain ⟨lo, -, hlo, -, hpost⟩ := consecutive_append.1 h.consecutive
  rw [nextBlock_addr hpost, next, len, ← Nat.add_assoc, ← hlo]

/-- The header of a block. -/
theorem Laid.size_before (h : Laid m pool stop (pre ++ b :: post)) :
    load32 m (b.addr + 4) = sizeWord b.size b.free (lastFree false pre) := by
  have hh := h.headers
  rw [List.append_assoc, headers_append] at hh
  exact hh.2.1

/-- The block before is free: the pointer back. -/
theorem Laid.back (h : Laid m pool stop bs) (hb : b ∈ bs) (hfree : b.free = true) : ptr m b.next = b.addr := by
  obtain ⟨pre, post, rfl⟩ := List.append_of_mem hb
  have hh := h.headers
  rw [List.append_assoc, headers_append] at hh
  exact hh.2.2.1 hfree

theorem Laid.exists_size (h : Laid m pool stop bs) (hb : b ∈ bs) :
    ∃ p, load32 m (b.addr + 4) = sizeWord b.size b.free p := by
  obtain ⟨pre, post, rfl⟩ := List.append_of_mem hb
  exact ⟨_, h.size_before⟩

theorem headers_next {f : Bool} (h : Headers m f (post ++ [sentinel stop])) :
    load32 m ((nextBlock stop post).addr + 4) =
      sizeWord (nextBlock stop post).size (nextBlock stop post).free f := by
  cases post with
  | nil => exact h.1
  | cons c post => exact h.1

/-- The header of the next block. -/
theorem Laid.next_size (h : Laid m pool stop (pre ++ b :: post)) : load32 m (b.next + 4) =
    sizeWord (nextBlock stop post).size (nextBlock stop post).free b.free := by
  have hh := h.headers
  rw [List.append_assoc, headers_append, List.cons_append] at hh
  rw [← h.next_addr]
  exact headers_next hh.2.2.2

/-! ## Changes -/

/-- **The words that count**: a block's size, and the pointer back to a free block. -/
theorem Laid.congr (h : Laid m pool stop bs)
    (hsize : ∀ b ∈ bs, load32 m' (b.addr + 4) = load32 m (b.addr + 4))
    (hback : ∀ b ∈ bs, b.free = true → load32 m' b.next = load32 m b.next)
    (hstop : load32 m' (stop + 4) = load32 m (stop + 4)) : Laid m' pool stop bs where
  pos := h.pos
  aligned := h.aligned
  stop_le := h.stop_le
  room := h.room
  consecutive := h.consecutive
  sizes := h.sizes
  headers := h.headers.congr
    (fun b hb => (List.mem_append.1 hb).elim (hsize b) fun hb => by
      rw [List.mem_singleton.1 hb]
      exact hstop)
    fun b hb hf => (List.mem_append.1 hb).elim (fun hb => hback b hb hf) fun hb => by
      rw [List.mem_singleton.1 hb] at hf
      cases hf

/-- The blocks from the next one on, when it records another state of the block before. -/
theorem headers_reflag {lo : Nat} (h : Headers m f (post ++ [sentinel stop]))
    (hc : Consecutive Block.addr Block.len lo post stop) (hs : ∀ b ∈ post, 12 ≤ b.size)
    (hagree : ∀ x, lo + 8 ≤ x → m' x = m x)
    (hnext : load32 m' (lo + 4) = sizeWord (nextBlock stop post).size (nextBlock stop post).free f') :
    Headers m' f' (post ++ [sentinel stop]) := by
  have hload : ∀ a, lo + 8 ≤ a → load32 m' a = load32 m a := fun a ha => by
    rw [load32, load32, readLE_congr fun x h1 _ => hagree x (by omega)]
  cases post with
  | nil =>
    cases hc
    exact ⟨hnext, fun hf => (Bool.false_ne_true hf).elim, trivial⟩
  | cons b post =>
    obtain ⟨rfl, -, hrest⟩ := hc
    obtain ⟨-, hback, hh⟩ := h
    have hb := hs b List.mem_cons_self
    refine ⟨hnext, fun hf => ?_, hh.congr (fun c hc => ?_) fun c hc _ => ?_⟩
    · rw [ptr, hload _ (by unfold next; omega)]
      exact hback hf
    · refine hload _ ?_
      rcases List.mem_append.1 hc with hc | hc
      · have := (hrest.of_mem hc).1
        unfold len at this
        omega
      · have := hrest.le
        rw [List.mem_singleton.1 hc]
        unfold len at this
        exact show b.addr + 8 ≤ stop + 4 by omega
    · refine hload _ ?_
      rcases List.mem_append.1 hc with hc | hc
      · have := (hrest.of_mem hc).1
        unfold len at this
        unfold next
        omega
      · have := hrest.le
        rw [List.mem_singleton.1 hc]
        unfold len at this
        exact show b.addr + 8 ≤ stop + 0 + 4 by omega

/-- **Blocks in the place of others.** Memory changes inside them, and the next block records whether the
last of them is free. -/
theorem Laid.replace {lo hi : Nat} (h : Laid m pool stop (pre ++ mid ++ post))
    (hpre : Consecutive Block.addr Block.len (firstAddr pool) pre lo)
    (hmid : Consecutive Block.addr Block.len lo mid' hi)
    (hpost : Consecutive Block.addr Block.len hi post stop)
    (hsizes : ∀ b ∈ mid', 12 ≤ b.size ∧ b.size % 4 = 0)
    (hagree : ∀ x, x < lo + 4 ∨ hi + 8 ≤ x → m' x = m x)
    (hheaders : Headers m' (lastFree false pre) mid')
    (hnext : load32 m' (hi + 4) = sizeWord (nextBlock stop post).size (nextBlock stop post).free
      (lastFree (lastFree false pre) mid')) : Laid m' pool stop (pre ++ mid' ++ post) where
  pos := h.pos
  aligned := h.aligned
  stop_le := h.stop_le
  room := h.room
  consecutive := consecutive_append.2 ⟨hi, consecutive_append.2 ⟨lo, hpre, hmid⟩, hpost⟩
  sizes b hb := by
    rcases List.mem_append.1 hb with hb | hb
    · rcases List.mem_append.1 hb with hb | hb
      · exact h.sizes b (by simp [hb])
      · exact hsizes b hb
    · exact h.sizes b (by simp [hb])
  headers := by
    have hh := h.headers
    rw [List.append_assoc, List.append_assoc, headers_append, headers_append] at hh
    obtain ⟨hhpre, -, hhpost⟩ := hh
    rw [List.append_assoc, List.append_assoc, headers_append, headers_append]
    refine ⟨hhpre.congr (fun b hb => ?_) fun b hb _ => ?_, hheaders, ?_⟩
    · have hb' := (hpre.of_mem hb).2.2
      have hmin := (h.sizes b (by simp [hb])).1
      unfold len at hb'
      rw [load32, load32, readLE_congr fun x _ h2 => hagree x (by omega)]
    · have hb' := (hpre.of_mem hb).2.2
      unfold len at hb'
      unfold next
      rw [load32, load32, readLE_congr fun x _ h2 => hagree x (by omega)]
    · exact headers_reflag hhpost hpost (fun b hb => (h.sizes b (by simp [hb])).1)
        (fun x hx => hagree x (Or.inr hx)) hnext

end Xmhf.Tlsf
