import Xmhf.Heap.Proof.Malloc

/-!
# The first heap

* `poolConstruct_spec`: all lists are empty.
* `tlsfCreate_spec`: one free block, which has the whole pool but `tlsf_overhead` bytes.
-/

namespace Xmhf.Tlsf

open Xmhf.Memory Xmhf.Extent Xmhf.Word Xmhf.Loop Xmhf.Dlist

variable {m m' : Mem} {pool stop size n : Nat} {b : Block}

/-! ## `pool_construct` -/

/-- The inner loop: the heads of a row point to the null block. -/
theorem constructRow_spec (m : Mem) (i : Nat) (h32 : pool < 2 ^ 32) (hn : n ≤ 32) :
    (∀ s < n, ptr (forLoop n (fun j m => setPtr m (blocks pool i j) pool) m) (blocks pool i s) = pool) ∧
      ∀ x, x < blocks pool i 0 ∨ blocks pool (i + 1) 0 ≤ x →
        forLoop n (fun j m => setPtr m (blocks pool i j) pool) m x = m x := by
  refine forLoop_inv (P := fun n m' => (∀ s < n, ptr m' (blocks pool i s) = pool) ∧
    ∀ x, x < blocks pool i 0 ∨ blocks pool (i + 1) 0 ≤ x → m' x = m x) ⟨fun s hs => absurd hs (Nat.not_lt_zero s),
    fun _ _ => rfl⟩ fun j m' hj ⟨hheads, hframe⟩ => ⟨fun s hs => ?_, fun x hx => ?_⟩
  · by_cases hsj : s = j
    · rw [hsj, ptr_setPtr h32]
    · rw [ptr_setPtr_of_disjoint (by rw [blocks_eq, blocks_eq]; omega)]
      exact hheads s (by omega)
  · rw [← hframe x hx]
    rw [blocks_eq, blocks_eq] at hx
    rw [setPtr_apply (by rw [blocks_eq]; omega)]

/-- **`pool_construct`**: the lists are empty. -/
theorem poolConstruct_spec (m : Mem) (h32 : pool < 2 ^ 32) :
    Indexed (poolConstruct m pool) pool (fun _ _ => []) ∧
      ∀ x, x < pool + 8 ∨ pool + 3188 ≤ x → poolConstruct m pool x = m x := by
  obtain ⟨m₁, hm₁⟩ : ∃ m₁, m₁ = store32 (setPtr (setPtr m (nextFree pool) pool) (prevFree pool) pool)
      (flBitmap pool) 0 := ⟨_, rfl⟩
  obtain ⟨m', hm'⟩ : ∃ m', m' = poolConstruct m pool := ⟨_, rfl⟩
  have hloop : m' = forLoop 24 (fun i m => forLoop 32 (fun j m => setPtr m (blocks pool i j) pool)
      (store32 m (slBitmap pool i) 0)) m₁ := by rw [hm', hm₁]; rfl
  have hinv : (∀ f < 24, load32 m' (slBitmap pool f) = 0 ∧ ∀ s < 32, ptr m' (blocks pool f s) = pool) ∧
      ∀ x, x < pool + 20 ∨ pool + 3188 ≤ x → m' x = m₁ x := by
    rw [hloop]
    refine forLoop_inv (P := fun n m' =>
      (∀ f < n, load32 m' (slBitmap pool f) = 0 ∧ ∀ s < 32, ptr m' (blocks pool f s) = pool) ∧
        ∀ x, x < pool + 20 ∨ pool + 3188 ≤ x → m' x = m₁ x)
      ⟨fun f hf => absurd hf (Nat.not_lt_zero f), fun _ _ => rfl⟩
      fun i m' hi ⟨hrows, hframe⟩ => ?_
    obtain ⟨hrow, hother⟩ := constructRow_spec (store32 m' (slBitmap pool i) 0) i h32 (Nat.le_refl 32)
    rw [blocks_eq, blocks_eq] at hother
    have hload : ∀ a, a + 4 ≤ pool + 116 + 4 * (32 * i + 0) ∨ pool + 116 + 4 * (32 * (i + 1) + 0) ≤ a →
        load32 (forLoop 32 (fun j m => setPtr m (blocks pool i j) pool) (store32 m' (slBitmap pool i) 0)) a =
          load32 (store32 m' (slBitmap pool i) 0) a := fun a ha => by
      rw [load32, load32, readLE_congr fun x h1 h2 => hother x (by omega)]
    refine ⟨fun f hf => ?_, fun x hx => ?_⟩
    · by_cases hfi : f = i
      · subst hfi
        exact ⟨by rw [hload _ (by rw [slBitmap_eq]; omega), load32_store32], hrow⟩
      · obtain ⟨hbits, hheads⟩ := hrows f (by omega)
        refine ⟨?_, fun s hs => ?_⟩
        · rw [hload _ (by rw [slBitmap_eq]; omega),
            load32_store32_of_disjoint (by rw [slBitmap_eq, slBitmap_eq]; omega), hbits]
        · rw [ptr, hload _ (by rw [blocks_eq]; omega),
            load32_store32_of_disjoint (by rw [blocks_eq, slBitmap_eq]; omega)]
          exact hheads s hs
    · rw [hother x (by omega), store32_apply (by rw [slBitmap_eq]; omega), hframe x hx]
  rw [← hm']
  obtain ⟨hrows, hframe⟩ := hinv
  constructor
  · refine ⟨fun f hf s hs => ?_, fun f hf s hs => ?_, fun f hf => ?_⟩
    · exact show nextOf m' pool f s pool = pool by rw [nextOf, if_pos rfl, (hrows f hf).2 s hs]
    · rw [(hrows f hf).1]
      simp
    · have hfl : load32 m' (flBitmap pool) = 0 := by
        rw [load32, readLE_congr fun x h1 h2 => hframe x (by rw [flBitmap_eq] at h1 h2; omega), ← load32,
          hm₁, load32_store32]
      rw [hfl]
      refine iff_of_false (by simp) fun h => h.2 (hrows f h.1).1
  · intro x hx
    rw [hframe x (by omega), hm₁, store32_apply (by rw [flBitmap_eq]; omega),
      setPtr_apply (by rw [prevFree_eq]; omega), setPtr_apply (by rw [nextFree_eq]; omega)]

/-! ## `tlsf_create` -/

/-- The header of the first block: `block_set_size`, `block_set_free` and `block_set_prev_used`. -/
theorem firstHeader_spec (m : Mem) (h4 : n % 4 = 0) (block : Nat) :
    ∃ m', blockSetPrevUsed (blockSetFree (blockSetSize m block n) block) block = m' ∧
      load32 m' (block + 4) = sizeWord n true false ∧ ∀ x, x < block + 4 ∨ block + 8 ≤ x → m' x = m x := by
  have h₁ := load32_store32 m (block + 4)
    (sizeWord n ((load32 m (block + 4)).getLsbD 0) ((load32 m (block + 4)).getLsbD 1))
  rw [blockSetSize_eq, blockSetFree_of h₁, blockSetPrevUsed_of h4 (load32_store32 ..)]
  exact ⟨_, rfl, load32_store32 .., fun x hx => by
    rw [store32_apply (by omega), store32_apply (by omega), store32_apply (by omega)]⟩

/-- The sentinel: `block_set_size`, `block_set_used` and `block_set_prev_free`. -/
theorem sentinelHeader_spec (m : Mem) (block : Nat) :
    ∃ m', blockSetPrevFree (blockSetUsed (blockSetSize m block 0) block) block = m' ∧
      load32 m' (block + 4) = sizeWord 0 false true ∧ ∀ x, x < block + 4 ∨ block + 8 ≤ x → m' x = m x := by
  have h₁ := load32_store32 m (block + 4)
    (sizeWord 0 ((load32 m (block + 4)).getLsbD 0) ((load32 m (block + 4)).getLsbD 1))
  rw [blockSetSize_eq, blockSetUsed_of rfl h₁, blockSetPrevFree_of (load32_store32 ..)]
  exact ⟨_, rfl, load32_store32 .., fun x hx => by
    rw [store32_apply (by omega), store32_apply (by omega), store32_apply (by omega)]⟩

/-- What is left of `bytes` bytes for the blocks. -/
def poolBytes (bytes : Nat) : Nat := (bytes - 3196) - (bytes - 3196) % 4

/-- The first block of a pool. -/
def firstBlockOf (pool bytes : Nat) : Block := { addr := pool + 3184, size := poolBytes bytes, free := true }

/-- A heap of one block, from its words. -/
theorem sound_first (hpos : 0 < pool) (h4 : pool % 4 = 0) (hb : b.addr = pool + 3184) (hfree : b.free = true)
    (hmin : 12 ≤ b.size) (hs4 : b.size % 4 = 0) (hmax : b.size < 2 ^ 30) (hstop : b.next + 8 ≤ 2 ^ 32)
    (hsize : load32 m (b.addr + 4) = sizeWord b.size true false) (hback : ptr m b.next = b.addr)
    (hlast : load32 m (b.next + 4) = sizeWord 0 false true)
    (hi : Indexed m pool
      (insertAt (fun _ _ => []) (mappingInsert b.size).1 (mappingInsert b.size).2 b.addr)) :
    Sound m pool b.next [b] where
  laid :=
    { pos := hpos
      aligned := h4
      stop_le := hstop
      room := by unfold Block.next firstAddr; omega
      consecutive := ⟨hb, Nat.succ_pos _, show firstAddr pool + b.len = b.next by rw [firstAddr, ← hb]; rfl⟩
      sizes := fun c hc => by
        obtain rfl := List.mem_singleton.1 hc
        exact ⟨hmin, hs4⟩
      headers := ⟨hfree ▸ hsize, fun _ => hback, hfree ▸ hlast, fun hf => (Bool.false_ne_true hf).elim,
        trivial⟩ }
  lists := by
    refine ⟨_, hi, fun f s => ?_, fun f s a => ?_⟩
    · unfold insertAt
      split
      · exact List.nodup_cons.2 ⟨List.not_mem_nil, List.nodup_nil⟩
      · exact List.nodup_nil
    · unfold insertAt
      split
      · next h =>
        rw [List.mem_singleton]
        constructor
        · rintro rfl
          exact ⟨b, List.mem_cons_self, hfree, rfl, by rw [h.1, h.2]⟩
        · rintro ⟨c, hc, -, rfl, -⟩
          rw [List.mem_singleton.1 hc]
      · next h =>
        refine iff_of_false List.not_mem_nil ?_
        rintro ⟨c, hc, -, -, hmap⟩
        rw [List.mem_singleton.1 hc] at hmap
        exact h ⟨(congrArg Prod.fst hmap).symm, (congrArg Prod.snd hmap).symm⟩
  coalesced := ⟨fun h => Bool.false_ne_true h.1, trivial⟩

/-- **`tlsf_create`**: a sound heap of one free block. -/
theorem tlsfCreate_spec {mem bytes : Nat} (hpos : 0 < mem) (h4 : mem % 4 = 0) (hmin : 3208 ≤ bytes)
    (hmax : poolBytes bytes < 2 ^ 30) (hfits : mem + bytes ≤ 2 ^ 32) :
    ∃ m', tlsfCreate m mem bytes = some (mem, m') ∧
      Sound m' mem (firstBlockOf mem bytes).next [firstBlockOf mem bytes] ∧
      (firstBlockOf mem bytes).next + 8 ≤ mem + bytes ∧
      ∀ x, x < mem ∨ (firstBlockOf mem bytes).next + 8 ≤ x → m' x = m x := by
  obtain ⟨b, hb⟩ : ∃ b, b = firstBlockOf mem bytes := ⟨_, rfl⟩
  have haddr : b.addr = mem + 3184 := by rw [hb]; rfl
  have hsize : b.size = poolBytes bytes := by rw [hb]; rfl
  have hfree : b.free = true := by rw [hb]; rfl
  have hnext : b.next = b.addr + b.size + 4 := rfl
  have hle : b.size ≤ bytes - 3196 := hsize ▸ Nat.sub_le ..
  have hs4 : b.size % 4 = 0 := by
    rw [hsize, poolBytes]
    omega
  have hs12 : 12 ≤ b.size := by
    rw [hsize, poolBytes]
    omega
  rw [← hb]
  rw [← hsize] at hmax
  have hbytes : alignDown (sub32 bytes tlsfOverhead) alignSize = some b.size := by
    have hdown : alignDown (bytes - 3196) alignSize = some ((bytes - 3196) - (bytes - 3196) % 4) :=
      alignDown_eq (k := 2) (by decide) (by omega)
    have hover : sub32 bytes tlsfOverhead = bytes - 3196 := sub32_of_le (show 3196 ≤ bytes by omega) (by omega)
    rw [hover, hdown, hsize]
    rfl
  have hblock : offsetToBlock mem (sub32 poolSize blockHeaderOverhead) = b.addr := by
    rw [haddr]
    exact add32_of_lt (show mem + 3184 < 2 ^ 32 by omega)
  obtain ⟨hi₁, hframe₁⟩ := poolConstruct_spec m (show mem < 2 ^ 32 by omega)
  obtain ⟨m₂, hm₂, hw₂, hframe₂⟩ := firstHeader_spec (poolConstruct m mem) hs4 b.addr
  -- the first block goes to its list
  have hi₂ : Indexed m₂ mem (fun _ _ => []) := hi₁.congr
    (fun x _ h2 => by rw [load32, load32, readLE_congr fun y h1 h3 => hframe₂ y (by omega)])
    fun f s y hy => (List.not_mem_nil hy).elim
  have hnodes : Nodes mem (fun _ _ => []) := by
    refine ⟨hpos, ?_, ?_, ?_, ?_, fun _ _ => List.nodup_nil⟩ <;> intro f s <;> simp
  have hf : (mappingInsert b.size).1 < 24 := (mappingInsert_fst_lt_iff (Nat.lt_trans hmax (by decide))).2 hmax
  have hs : (mappingInsert b.size).2 < 32 := mappingInsert_snd_lt (Nat.lt_trans hmax (by decide))
  obtain ⟨m₃, hinsert, hi₃, hframe₃⟩ := insertFreeBlock_spec hi₂ hnodes (by omega) hf hs (a := b.addr) (by omega)
    (by omega) (by omega) fun f s y hy => (List.not_mem_nil hy).elim
  have hother : ∀ x, mem + 3188 ≤ x → (x < b.addr + 8 ∨ b.addr + 16 ≤ x) → m₃ x = m₂ x := fun x hx hx' => by
    refine hframe₃ x (Or.inr hx) ?_
    rintro y (rfl | ⟨f, s, hy⟩)
    · exact hx'
    · exact (List.not_mem_nil hy).elim
  have hw₃ : load32 m₃ (b.addr + 4) = sizeWord b.size true false := by
    rw [← hw₂, load32, load32, readLE_congr fun x h1 h2 => hother x (by omega) (by omega)]
  have hlink := blockLinkNext_eq hs4 hs12 (by omega) hw₃
  rw [← hnext] at hlink
  obtain ⟨m₅, hm₅, hw₅, hframe₅⟩ := sentinelHeader_spec (setPtr m₃ b.next b.addr) b.next
  have hload₅ : ∀ a, a + 4 ≤ b.next → load32 m₅ a = load32 m₃ a := fun a ha => by
    rw [load32, readLE_congr fun x h1 h2 => hframe₅ x (by omega), ← load32, load32_setPtr (by omega)]
  refine ⟨m₅, ?_, sound_first hpos h4 haddr hfree hs12 hs4 hmax (by omega) ?_ ?_ hw₅ ?_, by omega, fun x hx => ?_⟩
  · have hrun : blockInsert m₂ mem b.addr = some m₃ := by
      rw [blockInsert, blockSize_of hs4 hw₂ (Nat.lt_trans hmax (by decide))]
      exact hinsert
    simp only [tlsfCreate, hbytes, Option.bind_eq_bind, Option.bind_some,
      if_neg (show ¬(b.size < blockSizeMin ∨ blockSizeMax < b.size) from fun h => by
        rw [show blockSizeMin = 12 from rfl, show blockSizeMax = 2 ^ 30 from rfl] at h; omega),
      hblock, hm₂, hrun, hlink, hm₅, Option.pure_def]
  · rw [hload₅ _ (by omega), hw₃]
  · rw [ptr, load32, readLE_congr fun x h1 h2 => hframe₅ x (by omega), ← load32, ← ptr, ptr_setPtr (by omega)]
  · refine hi₃.congr (fun x _ h2 => hload₅ x (by omega)) fun f s y hy => ?_
    have hy' : y = b.addr := by
      unfold insertAt at hy
      split at hy
      · exact List.mem_singleton.1 hy
      · exact (List.not_mem_nil hy).elim
    rw [hy']
    exact ⟨hload₅ _ (by omega), hload₅ _ (by omega)⟩
  · have hlink₃ : m₃ x = m₂ x := by
      refine hframe₃ x (by omega) ?_
      rintro y (rfl | ⟨f, s, hy⟩)
      · omega
      · exact (List.not_mem_nil hy).elim
    rw [hframe₅ x (by omega), setPtr_apply (by omega), hlink₃, hframe₂ x (by omega), hframe₁ x (by omega)]

end Xmhf.Tlsf
