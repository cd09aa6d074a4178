import Xmhf.Lib.Bytes
import Xmhf.Lib.Cells
import Xmhf.Lib.Loop

/-!
# The allocator

`tlsf.c`, the two-level segregated fit allocator under the hypapp's `malloc`, in byte memory: the pool
structure, the block headers and the blocks are words at their addresses. A pointer is its address and
`NULL` is 0; a failed `tlsf_assert` aborts (`none`). The build is for 32 bits.

* A block's header is `prev_phys_block`, `size` and, when it is free, `next_free` and `prev_free`; the
  word `prev_phys_block` belongs to the block before. The bits 0 and 1 of `size` are flags.
* `mapping_insert` gives the free list of a size, `mapping_search` the first one to search for a request.
-/

namespace Xmhf.Tlsf

open Xmhf.Memory Xmhf.Word Xmhf.Loop

/-- `tlsf_assert` -/
def tlsfAssert (x : Prop) [Decidable x] : Option Unit := if x then some () else none

/-! ## Bit searches -/

/-- `__builtin_clz` of a word that is not 0. -/
def builtinClz (word : BitVec 32) : Nat := 31 - word.toNat.log2

/-- `__builtin_ffs`: one more than the index of the lowest bit that is set, or 0. -/
def builtinFfs (word : BitVec 32) : Nat :=
  match (List.range 32).find? (word.getLsbD ·) with
  | some i => i + 1
  | none => 0

/-- `tlsf_ffs` -/
def tlsfFfs (word : BitVec 32) : Int := (builtinFfs word : Int) - 1

/-- `tlsf_fls` -/
def tlsfFls (word : BitVec 32) : Int := (if word ≠ 0 then 32 - (builtinClz word : Int) else 0) - 1

/-- `if (!(word & mask)) { word <<= n; bit -= n; }` of `tlsf_fls_generic`. -/
def flsStep (mask : BitVec 32) (n : Nat) (s : BitVec 32 × Int) : BitVec 32 × Int :=
  if s.1 &&& mask = 0 then (s.1 <<< n, s.2 - n) else s

/-- `tlsf_fls_generic`, the fall back for other compilers. -/
def tlsfFlsGeneric (word : BitVec 32) : Int :=
  let s := (word, if word = 0 then 31 else 32)
  let s := flsStep 0xffff0000 16 s
  let s := flsStep 0xff000000 8 s
  let s := flsStep 0xf0000000 4 s
  let s := flsStep 0xc0000000 2 s
  let s := flsStep 0x80000000 1 s
  s.2

/-- `tlsf_ffs` of the fall back: "Implement ffs in terms of fls." -/
def tlsfFfsGeneric (word : BitVec 32) : Int := tlsfFlsGeneric (word &&& (~~~word + 1)) - 1

/-! ## Constants -/

/-- `SL_INDEX_COUNT_LOG2` -/
def slIndexCountLog2 : Nat := 5

/-- `ALIGN_SIZE_LOG2` -/
def alignSizeLog2 : Nat := 2

/-- `ALIGN_SIZE` -/
def alignSize : Nat := 1 <<< alignSizeLog2

/-- `FL_INDEX_MAX` -/
def flIndexMax : Nat := 30

/-- `SL_INDEX_COUNT` -/
def slIndexCount : Nat := 1 <<< slIndexCountLog2

/-- `FL_INDEX_SHIFT` -/
def flIndexShift : Nat := slIndexCountLog2 + alignSizeLog2

/-- `FL_INDEX_COUNT` -/
def flIndexCount : Nat := flIndexMax - flIndexShift + 1

/-- `SMALL_BLOCK_SIZE` -/
def smallBlockSize : Nat := 1 <<< flIndexShift

/-- `sizeof(block_header_t)` -/
def blockHeaderSize : Nat := 16

/-- `block_header_free_bit` -/
def freeBit : BitVec 32 := 1 <<< 0

/-- `block_header_prev_free_bit` -/
def prevFreeBit : BitVec 32 := 1 <<< 1

/-- `block_header_overhead`: `sizeof(size_t)`. -/
def blockHeaderOverhead : Nat := 4

/-- `block_start_offset`: user data starts after the field `size`. -/
def blockStartOffset : Nat := 8

/-- `block_size_min`: `sizeof(block_header_t) - sizeof(block_header_t*)`. -/
def blockSizeMin : Nat := blockHeaderSize - 4

/-- `block_size_max` -/
def blockSizeMax : Nat := 1 <<< flIndexMax

/-! ## The pool structure -/

/-- `sizeof(pool_t)`: the null block, the bitmaps and the heads of the free lists. -/
def poolSize : Nat := blockHeaderSize + 4 + 4 * flIndexCount + 4 * (flIndexCount * slIndexCount)

/-- `&pool->block_null` -/
def blockNull (pool : Nat) : Nat := pool

/-- `&pool->fl_bitmap` -/
def flBitmap (pool : Nat) : Nat := pool + blockHeaderSize

/-- `&pool->sl_bitmap[fl]` -/
def slBitmap (pool fl : Nat) : Nat := pool + blockHeaderSize + 4 + 4 * fl

/-- `&pool->blocks[fl][sl]` -/
def blocks (pool fl sl : Nat) : Nat :=
  pool + blockHeaderSize + 4 + 4 * flIndexCount + 4 * (slIndexCount * fl + sl)

/-! ## Block headers -/

/-- The pointer at `a`. -/
def ptr (m : Mem) (a : Nat) : Nat := (load32 m a).toNat

/-- `m` with the pointer `p` at `a`. -/
def setPtr (m : Mem) (a p : Nat) : Mem := store32 m a (BitVec.ofNat 32 p)

/-- `&block->size`, after the pointer `prev_phys_block`. -/
def sizeField (block : Nat) : Nat := block + 4

/-- `&block->next_free` -/
def nextFree (block : Nat) : Nat := block + 8

/-- `&block->prev_free` -/
def prevFree (block : Nat) : Nat := block + 12

/-- `block_size` -/
def blockSize (m : Mem) (block : Nat) : Nat :=
  (load32 m (sizeField block) &&& ~~~(freeBit ||| prevFreeBit)).toNat

/-- `block_set_size` -/
def blockSetSize (m : Mem) (block size : Nat) : Mem :=
  let oldsize := load32 m (sizeField block)
  store32 m (sizeField block) (BitVec.ofNat 32 size ||| (oldsize &&& (freeBit ||| prevFreeBit)))

/-- `block_is_last` -/
def blockIsLast (m : Mem) (block : Nat) : Prop := 0 = blockSize m block

instance (m : Mem) (block : Nat) : Decidable (blockIsLast m block) := inferInstanceAs (Decidable (_ = _))

/-- `block_is_free` -/
def blockIsFree (m : Mem) (block : Nat) : Prop := load32 m (sizeField block) &&& freeBit ≠ 0

instance (m : Mem) (block : Nat) : Decidable (blockIsFree m block) := inferInstanceAs (Decidable (_ ≠ _))

/-- `block_set_free` -/
def blockSetFree (m : Mem) (block : Nat) : Mem :=
  store32 m (sizeField block) (load32 m (sizeField block) ||| freeBit)

/-- `block_set_used` -/
def blockSetUsed (m : Mem) (block : Nat) : Mem :=
  store32 m (sizeField block) (load32 m (sizeField block) &&& ~~~freeBit)

/-- `block_is_prev_free` -/
def blockIsPrevFree (m : Mem) (block : Nat) : Prop := load32 m (sizeField block) &&& prevFreeBit ≠ 0

instance (m : Mem) (block : Nat) : Decidable (blockIsPrevFree m block) :=
  inferInstanceAs (Decidable (_ ≠ _))

/-- `block_set_prev_free` -/
def blockSetPrevFree (m : Mem) (block : Nat) : Mem :=
  store32 m (sizeField block) (load32 m (sizeField block) ||| prevFreeBit)

/-- `block_set_prev_used` -/
def blockSetPrevUsed (m : Mem) (block : Nat) : Mem :=
  store32 m (sizeField block) (load32 m (sizeField block) &&& ~~~prevFreeBit)

/-- `block_from_ptr` -/
def blockFromPtr (p : Nat) : Nat := sub32 p blockStartOffset

/-- `block_to_ptr` -/
def blockToPtr (block : Nat) : Nat := add32 block blockStartOffset

/-- `offset_to_block` -/
def offsetToBlock (p size : Nat) : Nat := add32 p size

/-- `block_prev` -/
def blockPrev (m : Mem) (block : Nat) : Nat := ptr m block

/-- `block_next` -/
def blockNext (m : Mem) (block : Nat) : Option Nat := do
  let next := offsetToBlock (blockToPtr block) (sub32 (blockSize m block) blockHeaderOverhead)
  tlsfAssert (¬blockIsLast m block)
  return next

/-- `block_link_next` -/
def blockLinkNext (m : Mem) (block : Nat) : Option (Nat × Mem) := do
  let next ← blockNext m block
  return (next, setPtr m next block)

/-- `block_mark_as_free` -/
def blockMarkAsFree (m : Mem) (block : Nat) : Option Mem := do
  let (next, m) ← blockLinkNext m block
  let m := blockSetPrevFree m next
  return blockSetFree m block

/-- `block_mark_as_used` -/
def blockMarkAsUsed (m : Mem) (block : Nat) : Option Mem := do
  let next ← blockNext m block
  let m := blockSetPrevUsed m next
  return blockSetUsed m block

/-! ## Alignment -/

/-- `0 == (align & (align - 1))` -/
def isPowerOfTwo (align : Nat) : Prop :=
  BitVec.ofNat 32 align &&& (BitVec.ofNat 32 align - 1) = 0

instance (align : Nat) : Decidable (isPowerOfTwo align) := inferInstanceAs (Decidable (_ = _))

/-- `align_up` -/
def alignUp (x align : Nat) : Option Nat := do
  tlsfAssert (isPowerOfTwo align)
  let mask := BitVec.ofNat 32 align - 1
  return ((BitVec.ofNat 32 x + mask) &&& ~~~mask).toNat

/-- `align_down` -/
def alignDown (x align : Nat) : Option Nat := do
  tlsfAssert (isPowerOfTwo align)
  let mask := BitVec.ofNat 32 align - 1
  return sub32 x (BitVec.ofNat 32 x &&& mask).toNat

/-- `align_ptr` -/
def alignPtr (p align : Nat) : Option Nat := do
  let mask := BitVec.ofNat 32 align - 1
  let aligned := ((BitVec.ofNat 32 p + mask) &&& ~~~mask).toNat
  tlsfAssert (isPowerOfTwo align)
  return aligned

/-- `adjust_request_size` -/
def adjustRequestSize (size align : Nat) : Option Nat :=
  if size ≠ 0 ∧ size < blockSizeMax then do
    let aligned ← alignUp size align
    return max aligned blockSizeMin
  else return 0

/-! ## The mapping of sizes to free lists -/

/-- `mapping_insert` -/
def mappingInsert (size : Nat) : Nat × Nat :=
  if size < smallBlockSize then (0, size / (smallBlockSize / slIndexCount))
  else
    let fl := (tlsfFls (BitVec.ofNat 32 size)).toNat
    let sl := (size >>> (fl - slIndexCountLog2)) ^^^ (1 <<< slIndexCountLog2)
    (fl - (flIndexShift - 1), sl)

/-- `mapping_search`: "This version rounds up to the next block size (for allocations)". -/
def mappingSearch (size : Nat) : Nat × Nat :=
  if 1 <<< slIndexCountLog2 ≤ size then
    let round := 1 <<< ((tlsfFls (BitVec.ofNat 32 size)).toNat - slIndexCountLog2) - 1
    mappingInsert (add32 size round)
  else mappingInsert size

/-- The end of `search_suitable_block`: the first block of the first list of `slMap`, and the list. -/
def firstBlock (m : Mem) (pool fl : Nat) (slMap : BitVec 32) : Option (Nat × Nat × Nat) := do
  tlsfAssert (slMap ≠ 0)
  let sl := (tlsfFfs slMap).toNat
  return (ptr m (blocks pool fl sl), fl, sl)

/-- `search_suitable_block`, with the indices it leaves in `fli` and `sli`. -/
def searchSuitableBlock (m : Mem) (pool fl sl : Nat) : Option (Nat × Nat × Nat) :=
  let slMap := load32 m (slBitmap pool fl) &&& (BitVec.allOnes 32 <<< sl)
  if slMap = 0 then
    let flMap := load32 m (flBitmap pool) &&& (BitVec.allOnes 32 <<< (fl + 1))
    if flMap = 0 then return (0, fl, sl)
    else
      let fl := (tlsfFfs flMap).toNat
      firstBlock m pool fl (load32 m (slBitmap pool fl))
  else firstBlock m pool fl slMap

/-! ## Free lists -/

/-- The end of `remove_free_block`: the bits of an empty list are cleared. -/
def clearBits (m : Mem) (pool fl sl : Nat) : Mem :=
  let m := store32 m (slBitmap pool fl) (load32 m (slBitmap pool fl) &&& ~~~(1#32 <<< sl))
  if load32 m (slBitmap pool fl) = 0 then
    store32 m (flBitmap pool) (load32 m (flBitmap pool) &&& ~~~(1#32 <<< fl))
  else m

/-- `remove_free_block` -/
def removeFreeBlock (m : Mem) (pool block fl sl : Nat) : Option Mem := do
  let prev := ptr m (prevFree block)
  let next := ptr m (nextFree block)
  tlsfAssert (prev ≠ 0)
  tlsfAssert (next ≠ 0)
  let m := setPtr m (prevFree next) prev
  let m := setPtr m (nextFree prev) next
  if ptr m (blocks pool fl sl) = block then
    let m := setPtr m (blocks pool fl sl) next
    return if next = blockNull pool then clearBits m pool fl sl else m
  else return m

/-- `insert_free_block` -/
def insertFreeBlock (m : Mem) (pool block fl sl : Nat) : Option Mem := do
  let current := ptr m (blocks pool fl sl)
  tlsfAssert (current ≠ 0)
  tlsfAssert (block ≠ 0)
  let m := setPtr m (nextFree block) current
  let m := setPtr m (prevFree block) (blockNull pool)
  let m := setPtr m (prevFree current) block
  let aligned ← alignPtr (blockToPtr block) alignSize
  tlsfAssert (blockToPtr block = aligned)
  let m := setPtr m (blocks pool fl sl) block
  let m := store32 m (flBitmap pool) (load32 m (flBitmap pool) ||| 1#32 <<< fl)
  return store32 m (slBitmap pool fl) (load32 m (slBitmap pool fl) ||| 1#32 <<< sl)

/-- `block_remove` -/
def blockRemove (m : Mem) (pool block : Nat) : Option Mem :=
  let (fl, sl) := mappingInsert (blockSize m block)
  removeFreeBlock m pool block fl sl

/-- `block_insert` -/
def blockInsert (m : Mem) (pool block : Nat) : Option Mem :=
  let (fl, sl) := mappingInsert (blockSize m block)
  insertFreeBlock m pool block fl sl

/-! ## Splitting and merging -/

/-- `block_can_split` -/
def blockCanSplit (m : Mem) (block size : Nat) : Prop := add32 blockHeaderSize size ≤ blockSize m block

instance (m : Mem) (block size : Nat) : Decidable (blockCanSplit m block size) :=
  inferInstanceAs (Decidable (_ ≤ _))

/-- `block_split` -/
def blockSplit (m : Mem) (block size : Nat) : Option (Nat × Mem) := do
  let remaining := offsetToBlock (blockToPtr block) (sub32 size blockHeaderOverhead)
  let remainSize := sub32 (blockSize m block) (add32 size blockHeaderOverhead)
  let aligned ← alignPtr (blockToPtr remaining) alignSize
  tlsfAssert (blockToPtr remaining = aligned)
  tlsfAssert (blockSize m block = add32 (add32 remainSize size) blockHeaderOverhead)
  let m := blockSetSize m remaining remainSize
  tlsfAssert (blockSizeMin ≤ blockSize m remaining)
  let m := blockSetSize m block size
  let m ← blockMarkAsFree m remaining
  return (remaining, m)

/-- `block_absorb`; it returns `prev`. -/
def blockAbsorb (m : Mem) (prev block : Nat) : Option Mem := do
  tlsfAssert (¬blockIsLast m prev)
  let m := store32 m (sizeField prev)
    (load32 m (sizeField prev) + BitVec.ofNat 32 (add32 (blockSize m block) blockHeaderOverhead))
  let (_, m) ← blockLinkNext m prev
  return m

/-- `block_merge_prev` -/
def blockMergePrev (m : Mem) (pool block : Nat) : Option (Nat × Mem) :=
  if blockIsPrevFree m block then do
    let prev := blockPrev m block
    tlsfAssert (prev ≠ 0)
    tlsfAssert (blockIsFree m prev)
    let m ← blockRemove m pool prev
    let m ← blockAbsorb m prev block
    return (prev, m)
  else return (block, m)

/-- `block_merge_next`; it returns `block`. -/
def blockMergeNext (m : Mem) (pool block : Nat) : Option Mem := do
  let next ← blockNext m block
  tlsfAssert (next ≠ 0)
  if blockIsFree m next then do
    tlsfAssert (¬blockIsLast m block)
    let m ← blockRemove m pool next
    blockAbsorb m block next
  else return m

/-- `block_trim_free` -/
def blockTrimFree (m : Mem) (pool block size : Nat) : Option Mem := do
  tlsfAssert (blockIsFree m block)
  if blockCanSplit m block size then do
    let (remaining, m) ← blockSplit m block size
    let (_, m) ← blockLinkNext m block
    let m := blockSetPrevFree m remaining
    blockInsert m pool remaining
  else return m

/-- `block_trim_used` -/
def blockTrimUsed (m : Mem) (pool block size : Nat) : Option Mem := do
  tlsfAssert (¬blockIsFree m block)
  if blockCanSplit m block size then do
    let (remaining, m) ← blockSplit m block size
    let m := blockSetPrevUsed m remaining
    let m ← blockMergeNext m pool remaining
    blockInsert m pool remaining
  else return m

/-- `block_trim_free_leading`: "We want the 2nd block." -/
def blockTrimFreeLeading (m : Mem) (pool block size : Nat) : Option (Nat × Mem) :=
  if blockCanSplit m block size then do
    let (remaining, m) ← blockSplit m block (sub32 size blockHeaderOverhead)
    let m := blockSetPrevFree m remaining
    let (_, m) ← blockLinkNext m block
    let m ← blockInsert m pool block
    return (remaining, m)
  else return (block, m)

/-! ## Allocation -/

/-- `block_locate_free`; 0 is no block. -/
def blockLocateFree (m : Mem) (pool size : Nat) : Option (Nat × Mem) := do
  let (block, fl, sl) ←
    if size ≠ 0 then searchSuitableBlock m pool (mappingSearch size).1 (mappingSearch size).2
    else some (0, 0, 0)
  if block ≠ 0 then
    tlsfAssert (size ≤ blockSize m block)
    let m ← removeFreeBlock m pool block fl sl
    return (block, m)
  else return (block, m)

/-- `block_prepare_used` -/
def blockPrepareUsed (m : Mem) (pool block size : Nat) : Option (Nat × Mem) :=
  if block ≠ 0 then do
    let m ← blockTrimFree m pool block size
    let m ← blockMarkAsUsed m block
    return (blockToPtr block, m)
  else return (0, m)

/-- `pool_construct` -/
def poolConstruct (m : Mem) (pool : Nat) : Mem :=
  let m := setPtr m (nextFree (blockNull pool)) (blockNull pool)
  let m := setPtr m (prevFree (blockNull pool)) (blockNull pool)
  let m := store32 m (flBitmap pool) 0
  forLoop flIndexCount (fun i m =>
    let m := store32 m (slBitmap pool i) 0
    forLoop slIndexCount (fun j m => setPtr m (blocks pool i j) (blockNull pool)) m) m

/-- `tlsf_overhead` -/
def tlsfOverhead : Nat := poolSize + 2 * blockHeaderOverhead

/-- `tlsf_create` -/
def tlsfCreate (m : Mem) (mem bytes : Nat) : Option (Nat × Mem) := do
  let poolBytes ← alignDown (sub32 bytes tlsfOverhead) alignSize
  if poolBytes < blockSizeMin ∨ blockSizeMax < poolBytes then return (0, m)
  let m := poolConstruct m mem
  let block := offsetToBlock mem (sub32 poolSize blockHeaderOverhead)
  let m := blockSetSize m block poolBytes
  let m := blockSetFree m block
  let m := blockSetPrevUsed m block
  let m ← blockInsert m mem block
  let (next, m) ← blockLinkNext m block
  let m := blockSetSize m next 0
  let m := blockSetUsed m next
  let m := blockSetPrevFree m next
  return (mem, m)

/-- `tlsf_malloc` -/
def tlsfMalloc (m : Mem) (tlsf size : Nat) : Option (Nat × Mem) := do
  let adjust ← adjustRequestSize size alignSize
  let (block, m) ← blockLocateFree m tlsf adjust
  blockPrepareUsed m tlsf block adjust

/-- The aligned address and the gap before it, in `tlsf_memalign`. -/
def alignGap (p align : Nat) : Option Nat := do
  let gapMinimum := blockHeaderSize
  let aligned ← alignPtr p align
  let gap := sub32 aligned p
  if gap ≠ 0 ∧ gap < gapMinimum then
    let gapRemain := sub32 gapMinimum gap
    let offset := max gapRemain align
    let aligned ← alignPtr (add32 aligned offset) align
    return sub32 aligned p
  else return gap

/-- `tlsf_memalign` -/
def tlsfMemalign (m : Mem) (tlsf align size : Nat) : Option (Nat × Mem) := do
  let adjust ← adjustRequestSize size alignSize
  let gapMinimum := blockHeaderSize
  let sizeWithGap ← adjustRequestSize (add32 (add32 adjust align) gapMinimum) align
  let alignedSize := if align ≤ alignSize then adjust else sizeWithGap
  let (block, m) ← blockLocateFree m tlsf alignedSize
  if block ≠ 0 then
    let gap ← alignGap (blockToPtr block) align
    if gap ≠ 0 then
      tlsfAssert (gapMinimum ≤ gap)
      let (block, m) ← blockTrimFreeLeading m tlsf block gap
      blockPrepareUsed m tlsf block adjust
    else blockPrepareUsed m tlsf block adjust
  else blockPrepareUsed m tlsf block adjust

/-- `tlsf_free` -/
def tlsfFree (m : Mem) (tlsf p : Nat) : Option Mem :=
  if p ≠ 0 then do
    let block := blockFromPtr p
    let m ← blockMarkAsFree m block
    let (block, m) ← blockMergePrev m tlsf block
    let m ← blockMergeNext m tlsf block
    blockInsert m tlsf block
  else return m

/-- `tlsf_realloc` -/
def tlsfRealloc (m : Mem) (tlsf p size : Nat) : Option (Nat × Mem) :=
  if p ≠ 0 ∧ size = 0 then do
    let m ← tlsfFree m tlsf p
    return (0, m)
  else if p = 0 then tlsfMalloc m tlsf size
  else do
    let block := blockFromPtr p
    let next ← blockNext m block
    let cursize := blockSize m block
    let combined := add32 (add32 cursize (blockSize m next)) blockHeaderOverhead
    let adjust ← adjustRequestSize size alignSize
    if cursize < adjust ∧ (¬blockIsFree m next ∨ combined < adjust) then
      let (q, m) ← tlsfMalloc m tlsf size
      if q ≠ 0 then
        let m := Bytes.memcpy m q p (min cursize size)
        let m ← tlsfFree m tlsf p
        return (q, m)
      else return (q, m)
    else
      let m ← if cursize < adjust then do
          let m ← blockMergeNext m tlsf block
          blockMarkAsUsed m block
        else some m
      let m ← blockTrimUsed m tlsf block adjust
      return (p, m)

/-- `tlsf_block_size` -/
def tlsfBlockSize (m : Mem) (p : Nat) : Nat := if p ≠ 0 then blockSize m (blockFromPtr p) else 0

/-! ## Debugging utilities -/

/-- The loop of `tlsf_walk_heap`, for `n` blocks at most. -/
def walkLoop {σ : Type} (m : Mem) (walker : Nat → Nat → Bool → σ → Option σ) : Nat → Nat → σ → Option σ
  | 0, _, _ => none
  | n + 1, block, user =>
    if block ≠ 0 ∧ ¬blockIsLast m block then do
      let user ← walker (blockToPtr block) (blockSize m block) (!decide (blockIsFree m block)) user
      let next ← blockNext m block
      walkLoop m walker n next user
    else return user

/-- `tlsf_walk_heap`; a walker gets the block's pointer, its size and whether it is in use. -/
def tlsfWalkHeap {σ : Type} (m : Mem) (pool : Nat) (walker : Nat → Nat → Bool → σ → Option σ) (n : Nat)
    (user : σ) : Option σ :=
  walkLoop m walker n (offsetToBlock pool (sub32 poolSize blockHeaderOverhead)) user

/-- `integrity_t` -/
structure Integrity where
  prevStatus : Int
  status : Int

/-- `tlsf_insist`, with the `status` that it counts down. -/
def tlsfInsist (x : Prop) [Decidable x] (status : Int) : Option Int := do
  tlsfAssert x
  return if x then status else status - 1

/-- `integrity_walker` -/
def integrityWalker (m : Mem) (p size : Nat) (_used : Bool) (integ : Integrity) : Option Integrity := do
  let block := blockFromPtr p
  let thisPrevStatus : Int := if blockIsPrevFree m block then 1 else 0
  let thisStatus : Int := if blockIsFree m block then 1 else 0
  let thisBlockSize := blockSize m block
  let status ← tlsfInsist (integ.prevStatus = thisPrevStatus) 0
  let status ← tlsfInsist (size = thisBlockSize) status
  return { prevStatus := thisStatus, status := integ.status + status }

/-- The loop of `tlsf_check_heap` over the list `i`, `j`, for `n` blocks at most. -/
def checkBlocks (m : Mem) (pool i j : Nat) : Nat → Nat → Int → Option Int
  | 0, _, _ => none
  | n + 1, block, status =>
    if block ≠ blockNull pool then do
      let status ← tlsfInsist (blockIsFree m block) status
      let status ← tlsfInsist (¬blockIsPrevFree m block) status
      let next ← blockNext m block
      let status ← tlsfInsist (¬blockIsFree m next) status
      let status ← tlsfInsist (blockIsPrevFree m next) status
      let status ← tlsfInsist (blockSizeMin ≤ blockSize m block) status
      let (fli, sli) := mappingInsert (blockSize m block)
      let status ← tlsfInsist (fli = i ∧ sli = j) status
      checkBlocks m pool i j n (ptr m (nextFree block)) status
    else return status

/-- The checks of `tlsf_check_heap` on the list `i`, `j`. -/
def checkList (m : Mem) (pool n i j : Nat) (status : Int) : Option Int := do
  let flMap := load32 m (flBitmap pool) &&& 1#32 <<< i
  let slList := load32 m (slBitmap pool i)
  let slMap := slList &&& 1#32 <<< j
  let block := ptr m (blocks pool i j)
  let status ← if flMap = 0 then tlsfInsist (slMap = 0) status else some status
  if slMap = 0 then tlsfInsist (block = blockNull pool) status
  else
    let status ← tlsfInsist (slList ≠ 0) status
    let status ← tlsfInsist (block ≠ blockNull pool) status
    checkBlocks m pool i j n block status

/-- `tlsf_check_heap`, for `n` blocks in a list at most. -/
def tlsfCheckHeap (m : Mem) (tlsf n : Nat) : Option Int := do
  let integ ← tlsfWalkHeap m tlsf (integrityWalker m) n { prevStatus := 0, status := 0 }
  forLoop flIndexCount (fun i status => forLoop slIndexCount (fun j status =>
    status.bind (checkList m tlsf n i j)) status) (some integ.status)

end Xmhf.Tlsf
