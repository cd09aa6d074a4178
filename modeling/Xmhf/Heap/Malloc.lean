import Xmhf.Heap.Tlsf
import Xmhf.Lib.Chunk

/-!
# The hypapp's heap

`malloc.c`: the functions of the C library over the allocator. `gPool` is the variable `g_pool`.
-/

namespace Xmhf.Malloc

open Xmhf.Memory Xmhf.Word Xmhf.Tlsf

/-- `HEAPMEM_POOLSIZE` -/
def heapmemPoolsize : Nat := 4 * (1 <<< 20)

/-- `mem_init`, for the array `memory_pool` at `memoryPool`. -/
def memInit (m : Mem) (memoryPool : Nat) : Option (Nat × Mem) := tlsfCreate m memoryPool heapmemPoolsize

/-- `malloc`; when it fails, there is also a warning. -/
def malloc (m : Mem) (gPool size : Nat) : Option (Nat × Mem) := tlsfMalloc m gPool size

/-- `calloc` -/
def calloc (m : Mem) (gPool nmemb size : Nat) : Option (Nat × Mem) := do
  let n := nmemb * size % 2 ^ 32
  let (p, m) ← tlsfMalloc m gPool n
  return (p, if p ≠ 0 then Chunk.memset m p 0 n else m)

/-- `realloc` -/
def realloc (m : Mem) (gPool p size : Nat) : Option (Nat × Mem) := tlsfRealloc m gPool p size

/-- `free` -/
def free (m : Mem) (gPool p : Nat) : Option Mem := tlsfFree m gPool p

end Xmhf.Malloc
