import Xmhf.Lib.Bytes
import Mathlib.Algebra.GroupWithZero.Nat
import Mathlib.Tactic.Common

/-!
# Hash functions of libtomcrypt

`HASH_PROCESS`, the macro that makes a hash's process function from its compression function, and the helpers
`hash_memory` and `hash_memory_multi`, which work on any hash descriptor.
-/

namespace Xmhf.Crypto

open Xmhf.Memory Xmhf.Bytes

/-- The error codes of the library that occur here. -/
inductive CryptErr
  | invalidKeysize
  | bufferOverflow
  | mem
  | invalidArg
  deriving DecidableEq, Repr

/-- The state of a hash in a `hash_state`: the bits that are compressed, the chaining value, and the bytes in
`buf` that wait. -/
structure HashState (σ : Type) where
  length : BitVec 64
  state : σ
  curlen : Nat
  buf : Mem

section
variable {σ : Type} (blockSize : Nat) (compress : σ → Octets → σ)

/-- `compress_name(md, buf)` and the count of its bits -/
def HashState.compressed (md : HashState σ) (buf : Octets) : HashState σ :=
  { md with state := compress md.state buf, length := md.length + BitVec.ofNat 64 (8 * blockSize) }

/-- `memcpy(buf + curlen, in, n)` -/
def HashState.store (md : HashState σ) (input : Octets) (n : Nat) : HashState σ :=
  { md with buf := putBytes md.buf md.curlen (input.take n), curlen := md.curlen + n }

/-- `if (curlen == block_size)`: the buffer is compressed. -/
def HashState.emptied (md : HashState σ) : HashState σ :=
  if md.curlen = blockSize then { md.compressed blockSize compress (bytesAt md.buf 0 blockSize) with curlen := 0 }
  else md

theorem HashState.curlen_emptied_le {md : HashState σ} (h : md.curlen ≤ blockSize) :
    (md.emptied blockSize compress).curlen ≤ blockSize := by
  unfold emptied
  split
  · exact Nat.zero_le _
  · exact h

theorem HashState.curlen_store_le {md : HashState σ} {input : Octets} (h : md.curlen ≤ blockSize) :
    (md.store input (min input.length (blockSize - md.curlen))).curlen ≤ blockSize :=
  Nat.le_trans (Nat.add_le_add_left (Nat.min_le_right ..) _) (by omega)

theorem HashState.curlen_div_le {md : HashState σ} (h : md.curlen ≤ blockSize) :
    md.curlen / blockSize ≤ 1 :=
  Nat.div_le_of_le_mul (by rw [Nat.mul_one]; exact h)

theorem HashState.curlen_emptied_of_eq {md : HashState σ} (h : md.curlen = blockSize) :
    (md.emptied blockSize compress).curlen = 0 := by
  rw [emptied, if_pos h]

/-- `while (inlen > 0)` -/
def processLoop [NeZero blockSize] (md : HashState σ) (h : md.curlen ≤ blockSize) (input : Octets) : HashState σ :=
  if _hin : 0 < input.length then
    if _hblock : md.curlen = 0 ∧ blockSize ≤ input.length then
      processLoop (md.compressed blockSize compress (input.take blockSize)) h (input.drop blockSize)
    else
      processLoop ((md.store input (min input.length (blockSize - md.curlen))).emptied blockSize compress)
        (HashState.curlen_emptied_le blockSize compress (HashState.curlen_store_le blockSize h))
        (input.drop (min input.length (blockSize - md.curlen)))
  else md
termination_by 2 * input.length + md.curlen / blockSize
decreasing_by
  · have hpos := Nat.pos_of_neZero blockSize
    rw [List.length_drop]
    simp only [HashState.compressed]
    omega
  · have hpos := Nat.pos_of_neZero blockSize
    have hle := HashState.curlen_div_le blockSize
      (HashState.curlen_emptied_le blockSize compress (@HashState.curlen_store_le _ blockSize md input h))
    rw [List.length_drop]
    by_cases hfull : md.curlen = blockSize
    · -- a full buffer is emptied without taking any input
      have hn : min input.length (blockSize - md.curlen) = 0 := by omega
      have hstore : (md.store input 0).curlen = blockSize := hfull
      rw [hn, HashState.curlen_emptied_of_eq blockSize compress hstore, hfull, Nat.div_self hpos, Nat.zero_div]
      omega
    · refine Nat.lt_of_lt_of_le ?_ (Nat.le_add_right _ _)
      omega

/-- `HASH_PROCESS` -/
def hashProcess [NeZero blockSize] (md : HashState σ) (input : Octets) : Except CryptErr (HashState σ) :=
  if h : md.curlen ≤ blockSize then .ok (processLoop blockSize compress md h input)
  else .error .invalidArg

end

/-! ## Descriptors -/

/-- `struct ltc_hash_descriptor`, for a hash with the state `S` -/
structure HashDescriptor (S : Type) where
  hashsize : Nat
  blocksize : Nat
  init : S
  process : S → Octets → Except CryptErr S
  done : S → Except CryptErr Octets

section
variable {S : Type} (hash : HashDescriptor S)

/-- The calls to `process` for several buffers. -/
def processAll (md : S) : List Octets → Except CryptErr S
  | [] => .ok md
  | cur :: rest => (hash.process md cur).bind fun md => processAll md rest

/-- `hash_memory_multi`, for the buffers `inputs`: the digest, or an error. `malloc` says whether there is memory
for the state. -/
def hashMemoryMulti (malloc : Bool) (outlen : Nat) (inputs : List Octets) : Except CryptErr Octets :=
  if outlen < hash.hashsize then .error .bufferOverflow
  else if malloc then (processAll hash hash.init inputs).bind hash.done
  else .error .mem

/-- `hash_memory` -/
def hashMemory (malloc : Bool) (outlen : Nat) (input : Octets) : Except CryptErr Octets :=
  if outlen < hash.hashsize then .error .bufferOverflow
  else if malloc then (hash.process hash.init input).bind hash.done
  else .error .mem

end

end Xmhf.Crypto
