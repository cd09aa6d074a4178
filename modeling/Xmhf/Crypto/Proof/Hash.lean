import Xmhf.Crypto.Hash
import Xmhf.Lib.Stream

/-!
# The process function

However a message is cut into buffers, `HASH_PROCESS` leaves the state of its full blocks and the bytes after
them, and the bits of both add up to the message's.

* `Fed.compressed`, `Fed.emptied_store`: the two branches of the loop.
* `Fed.processLoop`, `Fed.hashProcess`, `Fed.processAll`: the loop, a call, and all calls.
-/

namespace Xmhf.Crypto

open Xmhf.Memory Xmhf.Bytes Xmhf.Stream

variable {σ : Type} {n : Nat} {compress : σ → Octets → σ} {s₀ : σ} {md : HashState σ} {msg input : Octets}

/-- `md` is the state after `msg`, if `s₀` is the one at the start. -/
structure Fed (n : Nat) (compress : σ → Octets → σ) (s₀ : σ) (md : HashState σ) (msg : Octets) : Prop where
  curlen_lt : md.curlen < n
  absorbed : absorb n compress (s₀, []) msg = (md.state, bytesAt md.buf 0 md.curlen)
  bits : md.length + BitVec.ofNat 64 (8 * md.curlen) = BitVec.ofNat 64 (8 * msg.length)

theorem fed_nil (hn : 0 < n) (buf : Mem) : Fed n compress s₀ ⟨0, s₀, 0, buf⟩ [] :=
  ⟨hn, rfl, rfl⟩

/-- A block that is compressed where it is. -/
theorem Fed.compressed (h : Fed n compress s₀ md msg) (hzero : md.curlen = 0) {block : Octets}
    (hblock : block.length = n) : Fed n compress s₀ (md.compressed n compress block) (msg ++ block) where
  curlen_lt := h.curlen_lt
  absorbed := by
    have hne : block ≠ [] := List.ne_nil_of_length_pos (by have := h.curlen_lt; omega)
    have hfull : absorb n compress (md.state, []) block = (compress md.state ([] ++ block), []) :=
      absorb_of_eq (by simpa using hblock) hne
    rw [absorb_append, h.absorbed, HashState.compressed, hzero]
    exact hfull
  bits := by
    have hbits := h.bits
    rw [hzero] at hbits
    have hbits' : md.length = BitVec.ofNat 64 (8 * msg.length) := (BitVec.add_zero _).symm.trans hbits
    rw [List.length_append, hblock, Nat.mul_add, BitVec.ofNat_add, ← hbits']
    simp [HashState.compressed, hzero]

/-- The bytes that there is room for. If they fill the buffer, it is compressed. -/
theorem Fed.emptied_store (h : Fed n compress s₀ md msg) {k : Nat} (hpos : 0 < k) (hk : k ≤ input.length)
    (hroom : md.curlen + k ≤ n) :
    Fed n compress s₀ ((md.store input k).emptied n compress) (msg ++ input.take k) := by
  have hlen : (input.take k).length = k := List.length_take_of_le hk
  have hpending : bytesAt (md.store input k).buf 0 (md.curlen + k) = bytesAt md.buf 0 md.curlen ++ input.take k := by
    have hput := bytesAt_putBytes_append md.buf md.curlen (input.take k)
    rwa [hlen] at hput
  have hbits : md.length + BitVec.ofNat 64 (8 * (md.curlen + k)) =
      BitVec.ofNat 64 (8 * (msg ++ input.take k).length) := by
    rw [List.length_append, hlen, Nat.mul_add, Nat.mul_add, BitVec.ofNat_add, BitVec.ofNat_add, ← h.bits,
      BitVec.add_assoc]
  unfold HashState.emptied
  split
  · next hfull =>
    have hfull' : md.curlen + k = n := hfull
    refine ⟨by simpa using Nat.zero_lt_of_lt h.curlen_lt, ?_, ?_⟩
    · have hne : input.take k ≠ [] := List.ne_nil_of_length_pos (by rwa [hlen])
      rw [absorb_append, h.absorbed, absorb_of_eq (by rw [length_bytesAt, hlen, hfull']) hne, ← hpending, hfull']
      rfl
    · rw [← hbits, hfull']
      exact BitVec.add_zero _
  · next hpart =>
    have hpart' : md.curlen + k ≠ n := hpart
    refine ⟨by simp only [HashState.store]; omega, ?_, hbits⟩
    rw [absorb_append, h.absorbed, absorb_of_lt (by rw [length_bytesAt, hlen]; omega), ← hpending]
    rfl

/-- **The loop** takes all of its input. -/
theorem Fed.processLoop [NeZero n] (h : Fed n compress s₀ md msg) (hle : md.curlen ≤ n) :
    Fed n compress s₀ (processLoop n compress md hle input) (msg ++ input) := by
  induction md, hle, input using processLoop.induct n compress generalizing msg with
  | case1 md hle input hin hblock ih =>
    rw [Crypto.processLoop, dif_pos hin, dif_pos hblock]
    have hnext := ih (h.compressed hblock.1 (List.length_take_of_le hblock.2))
    rwa [List.append_assoc, List.take_append_drop] at hnext
  | case2 md hle input hin hblock ih =>
    rw [Crypto.processLoop, dif_pos hin, dif_neg hblock]
    have hlt := h.curlen_lt
    have hpart : Fed n compress s₀ ((md.store input (min input.length (n - md.curlen))).emptied n compress)
        (msg ++ input.take (min input.length (n - md.curlen))) :=
      h.emptied_store (by omega) (by omega) (by omega)
    have hnext := ih hpart
    rwa [List.append_assoc, List.take_append_drop] at hnext
  | case3 md hle input hin =>
    rw [Crypto.processLoop, dif_neg hin, List.eq_nil_of_length_eq_zero (Nat.eq_zero_of_not_pos hin), List.append_nil]
    exact h

theorem Fed.hashProcess [NeZero n] (h : Fed n compress s₀ md msg) (input : Octets) :
    ∃ md', hashProcess n compress md input = .ok md' ∧ Fed n compress s₀ md' (msg ++ input) :=
  ⟨_, dif_pos (Nat.le_of_lt h.curlen_lt), h.processLoop (Nat.le_of_lt h.curlen_lt)⟩

/-! ## Descriptors -/

section
variable {S : Type} {hash : HashDescriptor S} {H : Octets → Octets} {R : S → Octets → Prop} {st : S}

/-- A descriptor for the hash `H`. `R` says which states there are after a message. -/
structure HashDescriptor.Computes (hash : HashDescriptor S) (H : Octets → Octets) (R : S → Octets → Prop) : Prop where
  init : R hash.init []
  process {st : S} {msg : Octets} (h : R st msg) (input : Octets) :
    ∃ st', hash.process st input = .ok st' ∧ R st' (msg ++ input)
  done {st : S} {msg : Octets} (h : R st msg) : hash.done st = .ok (H msg)

theorem HashDescriptor.Computes.processAll (hc : hash.Computes H R) (h : R st msg) (inputs : List Octets) :
    ∃ st', processAll hash st inputs = .ok st' ∧ R st' (msg ++ inputs.flatten) := by
  induction inputs generalizing st msg with
  | nil => exact ⟨st, rfl, by simpa using h⟩
  | cons input inputs ih =>
    obtain ⟨st₁, hprocess, h₁⟩ := hc.process h input
    obtain ⟨st', hall, h'⟩ := ih h₁
    refine ⟨st', by rw [Crypto.processAll, hprocess]; exact hall, ?_⟩
    rwa [List.append_assoc] at h'

/-- **Several buffers** are hashed as one message. -/
theorem HashDescriptor.Computes.hashMemoryMulti_eq (hc : hash.Computes H R) (malloc : Bool) (outlen : Nat)
    (inputs : List Octets) : hashMemoryMulti hash malloc outlen inputs =
      if outlen < hash.hashsize then .error .bufferOverflow
      else if malloc then .ok (H inputs.flatten) else .error .mem := by
  obtain ⟨st, hall, hst⟩ := hc.processAll hc.init inputs
  have hdone : hash.done st = .ok (H inputs.flatten) := hc.done hst
  rw [hashMemoryMulti, hall, ← hdone]
  rfl

theorem HashDescriptor.Computes.hashMemory_eq (hc : hash.Computes H R) (malloc : Bool) (outlen : Nat)
    (input : Octets) : hashMemory hash malloc outlen input =
      if outlen < hash.hashsize then .error .bufferOverflow
      else if malloc then .ok (H input) else .error .mem := by
  obtain ⟨st, hprocess, hst⟩ := hc.process hc.init input
  have hdone : hash.done st = .ok (H input) := hc.done hst
  rw [hashMemory, hprocess, ← hdone]
  rfl

end

end Xmhf.Crypto
