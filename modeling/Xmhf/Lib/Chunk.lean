import Xmhf.Lib.Memory
import Xmhf.Lib.Trans
import Xmhf.Lib.Word

/-!
# Transfers in chunks

`chunkLoop` is the loop `while(done < len)` that makes one chunk a round and adds its size to `done`, with
its invariant rule. `writeBytes` writes the bytes of a chunk at 32-bit pointers.

* `chunkLoop_tiles`: if every chunk can be made, is not empty and stays within the transfer, the loop ends,
  and its chunks tile a prefix of the transfer.
* `placed_of_chunkLoop`: if every chunk writes its bytes where they belong, all bytes are there in the end.
-/

namespace Xmhf.Chunk

open Xmhf.Memory Xmhf.Word

/-! ## The loop -/

section
variable {σ : Type*} (chunk : σ → Nat → Option (Option (σ × Nat))) (len : Nat)

/-- `while(done < len)`: `chunk s done` is the state after the next chunk and its size, `some none` gives
up. The result says whether the loop has come to its end. -/
def chunkLoop : Nat → Nat → σ → Option (Bool × σ)
  | 0, done, s => if done < len then none else some (true, s)
  | n + 1, done, s =>
    if done < len then
      (chunk s done).bind fun
        | some (s', k) => chunkLoop n (done + k) s'
        | none => some (false, s)
    else some (true, s)

variable {chunk len}

/-- **Invariant rule**: `P done s` holds before each chunk. -/
theorem chunkLoop_inv {P : Nat → σ → Prop}
    (hs : ∀ done s s' k, done < len → P done s → chunk s done = some (some (s', k)) → P (done + k) s')
    {n done : Nat} {s s' : σ} (h₀ : P done s) (h : chunkLoop chunk len n done s = some (true, s')) :
    ∃ done', len ≤ done' ∧ P done' s' := by
  induction n generalizing done s with
  | zero =>
    obtain ⟨hlen, h⟩ := Option.ite_none_left_eq_some.1 h
    cases h
    exact ⟨done, Nat.not_lt.1 hlen, h₀⟩
  | succ n ih =>
    rw [chunkLoop] at h
    by_cases hlen : done < len
    · rw [if_pos hlen] at h
      obtain ⟨next, hchunk, h⟩ := Option.bind_eq_some_iff.1 h
      cases next with
      | none => cases h
      | some next => exact ih (hs _ _ _ _ hlen h₀ hchunk) h
    · rw [if_neg hlen] at h
      cases h
      exact ⟨done, Nat.not_lt.1 hlen, h₀⟩

/-- Where no chunk is empty, as many rounds as there are bytes are enough. -/
theorem chunkLoop_eq_of_le (hpos : ∀ done s s' k, done < len → chunk s done = some (some (s', k)) → 1 ≤ k)
    {n n' done : Nat} (h : len ≤ done + n) (h' : len ≤ done + n') (s : σ) :
    chunkLoop chunk len n done s = chunkLoop chunk len n' done s := by
  induction n generalizing n' done s with
  | zero =>
    have hlen : ¬ done < len := by omega
    cases n' <;> simp [chunkLoop, hlen]
  | succ n ih =>
    by_cases hlen : done < len
    · obtain ⟨n', rfl⟩ : ∃ k, n' = k + 1 := ⟨n' - 1, by omega⟩
      simp only [chunkLoop, if_pos hlen]
      cases hchunk : chunk s done with
      | none => rfl
      | some next =>
        cases next with
        | none => rfl
        | some next =>
          have hk := hpos _ _ _ _ hlen hchunk
          exact ih (by omega) (by omega) _
    · cases n' <;> simp [chunkLoop, hlen]

end

/-! ## The bytes of a chunk -/

/-- `m` with `f 0`, `f 1`, ... in the `n` bytes from the pointer `dst` on. -/
def writeBytes (m : Mem) (dst : Nat) (f : Nat → BitVec 8) : Nat → Mem
  | 0 => m
  | n + 1 => Function.update (writeBytes m dst f n) (add32 dst n) (f n)

/-- A byte is that of the last write to it, or as before. -/
theorem writeBytes_cases (m : Mem) (dst : Nat) (f : Nat → BitVec 8) (n x : Nat) :
    (∃ i < n, add32 dst i = x ∧ writeBytes m dst f n x = f i) ∨
      (∀ i < n, add32 dst i ≠ x) ∧ writeBytes m dst f n x = m x := by
  induction n with
  | zero => exact Or.inr ⟨fun i hi => absurd hi (Nat.not_lt_zero i), rfl⟩
  | succ n ih =>
    by_cases hx : add32 dst n = x
    · subst hx
      exact Or.inl ⟨n, Nat.lt_succ_self n, rfl, Function.update_self ..⟩
    · have hold : writeBytes m dst f (n + 1) x = writeBytes m dst f n x :=
        Function.update_of_ne (Ne.symm hx) ..
      rw [hold]
      rcases ih with ⟨i, hi, hix, hval⟩ | ⟨hno, hval⟩
      · exact Or.inl ⟨i, Nat.lt_succ_of_lt hi, hix, hval⟩
      · refine Or.inr ⟨fun i hi => ?_, hval⟩
        rcases Nat.lt_succ_iff_lt_or_eq.1 hi with hlt | rfl
        · exact hno i hlt
        · exact hx

/-- A byte that is written, when the bytes do not come round to each other. -/
theorem writeBytes_add32 {m : Mem} {dst : Nat} {f : Nat → BitVec 8} {n i : Nat} (hn : n ≤ 2 ^ 32)
    (hi : i < n) : writeBytes m dst f n (add32 dst i) = f i := by
  rcases writeBytes_cases m dst f n (add32 dst i) with ⟨j, hj, hji, hval⟩ | ⟨hno, -⟩
  · have hsame : j = i := by
      unfold add32 at hji
      omega
    rw [hval, hsame]
  · exact absurd rfl (hno i hi)

/-- `memcpy` -/
def memcpy (m : Mem) (dst src n : Nat) : Mem := writeBytes m dst (fun i => m (add32 src i)) n

/-- `memset` -/
def memset (m : Mem) (dst : Nat) (c : BitVec 8) (n : Nat) : Mem := writeBytes m dst (fun _ => c) n

/-- `memset` below the end of the address space. -/
theorem memset_apply {m : Mem} {dst n : Nat} (c : BitVec 8) (h : dst + n ≤ 2 ^ 32) (x : Nat) :
    memset m dst c n x = if dst ≤ x ∧ x < dst + n then c else m x := by
  have hadd : ∀ i < n, add32 dst i = dst + i := fun i hi => add32_of_lt (by omega)
  rcases writeBytes_cases m dst (fun _ => c) n x with ⟨i, hi, hix, hval⟩ | ⟨hno, hval⟩
  · rw [hadd i hi] at hix
    rw [memset, hval, if_pos (by omega)]
  · rw [memset, hval, if_neg fun hx => ?_]
    have := hno (x - dst) (by omega)
    rw [hadd _ (by omega)] at this
    omega

/-! ## Tilings -/

/-- The bytes from `start` on, `size` of them, go to the pointer `dst`. -/
structure Move where
  start : Nat
  size : Nat
  dst : Nat
  bytes : Nat → BitVec 8

/-- `m` after the move -/
def Move.write (m : Mem) (mv : Move) : Mem := writeBytes m mv.dst mv.bytes mv.size

/-- The moves follow one another from `a` to `b`, and none is empty. -/
inductive Tiles : Nat → List Move → Nat → Prop
  | nil (a : Nat) : Tiles a [] a
  | cons {mv : Move} {mvs : List Move} {b : Nat} : 1 ≤ mv.size → Tiles (mv.start + mv.size) mvs b →
      Tiles mv.start (mv :: mvs) b

/-- **Progress rule**: a loop whose chunks can always be made ends after as many rounds as there are bytes,
and has then made moves that tile what it got to. -/
theorem chunkLoop_tiles {chunk : Mem → Nat → Option (Option (Mem × Nat))} {len : Nat}
    {R : Mem → Move → Prop} (hchunk : ∀ s done, done < len → chunk s done = some none ∨
      ∃ mv, chunk s done = some (some (mv.write s, mv.size)) ∧ R s mv ∧ mv.start = done ∧ 1 ≤ mv.size ∧
        done + mv.size ≤ len)
    {n done : Nat} (hn : len ≤ done + n) (hdone : done ≤ len) (s : Mem) :
    ∃ mvs stop, Tiles done mvs stop ∧ Trans.Along Move.write R s mvs ∧ stop ≤ len ∧
      chunkLoop chunk len n done s = some (decide (stop = len), mvs.foldl Move.write s) := by
  induction n generalizing done s with
  | zero =>
    obtain rfl : done = len := by omega
    exact ⟨[], done, .nil _, trivial, Nat.le_refl _, by simp [chunkLoop]⟩
  | succ n ih =>
    rcases Nat.lt_or_eq_of_le hdone with hlt | rfl
    · rcases hchunk s done hlt with hnone | ⟨mv, hsome, hR, rfl, hpos, hle⟩
      · refine ⟨[], done, .nil _, trivial, hdone, ?_⟩
        simp [chunkLoop, hlt, hnone, Nat.ne_of_lt hlt]
      · obtain ⟨mvs, stop, htiles, halong, hstop, hloop⟩ := ih (by omega) hle (mv.write s)
        refine ⟨mv :: mvs, stop, .cons hpos htiles, ⟨hR, halong⟩, hstop, ?_⟩
        simp [chunkLoop, hlt, hsome, hloop]
    · exact ⟨[], done, .nil _, trivial, Nat.le_refl _, by simp [chunkLoop]⟩

/-! ## A whole transfer -/

section
variable {place : Nat → Option Nat} {val : Nat → Option (BitVec 8)} {len : Nat} {m : Mem}
  {chunk : Mem → Nat → Option (Option (Mem × Nat))}

/-- The memories on the way: those that agree with `m` but for the places of the transfer. -/
def Within (place : Nat → Option Nat) (len : Nat) (m s : Mem) : Prop :=
  ∀ x, (∀ i < len, place i ≠ some x) → s x = m x

/-- The first `done` bytes are in place. -/
structure Placed (place : Nat → Option Nat) (val : Nat → Option (BitVec 8)) (len : Nat) (m : Mem)
    (done : Nat) (s : Mem) : Prop where
  le : done ≤ len
  within : Within place len m s
  placed : ∀ i < done, ∃ x, place i = some x ∧ val i = some (s x)

/-- The bytes from `done` on, `k` of them, go from `f` to the pointer `dst`. -/
def Moves (place : Nat → Option Nat) (val : Nat → Option (BitVec 8)) (done k dst : Nat)
    (f : Nat → BitVec 8) : Prop :=
  ∀ i < k, place (done + i) = some (add32 dst i) ∧ val (done + i) = some (f i)

/-- A chunk that moves its bytes to their places. -/
theorem Placed.move {done k dst : Nat} {s : Mem} {f : Nat → BitVec 8} (h : Placed place val len m done s)
    (hle : done + k ≤ len) (hf : Moves place val done k dst f)
    (halias : ∀ i < len, ∀ j < len, ∀ x, place i = some x → place j = some x → val i = val j) :
    Placed place val len m (done + k) (writeBytes s dst f k) := by
  refine ⟨hle, ?_, ?_⟩
  · intro x hx
    rcases writeBytes_cases s dst f k x with ⟨i, hi, hix, -⟩ | ⟨-, hval⟩
    · exact absurd ((hf i hi).1.trans (congrArg some hix)) (hx (done + i) (by omega))
    · rw [hval, h.within x hx]
  · intro i hi
    -- a byte that the chunk writes has the value of each `i` that is placed there
    have hput : ∀ x, place i = some x → ∀ j < k, add32 dst j = x → writeBytes s dst f k x = f j →
        val i = some (writeBytes s dst f k x) := by
      intro x hx j hj hjx hval
      obtain ⟨hat, hfj⟩ := hf j hj
      rw [hjx] at hat
      rw [hval, ← hfj, halias _ (by omega) (done + j) (by omega) x hx hat]
    rcases Nat.lt_or_ge i done with hold | hnew
    · obtain ⟨x, hx, hsx⟩ := h.placed i hold
      refine ⟨x, hx, ?_⟩
      rcases writeBytes_cases s dst f k x with ⟨j, hj, hjx, hval⟩ | ⟨-, hval⟩
      · exact hput x hx j hj hjx hval
      · rw [hval, hsx]
    · have hat := (hf (i - done) (by omega)).1
      rw [Nat.add_sub_cancel' hnew] at hat
      refine ⟨_, hat, ?_⟩
      rcases writeBytes_cases s dst f k (add32 dst (i - done)) with ⟨j, hj, hjx, hval⟩ | ⟨hno, -⟩
      · exact hput _ hat j hj hjx hval
      · exact absurd rfl (hno (i - done) (by omega))

/-- **A transfer in chunks.** If every chunk moves its bytes to their places, and bytes with one place
are the same, then the loop puts all bytes in place. -/
theorem placed_of_chunkLoop
    (hchunk : ∀ done s s' k, done < len → Within place len m s → chunk s done = some (some (s', k)) →
      done + k ≤ len ∧ ∃ dst f, Moves place val done k dst f ∧ s' = writeBytes s dst f k)
    (halias : ∀ i < len, ∀ j < len, ∀ x, place i = some x → place j = some x → val i = val j)
    {n : Nat} {s' : Mem} (h : chunkLoop chunk len n 0 m = some (true, s')) :
    Placed place val len m len s' := by
  have hstart : Placed place val len m 0 m :=
    ⟨Nat.zero_le len, fun _ _ => rfl, fun i hi => absurd hi (Nat.not_lt_zero i)⟩
  have hstep : ∀ done s s' k, done < len → Placed place val len m done s →
      chunk s done = some (some (s', k)) → Placed place val len m (done + k) s' := by
    intro done s s' k hlen hp hc
    obtain ⟨hle, dst, f, hf, rfl⟩ := hchunk done s s' k hlen hp.within hc
    exact hp.move hle hf halias
  obtain ⟨done, hlen, hp⟩ := chunkLoop_inv hstep hstart h
  obtain rfl : done = len := Nat.le_antisymm hp.le hlen
  exact hp

end

end Xmhf.Chunk
