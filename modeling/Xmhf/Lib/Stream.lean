import Mathlib.Data.List.Basic
import Mathlib.Tactic.Common

/-!
# Streams in blocks

A stream is taken in pieces of any length, and a state moves on with every full block of `n` elements.

* `absorb_append`: the pieces do not matter, only what they are together.
* `absorb_of_lt`, `absorb_of_eq`: a piece that does not complete a block, and one that completes it.
* `length_absorb`: how many elements wait for the next block.
* `absorb_fst`: after whole blocks, the state is that of the blocks one after another.
-/

namespace Xmhf.Stream

variable {α σ : Type*} (n : Nat) (f : σ → List α → σ)

/-- One element more. It waits until there is a block of `n`. -/
def push (q : σ × List α) (a : α) : σ × List α :=
  if q.2.length + 1 = n then (f q.1 (q.2 ++ [a]), []) else (q.1, q.2 ++ [a])

/-- The elements of a piece, one after another. -/
def absorb (q : σ × List α) (l : List α) : σ × List α := l.foldl (push n f) q

/-- The blocks of `l`, one after another. What is left over is dropped. -/
def foldBlocks (s : σ) (l : List α) : σ :=
  if _h : 0 < n ∧ n ≤ l.length then foldBlocks (f s (l.take n)) (l.drop n) else s
termination_by l.length
decreasing_by
  rw [List.length_drop]
  omega

variable {n f} {q : σ × List α} {s : σ} {l l' : List α}

@[simp] theorem absorb_nil : absorb n f q [] = q := rfl

theorem absorb_append : absorb n f q (l ++ l') = absorb n f (absorb n f q l) l' := List.foldl_append

theorem absorb_of_lt (h : q.2.length + l.length < n) : absorb n f q l = (q.1, q.2 ++ l) := by
  induction l generalizing q with
  | nil => rw [absorb_nil, List.append_nil]
  | cons a l ih =>
    rw [List.length_cons] at h
    have hpush : push n f q a = (q.1, q.2 ++ [a]) := if_neg (by omega)
    calc absorb n f q (a :: l) = absorb n f (push n f q a) l := rfl
      _ = (q.1, q.2 ++ [a] ++ l) := by
        rw [hpush, ih (by simp only [List.length_append, List.length_singleton]; omega)]
      _ = (q.1, q.2 ++ a :: l) := by rw [List.append_assoc, List.singleton_append]

theorem absorb_of_eq (h : q.2.length + l.length = n) (hl : l ≠ []) : absorb n f q l = (f q.1 (q.2 ++ l), []) := by
  obtain ⟨l, a, rfl⟩ := List.eq_nil_or_concat l |>.resolve_left hl
  rw [List.concat_eq_append, List.length_append, List.length_singleton] at h
  have hshort : absorb n f q l = (q.1, q.2 ++ l) := absorb_of_lt (by omega)
  have hfull : (q.2 ++ l).length + 1 = n := by rw [List.length_append]; omega
  calc absorb n f q (l.concat a) = push n f (absorb n f q l) a := by
        rw [List.concat_eq_append, absorb_append]
        rfl
    _ = (f q.1 (q.2 ++ l ++ [a]), []) := by rw [hshort]; exact if_pos hfull
    _ = (f q.1 (q.2 ++ l.concat a), []) := by rw [List.append_assoc, List.concat_eq_append]

theorem length_push (h : q.2.length < n) (a : α) : (push n f q a).2.length = (q.2.length + 1) % n := by
  unfold push
  split
  · next heq => rw [heq, Nat.mod_self]; rfl
  · rw [Nat.mod_eq_of_lt (by omega), List.length_append]
    rfl

theorem length_absorb (h : q.2.length < n) : (absorb n f q l).2.length = (q.2.length + l.length) % n := by
  induction l generalizing q with
  | nil => rw [absorb_nil, List.length_nil, Nat.add_zero, Nat.mod_eq_of_lt h]
  | cons a l ih =>
    have hpush := length_push (f := f) h a
    have hlt : (push n f q a).2.length < n := hpush ▸ Nat.mod_lt _ (Nat.zero_lt_of_lt h)
    calc (absorb n f q (a :: l)).2.length = (absorb n f (push n f q a) l).2.length := rfl
      _ = ((q.2.length + 1) % n + l.length) % n := by rw [ih hlt, hpush]
      _ = (q.2.length + (a :: l).length) % n := by
        rw [Nat.mod_add_mod, List.length_cons, Nat.add_assoc, Nat.add_comm 1]

/-- **Whole blocks** are taken one after another. -/
theorem absorb_fst (hn : 0 < n) (h : l.length % n = 0) : (absorb n f (s, []) l).1 = foldBlocks n f s l := by
  induction hk : l.length / n generalizing s l with
  | zero =>
    have hzero : l.length = 0 := by
      have := Nat.div_add_mod l.length n
      rw [hk, h] at this
      omega
    rw [foldBlocks, dif_neg (by omega), List.eq_nil_of_length_eq_zero hzero, absorb_nil]
  | succ k ih =>
    have hlen : l.length = n * k + n := by
      have := Nat.div_add_mod l.length n
      rw [hk, h, Nat.mul_succ] at this
      omega
    have htake : (l.take n).length = n := by rw [List.length_take]; omega
    have hdrop : (l.drop n).length = n * k := by rw [List.length_drop]; omega
    have hblock : absorb n f (s, []) (l.take n) = (f s (l.take n), []) :=
      absorb_of_eq (by simpa using htake) (List.ne_nil_of_length_pos (by omega))
    calc (absorb n f (s, []) l).1 = (absorb n f (absorb n f (s, []) (l.take n)) (l.drop n)).1 := by
          rw [← absorb_append, List.take_append_drop]
      _ = foldBlocks n f (f s (l.take n)) (l.drop n) := by
        rw [hblock, ih (by rw [hdrop, Nat.mul_mod_right]) (by rw [hdrop, Nat.mul_div_cancel_left k hn])]
      _ = foldBlocks n f s l := by rw [foldBlocks.eq_def n f s l, dif_pos ⟨hn, by omega⟩]

end Xmhf.Stream
