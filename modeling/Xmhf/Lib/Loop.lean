import Mathlib.Data.List.Basic
import Xmhf.Lib.Word

/-!
# Loops

The loops of the source with their rules.

* `forLoop n f s` is `for(i = 0; i < n; i++) s = f(i, s)`, with its invariant rule; `forLoop_add` and `forLoop_mul`
  cut it into parts.
* `stepLoop` is a loop over addresses with an inclusive bound and a 32-bit counter; it ends and keeps an
  invariant if the step after the bound does not wrap (`stepLoop_inv`).
* `pollLoop` reads a register until it is not busy, and `Settles` says that a register becomes so.
* `foldlM_range_inv` is the invariant rule of a counted loop that may fail, and `allM_eq_true` and `anyM_eq_true`
  say what a search that may fail has found.
-/

namespace Xmhf.Loop

open Xmhf.Word

variable {σ : Type*}

/-- `for(i = 0; i < n; i++) s = f(i, s)` -/
def forLoop : Nat → (Nat → σ → σ) → σ → σ
  | 0, _, s => s
  | n + 1, f, s => f n (forLoop n f s)

/-- **Invariant rule**: `P i` holds before round `i`. -/
theorem forLoop_inv {n : Nat} {f : Nat → σ → σ} {s : σ} {P : Nat → σ → Prop} (h₀ : P 0 s)
    (hs : ∀ i s, i < n → P i s → P (i + 1) (f i s)) : P n (forLoop n f s) := by
  induction n with
  | zero => exact h₀
  | succ n ih => exact hs n _ (Nat.lt_succ_self n) (ih fun i s hi => hs i s (by omega))

/-- A loop in two parts. -/
theorem forLoop_add (m n : Nat) (f : Nat → σ → σ) (s : σ) :
    forLoop (m + n) f s = forLoop n (fun i => f (m + i)) (forLoop m f s) := by
  induction n with
  | zero => rfl
  | succ n ih => rw [← Nat.add_assoc, forLoop, forLoop, ih]

theorem forLoop_congr {n : Nat} {f g : Nat → σ → σ} {s : σ} (h : ∀ i s, i < n → f i s = g i s) :
    forLoop n f s = forLoop n g s := by
  induction n with
  | zero => rfl
  | succ n ih => rw [forLoop, forLoop, ih fun i s hi => h i s (by omega), h n _ (Nat.lt_succ_self n)]

/-- Rounds of `k` at a time. -/
theorem forLoop_mul (n k : Nat) (f : Nat → σ → σ) (s : σ) :
    forLoop (n * k) f s = forLoop n (fun j => forLoop k fun i => f (j * k + i)) s := by
  induction n with
  | zero => rw [Nat.zero_mul]; rfl
  | succ n ih => rw [Nat.succ_mul, forLoop_add, ih, forLoop]

/-- **Invariant rule** of a loop that may fail: round `i` succeeds where `P i` holds, and gives `P (i + 1)`. -/
theorem foldlM_range_inv {n : Nat} {f : σ → Nat → Option σ} {s : σ} {P : Nat → σ → Prop} (h₀ : P 0 s)
    (hs : ∀ i s, i < n → P i s → ∃ s', f s i = some s' ∧ P (i + 1) s') :
    ∃ s', (List.range n).foldlM f s = some s' ∧ P n s' := by
  induction n with
  | zero => exact ⟨s, rfl, h₀⟩
  | succ n ih =>
    obtain ⟨s₁, hrun, h₁⟩ := ih fun i s hi => hs i s (by omega)
    obtain ⟨s', hf, h'⟩ := hs n s₁ (Nat.lt_succ_self n) h₁
    refine ⟨s', ?_, h'⟩
    rw [List.range_succ, List.foldlM_append, hrun]
    simp [hf]

section
variable {α : Type*} {l : List α} {p : α → Option Bool}

theorem allM_eq_true (h : l.allM p = some true) {a : α} (ha : a ∈ l) : p a = some true := by
  induction l with
  | nil => cases ha
  | cons b l ih =>
    rw [List.allM_cons] at h
    cases hb : p b with
    | none => simp [hb] at h
    | some v =>
      cases v
      · simp [hb] at h
      · simp only [hb, Option.bind_eq_bind, Option.bind_some] at h
        rcases List.mem_cons.1 ha with rfl | hmem
        · exact hb
        · exact ih h hmem

theorem anyM_eq_true (h : l.anyM p = some true) : ∃ a ∈ l, p a = some true := by
  induction l with
  | nil => cases h
  | cons b l ih =>
    rw [List.anyM_cons] at h
    cases hb : p b with
    | none => simp [hb] at h
    | some v =>
      cases v
      · simp only [hb, Option.bind_eq_bind, Option.bind_some] at h
        obtain ⟨a, ha, hp⟩ := ih h
        exact ⟨a, List.mem_cons_of_mem b ha, hp⟩
      · exact ⟨b, List.mem_cons_self, hb⟩

end

/-! ## Loops over addresses -/

/-- `for(; x <= last; x += c) s = f(x, s)` on a `u32`, in `n` rounds at most. -/
def stepLoop (c last : Nat) (f : Nat → σ → Option σ) : Nat → Nat → σ → Option σ
  | 0, _, _ => none
  | n + 1, x, s => if x ≤ last then (f x s).bind (stepLoop c last f n (add32 x c)) else some s

/-- **Invariant rule**: `P x` holds before the round at `x`, and when the loop ends, past the bound. -/
theorem stepLoop_inv {c last n x : Nat} {f : Nat → σ → Option σ} {s : σ} {P : Nat → σ → Prop}
    (hlast : last + c < 2 ^ 32) (hx : x ≤ last + c) (hn : last + c < x + n * c) (h₀ : P x s)
    (hs : ∀ y s, y ≤ last → P y s → ∃ s', f y s = some s' ∧ P (y + c) s') :
    ∃ y s', stepLoop c last f n x s = some s' ∧ last < y ∧ y ≤ last + c ∧ P y s' := by
  induction n generalizing x s with
  | zero => omega
  | succ n ih =>
    by_cases hle : x ≤ last
    · obtain ⟨s', hf, h'⟩ := hs x s hle h₀
      have hadd : add32 x c = x + c := add32_of_lt (by omega)
      have hn' : last + c < x + c + n * c := by
        rw [Nat.succ_mul] at hn
        omega
      obtain ⟨y, s'', hloop, hy⟩ := ih (by omega) hn' h'
      exact ⟨y, s'', by rw [stepLoop, if_pos hle, hf, Option.bind_some, hadd, hloop], hy⟩
    · exact ⟨x, s, by rw [stepLoop, if_neg hle], Nat.lt_of_not_le hle, hx, h₀⟩

/-! ## Polling -/

section
variable {α : Type*}

/-- `do v = rd(); while(busy(v));`, in `n` rounds at most. -/
def pollLoop (rd : σ → Option (α × σ)) (busy : α → Bool) : Nat → σ → Option (α × σ)
  | 0, _ => none
  | n + 1, s => (rd s).bind fun q => if busy q.1 then pollLoop rd busy n q.2 else some q

/-- After `k` busy reads, a read that is not busy gives `Done`. -/
inductive Settles (rd : σ → Option (α × σ)) (busy : α → Bool) (Done : α → σ → Prop) : Nat → σ → Prop
  | now {s v s'} : rd s = some (v, s') → busy v = false → Done v s' → Settles rd busy Done 0 s
  | wait {k s v s'} : rd s = some (v, s') → busy v = true → Settles rd busy Done k s' →
      Settles rd busy Done (k + 1) s

/-- **Polling ends** on a register that settles, with the same result however many rounds there are. -/
theorem Settles.pollLoop {rd : σ → Option (α × σ)} {busy : α → Bool} {Done : α → σ → Prop} {k : Nat}
    {s : σ} (h : Settles rd busy Done k s) :
    ∃ v s', Done v s' ∧ ∀ n, k < n → pollLoop rd busy n s = some (v, s') := by
  induction h with
  | @now s v s' hrd hb hd =>
    refine ⟨v, s', hd, fun n hn => ?_⟩
    obtain ⟨n, rfl⟩ := Nat.exists_eq_add_one_of_ne_zero (Nat.ne_of_gt hn)
    simp [Loop.pollLoop, hrd, hb]
  | @wait k s v s' hrd hb _ ih =>
    obtain ⟨w, s'', hd, hp⟩ := ih
    refine ⟨w, s'', hd, fun n hn => ?_⟩
    obtain ⟨n, rfl⟩ := Nat.exists_eq_add_one_of_ne_zero (Nat.ne_of_gt (Nat.zero_lt_of_lt hn))
    rw [Loop.pollLoop, hrd, Option.bind_some, if_pos hb, hp n (Nat.lt_of_succ_lt_succ hn)]

end

end Xmhf.Loop
