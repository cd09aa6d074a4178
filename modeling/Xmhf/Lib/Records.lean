import Mathlib.Data.List.Basic
import Xmhf.Lib.Word

/-!
# Records that follow each other in a table

* `next i` is the offset after the record at `i`, if there is one. `Path next i l j` says that the records
  at the offsets `l` stand between `i` and `j`; it is determined by `i` and its length (`Path.unique`).
* `recordNext` is `next` for records with a length, below a limit, and `recordsFrom` lists them.
* `recordLoop` is a loop over such records. Where they end with the table, it takes them in turn
  (`Path.recordLoop`).
* `RecordRun` is the loop without a bound on its rounds, with the records it takes (`recordLoop_iff`).
-/

namespace Xmhf.Records

open Xmhf.Word

variable {ι : Type*}

/-- The records at `l` lead from `i` to `j`. -/
inductive Path (next : ι → Option ι) : ι → List ι → ι → Prop
  | nil {i} : Path next i [] i
  | cons {i j k l} : next i = some j → Path next j l k → Path next i (i :: l) k

variable {next : ι → Option ι} {i j k : ι} {l l' : List ι}

theorem path_nil_iff : Path next i [] j ↔ i = j :=
  ⟨fun h => by cases h; rfl, fun h => h ▸ .nil⟩

theorem path_cons_iff : Path next i (k :: l) j ↔ k = i ∧ ∃ i', next i = some i' ∧ Path next i' l j := by
  constructor
  · intro h
    cases h with
    | cons hn hp => exact ⟨rfl, _, hn, hp⟩
  · rintro ⟨rfl, _, hn, hp⟩
    exact .cons hn hp

theorem Path.unique (h : Path next i l j) (h' : Path next i l' k) (hlen : l.length = l'.length) :
    l = l' ∧ j = k := by
  induction h generalizing l' with
  | nil =>
    obtain rfl := List.length_eq_zero_iff.1 hlen.symm
    exact ⟨rfl, path_nil_iff.1 h'⟩
  | @cons i i' k l hn _ ih =>
    cases h' with
    | nil => cases hlen
    | cons hn' hp' =>
      rw [hn] at hn'
      cases hn'
      obtain ⟨rfl, rfl⟩ := ih hp' (Nat.succ.inj hlen)
      exact ⟨rfl, rfl⟩

/-! ## Records with a length -/

section
variable (len : Nat → Nat) (limit : Nat)

/-- The offset after a record that is not empty. -/
def recordNext (i : Nat) : Option Nat := if i < limit ∧ 0 < len i then some (i + len i) else none

/-- The records from offset `i` on, `n` at most. -/
def recordsFrom : Nat → Nat → List Nat
  | 0, _ => []
  | n + 1, i => if i < limit ∧ 0 < len i then i :: recordsFrom n (i + len i) else []

/-- `do s = body(x, s), x += len(x); while(x < limit);` on a `u32`, in `n` rounds at most; `body` may halt. -/
def recordLoop {σ : Type*} (body : σ → Nat → Option σ) : Nat → Nat → σ → Option (Option σ)
  | 0, _, _ => none
  | n + 1, x, s =>
    match body s x with
    | none => some none
    | some s' => if add32 x (len x) < limit then recordLoop body n (add32 x (len x)) s' else some (some s')

/-- The records that `recordLoop` takes in its first `n` rounds. -/
def recordVisits {σ : Type*} (body : σ → Nat → Option σ) : Nat → Nat → σ → List Nat
  | 0, _, _ => []
  | n + 1, x, s => x ::
    match body s x with
    | none => []
    | some s' => if add32 x (len x) < limit then recordVisits body n (add32 x (len x)) s' else []

/-- The loop, for as long as it takes: the records it takes, and its result. -/
inductive RecordRun {σ : Type*} (body : σ → Nat → Option σ) : Nat → σ → List Nat → Option σ → Prop
  | halt {x : Nat} {s : σ} : body s x = none → RecordRun body x s [x] none
  | last {x : Nat} {s s' : σ} : body s x = some s' → limit ≤ add32 x (len x) →
      RecordRun body x s [x] (some s')
  | next {x : Nat} {s s' : σ} {l : List Nat} {r : Option σ} : body s x = some s' →
      add32 x (len x) < limit → RecordRun body (add32 x (len x)) s' l r → RecordRun body x s (x :: l) r

end

section
variable {len : Nat → Nat} {limit n : Nat} {i j : Nat} {l : List Nat} {σ : Type*}
  {body : σ → Nat → Option σ} {s : σ}

theorem ite_and_eq_some {α : Type*} {p q : Prop} [Decidable p] [Decidable q] {a b : α} :
    (if p ∧ q then some a else none) = some b ↔ p ∧ q ∧ b = a := by
  rw [Option.ite_none_right_eq_some, Option.some.injEq, and_assoc, eq_comm]

theorem recordNext_eq_some : recordNext len limit i = some j ↔ i < limit ∧ 0 < len i ∧ j = i + len i :=
  ite_and_eq_some

theorem Path.le (h : Path (recordNext len limit) i l j) : i ≤ j := by
  induction h with
  | nil => exact Nat.le_refl _
  | cons hn _ ih =>
    obtain ⟨-, -, rfl⟩ := recordNext_eq_some.1 hn
    omega

/-- **The loop takes the records in turn** where they end with the table. -/
theorem Path.recordLoop (h : Path (recordNext len limit) i l limit) (hl : l ≠ []) (hlim : limit < 2 ^ 32)
    (hn : l.length ≤ n) : recordLoop len limit body n i s = some (l.foldlM body s) := by
  induction l generalizing i s n with
  | nil => exact absurd rfl hl
  | cons k l ih =>
    obtain ⟨rfl, i', hnext, hp⟩ := path_cons_iff.1 h
    obtain ⟨n, rfl⟩ := Nat.exists_eq_add_one_of_ne_zero (Nat.ne_of_gt (Nat.zero_lt_of_lt hn))
    obtain ⟨-, -, rfl⟩ := recordNext_eq_some.1 hnext
    rw [Records.recordLoop, List.foldlM_cons, add32_of_lt (Nat.lt_of_le_of_lt hp.le hlim)]
    cases body s k with
    | none => rfl
    | some s' =>
      cases l with
      | nil =>
        have hend := path_nil_iff.1 hp
        simp [hend]
      | cons k' l =>
        obtain ⟨rfl, _, hnext', -⟩ := path_cons_iff.1 hp
        simp only [Option.bind_eq_bind, Option.bind_some]
        rw [if_pos (recordNext_eq_some.1 hnext').1]
        exact ih hp (List.cons_ne_nil _ _) (Nat.le_of_succ_le_succ hn)

theorem RecordRun.visits {r : Option σ} (h : RecordRun len limit body i s l r) :
    recordVisits len limit body n i s = l.take n := by
  induction h generalizing n with
  | halt hb =>
    cases n with
    | zero => rfl
    | succ n => rw [recordVisits, hb, List.take_succ_cons, List.take_nil]
  | last hb hlim =>
    cases n with
    | zero => rfl
    | succ n => rw [recordVisits, hb, List.take_succ_cons, List.take_nil]; simp [Nat.not_lt.2 hlim]
  | next hb hlim _ ih =>
    cases n with
    | zero => rfl
    | succ n => rw [recordVisits, hb, List.take_succ_cons, ← ih]; simp [hlim]

theorem RecordRun.loop {r : Option σ} (h : RecordRun len limit body i s l r) (hn : l.length ≤ n) :
    Records.recordLoop len limit body n i s = some r := by
  induction h generalizing n with
  | halt hb =>
    obtain ⟨n, rfl⟩ := Nat.exists_eq_add_one_of_ne_zero (Nat.ne_of_gt hn)
    rw [Records.recordLoop, hb]
  | last hb hlim =>
    obtain ⟨n, rfl⟩ := Nat.exists_eq_add_one_of_ne_zero (Nat.ne_of_gt hn)
    rw [Records.recordLoop, hb]
    exact if_neg (Nat.not_lt.2 hlim)
  | next hb hlim _ ih =>
    obtain ⟨n, rfl⟩ := Nat.exists_eq_add_one_of_ne_zero (Nat.ne_of_gt (Nat.zero_lt_of_lt hn))
    rw [Records.recordLoop, hb, ← ih (Nat.le_of_succ_le_succ hn)]
    exact if_pos hlim

/-- **The loop ends** just when it has a run. -/
theorem recordLoop_iff : (∃ n, (Records.recordLoop len limit body n i s).isSome) ↔
    ∃ l r, RecordRun len limit body i s l r := by
  constructor
  · rintro ⟨n, h⟩
    induction n generalizing i s with
    | zero => cases h
    | succ n ih =>
      rw [Records.recordLoop] at h
      cases hb : body s i with
      | none => exact ⟨_, _, .halt hb⟩
      | some s' =>
        by_cases hlim : add32 i (len i) < limit
        · rw [hb] at h
          obtain ⟨l, r, hrun⟩ := ih ((congrArg Option.isSome (if_pos hlim)).symm.trans h)
          exact ⟨_, _, .next hb hlim hrun⟩
        · exact ⟨_, _, .last hb (Nat.le_of_not_lt hlim)⟩
  · rintro ⟨l, r, h⟩
    exact ⟨l.length, by rw [h.loop (Nat.le_refl _)]; rfl⟩

end

end Xmhf.Records
