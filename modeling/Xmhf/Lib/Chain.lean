import Mathlib.Logic.Relation

/-!
# Linked lists followed by a link

`next p` is the block after `p`, if there is one, and `hit p` says that `p` is a block that is looked
for. Links are arbitrary: a list may end, or run into itself.

* `search` follows the links with a bound on the rounds. It finds `h` in some number of rounds just when
  `h` is the first hit (`search_eq_some_some`), and comes to the end just when the list has one and no
  hit (`search_eq_some_none`).
* There is a first hit if and only if some block of the list is a hit (`exists_firstHit_iff`), and only
  one (`FirstHit.unique`).
-/

namespace Xmhf.Chain

variable {P : Type*}

/-- `h` is the first hit of the list from a block on. -/
inductive FirstHit (next : P → Option P) (hit : P → Bool) : P → P → Prop
  | here {p} : hit p = true → FirstHit next hit p p
  | next {p q h} : hit p = false → next p = some q → FirstHit next hit q h → FirstHit next hit p h

/-- The list from a block on has an end, and no hit. -/
inductive Ends (next : P → Option P) (hit : P → Bool) : P → Prop
  | last {p} : hit p = false → next p = none → Ends next hit p
  | next {p q} : hit p = false → next p = some q → Ends next hit q → Ends next hit p

/-- The first hit of the list from a block on, or `none` at its end, in `n` rounds at most. -/
def search (next : P → Option P) (hit : P → Bool) : Nat → P → Option (Option P)
  | 0, _ => none
  | n + 1, p =>
    if hit p then some (some p)
    else match next p with
      | some q => search next hit n q
      | none => some none

variable {next : P → Option P} {hit : P → Bool} {p q h h' : P} {n n' : Nat} {res : Option P}

/-- More rounds do not change the result. -/
theorem search_mono (hs : search next hit n p = some res) (hn : n ≤ n') :
    search next hit n' p = some res := by
  induction n generalizing p n' with
  | zero => cases hs
  | succ n ih =>
    obtain ⟨n', rfl⟩ := Nat.exists_eq_add_one_of_ne_zero (Nat.ne_of_gt (Nat.zero_lt_of_lt hn))
    unfold search at hs ⊢
    split
    · next hp => rwa [if_pos hp] at hs
    · next hp =>
      rw [if_neg hp] at hs
      cases hnext : next p with
      | none => rwa [hnext] at hs
      | some q =>
        rw [hnext] at hs
        exact ih hs (Nat.le_of_succ_le_succ hn)

/-- **The search finds** the first hit. -/
theorem search_eq_some_some : (∃ n, search next hit n p = some (some h)) ↔ FirstHit next hit p h := by
  constructor
  · rintro ⟨n, hs⟩
    induction n generalizing p with
    | zero => cases hs
    | succ n ih =>
      unfold search at hs
      by_cases hp : hit p = true
      · rw [if_pos hp] at hs
        cases hs
        exact .here hp
      · rw [if_neg hp] at hs
        cases hnext : next p with
        | none => rw [hnext] at hs; cases hs
        | some q =>
          rw [hnext] at hs
          exact .next (Bool.eq_false_iff.2 hp) hnext (ih hs)
  · intro hf
    induction hf with
    | here hp => exact ⟨1, by rw [search, if_pos hp]⟩
    | next hp hnext _ ih =>
      obtain ⟨n, hs⟩ := ih
      exact ⟨n + 1, by rw [search, hp, hnext]; exact hs⟩

/-- **The search comes to the end** of a list without a hit. -/
theorem search_eq_some_none : (∃ n, search next hit n p = some none) ↔ Ends next hit p := by
  constructor
  · rintro ⟨n, hs⟩
    induction n generalizing p with
    | zero => cases hs
    | succ n ih =>
      unfold search at hs
      by_cases hp : hit p = true
      · rw [if_pos hp] at hs
        cases hs
      · rw [if_neg hp] at hs
        cases hnext : next p with
        | none => exact .last (Bool.eq_false_iff.2 hp) hnext
        | some q =>
          rw [hnext] at hs
          exact .next (Bool.eq_false_iff.2 hp) hnext (ih hs)
  · intro he
    induction he with
    | last hp hnext => exact ⟨1, by rw [search, hp, hnext]; rfl⟩
    | next hp hnext _ ih =>
      obtain ⟨n, hs⟩ := ih
      exact ⟨n + 1, by rw [search, hp, hnext]; exact hs⟩

theorem FirstHit.unique (h₁ : FirstHit next hit p h) (h₂ : FirstHit next hit p h') : h = h' := by
  induction h₁ with
  | here hp =>
    cases h₂ with
    | here => rfl
    | next hp' => rw [hp] at hp'; cases hp'
  | next hp hnext _ ih =>
    cases h₂ with
    | here hp' => rw [hp] at hp'; cases hp'
    | next _ hnext' h₂ =>
      rw [hnext] at hnext'
      cases hnext'
      exact ih h₂

theorem FirstHit.isHit (hf : FirstHit next hit p h) : hit h = true := by
  induction hf with
  | here hp => exact hp
  | next _ _ _ ih => exact ih

/-- `q` is a block of the list from `p` on. -/
def InList (next : P → Option P) (p q : P) : Prop :=
  Relation.ReflTransGen (fun a b => next a = some b) p q

theorem exists_firstHit_iff : (∃ h, FirstHit next hit p h) ↔ ∃ q, InList next p q ∧ hit q = true := by
  constructor
  · rintro ⟨h, hf⟩
    refine ⟨h, ?_, hf.isHit⟩
    induction hf with
    | here => exact .refl
    | next _ hnext _ ih => exact .head hnext ih
  · rintro ⟨q, hb, hq⟩
    induction hb using Relation.ReflTransGen.head_induction_on with
    | refl => exact ⟨q, .here hq⟩
    | @head a b hab _ ih =>
      obtain ⟨h, hf⟩ := ih
      cases ha : hit a with
      | true => exact ⟨a, .here ha⟩
      | false => exact ⟨h, .next ha hab hf⟩

end Xmhf.Chain
