import Mathlib.Logic.Relation

/-!
# Runs of a step function

A system is a step function `σ → α → Option σ` (`none`: the action is not enabled). `run` takes a
list of actions; `Reach step ok s₀ s` says that some run from `s₀` ends in `s`, every action of it
meeting `ok` in the state where it is taken. `Reach.inv` is the invariant rule, `run_of_inv` the rule for
systems whose invariant enables every action.

`Along step P s as` is for steps that are always enabled: `P` holds of each action of a run where it is
taken. `along_congr` changes the property under an invariant.
-/

namespace Xmhf.Trans

variable {σ α : Type*}

/-- The state after the actions `as`, if each of them is enabled where it is taken. -/
def run (step : σ → α → Option σ) : σ → List α → Option σ
  | s, [] => some s
  | s, a :: as => (step s a).bind fun s' => run step s' as

/-- The states reached from `s₀` by steps that all meet `ok`. -/
inductive Reach (step : σ → α → Option σ) (ok : σ → α → Prop) (s₀ : σ) : σ → Prop
  | init : Reach step ok s₀ s₀
  | step {s s' : σ} {a : α} : Reach step ok s₀ s → ok s a → step s a = some s' →
      Reach step ok s₀ s'

/-- The step function with the actions that miss `ok` disabled. -/
def checked (step : σ → α → Option σ) (ok : σ → α → Prop) [∀ s a, Decidable (ok s a)] (s : σ)
    (a : α) : Option σ :=
  if ok s a then step s a else none

/-- No condition on the steps. -/
def anyStep : σ → α → Prop := fun _ _ => True

instance (s : σ) (a : α) : Decidable (anyStep s a) := isTrue trivial

/-- **Progress rule**: where an invariant enables every action, every list of actions is a run. -/
theorem run_of_inv {step : σ → α → Option σ} {I : σ → Prop}
    (hs : ∀ s a, I s → ∃ s', step s a = some s' ∧ I s') {s : σ} (h : I s) (as : List α) :
    ∃ s', run step s as = some s' ∧ I s' := by
  induction as generalizing s with
  | nil => exact ⟨s, rfl, h⟩
  | cons a as ih =>
    obtain ⟨s₁, hstep, h₁⟩ := hs s a h
    obtain ⟨s', hrun, h'⟩ := ih h₁
    exact ⟨s', by rw [run, hstep]; exact hrun, h'⟩

namespace Reach

variable {step : σ → α → Option σ} {ok ok' : σ → α → Prop} {s₀ s : σ}

/-- **Invariant rule**: what holds at the start and is kept by every allowed step holds in every
state reached. -/
theorem inv {I : σ → Prop} (h : Reach step ok s₀ s) (h₀ : I s₀)
    (hs : ∀ s a s', I s → ok s a → step s a = some s' → I s') : I s := by
  induction h with
  | init => exact h₀
  | step _ hok hst ih => exact hs _ _ _ ih hok hst

theorem mono (h : Reach step ok s₀ s) (hok : ∀ s a, ok s a → ok' s a) :
    Reach step ok' s₀ s := by
  induction h with
  | init => exact .init
  | step _ ha hst ih => exact .step ih (hok _ _ ha) hst

theorem any (h : Reach step ok s₀ s) : Reach step anyStep s₀ s :=
  h.mono fun _ _ _ => trivial

/-- A run whose actions are checked against `ok` one by one reaches its last state. -/
theorem of_checked [∀ s a, Decidable (ok s a)] {as : List α} {t : σ}
    (h : run (checked step ok) s as = some t) (hr : Reach step ok s₀ s) : Reach step ok s₀ t := by
  induction as generalizing s with
  | nil => cases h; exact hr
  | cons a as ih =>
    simp only [run, checked, Option.bind_eq_some_iff, Option.ite_none_right_eq_some] at h
    obtain ⟨s', ⟨hok, hst⟩, h'⟩ := h
    exact ih h' (.step hr hok hst)

/-- A state with `P`, found by running `as` with every action checked against `ok`. -/
theorem exists_of_checked [∀ s a, Decidable (ok s a)] (as : List α) {P : σ → Prop}
    [DecidablePred P] (h : ((run (checked step ok) s₀ as).any fun t => P t) = true) :
    ∃ t, Reach step ok s₀ t ∧ P t := by
  obtain ⟨t, ht, hp⟩ := (Option.any_eq_true ..).1 h
  exact ⟨t, of_checked ht .init, of_decide_eq_true hp⟩

end Reach

/-! ## Along a run -/

/-- `P` holds of each of the actions in the state where it is taken. -/
def Along (step : σ → α → σ) (P : σ → α → Prop) : σ → List α → Prop
  | _, [] => True
  | s, a :: as => P s a ∧ Along step P (step s a) as

section
variable {step : σ → α → σ} {P Q : σ → α → Prop} {J : σ → Prop}

/-- **Congruence rule**: two properties that agree in every state of an invariant agree along a run. -/
theorem along_congr (hstep : ∀ s a, J s → J (step s a)) (hPQ : ∀ s a, J s → (P s a ↔ Q s a)) {s : σ}
    (hs : J s) (as : List α) : Along step P s as ↔ Along step Q s as := by
  induction as generalizing s with
  | nil => exact Iff.rfl
  | cons a as ih => exact and_congr (hPQ s a hs) (ih (hstep s a hs))

theorem along_of_inv (hstep : ∀ s a, J s → J (step s a)) (hP : ∀ s a, J s → P s a) {s : σ} (hs : J s)
    (as : List α) : Along step P s as := by
  induction as generalizing s with
  | nil => trivial
  | cons a as ih => exact ⟨hP s a hs, ih (hstep s a hs)⟩

end

end Xmhf.Trans
