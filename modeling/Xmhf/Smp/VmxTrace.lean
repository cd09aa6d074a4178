import Xmhf.Smp.Vmx

/-!
# Rounds and increments of a VMX run

History variables over the model of `Smp.Vmx`; they change nothing in it (`tstep_st`). A round begins
when a core takes `g_vmx_lock_quiesce`. Kept for every resume signal is the round in which it was
raised, and for the resume counter the value last assigned to it and the increments stored since.
-/

namespace Xmhf.Smp.Vmx

open Xmhf.Trans

variable {n : Nat}

/-- What a step does to the rounds, the resume signals and the resume counter. -/
inductive Event (n : Nat)
  /-- Core `c` takes the quiesce lock. -/
  | acquire (c : Fin n)
  /-- An initiator stores `b` to the resume signal of core `k`. -/
  | signal (k : Fin n) (b : Bool)
  /-- An initiator stores `m` to the resume counter. -/
  | assign (m : Nat)
  /-- A core stores the new value of one of the three `g_vmx_quiesce_resume_counter++`. -/
  | increment
  | other
  deriving DecidableEq, Repr

/-- The event of core `c`'s next access. -/
def coreEvent (v : Variant n) (c : Fin n) (k : Core) : Event n :=
  match k.nmi with
  | .out =>
    match k.main with
    | .lockQuiesce => .acquire c
    | .endquiesce t =>
      match v.endquiesce[t]? with
      | some (.setResumeSignal j b) => .signal j b
      | some (.setResumeCounter m) => .assign m
      | _ => .other
    | _ => .other
  | .writeUpdated _ | .writeReloaded _ | .writeResumeCounter _ => .increment
  | _ => .other

/-- The event of a step. -/
def event (v : Variant n) (s : State n) : Act n → Event n
  | .run c => coreEvent v c (s.core c)
  | _ => .other

/-- Core `c` takes the quiesce lock in this step. -/
def Acquires (s : State n) (a : Act n) (c : Fin n) : Prop :=
  a = .run c ∧ (s.core c).nmi = .out ∧ (s.core c).main = .lockQuiesce

instance (s : State n) (a : Act n) (c : Fin n) : Decidable (Acquires s a c) :=
  inferInstanceAs (Decidable (_ ∧ _))

theorem event_acquire {v : Variant n} {s : State n} {a : Act n} {c : Fin n} :
    event v s a = .acquire c ↔ Acquires s a c := by
  cases a with
  | nmi d => simp [event, Acquires]
  | take d => simp [event, Acquires]
  | run d =>
    simp only [event, coreEvent, Acquires, Act.run.injEq]
    constructor
    · intro h
      split at h
      · split at h
        · cases h; exact ⟨rfl, ‹_›, ‹_›⟩
        · split at h <;> cases h
        · cases h
      all_goals cases h
    · rintro ⟨rfl, hn, hm⟩
      simp [hn, hm]

/-- A state with its history. -/
structure Traced (n : Nat) where
  st : State n
  /-- How often the quiesce lock has been taken. -/
  round : Nat
  /-- The round a core initiated last. -/
  mine : Fin n → Nat
  /-- The round in which a signal that is up was raised. -/
  raised : Fin n → Nat
  /-- The last value an initiator stored to the resume counter. -/
  assigned : Nat
  /-- The increments stored since. -/
  increments : Nat
  /-- The round of the last of them. -/
  bumped : Nat

/-- No round yet. -/
def tinit (n : Nat) : Traced n where
  st := init n
  round := 0
  mine := fun _ => 0
  raised := fun _ => 0
  assigned := 0
  increments := 0
  bumped := 0

/-- The history after an event that leads to `s`. -/
def Traced.record (t : Traced n) (s : State n) : Event n → Traced n
  | .acquire c => { t with st := s, round := t.round + 1, mine := Function.update t.mine c (t.round + 1) }
  | .signal k b =>
    { t with st := s, raised := Function.update t.raised k (if b then t.round else 0) }
  | .assign m => { t with st := s, assigned := m, increments := 0, bumped := 0 }
  | .increment => { t with st := s, increments := t.increments + 1, bumped := t.round }
  | .other => { t with st := s }

/-- A step of the model, recorded. -/
def tstep (v : Variant n) (t : Traced n) (a : Act n) : Option (Traced n) :=
  (step v t.st a).map fun s => t.record s (event v t.st a)

@[simp] theorem Traced.record_st (t : Traced n) (s : State n) (e : Event n) :
    (t.record s e).st = s := by
  cases e <;> rfl

theorem Traced.record_of_not_acquire {t : Traced n} {s : State n} {e : Event n}
    (h : ∀ c, e ≠ .acquire c) : (t.record s e).round = t.round ∧ (t.record s e).mine = t.mine := by
  cases e with
  | acquire c => exact (h c rfl).elim
  | _ => exact ⟨rfl, rfl⟩

theorem tstep_eq {v : Variant n} {t t' : Traced n} {a : Act n} (h : tstep v t a = some t') :
    step v t.st a = some t'.st ∧ t' = t.record t'.st (event v t.st a) := by
  simp only [tstep, Option.map_eq_some_iff] at h
  obtain ⟨s, hs, rfl⟩ := h
  exact ⟨by simpa using hs, by simp⟩

/-- **The history changes nothing**: recorded runs are the runs of the model. -/
theorem tstep_st {v : Variant n} {t : Traced n} (h : Reach (tstep v) anyStep (tinit n) t) :
    Reach (step v) anyStep (init n) t.st := by
  refine h.inv (I := fun t => Reach (step v) anyStep (init n) t.st) .init fun t a t' hr _ ht => ?_
  exact .step hr trivial (tstep_eq ht).1

end Xmhf.Smp.Vmx
