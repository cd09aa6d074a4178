import Xmhf.Smp.Svm
import Xmhf.Lib.Count

/-!
# The invariant of the SVM quiesce protocol

`Access n g k g' k'` lists what one access of a core, or taking an NMI, can do (`step_access`); the
facts of one access are read off it. `Inv` is the invariant of every run, whatever NMIs arrive:

* at most one core is between taking and releasing `g_svm_lock_quiesce`, and the resume signal is up
  only while that core is between setting and resetting it;
* that core has `quiesced` set from its own code on, so its handler returns at once;
* a read-modify-write of `g_svm_quiesce_counter` is not interfered with;
* from the reset of the counter to the resume signal, the counter is at most the number of cores
  stopped in the handler's wait: a core that counted in cannot leave while the signal is down. Past
  the wait loop of quiesce all other cores are stopped.
-/

namespace Xmhf.Smp.Svm

open Xmhf.Count Xmhf.Trans Xmhf.Word

variable {n : Nat}

/-! ## What one access can do -/

/-- `Access n g k g' k'`: a core in `k` makes an access, or takes an NMI, that turns the shared words
`g` into `g'` and the core into `k'`. -/
inductive Access (n : Nat) (g : Shared) : Core → Shared → Core → Prop
  | start {q} : Access n g ⟨q, .guest, .out⟩ g ⟨q, .lockQuiesce, .out⟩
  | lock {q} (h : g.lockQuiesce) :
      Access n g ⟨q, .lockQuiesce, .out⟩ { g with lockQuiesce := false } ⟨q, .setQuiesced, .out⟩
  | setQuiesced {q} : Access n g ⟨q, .setQuiesced, .out⟩ g ⟨true, .resetCounter, .out⟩
  | resetCounter {q} (h : g.lockQuiesceCounter) :
      Access n g ⟨q, .resetCounter, .out⟩ { g with quiesceCounter := 0 } ⟨q, .setQuiesce, .out⟩
  | setQuiesce {q} :
      Access n g ⟨q, .setQuiesce, .out⟩ { g with quiesce := true } ⟨q, .sendSignal, .out⟩
  | sendSignal {q} : Access n g ⟨q, .sendSignal, .out⟩ g ⟨q, .awaitCounter, .out⟩
  | awaitCounter {q} (h : n - 1 ≤ g.quiesceCounter) :
      Access n g ⟨q, .awaitCounter, .out⟩ g ⟨q, .quiescing, .out⟩
  | endquiesce {q} : Access n g ⟨q, .quiescing, .out⟩ g ⟨q, .resetResumeCounter, .out⟩
  | resetResumeCounter {q} : Access n g ⟨q, .resetResumeCounter, .out⟩
      { g with resumeCounter := 0 } ⟨q, .setResumeSignal, .out⟩
  | setResumeSignal {q} : Access n g ⟨q, .setResumeSignal, .out⟩
      { g with resumeSignal := true } ⟨q, .awaitResumeCounter, .out⟩
  | awaitResumeCounter {q} (h : n - 1 ≤ g.resumeCounter) :
      Access n g ⟨q, .awaitResumeCounter, .out⟩ g ⟨q, .clearQuiesced, .out⟩
  | clearOwn {q} : Access n g ⟨q, .clearQuiesced, .out⟩ g ⟨false, .clearQuiesce, .out⟩
  | clearQuiesce {q} : Access n g ⟨q, .clearQuiesce, .out⟩
      { g with quiesce := false } ⟨q, .resetResumeSignal, .out⟩
  | resetResumeSignal {q} : Access n g ⟨q, .resetResumeSignal, .out⟩
      { g with resumeSignal := false } ⟨q, .unlockQuiesce, .out⟩
  | unlock {q} :
      Access n g ⟨q, .unlockQuiesce, .out⟩ { g with lockQuiesce := true } ⟨q, .guest, .out⟩
  | take {q m} : Access n g ⟨q, m, .out⟩ g ⟨q, m, .testQuiesce⟩
  | enter {q m} (h : g.quiesce) : Access n g ⟨q, m, .testQuiesce⟩ g ⟨q, m, .testQuiesced⟩
  | inject {q m} (h : g.quiesce = false) : Access n g ⟨q, m, .testQuiesce⟩ g ⟨q, m, .out⟩
  | already {m} : Access n g ⟨true, m, .testQuiesced⟩ g ⟨true, m, .out⟩
  | notYet {m} : Access n g ⟨false, m, .testQuiesced⟩ g ⟨false, m, .setQuiesced⟩
  | nmiSetQuiesced {q m} : Access n g ⟨q, m, .setQuiesced⟩ g ⟨true, m, .readCounter⟩
  | readCounter {q m} (h : g.lockQuiesceCounter) : Access n g ⟨q, m, .readCounter⟩
      { g with lockQuiesceCounter := false } ⟨q, m, .writeCounter g.quiesceCounter⟩
  | writeCounter {q m t} : Access n g ⟨q, m, .writeCounter t⟩
      { g with quiesceCounter := inc32 t, lockQuiesceCounter := true } ⟨q, m, .awaitResumeSignal⟩
  | awaitResumeSignal {q m} (h : g.resumeSignal) :
      Access n g ⟨q, m, .awaitResumeSignal⟩ g ⟨q, m, .readResumeCounter⟩
  | readResumeCounter {q m} (h : g.lockResumeCounter) : Access n g ⟨q, m, .readResumeCounter⟩
      { g with lockResumeCounter := false } ⟨q, m, .writeResumeCounter g.resumeCounter⟩
  | writeResumeCounter {q m t} : Access n g ⟨q, m, .writeResumeCounter t⟩
      { g with resumeCounter := inc32 t, lockResumeCounter := true } ⟨q, m, .clearQuiesced⟩
  | nmiClearQuiesced {q m} : Access n g ⟨q, m, .clearQuiesced⟩ g ⟨false, m, .out⟩

theorem access_of_coreStep {g g' : Shared} {k k' : Core} (h : coreStep n g k = some (g', k')) :
    Access n g k g' k' := by
  obtain ⟨q, m, e⟩ := k
  cases e <;> simp only [coreStep, nmiStep, ↓reduceIte, reduceCtorEq] at h
  case out =>
    cases m <;> simp only [mainStep] at h
    all_goals try (split at h)
    all_goals try (cases h)
    -- in the guest the core starts to quiesce; the other points have one constructor each
    case guest => exact .start
    all_goals first
      | exact .lock ‹_› | exact .setQuiesced | exact .resetCounter ‹_› | exact .setQuiesce
      | exact .sendSignal | exact .awaitCounter (by omega) | exact .endquiesce
      | exact .resetResumeCounter | exact .setResumeSignal
      | exact .awaitResumeCounter (by omega) | exact .clearOwn | exact .clearQuiesce
      | exact .resetResumeSignal | exact .unlock
  case testQuiesced => cases q <;> cases h <;> constructor
  all_goals try (split at h)
  all_goals try (cases h)
  all_goals constructor <;> simp_all

/-- A step of the system is an access of one core, or leaves shared words and cores alone. -/
theorem step_access {s s' : State n} {a : Act n} (h : step s a = some s') :
    (s'.sh = s.sh ∧ s'.core = s.core) ∨
      ∃ c k', (a = .run c ∨ a = .take c) ∧ s'.core = Function.update s.core c k' ∧
        Access n s.sh (s.core c) s'.sh k' := by
  cases a with
  | run c =>
    simp only [step, Option.map_eq_some_iff] at h
    obtain ⟨⟨g', k'⟩, hc, rfl⟩ := h
    exact .inr ⟨c, k', .inl rfl, rfl, access_of_coreStep hc⟩
  | nmi c =>
    cases h
    exact .inl ⟨rfl, rfl⟩
  | take c =>
    simp only [step, Option.ite_none_right_eq_some, Option.some.injEq] at h
    obtain ⟨⟨-, hn⟩, rfl⟩ := h
    refine .inr ⟨c, _, .inr rfl, rfl, ?_⟩
    generalize s.core c = k at hn
    obtain ⟨q, m, e⟩ := k
    cases hn
    exact .take

/-! ## Program points -/

/-- Between taking and releasing `g_svm_lock_quiesce`. -/
def holds (k : Core) : Bool :=
  match k.main with
  | .guest | .lockQuiesce => false
  | _ => true

/-- Between the initiator's `vcpu->quiesced = 1` and its `vcpu->quiesced = 0`. -/
def owned (k : Core) : Bool :=
  match k.main with
  | .guest | .lockQuiesce | .setQuiesced | .clearQuiesce | .resetResumeSignal | .unlockQuiesce =>
    false
  | _ => true

/-- Between the reset of the counter and the resume signal. -/
def counting (k : Core) : Bool :=
  match k.main with
  | .setQuiesce | .sendSignal | .awaitCounter | .quiescing | .resetResumeCounter
  | .setResumeSignal => true
  | _ => false

/-- The initiator has left the wait loop of quiesce and has not yet set the resume signal. -/
def alone (k : Core) : Bool :=
  match k.main with
  | .quiescing | .resetResumeCounter | .setResumeSignal => true
  | _ => false

/-- Between setting and resetting the resume signal. -/
def resuming (k : Core) : Bool :=
  match k.main with
  | .awaitResumeCounter | .clearQuiesced | .clearQuiesce | .resetResumeSignal => true
  | _ => false

/-- Outside the handler, or in it before the core counts itself in. -/
def passive (k : Core) : Bool :=
  match k.nmi with
  | .out | .testQuiesce | .testQuiesced => true
  | _ => false

/-- In the handler's wait loop on the resume signal. -/
def stopped (k : Core) : Bool := k.nmi = .awaitResumeSignal

/-- Between the read and the write of `g_svm_quiesce_counter++`. -/
def bumping (k : Core) : Bool :=
  match k.nmi with
  | .writeCounter _ => true
  | _ => false

/-! ## The invariant -/

/-- The invariant of every run (module doc). -/
structure Inv (g : Shared) (f : Fin n → Core) : Prop where
  excl : AtMostOne holds f
  free : g.lockQuiesce → ∀ i, holds (f i) = false
  signal : g.resumeSignal → ∃ i, resuming (f i)
  own : ∀ i, owned (f i) → (f i).quiesced ∧ passive (f i)
  bump : AtMostOne bumping f
  counter : ∀ i, bumping (f i) →
    g.lockQuiesceCounter = false ∧ (f i).nmi = .writeCounter g.quiesceCounter
  counted : ∀ i, counting (f i) → g.quiesceCounter ≤ count (fun _ => stopped) f
  solo : ∀ i, alone (f i) → ∀ j, j ≠ i → stopped (f j)

/-! ## One access keeps the invariant -/

section
variable {g g' : Shared} {f : Fin n → Core} {c : Fin n} {k k' : Core}

theorem Access.lockDiscipline (h : Access n g k g' k') :
    (holds k' → holds k ∨ g.lockQuiesce) ∧
      (g'.lockQuiesce → (g.lockQuiesce ∨ holds k) ∧ (holds k' → holds k ∧ g.lockQuiesce)) := by
  cases h <;> simp_all [holds]

theorem Access.resumeSignal (h : Access n g k g' k') (hg : g'.resumeSignal) :
    resuming k' ∨ (g.resumeSignal ∧ resuming k = false) := by
  cases h <;> simp_all [resuming]

theorem Access.own_after (h : Access n g k g' k') (hk : owned k → k.quiesced ∧ passive k)
    (ho : owned k') : k'.quiesced ∧ passive k' := by
  cases h <;> simp_all [owned, passive]

/-- A core comes to its write of the counter by taking the counter's lock. -/
theorem Access.readsCounter (h : Access n g k g' k') (hb : bumping k') :
    bumping k = false ∧ g.lockQuiesceCounter ∧ g'.lockQuiesceCounter = false ∧
      k'.nmi = .writeCounter g'.quiesceCounter := by
  cases h <;> simp_all [bumping]

/-- While another core holds the counter's lock, an access leaves lock and counter alone. -/
theorem Access.counterLocked (h : Access n g k g' k') (hl : g.lockQuiesceCounter = false)
    (hb : bumping k = false) :
    g'.lockQuiesceCounter = false ∧ g'.quiesceCounter = g.quiesceCounter := by
  cases h <;> simp_all [bumping]

/-- The four ways an access meets the count: it leaves it alone, resets it, counts a core in, or
releases a counted core (which needs the resume signal). -/
theorem Access.countCases (h : Access n g k g' k') :
    (g'.quiesceCounter = g.quiesceCounter ∧ stopped k' = stopped k) ∨
    (g'.quiesceCounter = 0 ∧ holds k ∧ counting k = false ∧ stopped k' = stopped k) ∨
    (bumping k ∧ stopped k = false ∧ stopped k' ∧
      ∀ t, k.nmi = .writeCounter t → g'.quiesceCounter = inc32 t) ∨
    (g.resumeSignal ∧ g'.quiesceCounter = g.quiesceCounter ∧ passive k = false) := by
  cases h <;> simp_all [stopped, holds, counting, bumping, passive]

theorem Access.counting_after (h : Access n g k g' k') (hc : counting k') :
    counting k ∨ g'.quiesceCounter = 0 := by
  cases h <;> simp_all [counting]

theorem Access.alone_after (h : Access n g k g' k') (hc : alone k') :
    alone k ∨ (k.main = .awaitCounter ∧ g' = g ∧ n - 1 ≤ g.quiesceCounter) := by
  cases h <;> simp_all [alone]

/-- A stopped core moves only on the resume signal. -/
theorem Access.signal_of_stopped (h : Access n g k g' k') (hs : stopped k) : g.resumeSignal := by
  cases h <;> simp_all [stopped]

theorem holds_of_counting (h : counting k) : holds k := by
  cases hm : k.main <;> simp_all [counting, holds]

theorem holds_of_resuming (h : resuming k) : holds k := by
  cases hm : k.main <;> simp_all [resuming, holds]

theorem owned_of_counting (h : counting k) : owned k := by
  cases hm : k.main <;> simp_all [counting, owned]

theorem counting_of_alone (h : alone k) : counting k := by
  cases hm : k.main <;> simp_all [counting, alone]

theorem not_resuming_of_counting (h : counting k) : resuming k = false := by
  cases hm : k.main <;> simp_all [counting, resuming]

/-- While a round is counting, the resume signal is down. -/
theorem Inv.signal_down (hs : Inv g f) {i : Fin n} (hi : counting (f i)) :
    g.resumeSignal = false := by
  by_contra hg
  obtain ⟨j, hj⟩ := hs.signal (by simpa using hg)
  have hij := hs.excl i (holds_of_counting hi) j (holds_of_resuming hj)
  subst hij
  simp [not_resuming_of_counting hi] at hj

theorem Inv.step_counted (hs : Inv g f) (h : Access n g (f c) g' k') (i : Fin n)
    (hi : counting (Function.update f c k' i)) :
    g'.quiesceCounter ≤ count (fun _ => stopped) (Function.update f c k') := by
  have hu := count_update (fun _ => stopped) f c k'
  by_cases hz : g'.quiesceCounter = 0
  · omega
  -- the initiator of the round was already counting before the access
  have hi' : counting (f i) := by
    by_cases hic : i = c
    · subst hic
      simp only [Function.update_self] at hi
      exact (h.counting_after hi).resolve_right hz
    · simpa [hic] using hi
  have hold := hs.counted i hi'
  have hdown := hs.signal_down hi'
  rcases h.countCases with ⟨h1, h2⟩ | ⟨h1, -⟩ | ⟨hb, h2, h3, h4⟩ | ⟨hg, -⟩
  · rw [h2] at hu; omega
  · exact (hz h1).elim
  · have hw := h4 _ (hs.counter c hb).2
    have hle : inc32 g.quiesceCounter ≤ g.quiesceCounter + 1 := inc32_le _
    simp only [h2, h3, Bool.toNat_false, Bool.toNat_true] at hu
    omega
  · simp [hdown] at hg

theorem Inv.step_solo (hs : Inv g f) (h : Access n g (f c) g' k') (i : Fin n)
    (hi : alone (Function.update f c k' i)) :
    ∀ j, j ≠ i → stopped (Function.update f c k' j) := by
  by_cases hic : i = c
  · subst hic
    simp only [Function.update_self] at hi
    have hall : ∀ j, j ≠ i → stopped (f j) := by
      rcases h.alone_after hi with hal | ⟨hm, -, hn⟩
      · exact hs.solo i hal
      · -- the count is full and leaves the initiator out
        have hcnt : counting (f i) := by simp [counting, hm]
        have hpas := (hs.own i (owned_of_counting hcnt)).2
        have hnst : stopped (f i) = false := by
          cases he : (f i).nmi <;> simp_all [passive, stopped]
        have hle := hs.counted i hcnt
        exact forall_of_count (p := fun _ => stopped) hnst (by
          rw [Fintype.card_fin]; omega)
    intro j hj
    simpa [hj] using hall j hj
  · have hi' : alone (f i) := by simpa [hic] using hi
    have hdown := hs.signal_down (counting_of_alone hi')
    have hc := h.signal_of_stopped (hs.solo i hi' c (Ne.symm hic))
    simp [hdown] at hc

/-- **One access keeps the invariant.** -/
theorem Inv.step (hs : Inv g f) (h : Access n g (f c) g' k') :
    Inv g' (Function.update f c k') where
  excl := by
    refine hs.excl.update fun hv => ?_
    rcases h.lockDiscipline.1 hv with hk | hl
    · exact .inl hk
    · exact .inr fun i _ => hs.free hl i
  free hl := by
    obtain ⟨hfree, hkeep⟩ := h.lockDiscipline.2 hl
    refine forall_update (P := fun _ k => holds k = false) ?_ fun i hi => ?_
    · by_contra hk
      obtain ⟨hc, hg⟩ := hkeep (by simpa using hk)
      simp [hs.free hg c] at hc
    · rcases hfree with hg | hc
      · exact hs.free hg i
      · by_contra hk
        exact hi (hs.excl i (by simpa using hk) c hc)
  signal hg := by
    rcases h.resumeSignal hg with hk | ⟨hg', hk⟩
    · exact ⟨c, by simpa using hk⟩
    · obtain ⟨i, hi⟩ := hs.signal hg'
      have hic : i ≠ c := by rintro rfl; simp [hk] at hi
      exact ⟨i, by simpa [hic] using hi⟩
  own := forall_update (P := fun _ k => owned k → k.quiesced ∧ passive k)
    (h.own_after (hs.own c)) fun i _ => hs.own i
  bump := by
    refine hs.bump.update fun hv => .inr fun i _ => ?_
    by_contra hb
    have := (hs.counter i (by simpa using hb)).1
    simp [(h.readsCounter hv).2.1] at this
  counter := by
    refine forall_update (P := fun _ k => bumping k →
      g'.lockQuiesceCounter = false ∧ k.nmi = .writeCounter g'.quiesceCounter) ?_ fun i hi hb => ?_
    · intro hb
      exact (h.readsCounter hb).2.2
    · obtain ⟨hl, hw⟩ := hs.counter i hb
      have hc : bumping (f c) = false := by
        by_contra hc
        exact hi (hs.bump i hb c (by simpa using hc))
      obtain ⟨h1, h2⟩ := h.counterLocked hl hc
      exact ⟨h1, by rw [h2]; exact hw⟩
  counted := hs.step_counted h
  solo := hs.step_solo h

end

theorem inv_init (n : Nat) : Inv (init n).sh (init n).core := by
  constructor <;> simp [init, AtMostOne, holds, owned, bumping, counting, alone]

/-- **The invariant holds in every state of every run.** -/
theorem inv_reach {ok : State n → Act n → Prop} {s : State n} (h : Reach step ok (init n) s) :
    Inv s.sh s.core := by
  refine h.inv (I := fun s => Inv s.sh s.core) (inv_init n) fun s a s' hs _ hst => ?_
  rcases step_access hst with ⟨h1, h2⟩ | ⟨c, k', -, hk, ha⟩
  · rw [h1, h2]; exact hs
  · rw [hk]; exact hs.step ha

end Xmhf.Smp.Svm
