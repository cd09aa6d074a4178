import Xmhf.Smp.VmxTrace
import Xmhf.Lib.Count

/-!
# The quiesced section on VMX

`Access v c g k g' k'` lists what one access of core `c`, or taking an NMI, can do (`step_access`).
`Inv` is the invariant of the runs in which every round starts with the resume signals down
(`SignalsDown`):

* at most one core is between taking and releasing `g_vmx_lock_quiesce`;
* an initiator has `quiesced` set from its own code on, and a core in user space keeps it set, so
  their handlers return at once;
* up to endquiesce no other core outside user space has its resume signal up, so a core that counted
  itself in stays, and the counter is at most the number of cores stopped in the handler's wait.
-/

namespace Xmhf.Smp.Vmx

open Xmhf.Count Xmhf.Trans Xmhf.Word

variable {n : Nat}

/-! ## What one access can do -/

/-- `Access v c g k g' k'`: core `c` in `k` makes an access, or takes an NMI, that turns the shared
words `g` into `g'` and the core into `k'`. -/
inductive Access (v : Variant n) (c : Fin n) (g : Shared n) : Core → Shared n → Core → Prop
  | start {q} : Access v c g ⟨q, .guest, .out⟩ g ⟨q, .lockQuiesce, .out⟩
  | lock {q} (h : g.lockQuiesce) : Access v c g ⟨q, .lockQuiesce, .out⟩
      { g with lockQuiesce := false } ⟨q, .setQuiesced, .out⟩
  | setQuiesced {q} : Access v c g ⟨q, .setQuiesced, .out⟩ g ⟨true, .resetCounter, .out⟩
  | resetCounter {q} (h : g.lockQuiesceCounter) : Access v c g ⟨q, .resetCounter, .out⟩
      { g with quiesceCounter := 0 } ⟨q, .setQuiesce, .out⟩
  | setQuiesce {q} :
      Access v c g ⟨q, .setQuiesce, .out⟩ { g with quiesce := true } ⟨q, .sendSignal, .out⟩
  | sendSignal {q} : Access v c g ⟨q, .sendSignal, .out⟩ g ⟨q, .awaitCounter, .out⟩
  | awaitCounter {q} (h : n - 1 ≤ g.quiesceCounter) :
      Access v c g ⟨q, .awaitCounter, .out⟩ g ⟨q, .quiescing, .out⟩
  | endquiesce {q} : Access v c g ⟨q, .quiescing, .out⟩ g ⟨q, .endquiesce 0, .out⟩
  | op {q t o g' q'} (ho : v.endquiesce[t]? = some o) (h : opStep g q o = some (g', q')) :
      Access v c g ⟨q, .endquiesce t, .out⟩ g' ⟨q', .endquiesce (t + 1), .out⟩
  | finish {q t} (ho : v.endquiesce[t]? = none) :
      Access v c g ⟨q, .endquiesce t, .out⟩ g ⟨q, .guest, .out⟩
  | take {q m} : Access v c g ⟨q, m, .out⟩ g ⟨q, m, .testQuiesce⟩
  | enter {q m} (h : g.quiesce) : Access v c g ⟨q, m, .testQuiesce⟩ g ⟨q, m, .testQuiesced⟩
  | inject {q m} (h : g.quiesce = false) : Access v c g ⟨q, m, .testQuiesce⟩ g ⟨q, m, .out⟩
  | already {m} : Access v c g ⟨true, m, .testQuiesced⟩ g ⟨true, m, .out⟩
  | notYet {m} : Access v c g ⟨false, m, .testQuiesced⟩ g ⟨false, m, .setQuiesced⟩
  | nmiSetQuiesced {q m} : Access v c g ⟨q, m, .setQuiesced⟩ g ⟨true, m, .readCounter⟩
  | readCounter {q m} (h : g.lockQuiesceCounter) : Access v c g ⟨q, m, .readCounter⟩
      { g with lockQuiesceCounter := false } ⟨q, m, .writeCounter g.quiesceCounter⟩
  | writeCounter {q m t} : Access v c g ⟨q, m, .writeCounter t⟩
      { g with quiesceCounter := inc32 t, lockQuiesceCounter := true } ⟨q, m, .awaitResumeSignal⟩
  | resume {q m} (h : g.resumeSignal c) (hp : v.prepares c = false) :
      Access v c g ⟨q, m, .awaitResumeSignal⟩ g ⟨q, m, .readResumeCounter⟩
  | prepare {q m} (h : g.resumeSignal c) (hp : v.prepares c) :
      Access v c g ⟨q, m, .awaitResumeSignal⟩ g ⟨q, m, .updateGdt⟩
  | updateGdt {q m} : Access v c g ⟨q, m, .updateGdt⟩ g ⟨q, m, .readUpdated⟩
  | readUpdated {q m} :
      Access v c g ⟨q, m, .readUpdated⟩ g ⟨q, m, .writeUpdated g.resumeCounter⟩
  | writeUpdated {q m t} : Access v c g ⟨q, m, .writeUpdated t⟩
      { g with resumeCounter := inc32 t } ⟨q, m, .awaitGdtSignal⟩
  | awaitGdtSignal {q m} (h : v.awaitsGdt c → g.gdtSignal c) :
      Access v c g ⟨q, m, .awaitGdtSignal⟩ g ⟨q, m, .reloadGdt⟩
  | reloadGdt {q m} : Access v c g ⟨q, m, .reloadGdt⟩ g ⟨q, m, .readReloaded⟩
  | readReloaded {q m} :
      Access v c g ⟨q, m, .readReloaded⟩ g ⟨q, m, .writeReloaded g.resumeCounter⟩
  | writeReloaded {q m t} : Access v c g ⟨q, m, .writeReloaded t⟩
      { g with resumeCounter := inc32 t } ⟨q, m, .awaitEight⟩
  | awaitEight {q m} (h : 8 ≤ g.resumeCounter) :
      Access v c g ⟨q, m, .awaitEight⟩ g ⟨q, m, .switchToUserSpace⟩
  | switchToUserSpace {q m} : Access v c g ⟨q, m, .switchToUserSpace⟩ g ⟨q, .user, .out⟩
  | readResumeCounter {q m} (h : g.lockResumeCounter) : Access v c g ⟨q, m, .readResumeCounter⟩
      { g with lockResumeCounter := false } ⟨q, m, .writeResumeCounter g.resumeCounter⟩
  | writeResumeCounter {q m t} : Access v c g ⟨q, m, .writeResumeCounter t⟩
      { g with resumeCounter := inc32 t, lockResumeCounter := true } ⟨q, m, .clearQuiesced⟩
  | nmiClearQuiesced {q m} : Access v c g ⟨q, m, .clearQuiesced⟩ g ⟨false, m, .out⟩

theorem access_of_mainStep {v : Variant n} {c : Fin n} {g g' : Shared n} {q : Bool} {m : Main}
    {k' : Core} (h : mainStep v g ⟨q, m, .out⟩ = some (g', k')) :
    Access v c g ⟨q, m, .out⟩ g' k' := by
  cases m <;> simp only [mainStep, reduceCtorEq] at h
  case endquiesce t =>
    cases ho : v.endquiesce[t]? with
    | none =>
      simp only [ho] at h
      cases h
      exact .finish ho
    | some o =>
      simp only [ho, Option.map_eq_some_iff, Prod.mk.injEq] at h
      obtain ⟨⟨g₁, q₁⟩, hst, rfl, rfl⟩ := h
      exact .op ho hst
  all_goals try (split at h)
  all_goals try (cases h)
  case guest => exact .start
  all_goals first
    | exact .lock ‹_› | exact .setQuiesced | exact .resetCounter ‹_› | exact .setQuiesce
    | exact .sendSignal | exact .awaitCounter (by omega) | exact .endquiesce

theorem access_of_nmiStep {v : Variant n} {c : Fin n} {g g' : Shared n} {k k' : Core}
    (h : nmiStep v c g k = some (g', k')) : Access v c g k g' k' := by
  obtain ⟨q, m, e⟩ := k
  cases e <;> simp only [nmiStep, reduceCtorEq] at h
  case testQuiesced => cases q <;> cases h <;> constructor
  case awaitResumeSignal =>
    split at h
    · cases h
      split
      · exact .prepare ‹_› ‹_›
      · exact .resume ‹_› (by simp_all)
    · cases h
  all_goals try (split at h)
  all_goals try (cases h)
  all_goals constructor <;> simp_all

theorem access_of_coreStep {v : Variant n} {c : Fin n} {g g' : Shared n} {k k' : Core}
    (h : coreStep v c g k = some (g', k')) : Access v c g k g' k' := by
  unfold coreStep at h
  split at h
  · next hn =>
    obtain ⟨q, m, e⟩ := k
    cases hn
    exact access_of_mainStep h
  · exact access_of_nmiStep h

/-- The action `a` turns core `c` into `k'`: an access, which enters the handler only from within, or an
NMI taken, which leaves the main code alone. -/
def ActsOn (s : State n) (a : Act n) (c : Fin n) (k' : Core) : Prop :=
  (a = .run c ∧ ((s.core c).nmi = .out → k'.nmi = .out)) ∨
    (a = .take c ∧ (s.core c).nmi = .out ∧ k'.main = (s.core c).main)

theorem mainStep_nmi {v : Variant n} {g g' : Shared n} {k k' : Core}
    (h : mainStep v g k = some (g', k')) : k'.nmi = k.nmi := by
  unfold mainStep at h
  split at h
  case h_9 =>
    split at h
    · obtain ⟨r, -, hr⟩ := Option.map_eq_some_iff.1 h
      cases hr; rfl
    · cases h; rfl
  all_goals try (split at h)
  all_goals cases h
  all_goals rfl

theorem coreStep_nmi {v : Variant n} {c : Fin n} {g g' : Shared n} {k k' : Core}
    (h : coreStep v c g k = some (g', k')) (hn : k.nmi = .out) : k'.nmi = .out := by
  rw [coreStep, if_pos hn] at h
  rw [mainStep_nmi h, hn]

/-- A step of the system is an access of one core, or leaves shared words and cores alone. -/
theorem step_access {v : Variant n} {s s' : State n} {a : Act n} (h : step v s a = some s') :
    (∃ c, a = .nmi c ∧ s'.sh = s.sh ∧ s'.core = s.core) ∨
      ∃ c k', ActsOn s a c k' ∧
        s'.core = Function.update s.core c k' ∧ Access v c s.sh (s.core c) s'.sh k' := by
  cases a with
  | run c =>
    simp only [step, Option.map_eq_some_iff] at h
    obtain ⟨⟨g', k'⟩, hc, rfl⟩ := h
    exact .inr ⟨c, k', .inl ⟨rfl, coreStep_nmi hc⟩, rfl, access_of_coreStep hc⟩
  | nmi c =>
    cases h
    exact .inl ⟨c, rfl, rfl, rfl⟩
  | take c =>
    simp only [step, Option.ite_none_right_eq_some, Option.some.injEq] at h
    obtain ⟨⟨-, hn⟩, rfl⟩ := h
    refine .inr ⟨c, { s.core c with nmi := .testQuiesce }, .inr ⟨rfl, hn, rfl⟩, rfl, ?_⟩
    generalize s.core c = k at hn
    obtain ⟨q, m, e⟩ := k
    cases hn
    exact .take

/-! ## Program points -/

/-- Between taking and releasing `g_vmx_lock_quiesce`. -/
def holds (v : Variant n) (k : Core) : Bool :=
  match k.main with
  | .guest | .lockQuiesce | .user => false
  | .endquiesce t => unlocksFrom v.endquiesce t
  | _ => true

/-- Between taking the lock and endquiesce. -/
def starting (k : Core) : Bool :=
  match k.main with
  | .setQuiesced | .resetCounter | .setQuiesce | .sendSignal | .awaitCounter | .quiescing => true
  | _ => false

/-- Between the reset of the counter and endquiesce. -/
def counting (k : Core) : Bool :=
  match k.main with
  | .setQuiesce | .sendSignal | .awaitCounter | .quiescing => true
  | _ => false

/-- The initiator's own code has set `quiesced` and is not yet in endquiesce, or the core is in user
space. -/
def owned (k : Core) : Bool :=
  match k.main with
  | .resetCounter | .setQuiesce | .sendSignal | .awaitCounter | .quiescing | .user => true
  | _ => false

/-- Outside the handler, or in it before the core counts itself in. -/
def passive (k : Core) : Bool :=
  match k.nmi with
  | .out | .testQuiesce | .testQuiesced => true
  | _ => false

/-- In the handler's wait loop on the core's resume signal. -/
def stopped (k : Core) : Bool := k.nmi = .awaitResumeSignal

/-- Between the read and the write of `g_vmx_quiesce_counter++`. -/
def bumping (k : Core) : Bool :=
  match k.nmi with
  | .writeCounter _ => true
  | _ => false

/-! ## The invariant -/

/-- A core takes the quiesce lock only while the resume signal of every other core outside user space
is 0. -/
def SignalsDown (s : State n) (a : Act n) : Prop :=
  ∀ c, Acquires s a c → ∀ j, j ≠ c → (s.core j).main ≠ .user → s.sh.resumeSignal j = false

instance (s : State n) (a : Act n) : Decidable (SignalsDown s a) :=
  inferInstanceAs (Decidable (∀ _, _))

/-- What holds in every run: the quiesce lock is exclusive, and `quiesced` is set in the quiesce branch
of the handler, in the initiator's part of the round and in user space. -/
structure Regular (v : Variant n) (g : Shared n) (f : Fin n → Core) : Prop where
  excl : AtMostOne (holds v) f
  free : g.lockQuiesce → ∀ i, holds v (f i) = false
  branch : ∀ i, passive (f i) = false → (f i).nmi ≠ .setQuiesced → (f i).quiesced
  own : ∀ i, owned (f i) → (f i).quiesced ∧ passive (f i)

/-- The invariant of the runs with `SignalsDown` (module doc). -/
structure Inv (v : Variant n) (g : Shared n) (f : Fin n → Core) : Prop extends Regular v g f where
  down : ∀ i, starting (f i) → ∀ j, j ≠ i → (f j).main ≠ .user → g.resumeSignal j = false
  bump : AtMostOne bumping f
  counter : ∀ i, bumping (f i) →
    g.lockQuiesceCounter = false ∧ (f i).nmi = .writeCounter g.quiesceCounter
  counted : ∀ i, counting (f i) → g.quiesceCounter ≤ count (fun _ => stopped) f
  solo : ∀ i, (f i).main = .quiescing → ∀ j, j ≠ i → stopped (f j)

/-! ## One access keeps the invariant -/

section
variable {v : Variant n} {g g' : Shared n} {f : Fin n → Core} {c : Fin n} {k k' : Core}

theorem unlocksFrom_mono {ops : List (Op n)} {t : Nat} (h : unlocksFrom ops (t + 1)) :
    unlocksFrom ops t := by
  simp only [unlocksFrom, decide_eq_true_eq] at h ⊢
  exact List.mem_of_mem_drop (i := 1) (by rwa [List.drop_drop])

theorem Variant.unlocksFrom_at (v : Variant n) {t : Nat}
    (h : v.endquiesce[t]? = some .unlockQuiesce) :
    unlocksFrom v.endquiesce t ∧ unlocksFrom v.endquiesce (t + 1) = false := by
  obtain ⟨ht, he⟩ := List.getElem?_eq_some_iff.1 h
  refine ⟨?_, v.once ⟨t, ht⟩ he⟩
  simp only [unlocksFrom, decide_eq_true_eq]
  rw [List.drop_eq_getElem_cons ht, he]
  exact List.mem_cons_self

theorem Variant.unlocksFrom_of_raise (v : Variant n) {t : Nat} {k : Fin n}
    (h : v.endquiesce[t]? = some (.setResumeSignal k true)) : unlocksFrom v.endquiesce t := by
  obtain ⟨ht, he⟩ := List.getElem?_eq_some_iff.1 h
  exact v.raises ⟨t, ht⟩ k he

/-- What an access of endquiesce does to the locks, the counter and the signals. -/
theorem opStep_frame {q q' : Bool} {o : Op n} (h : opStep g q o = some (g', q')) :
    g'.quiesceCounter = g.quiesceCounter ∧ g'.lockQuiesceCounter = g.lockQuiesceCounter ∧
      (g'.lockQuiesce = g.lockQuiesce ∨ o = .unlockQuiesce) ∧
      ∀ j, g'.resumeSignal j = true → g.resumeSignal j = true ∨ o = .setResumeSignal j true := by
  cases o <;> simp only [opStep, Option.some.injEq, Prod.mk.injEq, Option.ite_none_left_eq_some] at h
  case setResumeSignal k b =>
    obtain ⟨rfl, -⟩ := h
    refine ⟨rfl, rfl, .inl rfl, fun j hj => ?_⟩
    by_cases hjk : j = k
    · subst hjk
      simp only [Function.update_self] at hj
      exact .inr (by rw [hj])
    · exact .inl (by simpa [hjk] using hj)
  case awaitResumeCounter m =>
    obtain ⟨-, rfl, -⟩ := h
    simp
  all_goals
    obtain ⟨rfl, -⟩ := h
    simp

theorem Access.lockDiscipline (h : Access v c g k g' k') :
    (holds v k' → holds v k ∨ g.lockQuiesce) ∧
      (g'.lockQuiesce → (g.lockQuiesce ∨ holds v k) ∧
        (holds v k' → holds v k ∧ g.lockQuiesce)) := by
  cases h
  case op t o ho hop =>
    simp only [holds]
    rcases (opStep_frame hop).2.2.1 with hl | rfl
    · rw [hl]
      exact ⟨fun h => .inl (unlocksFrom_mono h), fun h => ⟨.inl h, fun h' => ⟨unlocksFrom_mono h', h⟩⟩⟩
    · obtain ⟨h1, h2⟩ := v.unlocksFrom_at ho
      simp [h1, h2]
  case endquiesce => simp [holds, v.unlocks]
  all_goals simp_all [holds]

theorem Access.branch_after (h : Access v c g k g' k')
    (hk : passive k = false → k.nmi ≠ .setQuiesced → k.quiesced) (hp : passive k' = false)
    (hn : k'.nmi ≠ .setQuiesced) : k'.quiesced := by
  cases h <;> simp_all [passive]

theorem Access.own_after (h : Access v c g k g' k')
    (hb : passive k = false → k.nmi ≠ .setQuiesced → k.quiesced)
    (hk : owned k → k.quiesced ∧ passive k) (ho : owned k') : k'.quiesced ∧ passive k' := by
  cases h <;> simp_all [owned, passive]

theorem Access.user_stays (h : Access v c g k g' k') (hk : k'.main ≠ .user) : k.main ≠ .user := by
  cases h <;> simp_all

/-- A signal goes up only in the endquiesce of the core that holds the lock. -/
theorem Access.raises_signal (h : Access v c g k g' k') {j : Fin n} (hj : g'.resumeSignal j = true) :
    g.resumeSignal j = true ∨ (holds v k ∧ starting k = false ∧ starting k' = false) := by
  cases h
  case op t o ho hop =>
    rcases (opStep_frame hop).2.2.2 j hj with hg | rfl
    · exact .inl hg
    · exact .inr ⟨v.unlocksFrom_of_raise ho, rfl, rfl⟩
  all_goals exact .inl hj

theorem Access.starting_after (h : Access v c g k g' k') (hs : starting k') :
    starting k ∨ (k.nmi = .out ∧ k.main = .lockQuiesce ∧ k'.main ≠ k.main) := by
  cases h <;> simp_all [starting]

theorem Access.readsCounter (h : Access v c g k g' k') (hb : bumping k') :
    bumping k = false ∧ g.lockQuiesceCounter ∧ g'.lockQuiesceCounter = false ∧
      k'.nmi = .writeCounter g'.quiesceCounter := by
  cases h <;> simp_all [bumping]

theorem Access.counterLocked (h : Access v c g k g' k') (hl : g.lockQuiesceCounter = false)
    (hb : bumping k = false) :
    g'.lockQuiesceCounter = false ∧ g'.quiesceCounter = g.quiesceCounter := by
  cases h
  case op hop =>
    obtain ⟨h1, h2, -⟩ := opStep_frame hop
    exact ⟨h2.trans hl, h1⟩
  all_goals simp_all [bumping]

/-- The four ways an access meets the count: it leaves it alone, resets it, counts a core in, or
releases a counted core (which needs that core's resume signal). -/
theorem Access.countCases (h : Access v c g k g' k') :
    (g'.quiesceCounter = g.quiesceCounter ∧ stopped k' = stopped k) ∨
    (g'.quiesceCounter = 0 ∧ holds v k ∧ counting k = false ∧ stopped k' = stopped k) ∨
    (bumping k ∧ stopped k = false ∧ stopped k' ∧
      ∀ t, k.nmi = .writeCounter t → g'.quiesceCounter = inc32 t) ∨
    (g.resumeSignal c ∧ stopped k) := by
  cases h
  case op hop => exact .inl ⟨(opStep_frame hop).1, rfl⟩
  all_goals simp_all [stopped, holds, counting, bumping]

theorem Access.counting_after (h : Access v c g k g' k') (hc : counting k') :
    counting k ∨ g'.quiesceCounter = 0 := by
  cases h <;> simp_all [counting]

theorem Access.quiescing_after (h : Access v c g k g' k') (hc : k'.main = .quiescing) :
    k.main = .quiescing ∨ (k.main = .awaitCounter ∧ g' = g ∧ n - 1 ≤ g.quiesceCounter) := by
  cases h <;> simp_all

theorem Access.signal_of_stopped (h : Access v c g k g' k') (hs : stopped k) : g.resumeSignal c := by
  cases h <;> simp_all [stopped]

theorem holds_of_starting (h : starting k) : holds v k := by
  cases hm : k.main <;> simp_all [starting, holds]

theorem starting_of_counting (h : counting k) : starting k := by
  cases hm : k.main <;> simp_all [counting, starting]

theorem owned_of_counting (h : counting k) : owned k := by
  cases hm : k.main <;> simp_all [counting, owned]

/-- While a round is counting, a core stopped in the handler has its signal down. -/
theorem Inv.signal_down (hs : Inv v g f) {i j : Fin n} (hi : counting (f i)) (hj : stopped (f j)) :
    g.resumeSignal j = false := by
  have hnp : passive (f j) = false := by simp_all [stopped, passive]
  refine hs.down i (starting_of_counting hi) j ?_ ?_
  · rintro rfl
    simp [(hs.own j (owned_of_counting hi)).2] at hnp
  · intro hu
    simp [(hs.own j (by simp [owned, hu])).2] at hnp

theorem Inv.step_counted (hs : Inv v g f) (h : Access v c g (f c) g' k') (i : Fin n)
    (hi : counting (Function.update f c k' i)) :
    g'.quiesceCounter ≤ count (fun _ => stopped) (Function.update f c k') := by
  have hu := count_update (fun _ => stopped) f c k'
  by_cases hz : g'.quiesceCounter = 0
  · omega
  -- the initiator of the round was already counting before the access
  have hi' : counting (f i) := by
    by_cases hic : i = c
    · subst hic
      simp only [Function.update_self] at hi
      exact (h.counting_after hi).resolve_right hz
    · simpa [hic] using hi
  have hold := hs.counted i hi'
  rcases h.countCases with ⟨h1, h2⟩ | ⟨h1, -⟩ | ⟨hb, h2, h3, h4⟩ | ⟨hg, hst⟩
  · rw [h2] at hu; omega
  · exact (hz h1).elim
  · have hw := h4 _ (hs.counter c hb).2
    have hle : inc32 g.quiesceCounter ≤ g.quiesceCounter + 1 := inc32_le _
    simp only [h2, h3, Bool.toNat_false, Bool.toNat_true] at hu
    omega
  · simp [hs.signal_down hi' hst] at hg

theorem Inv.step_solo (hs : Inv v g f) (h : Access v c g (f c) g' k') (i : Fin n)
    (hi : (Function.update f c k' i).main = .quiescing) :
    ∀ j, j ≠ i → stopped (Function.update f c k' j) := by
  by_cases hic : i = c
  · subst hic
    simp only [Function.update_self] at hi
    have hall : ∀ j, j ≠ i → stopped (f j) := by
      rcases h.quiescing_after hi with hal | ⟨hm, -, hn⟩
      · exact hs.solo i hal
      · -- the count is full and leaves the initiator out
        have hcnt : counting (f i) := by simp [counting, hm]
        have hpas := (hs.own i (owned_of_counting hcnt)).2
        have hnst : stopped (f i) = false := by
          cases he : (f i).nmi <;> simp_all [passive, stopped]
        have hle := hs.counted i hcnt
        exact forall_of_count (p := fun _ => stopped) hnst (by
          rw [Fintype.card_fin]; omega)
    intro j hj
    simpa [hj] using hall j hj
  · have hi' : (f i).main = .quiescing := by simpa [hic] using hi
    have hst := hs.solo i hi' c (Ne.symm hic)
    have hc := h.signal_of_stopped hst
    have hcnt : counting (f i) := by simp [counting, hi']
    simp [hs.signal_down hcnt hst] at hc

theorem Inv.step_down (hs : Inv v g f) (h : Access v c g (f c) g' k')
    (hacq : (f c).nmi = .out → (f c).main = .lockQuiesce → k'.main ≠ (f c).main →
      ∀ j, j ≠ c → (f j).main ≠ .user → g.resumeSignal j = false) (i : Fin n)
    (hi : starting (Function.update f c k' i)) :
    ∀ j, j ≠ i → (Function.update f c k' j).main ≠ .user → g'.resumeSignal j = false := by
  intro j hj hu
  have hu' : (f j).main ≠ .user := by
    by_cases hjc : j = c
    · subst hjc
      exact h.user_stays (by simpa using hu)
    · simpa [hjc] using hu
  by_contra hg
  by_cases hic : i = c
  · subst hic
    simp only [Function.update_self] at hi
    rcases h.raises_signal (by simpa using hg) with hg' | ⟨-, -, hns⟩
    · rcases h.starting_after hi with hst | ⟨hn, hm, hne⟩
      · simp [hs.down i hst j hj hu'] at hg'
      · simp [hacq hn hm hne j hj hu'] at hg'
    · simp [hi] at hns
  · rw [Function.update_of_ne hic] at hi
    rcases h.raises_signal (by simpa using hg) with hg' | ⟨hh, -, -⟩
    · simp [hs.down i hi j hj hu'] at hg'
    · exact hic (hs.excl i (holds_of_starting hi) c hh)

theorem Regular.step (hs : Regular v g f) (h : Access v c g (f c) g' k') :
    Regular v g' (Function.update f c k') where
  excl := by
    refine hs.excl.update fun hv => ?_
    rcases h.lockDiscipline.1 hv with hk | hl
    · exact .inl hk
    · exact .inr fun i _ => hs.free hl i
  free hl := by
    obtain ⟨hfree, hkeep⟩ := h.lockDiscipline.2 hl
    refine forall_update (P := fun _ k => holds v k = false) ?_ fun i hi => ?_
    · by_contra hk
      obtain ⟨hc, hg⟩ := hkeep (by simpa using hk)
      simp [hs.free hg c] at hc
    · rcases hfree with hg | hc
      · exact hs.free hg i
      · by_contra hk
        exact hi (hs.excl i (by simpa using hk) c hc)
  branch := forall_update (P := fun _ k => passive k = false → k.nmi ≠ .setQuiesced → k.quiesced)
    (h.branch_after (hs.branch c)) fun i _ => hs.branch i
  own := forall_update (P := fun _ k => owned k → k.quiesced ∧ passive k)
    (h.own_after (hs.branch c) (hs.own c)) fun i _ => hs.own i

/-- **One access keeps the invariant**, if it takes the quiesce lock only with the signals down. -/
theorem Inv.step (hs : Inv v g f) (h : Access v c g (f c) g' k')
    (hacq : (f c).nmi = .out → (f c).main = .lockQuiesce → k'.main ≠ (f c).main →
      ∀ j, j ≠ c → (f j).main ≠ .user → g.resumeSignal j = false) :
    Inv v g' (Function.update f c k') where
  toRegular := hs.toRegular.step h
  down := hs.step_down h hacq
  bump := by
    refine hs.bump.update fun hv => .inr fun i _ => ?_
    by_contra hb
    have hl := (hs.counter i (by simpa using hb)).1
    simp [(h.readsCounter hv).2.1] at hl
  counter := by
    refine forall_update (P := fun _ k => bumping k →
      g'.lockQuiesceCounter = false ∧ k.nmi = .writeCounter g'.quiesceCounter)
      (fun hb => (h.readsCounter hb).2.2) fun i hi hb => ?_
    obtain ⟨hl, hw⟩ := hs.counter i hb
    have hc : bumping (f c) = false := by
      by_contra hc
      exact hi (hs.bump i hb c (by simpa using hc))
    obtain ⟨h1, h2⟩ := h.counterLocked hl hc
    exact ⟨h1, by rw [h2]; exact hw⟩
  counted := hs.step_counted h
  solo := hs.step_solo h

end

theorem regular_init (v : Variant n) : Regular v (init n).sh (init n).core where
  excl := by simp [AtMostOne, init, holds]
  free := by simp [init, holds]
  branch := by simp [init, passive]
  own := by simp [init, owned]

theorem inv_init (v : Variant n) : Inv v (init n).sh (init n).core where
  toRegular := regular_init v
  down := by simp [init, starting]
  bump := by simp [AtMostOne, init, bumping]
  counter := by simp [init, bumping]
  counted := by simp [init, counting]
  solo := by simp [init]

theorem inv_reach {v : Variant n} {s : State n} (h : Reach (step v) SignalsDown (init n) s) :
    Inv v s.sh s.core := by
  refine h.inv (I := fun s => Inv v s.sh s.core) (inv_init v) fun s a s' hs hok hst => ?_
  rcases step_access hst with ⟨-, -, h1, h2⟩ | ⟨c, k', hac, hk, ha⟩
  · rw [h1, h2]; exact hs
  · rw [hk]
    refine hs.step ha fun hn hm hne => ?_
    rcases hac with ⟨rfl, -⟩ | ⟨-, -, hmain⟩
    · exact hok c ⟨rfl, hn, hm⟩
    · exact (hne hmain).elim

end Xmhf.Smp.Vmx
