import Xmhf.Smp.Proof.SvmInv

/-!
# SVM: the initiator is alone, and what endquiesce leaves behind

`quiesce_alone`: between the wait loop of quiesce and the resume signal every other core is stopped
in the handler's wait, in every run and whatever NMIs arrive.

endquiesce counts increments of `g_svm_quiesce_resume_counter`, not cores: a released core whose
next NMI finds `g_svm_quiesce` still 1 takes the quiesce branch again and increments a second time
(`endquiesce_strands_core`). In the runs where no released core takes that branch while the resume
signal is up (`NoReentry`), the count is a count of cores: `Resume` is the invariant, and
`endquiesce_resumes_all` says that every other core is past its wait when the signal is withdrawn.
-/

namespace Xmhf.Smp.Svm

open Xmhf.Count Xmhf.Trans Xmhf.Word

variable {n : Nat}

/-- **Mutual exclusion of the quiesced section**: once an initiator has left the wait loop of
quiesce, and until it sets the resume signal, every other core waits for that signal. -/
theorem quiesce_alone {s : State n} (h : Reach step anyStep (init n) s) {i : Fin n}
    (hi : alone (s.core i)) : ∀ j, j ≠ i → (s.core j).nmi = .awaitResumeSignal := by
  intro j hj
  simpa [stopped] using (inv_reach h).solo i hi j hj

/-- A round of two cores up to the initiator's exit from the wait loop. -/
def soloRun : List (Act 2) :=
  List.replicate 6 (.run 0) ++ .take 1 :: List.replicate 5 (.run 1) ++ [.run 0]

theorem quiesce_alone_two : ∃ s : State 2, Reach step anyStep (init 2) s ∧ alone (s.core 0) ∧
    (s.core 1).nmi = .awaitResumeSignal := by
  obtain ⟨s, hr, ha⟩ : ∃ s, Reach step anyStep (init 2) s ∧ alone (s.core 0) :=
    Reach.exists_of_checked soloRun (by decide +kernel)
  exact ⟨s, hr, ha, quiesce_alone hr ha 1 (by decide)⟩

/-! ## The resume phase -/

/-- Three cores; core 1 is released, takes one more NMI while `g_svm_quiesce` is 1 and increments
the resume counter a second time, before core 2 has seen the resume signal. -/
def strandRun : List (Act 3) :=
  List.replicate 6 (.run 0) ++ .take 1 :: List.replicate 5 (.run 1) ++
    .take 2 :: List.replicate 5 (.run 2) ++ List.replicate 4 (.run 0) ++
    .nmi 1 :: List.replicate 4 (.run 1) ++ .take 1 :: List.replicate 8 (.run 1) ++
    List.replicate 3 (.run 0)

/-- **endquiesce strands a core**: the initiator is about to withdraw the resume signal, and core 2,
quiesced in this round, still waits for it. -/
theorem endquiesce_strands_core : ∃ s : State 3, Reach step anyStep (init 3) s ∧
    (s.core 0).main = .resetResumeSignal ∧ (s.core 0).nmi = .out ∧
    (s.core 2).nmi = .awaitResumeSignal :=
  Reach.exists_of_checked strandRun (by decide +kernel)

/-- Core `c`, not the initiator, is about to take the quiesce branch of the handler although the
resume signal is up: the test of `g_svm_quiesce` succeeds and `vcpu->quiesced` is 0. -/
def Reenters (s : State n) (c : Fin n) : Prop :=
  (s.core c).nmi = .testQuiesce ∧ s.sh.quiesce ∧ (s.core c).quiesced = false ∧
    s.sh.resumeSignal ∧ holds (s.core c) = false

instance (s : State n) (c : Fin n) : Decidable (Reenters s c) := by
  unfold Reenters; infer_instance

/-- No released core takes the quiesce branch again while the resume signal is up. -/
def NoReentry (s : State n) (a : Act n) : Prop := ∀ c, a = .run c → ¬ Reenters s c

instance (s : State n) (a : Act n) : Decidable (NoReentry s a) := by
  unfold NoReentry; infer_instance

/-- Between the resume signal and the release of the quiesce lock. -/
def releasing (k : Core) : Bool :=
  match k.main with
  | .awaitResumeCounter | .clearQuiesced | .clearQuiesce | .resetResumeSignal
  | .unlockQuiesce => true
  | _ => false

/-- Between the exit from the resume wait and the release of the quiesce lock. -/
def resumed (k : Core) : Bool :=
  match k.main with
  | .clearQuiesced | .clearQuiesce | .resetResumeSignal | .unlockQuiesce => true
  | _ => false

/-- Past the wait and its increment of the resume counter, and not back in the quiesce branch. -/
def gone (k : Core) : Bool :=
  match k.nmi with
  | .clearQuiesced => true
  | .out | .testQuiesce => !k.quiesced
  | _ => false

/-- Waiting for the resume signal, or incrementing the resume counter. -/
def leaving (k : Core) : Bool :=
  match k.nmi with
  | .awaitResumeSignal | .readResumeCounter | .writeResumeCounter _ => true
  | _ => false

/-- Between the read and the write of `g_svm_quiesce_resume_counter++`. -/
def resumeBumping (k : Core) : Bool :=
  match k.nmi with
  | .writeResumeCounter _ => true
  | _ => false

/-- The invariant of the resume phase, for runs without re-entry. -/
structure Resume (g : Shared) (f : Fin n → Core) : Prop where
  inv : Inv g f
  off : ∀ i, (f i).main = .resetResumeSignal ∨ (f i).main = .unlockQuiesce → g.quiesce = false
  up : ∀ i, resuming (f i) → g.resumeSignal
  bump : AtMostOne resumeBumping f
  counter : ∀ i, resumeBumping (f i) →
    g.lockResumeCounter = false ∧ (f i).nmi = .writeResumeCounter g.resumeCounter
  zero : ∀ i, (f i).main = .setResumeSignal → g.resumeCounter = 0
  back : ∀ i, releasing (f i) → ∀ j, j ≠ i → leaving (f j) ∨ gone (f j)
  counted : ∀ i, (f i).main = .awaitResumeCounter →
    g.resumeCounter ≤ count (fun j k => j ≠ i && gone k) f
  all : ∀ i, resumed (f i) → ∀ j, j ≠ i → gone (f j)

section
variable {g g' : Shared} {f : Fin n → Core} {c : Fin n} {k k' : Core}

theorem Access.setsQuiesce (h : Access n g k g' k') (hg : g'.quiesce) : g.quiesce ∨ counting k := by
  cases h <;> simp_all [counting]

theorem Access.off_after (h : Access n g k g' k')
    (ho : k'.main = .resetResumeSignal ∨ k'.main = .unlockQuiesce) :
    g'.quiesce = false ∨ ((k.main = .resetResumeSignal ∨ k.main = .unlockQuiesce) ∧
      g'.quiesce = g.quiesce) := by
  cases h <;> simp_all

theorem Access.up_after (h : Access n g k g' k') (hk : resuming k → g.resumeSignal)
    (hr : resuming k') : g'.resumeSignal := by
  cases h <;> simp_all [resuming]

theorem Access.keepsSignal (h : Access n g k g' k') (hg : g.resumeSignal) :
    g'.resumeSignal ∨ holds k := by
  cases h <;> simp_all [holds]

theorem Access.readsResumeCounter (h : Access n g k g' k') (hb : resumeBumping k') :
    g.lockResumeCounter ∧ g'.lockResumeCounter = false ∧
      k'.nmi = .writeResumeCounter g'.resumeCounter := by
  cases h <;> simp_all [resumeBumping]

/-- While another core holds the resume counter's lock, only the initiator's reset, which takes no
lock, could change the counter. -/
theorem Access.resumeLocked (h : Access n g k g' k') (hl : g.lockResumeCounter = false)
    (hb : resumeBumping k = false) :
    g'.lockResumeCounter = false ∧ (g'.resumeCounter = g.resumeCounter ∨ alone k) := by
  cases h <;> simp_all [resumeBumping, alone]

theorem Access.zero_after (h : Access n g k g' k') (hk : k'.main = .setResumeSignal) :
    g'.resumeCounter = 0 ∨
      (k.main = .setResumeSignal ∧ (passive k → g'.resumeCounter = g.resumeCounter)) := by
  cases h <;> simp_all [passive]

theorem Access.releasing_after (h : Access n g k g' k') (hr : releasing k') :
    releasing k ∨ alone k := by
  cases h <;> simp_all [releasing, alone]

theorem Access.leaves (h : Access n g k g' k') (hh : holds k = false)
    (hl : g.lockQuiesce = false) (hre : k.nmi = .testQuiesce → k.quiesced = false → g.quiesce = false) :
    (gone k → gone k') ∧ (leaving k → leaving k' ∨ gone k') := by
  cases h <;> simp_all [holds, gone, leaving]

/-- The resume counter moves by one core's increment, by the reset, or not at all. -/
theorem Access.resumeCases (h : Access n g k g' k') :
    g'.resumeCounter = g.resumeCounter ∨ alone k ∨
      (resumeBumping k ∧ gone k = false ∧ gone k' ∧
        ∀ t, k.nmi = .writeResumeCounter t → g'.resumeCounter = inc32 t) := by
  cases h <;> simp_all [alone, resumeBumping, gone]

theorem Access.awaits_after (h : Access n g k g' k') (ha : k'.main = .awaitResumeCounter) :
    (k.main = .awaitResumeCounter ∨ k.main = .setResumeSignal) ∧
      (passive k → g'.resumeCounter = g.resumeCounter) := by
  cases h <;> simp_all [passive]

theorem Access.resumed_after (h : Access n g k g' k') (hr : resumed k') :
    resumed k ∨ (k.main = .awaitResumeCounter ∧ n - 1 ≤ g.resumeCounter) := by
  cases h <;> simp_all [resumed]

theorem holds_of_releasing (h : releasing k) : holds k := by
  cases hm : k.main <;> simp_all [releasing, holds]

theorem releasing_of_resumed (h : resumed k) : releasing k := by
  cases hm : k.main <;> simp_all [releasing, resumed]

/-- The resume phase forbids another core's quiesce branch, by the condition on the run. -/
theorem Resume.no_quiesce (hs : Resume g f) {i j : Fin n} (hi : releasing (f i)) (hj : j ≠ i)
    (hre : ¬ ((f j).nmi = .testQuiesce ∧ g.quiesce ∧ (f j).quiesced = false ∧ g.resumeSignal ∧
      holds (f j) = false)) :
    (f j).nmi = .testQuiesce → (f j).quiesced = false → g.quiesce = false := by
  intro ht hq
  have hh : holds (f j) = false := by
    by_contra hh
    exact hj (hs.inv.excl j (by simpa using hh) i (holds_of_releasing hi))
  by_contra hg
  by_cases hr : resuming (f i)
  · exact hre ⟨ht, by simpa using hg, hq, hs.up i hr, hh⟩
  · refine hg (hs.off i ?_)
    cases hm : (f i).main <;> simp_all [releasing, resuming]

theorem Resume.leaves (hs : Resume g f) (h : Access n g (f c) g' k') {i : Fin n}
    (hi : releasing (f i)) (hc : c ≠ i)
    (hre : ¬ ((f c).nmi = .testQuiesce ∧ g.quiesce ∧ (f c).quiesced = false ∧ g.resumeSignal ∧
      holds (f c) = false)) :
    (gone (f c) → gone k') ∧ (leaving (f c) → leaving k' ∨ gone k') := by
  have hhi := holds_of_releasing hi
  refine h.leaves ?_ ?_ (hs.no_quiesce hi hc hre)
  · by_contra hh
    exact hc (hs.inv.excl c (by simpa using hh) i hhi)
  · by_contra hl
    simp [hs.inv.free (by simpa using hl) i] at hhi

/-- **One access keeps the invariant of the resume phase**, unless a released core re-enters. -/
theorem Resume.step (hs : Resume g f) (h : Access n g (f c) g' k')
    (hre : ¬ ((f c).nmi = .testQuiesce ∧ g.quiesce ∧ (f c).quiesced = false ∧ g.resumeSignal ∧
      holds (f c) = false)) :
    Resume g' (Function.update f c k') where
  inv := hs.inv.step h
  off := by
    refine forall_update (P := fun _ (k : Core) =>
      k.main = .resetResumeSignal ∨ k.main = .unlockQuiesce → g'.quiesce = false) ?_ ?_
    · intro ho
      rcases h.off_after ho with hg | ⟨hk, hg⟩
      · exact hg
      · rw [hg]; exact hs.off c hk
    · intro i hi ho
      by_contra hg
      rcases h.setsQuiesce (by simpa using hg) with hg' | hc
      · simp [hs.off i ho] at hg'
      · refine hi (hs.inv.excl i ?_ c (holds_of_counting hc))
        rcases ho with ho | ho <;> simp [holds, ho]
  up := by
    refine forall_update (P := fun _ k => resuming k → g'.resumeSignal)
      (h.up_after (hs.up c)) fun i hi hr => ?_
    rcases h.keepsSignal (hs.up i hr) with hg | hc
    · exact hg
    · exact (hi (hs.inv.excl i (holds_of_resuming hr) c hc)).elim
  bump := by
    refine hs.bump.update fun hv => .inr fun i _ => ?_
    by_contra hb
    have := (hs.counter i (by simpa using hb)).1
    simp [(h.readsResumeCounter hv).1] at this
  counter := by
    refine forall_update (P := fun _ k => resumeBumping k → g'.lockResumeCounter = false ∧
      k.nmi = .writeResumeCounter g'.resumeCounter) (fun hb => (h.readsResumeCounter hb).2)
      fun i hi hb => ?_
    obtain ⟨hl, hw⟩ := hs.counter i hb
    have hc : resumeBumping (f c) = false := by
      by_contra hc
      exact hi (hs.bump i hb c (by simpa using hc))
    obtain ⟨h1, h2⟩ := h.resumeLocked hl hc
    refine ⟨h1, ?_⟩
    rcases h2 with h2 | hal
    · rw [h2]; exact hw
    · have := hs.inv.solo c hal i hi
      simp [stopped, hw] at this
  zero := by
    refine forall_update (P := fun _ (k : Core) => k.main = .setResumeSignal → g'.resumeCounter = 0) ?_ ?_
    · intro hm
      rcases h.zero_after hm with hz | ⟨hk, hz⟩
      · exact hz
      · rw [hz (hs.inv.own c (by simp [owned, hk])).2]
        exact hs.zero c hk
    · -- every other core is stopped, and cannot move before the resume signal
      intro i hi hm
      have hal : alone (f i) := by simp [alone, hm]
      have hsig := h.signal_of_stopped (hs.inv.solo i hal c hi.symm)
      simp [hs.inv.signal_down (counting_of_alone hal)] at hsig
  back i hi := by
    by_cases hic : i = c
    · subst hic
      rw [Function.update_self] at hi
      intro j hj
      rw [Function.update_of_ne hj]
      rcases h.releasing_after hi with hr | hal
      · exact hs.back i hr j hj
      · have := hs.inv.solo i hal j hj
        exact .inl (by simp_all [stopped, leaving])
    · rw [Function.update_of_ne hic] at hi
      refine forall_update (P := fun j k => j ≠ i → leaving k ∨ gone k) ?_
        fun j _ hj => hs.back i hi j hj
      intro hci
      obtain ⟨h1, h2⟩ := hs.leaves h hi hci hre
      rcases hs.back i hi c hci with hk | hk
      · exact h2 hk
      · exact .inr (h1 hk)
  counted i hi := by
    have hu := count_update (fun j k => j ≠ i && gone k) f c k'
    by_cases hic : i = c
    · subst hic
      rw [Function.update_self] at hi
      simp only [ne_eq, not_true_eq_false, decide_false, Bool.false_and, Bool.toNat_false,
        Nat.add_zero] at hu
      obtain ⟨hm, hkeep⟩ := h.awaits_after hi
      have hpas : passive (f i) := by
        refine (hs.inv.own i ?_).2
        rcases hm with hm | hm <;> simp [owned, hm]
      rw [hkeep hpas, hu]
      rcases hm with hm | hm
      · exact hs.counted i hm
      · rw [hs.zero i hm]; exact Nat.zero_le _
    · rw [Function.update_of_ne hic] at hi
      have hold := hs.counted i hi
      have hci : c ≠ i := Ne.symm hic
      simp only [ne_eq, hci, not_false_eq_true, decide_true, Bool.true_and] at hu
      have hrel : releasing (f i) := by simp [releasing, hi]
      rcases h.resumeCases with hg | hal | ⟨hb, hk, hk', hw⟩
      · -- the counter stays, and a core that is gone stays gone
        have hstay := (hs.leaves h hrel hci hre).1
        have hle : (gone (f c)).toNat ≤ (gone k').toNat := by
          cases hgo : gone (f c) <;> simp_all
        simp only [ne_eq] at hold ⊢
        omega
      · exact (hic (hs.inv.excl i (holds_of_releasing hrel) c
          (holds_of_counting (counting_of_alone hal)))).elim
      · have hval := hw _ (hs.counter c hb).2
        have hle : inc32 g.resumeCounter ≤ g.resumeCounter + 1 := inc32_le _
        simp only [hk, hk', Bool.toNat_false, Bool.toNat_true] at hu
        simp only [ne_eq] at hold ⊢
        omega
  all i hi := by
    by_cases hic : i = c
    · subst hic
      rw [Function.update_self] at hi
      intro j hj
      rw [Function.update_of_ne hj]
      rcases h.resumed_after hi with hr | ⟨hm, hn⟩
      · exact hs.all i hr j hj
      · have := forall_of_count (p := fun j k => j ≠ i && gone k) (f := f) (i := i) (by simp)
          (by rw [Fintype.card_fin]; exact hn.trans (hs.counted i hm)) j hj
        simpa [hj] using this
    · rw [Function.update_of_ne hic] at hi
      refine forall_update (P := fun j k => j ≠ i → gone k) ?_ fun j _ hj => hs.all i hi j hj
      intro hci
      exact (hs.leaves h (releasing_of_resumed hi) hci hre).1 (hs.all i hi c hci)

end

theorem resume_init (n : Nat) : Resume (init n).sh (init n).core where
  inv := inv_init n
  off := by simp [init]
  up := by simp [init, resuming]
  bump := by simp [AtMostOne, init, resumeBumping]
  counter := by simp [init, resumeBumping]
  zero := by simp [init]
  back := by simp [init, releasing]
  counted := by simp [init]
  all := by simp [init, resumed]

theorem resume_reach {s : State n} (h : Reach step NoReentry (init n) s) :
    Resume s.sh s.core := by
  refine h.inv (I := fun s => Resume s.sh s.core) (resume_init n) fun s a s' hs hok hst => ?_
  rcases step_access hst with ⟨h1, h2⟩ | ⟨c, k', hac, hk, ha⟩
  · rw [h1, h2]; exact hs
  · rw [hk]
    refine hs.step ha ?_
    rcases hac with rfl | rfl
    · exact hok c rfl
    · -- a core that takes an NMI is not in the handler yet
      rintro ⟨ht, -⟩
      simp only [step, Option.ite_none_right_eq_some] at hst
      simp [hst.1.2] at ht

/-- **endquiesce resumes everyone** in the runs without re-entry: when the initiator is about to
withdraw the resume signal, every other core is past its wait on it and not back in the quiesce
branch. -/
theorem endquiesce_resumes_all {s : State n} (h : Reach step NoReentry (init n) s) {i : Fin n}
    (hi : (s.core i).main = .resetResumeSignal) :
    ∀ j, j ≠ i → (s.core j).nmi ∈ [Nmi.out, .testQuiesce, .clearQuiesced] := by
  intro j hj
  have hgone := (resume_reach h).all i (by simp [resumed, hi]) j hj
  cases he : (s.core j).nmi <;> simp_all [gone]

/-- One round of two cores, up to the withdrawal of the resume signal. -/
def resumeRun : List (Act 2) :=
  List.replicate 6 (.run 0) ++ .take 1 :: List.replicate 5 (.run 1) ++ List.replicate 4 (.run 0) ++
    List.replicate 4 (.run 1) ++ List.replicate 3 (.run 0)

theorem endquiesce_resumes_two : ∃ s : State 2, Reach step NoReentry (init 2) s ∧
    (s.core 0).main = .resetResumeSignal ∧
    (s.core 1).nmi ∈ [Nmi.out, .testQuiesce, .clearQuiesced] := by
  obtain ⟨s, hr, hm⟩ : ∃ s, Reach step NoReentry (init 2) s ∧
      (s.core 0).main = .resetResumeSignal :=
    Reach.exists_of_checked resumeRun (by decide +kernel)
  exact ⟨s, hr, hm, endquiesce_resumes_all hr hm 1 (by decide)⟩

end Xmhf.Smp.Svm
