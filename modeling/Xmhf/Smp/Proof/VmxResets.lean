import Xmhf.Smp.Proof.VmxQuiesce

/-!
# The resets of endquiesce in the NMI study

`nmiStudy` resets the resume signals and the resume counter after it has released the quiesce lock.
`resets_spare_later`: no reset meets a signal or an increment of a later round in the runs where the
lock is taken only after the earlier initiator has finished (`Finished`). Without that the next round
may lose a signal (`nmiStudy_reset_erases_signal`).
-/

namespace Xmhf.Smp.Vmx

open Xmhf.Count Xmhf.Trans

variable {n : Nat}

/-- Core `k` has released the quiesce lock and is still in endquiesce. -/
def released (v : Variant n) (k : Core) : Bool :=
  match k.main with
  | .endquiesce p => !unlocksFrom v.endquiesce p
  | _ => false

/-- Core `c`, past the release of the lock, is about to reset a resume signal that was raised, or the
resume counter that was incremented, in a round later than its own. -/
def ErasesLater (v : Variant n) (t : Traced n) (c : Fin n) : Prop :=
  released v (t.st.core c) ∧
    ((∃ k, coreEvent v c (t.st.core c) = .signal k false ∧ t.mine c < t.raised k) ∨
      (coreEvent v c (t.st.core c) = .assign 0 ∧ t.mine c < t.bumped))

instance (v : Variant n) (t : Traced n) (c : Fin n) : Decidable (ErasesLater v t c) :=
  inferInstanceAs (Decidable (_ ∧ _))

/-- Between taking the quiesce lock and the last access of endquiesce. -/
def inRound (v : Variant n) (k : Core) : Bool :=
  match k.main with
  | .guest | .lockQuiesce | .user => false
  | .endquiesce p => p < v.endquiesce.length
  | _ => true

/-- The quiesce lock is taken only while no initiator of an earlier round has accesses of endquiesce
left to make. -/
def Finished (v : Variant n) (t : Traced n) (a : Act n) : Prop :=
  ∀ c, Acquires t.st a c → ∀ i, inRound v (t.st.core i) = false

instance (v : Variant n) (t : Traced n) (a : Act n) : Decidable (Finished v t a) :=
  inferInstanceAs (Decidable (∀ _, _))

/-- The invariant of the runs with `Finished`: only the initiator of the current round is between the
lock and the end of endquiesce, and nothing is stamped with a round to come. -/
structure Rounds (v : Variant n) (t : Traced n) : Prop where
  current : ∀ i, inRound v (t.st.core i) → t.mine i = t.round
  raised : ∀ k, t.raised k ≤ t.round
  bumped : t.bumped ≤ t.round

theorem Access.inRound_after {v : Variant n} {c : Fin n} {g g' : Shared n} {k k' : Core}
    (h : Access v c g k g' k') (hr : inRound v k') :
    inRound v k ∨ (k.nmi = .out ∧ k.main = .lockQuiesce ∧ k'.main ≠ k.main) := by
  cases h
  case op ho hop =>
    have hp := (List.getElem?_eq_some_iff.1 ho).1
    exact .inl (by simpa [inRound] using hp)
  all_goals simp_all [inRound]

namespace Traced

theorem record_raised {t : Traced n} (h : ∀ k, t.raised k ≤ t.round) (s : State n) (e : Event n)
    (k : Fin n) : (t.record s e).raised k ≤ (t.record s e).round := by
  cases e with
  | acquire c => exact Nat.le_succ_of_le (h k)
  | signal j b =>
    refine forall_update (P := fun _ r => r ≤ t.round) ?_ (fun i _ => h i) k
    cases b <;> simp
  | _ => exact h k

theorem record_bumped {t : Traced n} (h : t.bumped ≤ t.round) (s : State n) (e : Event n) :
    (t.record s e).bumped ≤ (t.record s e).round := by
  cases e with
  | acquire c => exact Nat.le_succ_of_le h
  | assign m => exact Nat.zero_le _
  | increment => exact Nat.le_refl _
  | _ => exact h

end Traced

/-- A step that takes the lock starts a round of its own. -/
theorem current_of_acquires {v : Variant n} {t t' : Traced n} {a : Act n} {c i : Fin n}
    (hok : Finished v t a) (ht : tstep v t a = some t') (hc : Acquires t.st a c)
    (hi : inRound v (t'.st.core i)) : t'.mine i = t'.round := by
  obtain ⟨hst, hrec⟩ := tstep_eq ht
  rw [event_acquire.2 hc] at hrec
  rcases step_access hst with ⟨d, hd, -, hcore⟩ | ⟨d, k', hd, hcore, -⟩
  · exact absurd (hc.1.symm.trans hd) (by simp)
  · have hdc : c = d := by
      rcases hd with ⟨hd, -⟩ | ⟨hd, -⟩ <;> simpa using hc.1.symm.trans hd
    subst hdc
    by_cases hic : i = c
    · subst hic
      rw [hrec]
      simp [Traced.record]
    · rw [hcore, Function.update_of_ne hic, hok c hc i] at hi
      cases hi

/-- A step keeps the rounds apart. -/
theorem Rounds.step_current {v : Variant n} {t t' : Traced n} {a : Act n} (hs : Rounds v t)
    (hok : Finished v t a) (ht : tstep v t a = some t') (i : Fin n)
    (hi : inRound v (t'.st.core i)) : t'.mine i = t'.round := by
  by_cases hacq : ∃ c, Acquires t.st a c
  · obtain ⟨c, hc⟩ := hacq
    exact current_of_acquires hok ht hc hi
  · obtain ⟨hst, hrec⟩ := tstep_eq ht
    have hne : ∀ c, event v t.st a ≠ .acquire c := fun c he => hacq ⟨c, event_acquire.1 he⟩
    rw [hrec, (Traced.record_of_not_acquire hne).1, (Traced.record_of_not_acquire hne).2]
    apply hs.current i
    rcases step_access hst with ⟨-, -, -, hcore⟩ | ⟨c, k', hac, hcore, ha⟩
    · rwa [hcore] at hi
    · rw [hcore] at hi
      by_cases hic : i = c
      · subst hic
        rw [Function.update_self] at hi
        rcases ha.inRound_after hi with hk | ⟨hn, hm, hmove⟩
        · exact hk
        · rcases hac with ⟨rfl, -⟩ | ⟨-, -, hmain⟩
          · exact (hacq ⟨i, rfl, hn, hm⟩).elim
          · exact (hmove hmain).elim
      · rwa [Function.update_of_ne hic] at hi

theorem rounds_reach {v : Variant n} {t : Traced n} (h : Reach (tstep v) (Finished v) (tinit n) t) :
    Rounds v t := by
  refine h.inv (I := Rounds v) ?_ fun t a t' hs hok ht => ⟨hs.step_current hok ht, ?_, ?_⟩
  · exact ⟨by simp [tinit, init, inRound], by simp [tinit], by simp [tinit]⟩
  · rw [(tstep_eq ht).2]
    exact Traced.record_raised hs.raised _ _
  · rw [(tstep_eq ht).2]
    exact Traced.record_bumped hs.bumped _ _

/-- A core whose next access is a store of endquiesce is in its round. -/
theorem inRound_of_event {v : Variant n} {c : Fin n} {k : Core} (hr : released v k)
    (he : (∃ j b, coreEvent v c k = .signal j b) ∨ ∃ m, coreEvent v c k = .assign m) :
    inRound v k := by
  cases hm : k.main with
  | endquiesce p =>
    have hsome : v.endquiesce[p]? ≠ none := by
      intro hnone
      cases hn : k.nmi <;> simp [coreEvent, hn, hm, hnone] at he
    simpa [inRound, hm] using hsome
  | _ => simp [released, hm] at hr

theorem resets_spare_later {v : Variant n} {t : Traced n}
    (h : Reach (tstep v) (Finished v) (tinit n) t) (c : Fin n) : ¬ ErasesLater v t c := by
  rintro ⟨hrel, herase⟩
  have hs := rounds_reach h
  rcases herase with ⟨k, he, hk⟩ | ⟨he, hb⟩
  · have hmine := hs.current c (inRound_of_event hrel (.inl ⟨k, false, he⟩))
    have hle := hs.raised k
    omega
  · have hmine := hs.current c (inRound_of_event hrel (.inr ⟨0, he⟩))
    have hle := hs.bumped
    omega

/-- **The resets of endquiesce spare the later rounds**, in the runs where no round starts before the
earlier initiator has finished. -/
theorem nmiStudy_resets_spare_later {t : Traced 6}
    (h : Reach (tstep nmiStudy) (Finished nmiStudy) (tinit 6) t) (c : Fin 6) :
    ¬ ErasesLater nmiStudy t c :=
  resets_spare_later h c

/-- At the end of a round of core 0xa, about to reset the signal of core 0xc. -/
theorem nmiStudy_reset_own_round : ∃ t : Traced 6,
    Reach (tstep nmiStudy) (Finished nmiStudy) (tinit 6) t ∧
    coreEvent nmiStudy 0 (t.st.core 0) = .signal 1 false ∧ t.raised 1 = 1 ∧
    ¬ ErasesLater nmiStudy t 0 := by
  obtain ⟨t, hr, he, h1⟩ : ∃ t, Reach (tstep nmiStudy) (Finished nmiStudy) (tinit 6) t ∧
      coreEvent nmiStudy 0 (t.st.core 0) = .signal 1 false ∧ t.raised 1 = 1 :=
    Reach.exists_of_checked (quiesceRun 0 ++ endquiesceRun 0 1 ++ go 1 0) (by decide +kernel)
  exact ⟨t, hr, he, h1, nmiStudy_resets_spare_later hr 0⟩

/-- Core 0xa has released the lock and not yet reset the signals. Core 0xc starts the next round; core
0x1a takes seven NMIs and passes its wait each time on the signal left up, so core 0xc leaves its wait
loop and releases the first cores. Then core 0xa goes on with its resets. -/
def overlapRun : List (Act 6) :=
  quiesceRun 0 ++ endquiesceRun 0 1 ++ go 6 1 ++
    (List.replicate 5 (Act.nmi 3 :: countIn 3 ++ go 4 3)).flatten ++ go 4 1 ++
    (List.replicate 2 (Act.nmi 3 :: countIn 3 ++ go 4 3 ++ go 2 1)).flatten ++ go 3 0

/-- **A reset erases a signal of the next round**: core 0xa is about to clear the resume signal of core
0x1a, which core 0xc raised in its own, later round. -/
theorem nmiStudy_reset_erases_signal : ∃ t : Traced 6,
    Reach (tstep nmiStudy) anyStep (tinit 6) t ∧ ErasesLater nmiStudy t 0 ∧
    coreEvent nmiStudy 0 (t.st.core 0) = .signal 3 false ∧ t.mine 0 = 1 ∧ t.mine 1 = 2 ∧
    t.raised 3 = 2 :=
  Reach.exists_of_checked overlapRun (by decide +kernel)

end Xmhf.Smp.Vmx
