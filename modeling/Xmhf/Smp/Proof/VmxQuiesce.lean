import Xmhf.Smp.Proof.VmxInv

/-!
# Mutual exclusion of the VMX quiesced section

`stopped_of_quiescing`: in the runs with `SignalsDown`, all other cores wait in the handler while an initiator
is between the wait loop of quiesce and endquiesce. In `coreIsolation` the signals are never reset, and
from the second round on a core that is not stopped at all can be counted as often as NMIs arrive
(`coreIsolation_quiesce_not_alone`).
-/

namespace Xmhf.Smp.Vmx

open Xmhf.Trans

variable {n : Nat}

theorem stopped_of_quiescing {v : Variant n} {s : State n} (h : Reach (step v) SignalsDown (init n) s)
    {i : Fin n} (hi : (s.core i).main = .quiescing) :
    ∀ j, j ≠ i → (s.core j).nmi = .awaitResumeSignal := by
  intro j hj
  simpa [stopped] using (inv_reach h).solo i hi j hj

/-- **Mutual exclusion of the quiesced section**, for the rounds that start with the signals down. -/
theorem coreIsolation_quiesce_alone {s : State 6}
    (h : Reach (step coreIsolation) SignalsDown (init 6) s) {i : Fin 6}
    (hi : (s.core i).main = .quiescing) :
    ∀ j, j ≠ i → (s.core j).main ≠ .user → (s.core j).nmi = .awaitResumeSignal :=
  fun j hj _ => stopped_of_quiescing h hi j hj

/-! ## Runs of a round -/

/-- Core `c` makes `m` accesses. -/
def go (m : Nat) (c : Fin n) : List (Act n) := List.replicate m (.run c)

/-- Core `c` takes an NMI and counts itself in. -/
def countIn (c : Fin n) : List (Act n) := .take c :: go 5 c

/-- Core `i` sends the NMIs, the others count themselves in, and `i` leaves the wait loop. -/
def quiesceRun (i : Fin n) : List (Act n) :=
  go 6 i ++ (List.finRange n).flatMap (fun c => if c = i then [] else countIn c) ++ go 1 i

/-- Six cores: core `i` releases core `first`, then cores 2 to 5, and core 2 goes on to user space; `i` ends just
after it has released the lock. -/
def endquiesceRun (i first : Fin 6) : List (Act 6) :=
  go 3 i ++ [first, 2, 3, 4, 5].flatMap (fun c => go 4 c ++ go 2 i) ++ go 4 2 ++ go 5 i

theorem coreIsolation_quiesce_alone_first : ∃ s : State 6,
    Reach (step coreIsolation) SignalsDown (init 6) s ∧ (s.core 1).main = .quiescing ∧
    (s.core 0).main ≠ .user ∧ (s.core 0).nmi = .awaitResumeSignal := by
  obtain ⟨s, hr, hm, hu⟩ : ∃ s, Reach (step coreIsolation) SignalsDown (init 6) s ∧
      (s.core 1).main = .quiescing ∧ (s.core 0).main ≠ .user :=
    Reach.exists_of_checked (quiesceRun 1) (by decide +kernel)
  exact ⟨s, hr, hm, hu, coreIsolation_quiesce_alone hr hm 0 (by decide) hu⟩

/-- After a first round of core 0xc its signals stay up: in the second round core 0xa takes five NMIs,
each time passes its wait at once, and so counts for the five other cores. -/
def recountRun : List (Act 6) :=
  quiesceRun 1 ++ endquiesceRun 1 0 ++ go 7 1 ++
    (List.replicate 5 (Act.nmi 0 :: countIn 0 ++ go 4 0)).flatten ++ go 1 1

/-- **The quiesced section is not exclusive** from the second round on: the initiator is past the wait
loop of quiesce while core 0xa is back in the guest. -/
theorem coreIsolation_quiesce_not_alone : ∃ s : State 6,
    Reach (step coreIsolation) anyStep (init 6) s ∧ (s.core 1).main = .quiescing ∧
    (s.core 0).main = .guest ∧ (s.core 0).nmi = .out :=
  Reach.exists_of_checked recountRun (by decide +kernel)

end Xmhf.Smp.Vmx
