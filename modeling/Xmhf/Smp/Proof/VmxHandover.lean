import Mathlib.Tactic.IntervalCases
import Xmhf.Smp.Proof.VmxQuiesce

/-!
# The hand-over handshake of the secure router

In the first round, started by core 0x0, the other three cores are released one after the other into
`prepare_context` and on to user space. `position` is how far the initiator is in endquiesce, `rank` how
far a released core is in `prepare_context`. `Sync` ties the two and the resume counter together:

* core `k` is released at position `2k`, and the initiator waits there until it has counted itself
  (rank 5); it is released again at position `2k + 6`, until it has counted itself again (rank 9);
* so two cores are never between their waits at the same time, and the unlocked
  `g_vmx_quiesce_resume_counter++` of one core meets no other access to the counter;
* the counter is 8 from position 14 on, and only then a core gets past rank 9.
-/

namespace Xmhf.Smp.Vmx

open Xmhf.Count Xmhf.Trans Xmhf.Word

/-! ## Positions and ranks -/

/-- How far a released core is on its way to user space. -/
def rank (k : Core) : Nat :=
  if k.main = .user then 11 else
    match k.nmi with
    | .out | .testQuiesce | .testQuiesced | .setQuiesced | .readCounter | .writeCounter _ => 0
    | .awaitResumeSignal => 1
    | .updateGdt => 2
    | .readUpdated => 3
    | .writeUpdated _ => 4
    | .awaitGdtSignal => 5
    | .reloadGdt => 6
    | .readReloaded => 7
    | .writeReloaded _ => 8
    | .awaitEight => 9
    | .switchToUserSpace => 10
    | .readResumeCounter | .writeResumeCounter _ | .clearQuiesced => 12

/-- The value read by a core that is about to store its increment of `prepare_context`. -/
def pendingStore (k : Core) : Option Nat :=
  match k.nmi with
  | .writeUpdated tmp | .writeReloaded tmp => some tmp
  | _ => none

/-- How far the initiator is in the endquiesce of the first round; 17 is past its end. -/
def position (m : Main) (round : Nat) : Nat :=
  match m with
  | .endquiesce p => p
  | .guest | .lockQuiesce => if round = 0 then 0 else 17
  | _ => 0

/-- The ranks `r` that core `k` can have when the initiator is at position `T`. -/
structure Within (T k r : Nat) : Prop where
  waits : T < 2 * k → r ≤ 1
  updates : T < 2 * k + 6 → r ≤ 5
  updated : 2 * k < T → 5 ≤ r
  reloads : T < 14 → r ≤ 9
  reloaded : 2 * k + 6 < T → 9 ≤ r
  last : r ≤ 11

/-- The increments a core of rank `r` has stored. -/
def stored (r : Nat) : Nat := if r < 5 then 0 else if r < 9 then 1 else 2

theorem Within.stored_le {T k r : Nat} (h : Within T k r) :
    (T < 2 * k → stored r = 0) ∧ (T < 2 * k + 6 → stored r ≤ 1) ∧ stored r ≤ 2 ∧
      (r < 5 → stored r = 0) ∧ (r < 9 → stored r ≤ 1) := by
  have h1 := h.waits
  have h2 := h.updates
  unfold stored
  split_ifs <;> omega

theorem others : ∀ k : Fin 4, k ≠ 0 → k = 1 ∨ k = 2 ∨ k = 3 := by decide

/-- Initiator at position `T`, cores 1 to 3 at ranks `r`, and `c` in the resume counter. -/
structure Sync (T : Nat) (r : Fin 4 → Nat) (c : Nat) : Prop where
  within : ∀ k : Fin 4, k ≠ 0 → Within T k (r k)
  before : T < 14 → c = stored (r 1) + stored (r 2) + stored (r 3)
  after : 14 ≤ T → c = 8

namespace Sync

variable {T c : Nat} {r : Fin 4 → Nat}

/-- A core between its waits pins the position of the initiator. -/
theorem position_of_active (h : Sync T r c) {k : Fin 4} (hk : k ≠ 0) :
    (1 < r k → r k < 5 → T = 2 * k) ∧ (5 < r k → r k < 9 → T = 2 * k + 6) := by
  have hw := h.within k hk
  have h1 := hw.waits
  have h2 := hw.updates
  have h3 := hw.updated
  have h4 := hw.reloaded
  omega

theorem active_unique (h : Sync T r c) {j k : Fin 4} (hj : j ≠ 0) (hk : k ≠ 0)
    (haj : 1 < r j ∧ r j < 9 ∧ r j ≠ 5) (hak : 1 < r k ∧ r k < 9 ∧ r k ≠ 5) : j = k := by
  have pj := h.position_of_active hj
  have pk := h.position_of_active hk
  omega

theorem counter_le (h : Sync T r c) (hT : T < 14) : c ≤ 6 := by
  have s1 := (h.within 1 (by decide)).stored_le
  have s2 := (h.within 2 (by decide)).stored_le
  have s3 := (h.within 3 (by decide)).stored_le
  have hb := h.before hT
  omega

/-- The initiator leaves its `m`-th wait only when core `m` (or core `m - 3`, for the second time) has
counted itself. -/
theorem await {m : Nat} (h : Sync (2 * m) r c) (hm : m ≤ 6) (hc : m ≤ c) (k : Fin 4) (hk : k ≠ 0) :
    (m = k → 5 ≤ r k) ∧ (m = k + 3 → 9 ≤ r k) := by
  have hb := h.before (by omega)
  have s1 := (h.within 1 (by decide)).stored_le
  have s2 := (h.within 2 (by decide)).stored_le
  have s3 := (h.within 3 (by decide)).stored_le
  have v1 : ((1 : Fin 4) : Nat) = 1 := rfl
  have v2 : ((2 : Fin 4) : Nat) = 2 := rfl
  have v3 : ((3 : Fin 4) : Nat) = 3 := rfl
  rcases others k hk with rfl | rfl | rfl <;> omega

theorem congr {r' : Fin 4 → Nat} (h : Sync T r c) (hr : ∀ k, k ≠ 0 → r' k = r k) : Sync T r' c where
  within k hk := by rw [hr k hk]; exact h.within k hk
  before hT := by
    rw [hr 1 (by decide), hr 2 (by decide), hr 3 (by decide)]
    exact h.before hT
  after := h.after

theorem advance {c' : Nat} (h : Sync T r c) (h5 : ∀ k : Fin 4, k ≠ 0 → T = 2 * k → 5 ≤ r k)
    (h9 : ∀ k : Fin 4, k ≠ 0 → T = 2 * k + 6 → 9 ≤ r k) (hc : T ≠ 13 → c' = c)
    (h8 : T = 13 → c' = 8) : Sync (T + 1) r c' where
  within k hk := by
    have hw := h.within k hk
    have h1 := hw.updated
    have h2 := hw.reloaded
    have h3 := h5 k hk
    have h4 := h9 k hk
    exact ⟨fun hT => hw.waits (by omega), fun hT => hw.updates (by omega), fun hT => by omega,
      fun hT => hw.reloads (by omega), fun hT => by omega, hw.last⟩
  before hT := by rw [hc (by omega)]; exact h.before (by omega)
  after hT := by
    by_cases h13 : T = 13
    · exact h8 h13
    · rw [hc h13]; exact h.after (by omega)

/-- Core `k` moves to a rank that the initiator's position allows. -/
theorem move {r' : Fin 4 → Nat} {c' : Nat} {k : Fin 4} (h : Sync T r c) (hk : k ≠ 0)
    (hr : ∀ j, j ≠ k → r' j = r j) (hw : Within T k (r' k))
    (hc : T < 14 → c' + stored (r k) = c + stored (r' k)) (h8 : 14 ≤ T → c' = c) :
    Sync T r' c' where
  within j hj := by
    by_cases hjk : j = k
    · subst hjk; exact hw
    · rw [hr j hjk]; exact h.within j hj
  before hT := by
    have hb := h.before hT
    have hd := hc hT
    rcases others k hk with rfl | rfl | rfl
    · rw [hr 2 (by decide), hr 3 (by decide)]; omega
    · rw [hr 1 (by decide), hr 3 (by decide)]; omega
    · rw [hr 1 (by decide), hr 2 (by decide)]; omega
  after hT := (h8 hT).trans (h.after hT)

/-- A core enters `update_gdt_remote_core` or reloads only when the initiator has released it, and
leaves its last wait only after the counter has been set to 8. -/
theorem within_next (h : Sync T r c) {k : Fin 4} (hk : k ≠ 0) (hlast : r k < 11)
    (h1 : r k = 1 → 2 * k ≤ T) (h5 : r k = 5 → 2 * k + 6 ≤ T) (h9 : r k = 9 → 8 ≤ c) :
    Within T k (r k + 1) := by
  have hw := h.within k hk
  have p1 := hw.waits
  have p2 := hw.updates
  have p3 := hw.updated
  have p4 := hw.reloads
  have p5 := hw.reloaded
  have pact := h.position_of_active hk
  have hkv : (k : Nat) ≤ 3 := by omega
  have hfull := h.counter_le
  exact ⟨by omega, by omega, by omega, by omega, by omega, by omega⟩

end Sync

/-! ## The steps of the released cores -/

section
variable {c : Fin 4} {g g' : Shared 4} {k k' : Core}

/-- Outside the initiator's code. -/
def aside (k : Core) : Bool :=
  match k.main with
  | .guest | .lockQuiesce | .user => true
  | _ => false

theorem Access.aside_after (h : Access secureRouter c g k g' k') (ha : aside k) :
    aside k' ∨ (k.nmi = .out ∧ k.main = .lockQuiesce ∧ k'.main ≠ k.main) := by
  cases h <;> simp_all [aside]

/-- What a core other than the initiator can do: an access outside `prepare_context`, one in it that
leaves the resume counter alone, or the store of an increment. -/
inductive Follows (c : Fin 4) (g : Shared 4) (k : Core) (g' : Shared 4) (k' : Core) : Prop
  | stays (hr : rank k' = rank k) (hg : g'.resumeCounter = g.resumeCounter)
      (he : coreEvent secureRouter c k ≠ .increment) (hp : pendingStore k' = none)
  | goes (hr : rank k' = rank k + 1) (hg : g'.resumeCounter = g.resumeCounter)
      (he : coreEvent secureRouter c k ≠ .increment)
      (hp : ∀ tmp ∈ pendingStore k', tmp = g.resumeCounter)
      (hs : stored (rank k') = stored (rank k)) (h1 : rank k = 1 → g.resumeSignal c)
      (h5 : rank k = 5 → g.gdtSignal c) (h9 : rank k = 9 → 8 ≤ g.resumeCounter) (hl : rank k < 11)
  | stores (tmp : Nat) (hr : rank k' = rank k + 1) (hg : g'.resumeCounter = inc32 tmp)
      (he : coreEvent secureRouter c k = .increment) (hp : pendingStore k = some tmp)
      (hp' : pendingStore k' = none) (hs : stored (rank k') = stored (rank k) + 1)
      (ha : rank k = 4 ∨ rank k = 8)

theorem secureRouter_prepares : ∀ c : Fin 4, c ≠ 0 →
    secureRouter.prepares c ∧ secureRouter.awaitsGdt c := by decide

theorem Access.follows (h : Access secureRouter c g k g' k') (hc : c ≠ 0) (ha : aside k)
    (ha' : aside k') (hu : k.main = .user → passive k) (hr : rank k ≤ 11) :
    Follows c g k g' k' := by
  obtain ⟨hp, hg⟩ := secureRouter_prepares c hc
  have hnu : ∀ {m : Main}, k.main = m → passive k = false → m ≠ .user := by
    rintro m rfl hpas hm
    simp [hu hm] at hpas
  cases h
  -- outside `prepare_context`
  case start | take | enter | inject | already | notYet | nmiSetQuiesced | readCounter =>
    refine .stays ?_ rfl ?_ rfl
    · simp_all [rank]
    · simp_all [coreEvent, aside]
      try (split <;> simp_all)
  -- the other two ways on, which `prepare_context` never takes
  case resume h => simp [h] at hp
  case readResumeCounter | writeResumeCounter | nmiClearQuiesced =>
    have hm := hnu rfl rfl
    simp [rank, hm] at hr
  case writeUpdated m t =>
    have hm := hnu rfl rfl
    exact .stores t (by simp [rank, hm]) rfl rfl rfl rfl (by simp [rank, hm, stored]) (by simp [rank, hm])
  case writeReloaded m t =>
    have hm := hnu rfl rfl
    exact .stores t (by simp [rank, hm]) rfl rfl rfl rfl (by simp [rank, hm, stored]) (by simp [rank, hm])
  case writeCounter | prepare | updateGdt | readUpdated | awaitGdtSignal | reloadGdt | readReloaded
      | awaitEight | switchToUserSpace =>
    have hm := hnu rfl rfl
    refine .goes ?_ rfl ?_ ?_ ?_ ?_ ?_ ?_ ?_ <;>
      simp_all [rank, coreEvent, pendingStore, stored]
  all_goals simp [aside] at ha ha'

theorem coreEvent_of_aside (ha : aside k) : coreEvent secureRouter c k = .increment ∨
    coreEvent secureRouter c k = .other ∨ coreEvent secureRouter c k = .acquire c := by
  cases hn : k.nmi <;> cases hm : k.main <;> simp_all [coreEvent, aside]

/-- No access of a core other than the initiator changes a signal. -/
theorem Access.keeps_signals (h : Access secureRouter c g k g' k') (ha : aside k) :
    g'.resumeSignal = g.resumeSignal ∧ g'.gdtSignal = g.gdtSignal := by
  cases h <;> simp_all [aside]

/-! ## The steps of the initiator -/

/-- Where the accesses of endquiesce stand. -/
def OpAt (p : Nat) : Op 4 → Prop
  | .setResumeCounter m => p = 0 ∧ m = 0 ∨ p = 13 ∧ m = 8
  | .setResumeSignal k b => b = true ∧ k ≠ 0 ∧ p + 1 = 2 * k.val
  | .awaitResumeCounter m => p = 2 * m ∧ m ≤ 6
  | .setGdtSignal k => k ≠ 0 ∧ p + 1 = 2 * k.val + 6
  | _ => 14 ≤ p

theorem secureRouter_op {p : Nat} {o : Op 4} (h : secureRouter.endquiesce[p]? = some o) :
    p < 17 ∧ OpAt p o := by
  obtain ⟨hp, rfl⟩ := List.getElem?_eq_some_iff.1 h
  refine ⟨hp, ?_⟩
  change p < 17 at hp
  interval_cases p <;> simp [secureRouter, OpAt]

theorem Access.rank_leader (h : Access secureRouter 0 g k g' k') (h0 : g.resumeSignal 0 = false)
    (hr : rank k ≤ 1) : rank k' ≤ 1 := by
  cases h <;> simp_all [rank]
  all_goals split_ifs at hr <;> simp_all

/-- An access of the initiator is one of endquiesce, or changes neither signals nor resume counter. -/
theorem Access.leads (h : Access secureRouter 0 g k g' k') (hr : rank k ≤ 1) (hr' : rank k' ≤ 1) :
    (∃ p o q', k.main = .endquiesce p ∧ k.nmi = .out ∧ k'.main = .endquiesce (p + 1) ∧
        secureRouter.endquiesce[p]? = some o ∧ opStep g k.quiesced o = some (g', q')) ∨
      (g'.resumeSignal = g.resumeSignal ∧ g'.gdtSignal = g.gdtSignal ∧
        g'.resumeCounter = g.resumeCounter ∧
        (∀ p, k.main = .endquiesce p → k'.main ≠ .endquiesce (p + 1)) ∧
        ((k.nmi = .out → k'.nmi = .out) →
          coreEvent secureRouter 0 k = .other ∨ coreEvent secureRouter 0 k = .acquire 0)) := by
  have hself : ∀ {m : Main} (p : Nat), m = .endquiesce p → m ≠ .endquiesce (p + 1) := by
    rintro m p rfl
    simp
  cases h
  case op p o q' ho hop => exact .inl ⟨p, o, _, rfl, rfl, rfl, ho, hop⟩
  case finish p ho => exact .inr ⟨rfl, rfl, rfl, by simp, fun _ => .inl (by simp [coreEvent, ho])⟩
  case writeUpdated | writeReloaded | writeResumeCounter =>
    simp only [rank] at hr
    split_ifs at hr
    all_goals omega
  all_goals exact .inr ⟨rfl, rfl, rfl, by first | exact hself | simp, by simp [coreEvent]⟩

theorem Access.lock_moves (h : Access secureRouter c g k g' k') (hn : k.nmi = .out)
    (hm : k.main = .lockQuiesce) (hn' : k'.nmi = .out) : k'.main ≠ k.main := by
  cases h <;> simp_all

theorem Access.out_of_lock_moves (h : Access secureRouter c g k g' k') (hm : k.main = .lockQuiesce)
    (hne : k'.main ≠ k.main) (hr' : rank k' ≤ 1) : k.nmi = .out := by
  cases h <;> simp_all [rank]

/-- Outside the accesses of endquiesce the initiator keeps its position; `round'` is the round after the
access. -/
theorem Access.keeps_position (h : Access secureRouter 0 g k g' k') (hr : rank k ≤ 1)
    (hr' : rank k' ≤ 1) {round round' : Nat} (hb : aside k = false → round ≠ 0)
    (hp : position k.main round ≤ 17) (hne : ∀ p, k.main = .endquiesce p → k'.main ≠ .endquiesce (p + 1))
    (hround : round' = round ∨ k.main = .lockQuiesce ∧ k'.main ≠ k.main)
    (hlock : k.main = .lockQuiesce → k'.main ≠ k.main → round = 0) :
    position k'.main round' = position k.main round := by
  cases h
  case op => exact (hne _ rfl rfl).elim
  case finish p ho =>
    have hlen : 17 ≤ p := by simpa [secureRouter] using ho
    have hpos : p ≤ 17 := hp
    simp_all [position, aside]
    omega
  case switchToUserSpace => simp [rank] at hr'
  all_goals simp_all [position, aside]

end

/-! ## The invariant of the first round -/

/-- The quiesce lock is taken once, by core 0x0. -/
def FirstRound (t : Traced 4) (a : Act 4) : Prop :=
  ∀ c, Acquires t.st a c → c = 0 ∧ t.round = 0

instance (t : Traced 4) (a : Act 4) : Decidable (FirstRound t a) :=
  inferInstanceAs (Decidable (∀ _, _))

/-- The invariant of the first round; `T` is the position of the initiator. -/
structure Handover (T : Nat) (t : Traced 4) : Prop where
  here : position (t.st.core 0).main t.round = T
  regular : Regular secureRouter t.st.sh t.st.core
  begun : aside (t.st.core 0) = false → t.round ≠ 0
  leader : rank (t.st.core 0) ≤ 1
  bound : T ≤ 17
  apart : ∀ k, k ≠ 0 → aside (t.st.core k)
  signals : ∀ k, t.st.sh.resumeSignal k → k ≠ 0 ∧ 2 * k ≤ T
  gdtSignals : ∀ k, t.st.sh.gdtSignal k → 2 * k + 6 ≤ T
  sync : Sync T (fun k => rank (t.st.core k)) t.st.sh.resumeCounter
  pending : ∀ k, k ≠ 0 → ∀ tmp ∈ pendingStore (t.st.core k), tmp = t.st.sh.resumeCounter
  count : t.st.sh.resumeCounter = t.assigned + t.increments
  early : T < 14 → t.assigned = 0
  late : 14 ≤ T → t.assigned = 8

namespace Handover

variable {T : Nat} {t t' : Traced 4} {a : Act 4} {c : Fin 4} {k' : Core}

/-- A core about to store its increment is between its waits. -/
theorem rank_of_pendingStore (hs : Handover T t) {k : Fin 4} {tmp : Nat}
    (h : pendingStore (t.st.core k) = some tmp) :
    rank (t.st.core k) = 4 ∨ rank (t.st.core k) = 8 := by
  have hu : (t.st.core k).main ≠ .user := by
    intro hu
    have hpas := (hs.regular.own k (by simp [owned, hu])).2
    cases hn : (t.st.core k).nmi <;> simp_all [pendingStore, passive]
  cases hn : (t.st.core k).nmi <;> simp_all [pendingStore, rank]

/-- While a core is between its waits, the counter is below 8 and no other core is about to store. -/
theorem store_alone (hs : Handover T t) {k : Fin 4} (hk : k ≠ 0)
    (hr : rank (t.st.core k) = 4 ∨ rank (t.st.core k) = 8) :
    T < 14 ∧ t.st.sh.resumeCounter ≤ 6 ∧
      ∀ j, j ≠ 0 → j ≠ k → pendingStore (t.st.core j) = none := by
  have hact : ∀ {r : Nat}, r = 4 ∨ r = 8 → 1 < r ∧ r < 9 ∧ r ≠ 5 := by omega
  have hT : T < 14 := by
    have hpos := hs.sync.position_of_active hk
    omega
  refine ⟨hT, hs.sync.counter_le hT, fun j hj hjk => ?_⟩
  cases hp : pendingStore (t.st.core j) with
  | none => rfl
  | some tmp =>
    have hrj := hs.rank_of_pendingStore hp
    exact (hjk (hs.sync.active_unique hj hk (hact hrj) (hact hr))).elim

theorem event_follower (hs : Handover T t) (hc : c ≠ 0) (hok : FirstRound t a)
    (hac : ActsOn t.st a c k') :
    event secureRouter t.st a = .other ∧ coreEvent secureRouter c (t.st.core c) ≠ .increment ∨
      event secureRouter t.st a = .increment ∧
        coreEvent secureRouter c (t.st.core c) = .increment := by
  rcases hac with ⟨rfl, -⟩ | ⟨rfl, hn, -⟩
  · rcases coreEvent_of_aside (c := c) (hs.apart c hc) with he | he | he
    · exact .inr ⟨he, he⟩
    · exact .inl ⟨he, by simp [he]⟩
    · exact (hc (hok c (event_acquire.1 he)).1).elim
  · refine .inl ⟨rfl, ?_⟩
    rcases coreEvent_of_aside (c := c) (hs.apart c hc) with he | he | he
    · have haside := hs.apart c hc
      cases hm : (t.st.core c).main <;> simp_all [coreEvent, aside]
    · simp [he]
    · simp [he]

theorem counter_follower (hs : Handover T t) (hc : c ≠ 0) {g' : Shared 4}
    (hf : Follows c t.st.sh (t.st.core c) g' k') :
    (coreEvent secureRouter c (t.st.core c) ≠ .increment ∧
        g'.resumeCounter = t.st.sh.resumeCounter ∧
        stored (rank k') = stored (rank (t.st.core c))) ∨
      (coreEvent secureRouter c (t.st.core c) = .increment ∧
        g'.resumeCounter = t.st.sh.resumeCounter + 1 ∧
        stored (rank k') = stored (rank (t.st.core c)) + 1) := by
  cases hf with
  | stays hr hg he => exact .inl ⟨he, hg, by rw [hr]⟩
  | goes _ hg he _ hst => exact .inl ⟨he, hg, hst⟩
  | stores tmp _ hg he hp _ hst hr =>
    obtain ⟨-, hle, -⟩ := hs.store_alone hc hr
    exact .inr ⟨he, by rw [hg, hs.pending c hc tmp hp, inc32_of_lt (by omega)], hst⟩

theorem within_follower (hs : Handover T t) (hc : c ≠ 0) {g' : Shared 4}
    (hf : Follows c t.st.sh (t.st.core c) g' k') : Within T c (rank k') := by
  cases hf with
  | stays hr => rw [hr]; exact hs.sync.within c hc
  | goes hr _ _ _ _ h1 h5 h9 hl =>
    rw [hr]
    exact hs.sync.within_next hc hl (fun h => (hs.signals c (h1 h)).2)
      (fun h => hs.gdtSignals c (h5 h)) h9
  | stores tmp hr _ _ _ _ _ h48 =>
    rw [hr]
    refine hs.sync.within_next hc ?_ ?_ ?_ ?_ <;> omega

theorem sync_follower (hs : Handover T t) (hc : c ≠ 0) {g' : Shared 4}
    (hf : Follows c t.st.sh (t.st.core c) g' k') :
    Sync T (fun j => rank (Function.update t.st.core c k' j)) g'.resumeCounter := by
  have hcnt := hs.counter_follower hc hf
  refine hs.sync.move hc (fun j hj => by rw [Function.update_of_ne hj]) ?_ ?_ ?_
  · rw [Function.update_self]
    exact hs.within_follower hc hf
  · intro _
    rw [Function.update_self]
    omega
  · intro hT
    cases hf with
    | stays _ hg => exact hg
    | goes _ hg => exact hg
    | stores _ _ _ _ _ _ _ hr => exact absurd (hs.store_alone hc hr).1 (by omega)

theorem pending_follower (hs : Handover T t) (hc : c ≠ 0) {g' : Shared 4}
    (hf : Follows c t.st.sh (t.st.core c) g' k') :
    ∀ j, j ≠ 0 → ∀ tmp ∈ pendingStore (Function.update t.st.core c k' j), tmp = g'.resumeCounter := by
  refine forall_update (P := fun j k => j ≠ 0 → ∀ tmp ∈ pendingStore k, tmp = g'.resumeCounter) ?_ ?_
  · intro _
    cases hf with
    | stays _ _ _ hp => simp [hp]
    | goes _ hg _ hp => rw [hg]; exact hp
    | stores _ _ _ _ _ hp' => simp [hp']
  · intro j hjc hj
    cases hf with
    | stays _ hg => rw [hg]; exact hs.pending j hj
    | goes _ hg => rw [hg]; exact hs.pending j hj
    | stores _ _ _ _ _ _ _ hr => simp [(hs.store_alone hc hr).2.2 j hj hjc]

theorem step_follower (hs : Handover T t) (hc : c ≠ 0) (hok : FirstRound t a)
    (hac : ActsOn t.st a c k') (hcore : t'.st.core = Function.update t.st.core c k')
    (ha : Access secureRouter c t.st.sh (t.st.core c) t'.st.sh k')
    (hrec : t' = t.record t'.st (event secureRouter t.st a)) : Handover T t' := by
  have haside := hs.apart c hc
  have haside' : aside k' := by
    rcases ha.aside_after haside with h | ⟨hn, hm, hmove⟩
    · exact h
    · rcases hac with ⟨rfl, -⟩ | ⟨-, -, hmain⟩
      · exact (hc (hok c ⟨rfl, hn, hm⟩).1).elim
      · exact (hmove hmain).elim
  obtain ⟨hsig, hgdt⟩ := ha.keeps_signals haside
  have hf := ha.follows hc haside haside'
    (fun hu => (hs.regular.own c (by simp [owned, hu])).2) (hs.sync.within c hc).last
  have h0 : t'.st.core 0 = t.st.core 0 := by rw [hcore, Function.update_of_ne hc.symm]
  have hev := hs.event_follower hc hok hac
  have hround : t'.round = t.round := by
    rw [hrec]
    rcases hev with ⟨he, -⟩ | ⟨he, -⟩ <;> simp [he, Traced.record]
  have hassigned : t'.assigned = t.assigned := by
    rw [hrec]
    rcases hev with ⟨he, -⟩ | ⟨he, -⟩ <;> simp [he, Traced.record]
  have hcount : t'.st.sh.resumeCounter = t'.assigned + t'.increments := by
    have hold := hs.count
    rw [hassigned, hrec, Traced.record_st]
    rcases hs.counter_follower hc hf with ⟨hne, hg, -⟩ | ⟨he, hg, -⟩
    · rcases hev with ⟨hev, -⟩ | ⟨-, he⟩
      · rw [hev, hg]; exact hold
      · exact (hne he).elim
    · rcases hev with ⟨-, hne⟩ | ⟨hev, -⟩
      · exact (hne he).elim
      · rw [hev, hg, hold]; simp only [Traced.record]; omega
  exact {
    here := by rw [h0, hround]; exact hs.here
    regular := by rw [hcore]; exact hs.regular.step ha
    begun := by rw [h0, hround]; exact hs.begun
    leader := by rw [h0]; exact hs.leader
    bound := hs.bound
    apart := by
      rw [hcore]
      exact forall_update (P := fun k core => k ≠ 0 → aside core) (fun _ => haside')
        fun k _ => hs.apart k
    signals := by rw [hsig]; exact hs.signals
    gdtSignals := by rw [hgdt]; exact hs.gdtSignals
    sync := by rw [hcore]; exact hs.sync_follower hc hf
    pending := by rw [hcore]; exact hs.pending_follower hc hf
    count := hcount
    early := fun hT => by rw [hassigned]; exact hs.early hT
    late := fun hT => by rw [hassigned]; exact hs.late hT }

/-- An access of endquiesce advances the handshake. -/
theorem sync_op (hs : Handover T t) {o : Op 4} {q q' : Bool} {g' : Shared 4}
    (ho : secureRouter.endquiesce[T]? = some o) (hop : opStep t.st.sh q o = some (g', q')) :
    Sync (T + 1) (fun k => rank (t.st.core k)) g'.resumeCounter := by
  obtain ⟨-, hat⟩ := secureRouter_op ho
  have hzero : T = 0 → t.st.sh.resumeCounter = 0 := by
    rintro rfl
    have s1 := (hs.sync.within 1 (by decide)).stored_le.1 (by decide)
    have s2 := (hs.sync.within 2 (by decide)).stored_le.1 (by decide)
    have s3 := (hs.sync.within 3 (by decide)).stored_le.1 (by decide)
    rw [hs.sync.before (by decide), s1, s2, s3]
  cases o <;> simp only [OpAt] at hat <;>
    simp only [opStep, Option.some.injEq, Prod.mk.injEq, Option.ite_none_left_eq_some] at hop
  case setResumeCounter m =>
    obtain ⟨rfl, -⟩ := hop
    change Sync (T + 1) _ m
    refine hs.sync.advance (fun k hk h => ?_) (fun k hk h => ?_) ?_ ?_ <;> omega
  case awaitResumeCounter m =>
    obtain ⟨hc, rfl, -⟩ := hop
    obtain ⟨rfl, hm⟩ := hat
    have hw := hs.sync.await hm (by omega)
    exact hs.sync.advance (fun k hk h => (hw k hk).1 (by omega))
      (fun k hk h => (hw k hk).2 (by omega)) (fun _ => rfl) (by omega)
  all_goals
    obtain ⟨rfl, -⟩ := hop
    exact hs.sync.advance (fun k hk h => by omega) (fun k hk h => by omega) (fun _ => rfl) (by omega)

theorem signals_op (hs : Handover T t) {o : Op 4} {q q' : Bool} {g' : Shared 4}
    (ho : secureRouter.endquiesce[T]? = some o) (hop : opStep t.st.sh q o = some (g', q')) :
    (∀ k, g'.resumeSignal k → k ≠ 0 ∧ 2 * k ≤ T + 1) ∧ (∀ k, g'.gdtSignal k → 2 * k + 6 ≤ T + 1) := by
  obtain ⟨-, hat⟩ := secureRouter_op ho
  have hold : ∀ k, t.st.sh.resumeSignal k → k ≠ 0 ∧ 2 * k ≤ T + 1 := fun k hk =>
    ⟨(hs.signals k hk).1, Nat.le_succ_of_le (hs.signals k hk).2⟩
  have hgdt : ∀ k, t.st.sh.gdtSignal k → 2 * k + 6 ≤ T + 1 := fun k hk =>
    Nat.le_succ_of_le (hs.gdtSignals k hk)
  cases o <;> simp only [OpAt] at hat <;>
    simp only [opStep, Option.some.injEq, Prod.mk.injEq, Option.ite_none_left_eq_some] at hop
  case setResumeSignal j b =>
    obtain ⟨rfl, -⟩ := hop
    exact ⟨forall_update (P := fun (k : Fin 4) (up : Bool) => up → k ≠ 0 ∧ 2 * k ≤ T + 1)
      (fun _ => ⟨hat.2.1, hat.2.2.ge⟩) fun k _ => hold k, hgdt⟩
  case setGdtSignal j =>
    obtain ⟨rfl, -⟩ := hop
    exact ⟨hold, forall_update (P := fun (k : Fin 4) (up : Bool) => up → 2 * k + 6 ≤ T + 1)
      (fun _ => hat.2.ge) fun k _ => hgdt k⟩
  case awaitResumeCounter =>
    obtain ⟨-, rfl, -⟩ := hop
    exact ⟨hold, hgdt⟩
  all_goals
    obtain ⟨rfl, -⟩ := hop
    exact ⟨hold, hgdt⟩

theorem no_store_at (hs : Handover T t) (hT : T = 0 ∨ T = 13) {k : Fin 4} (hk : k ≠ 0) :
    pendingStore (t.st.core k) = none := by
  cases hp : pendingStore (t.st.core k) with
  | none => rfl
  | some tmp =>
    have hr := hs.rank_of_pendingStore hp
    have hpos := hs.sync.position_of_active hk
    omega

theorem pending_op (hs : Handover T t) {o : Op 4} {q q' : Bool} {g' : Shared 4}
    (ho : secureRouter.endquiesce[T]? = some o) (hop : opStep t.st.sh q o = some (g', q')) :
    ∀ k, k ≠ 0 → ∀ tmp ∈ pendingStore (t.st.core k), tmp = g'.resumeCounter := by
  obtain ⟨-, hat⟩ := secureRouter_op ho
  intro k hk
  cases o <;>
    simp only [opStep, Option.some.injEq, Prod.mk.injEq, Option.ite_none_left_eq_some] at hop
  case setResumeCounter m =>
    simp only [OpAt] at hat
    simp [hs.no_store_at (by omega) hk]
  case awaitResumeCounter =>
    obtain ⟨-, rfl, -⟩ := hop
    exact hs.pending k hk
  all_goals
    obtain ⟨rfl, -⟩ := hop
    exact hs.pending k hk

theorem history_op (hs : Handover T t) {o : Op 4} {q q' : Bool} {s' : State 4}
    (hm : (t.st.core 0).main = .endquiesce T) (hn : (t.st.core 0).nmi = .out)
    (ho : secureRouter.endquiesce[T]? = some o) (hop : opStep t.st.sh q o = some (s'.sh, q'))
    (ht : t' = t.record s' (coreEvent secureRouter 0 (t.st.core 0))) :
    t'.round = t.round ∧ s'.sh.resumeCounter = t'.assigned + t'.increments ∧
      (T + 1 < 14 → t'.assigned = 0) ∧ (14 ≤ T + 1 → t'.assigned = 8) := by
  obtain ⟨-, hat⟩ := secureRouter_op ho
  have hcount := hs.count
  have hearly := hs.early
  have hlate := hs.late
  cases o <;> simp only [OpAt] at hat <;>
    simp only [opStep, Option.some.injEq, Prod.mk.injEq, Option.ite_none_left_eq_some] at hop <;>
    simp only [coreEvent, hn, hm, ho, Traced.record] at ht <;> subst ht
  case setResumeCounter m =>
    rw [← hop.1]
    refine ⟨rfl, rfl, ?_, ?_⟩ <;> dsimp only <;> omega
  case awaitResumeCounter =>
    rw [← hop.2.1]
    exact ⟨rfl, hcount, fun h => hearly (by omega), fun h => hlate (by omega)⟩
  all_goals
    rw [← hop.1]
    exact ⟨rfl, hcount, fun h => hearly (by omega), fun h => hlate (by omega)⟩

/-- The initiator takes the lock only in the first round. -/
theorem round_leader (hok : FirstRound t a) (hac : ActsOn t.st a 0 k')
    (ha : Access secureRouter 0 t.st.sh (t.st.core 0) t'.st.sh k') (hr' : rank k' ≤ 1)
    (hrec : t' = t.record t'.st (event secureRouter t.st a)) :
    ((t.st.core 0).main = .lockQuiesce ∧ k'.main ≠ (t.st.core 0).main ∧ t.round = 0 ∧
        t'.round = 1) ∨
      (¬ ((t.st.core 0).main = .lockQuiesce ∧ k'.main ≠ (t.st.core 0).main) ∧
        t'.round = t.round) := by
  by_cases hA : Acquires t.st a 0
  · have h0 := (hok 0 hA).2
    obtain ⟨hrun, hn, hm⟩ := hA
    rcases hac with ⟨rfl, hout⟩ | ⟨rfl, -⟩
    · refine .inl ⟨hm, ha.lock_moves hn hm (hout hn), h0, ?_⟩
      rw [hrec, event_acquire.2 ⟨rfl, hn, hm⟩]
      simp [Traced.record, h0]
    · exact absurd hrun (by simp)
  · refine .inr ⟨?_, ?_⟩
    · rintro ⟨hm, hne⟩
      rcases hac with ⟨rfl, -⟩ | ⟨-, -, hmain⟩
      · exact hA ⟨rfl, ha.out_of_lock_moves hm hne hr', hm⟩
      · exact hne hmain
    · have hnot : ∀ c, event secureRouter t.st a ≠ .acquire c := by
        intro c he
        have hc := event_acquire.1 he
        rcases hac with ⟨rfl, -⟩ | ⟨rfl, -⟩
        · obtain rfl : (0 : Fin 4) = c := by simpa using hc.1
          exact hA hc
        · exact absurd hc.1 (by simp)
      rw [hrec, (Traced.record_of_not_acquire hnot).1]

theorem step_leader (hs : Handover T t) (hok : FirstRound t a) (hac : ActsOn t.st a 0 k')
    (hcore : t'.st.core = Function.update t.st.core 0 k')
    (ha : Access secureRouter 0 t.st.sh (t.st.core 0) t'.st.sh k')
    (hrec : t' = t.record t'.st (event secureRouter t.st a)) : ∃ T', Handover T' t' := by
  have h0 : t.st.sh.resumeSignal 0 = false := by
    by_contra h
    exact (hs.signals 0 (by simpa using h)).1 rfl
  have hr' := ha.rank_leader h0 hs.leader
  have hself : t'.st.core 0 = k' := by rw [hcore, Function.update_self]
  have hother : ∀ j, j ≠ 0 → t'.st.core j = t.st.core j := fun j hj => by
    rw [hcore, Function.update_of_ne hj]
  have hround := round_leader hok hac ha hr' hrec
  have hregular : Regular secureRouter t'.st.sh t'.st.core := by
    rw [hcore]; exact hs.regular.step ha
  have hbegun : aside (t'.st.core 0) = false → t'.round ≠ 0 := by
    intro haside
    rcases hround with ⟨-, -, -, h1⟩ | ⟨hno, heq⟩
    · rw [h1]; decide
    · rw [heq]
      apply hs.begun
      by_contra hk
      rw [hself] at haside
      rcases ha.aside_after (by simpa using hk) with hk' | ⟨-, hm, hne⟩
      · simp [haside] at hk'
      · exact hno ⟨hm, hne⟩
  have hapart : ∀ k, k ≠ 0 → aside (t'.st.core k) := fun k hk => by
    rw [hother k hk]; exact hs.apart k hk
  rcases ha.leads hs.leader hr' with ⟨p, o, q', hm, hn, hm', ho, hop⟩ | ⟨hsig, hgdt, hcnt, hne, hev⟩
  · -- an access of endquiesce
    obtain rfl : p = T := by rw [← hs.here, hm]; rfl
    have hrun : event secureRouter t.st a = coreEvent secureRouter 0 (t.st.core 0) := by
      rcases hac with ⟨rfl, -⟩ | ⟨-, -, hmain⟩
      · rfl
      · rw [hm, hm'] at hmain
        cases hmain
    rw [hrun] at hrec
    obtain ⟨hrd, hcount, hearly, hlate⟩ := hs.history_op hm hn ho hop hrec
    obtain ⟨hsig, hgdt⟩ := hs.signals_op ho hop
    exact ⟨p + 1, {
      here := by rw [hself, hm']; rfl
      regular := hregular
      begun := hbegun
      leader := by rw [hself]; exact hr'
      bound := by have := (secureRouter_op ho).1; omega
      apart := hapart
      signals := hsig
      gdtSignals := hgdt
      sync := (hs.sync_op ho hop).congr fun k hk => by rw [hother k hk]
      pending := fun k hk => by rw [hother k hk]; exact hs.pending_op ho hop k hk
      count := hcount
      early := hearly
      late := hlate }⟩
  · have hquiet : event secureRouter t.st a = .other ∨ event secureRouter t.st a = .acquire 0 := by
      rcases hac with ⟨rfl, hrun⟩ | ⟨rfl, -⟩
      · exact hev hrun
      · exact .inl rfl
    have hassigned : t'.assigned = t.assigned ∧ t'.increments = t.increments := by
      rw [hrec]
      rcases hquiet with he | he <;> simp [he, Traced.record]
    have hpos : position (t'.st.core 0).main t'.round = T := by
      rw [hself, ← hs.here]
      refine ha.keeps_position hs.leader hr' hs.begun (hs.here ▸ hs.bound) hne ?_ ?_
      · rcases hround with ⟨hm, hmove, -⟩ | ⟨-, heq⟩
        · exact .inr ⟨hm, hmove⟩
        · exact .inl heq
      · intro hm hmove
        rcases hround with ⟨-, -, hz, -⟩ | ⟨hno, -⟩
        · exact hz
        · exact (hno ⟨hm, hmove⟩).elim
    exact ⟨T, {
      here := hpos
      regular := hregular
      begun := hbegun
      leader := by rw [hself]; exact hr'
      bound := hs.bound
      apart := hapart
      signals := by rw [hsig]; exact hs.signals
      gdtSignals := by rw [hgdt]; exact hs.gdtSignals
      sync := by rw [hcnt]; exact hs.sync.congr fun k hk => by rw [hother k hk]
      pending := fun k hk => by rw [hother k hk, hcnt]; exact hs.pending k hk
      count := by rw [hcnt, hassigned.1, hassigned.2]; exact hs.count
      early := fun hT => by rw [hassigned.1]; exact hs.early hT
      late := fun hT => by rw [hassigned.1]; exact hs.late hT }⟩

end Handover

theorem handover_init : Handover 0 (tinit 4) where
  here := rfl
  regular := regular_init secureRouter
  begun := by simp [tinit, init, aside]
  leader := by decide
  bound := by decide
  apart := by simp [tinit, init, aside]
  signals := by simp [tinit, init]
  gdtSignals := by simp [tinit, init]
  sync := by
    refine ⟨fun k hk => ?_, fun _ => rfl, by omega⟩
    constructor <;> simp [rank, tinit, init]
  pending := by simp [tinit, init, pendingStore]
  count := rfl
  early := fun _ => rfl
  late := by omega

theorem handover_reach {t : Traced 4} (h : Reach (tstep secureRouter) FirstRound (tinit 4) t) :
    ∃ T, Handover T t := by
  refine h.inv (I := fun t => ∃ T, Handover T t) ⟨0, handover_init⟩ fun t a t' hs hok ht => ?_
  obtain ⟨T, hs⟩ := hs
  obtain ⟨hst, hrec⟩ := tstep_eq ht
  rcases step_access hst with ⟨c, rfl, -⟩ | ⟨c, k', hac, hcore, ha⟩
  · -- an NMI that arrives only becomes pending
    cases ht
    exact ⟨T, hs.here, hs.regular, hs.begun, hs.leader, hs.bound, hs.apart, hs.signals,
      hs.gdtSignals, hs.sync, hs.pending, hs.count, hs.early, hs.late⟩
  · by_cases hc : c = 0
    · subst hc
      exact hs.step_leader hok hac hcore ha hrec
    · exact ⟨T, hs.step_follower hc hok hac hcore ha hrec⟩

/-! ## The handshake -/

/-- Past `reload_gdt_remote_core` and `reload_idt_remote_core`. -/
def reloaded (k : Core) : Bool :=
  k.main = .user ||
    match k.nmi with
    | .readReloaded | .writeReloaded _ | .awaitEight | .switchToUserSpace => true
    | _ => false

theorem reloaded_of_rank {k : Core} (h : 9 ≤ rank k) (h' : rank k ≤ 11) : reloaded k := by
  by_cases hu : k.main = .user
  · simp [reloaded, hu]
  · cases hn : k.nmi <;> simp_all [rank, reloaded]

namespace Handover

variable {T : Nat} {t : Traced 4}

theorem rank_updateGdt (hs : Handover T t) {i : Fin 4} (h : (t.st.core i).nmi = .updateGdt) :
    i ≠ 0 ∧ rank (t.st.core i) = 2 := by
  have hu : (t.st.core i).main ≠ .user := by
    intro hu
    have hpas := (hs.regular.own i (by simp [owned, hu])).2
    simp [passive, h] at hpas
  have hr : rank (t.st.core i) = 2 := by simp [rank, hu, h]
  refine ⟨?_, hr⟩
  rintro rfl
  have hl := hs.leader
  omega

/-- The initiator stores to the counter before the first and after the sixth increment. -/
theorem increments_at_assign (hs : Handover T t) {m : Nat}
    (he : coreEvent secureRouter 0 (t.st.core 0) = .assign m) :
    m = 0 ∧ t.increments = 0 ∨ m = 8 ∧ t.increments = 6 := by
  obtain ⟨p, hm, ho⟩ : ∃ p, (t.st.core 0).main = .endquiesce p ∧
      secureRouter.endquiesce[p]? = some (.setResumeCounter m) := by
    unfold coreEvent at he
    split at he <;> try cases he
    split at he <;> try cases he
    next p hp =>
      refine ⟨p, hp, ?_⟩
      split at he <;> cases he
      assumption
  obtain rfl : p = T := by rw [← hs.here, hm]; rfl
  obtain ⟨-, hat⟩ := secureRouter_op ho
  have hcount := hs.count
  have hearly := hs.early (by simp only [OpAt] at hat; omega)
  have hsum := hs.sync.before (by simp only [OpAt] at hat; omega)
  have w1 := hs.sync.within 1 (by decide)
  have w2 := hs.sync.within 2 (by decide)
  have w3 := hs.sync.within 3 (by decide)
  rcases hat with ⟨rfl, rfl⟩ | ⟨rfl, rfl⟩
  · have s1 := w1.stored_le.1 (by decide)
    have s2 := w2.stored_le.1 (by decide)
    have s3 := w3.stored_le.1 (by decide)
    omega
  · have hnine : ∀ {k r : Nat}, Within 13 k r → k ≤ 3 → stored r = 2 := by
      intro k r hw hk
      have h9 := hw.reloaded (by omega)
      unfold stored
      split_ifs <;> omega
    have s1 := hnine w1 (by decide)
    have s2 := hnine w2 (by decide)
    have s3 := hnine w3 (by decide)
    omega

theorem late_of_switch (hs : Handover T t) {i : Fin 4}
    (h : (t.st.core i).nmi = .switchToUserSpace ∨ (t.st.core i).main = .user) : 14 ≤ T := by
  have hr : 10 ≤ rank (t.st.core i) := by
    by_cases hu : (t.st.core i).main = .user
    · simp [rank, hu]
    · simp [rank, hu, h.resolve_right hu]
  have hi : i ≠ 0 := by
    rintro rfl
    have hl := hs.leader
    omega
  have hw := (hs.sync.within i hi).reloads
  omega

end Handover

/-- **The hand-over handshake** of the first round:

* at most one core is inside `update_gdt_remote_core`;
* no increment of the resume counter is lost: the counter is what the initiator stored last and one
  for each increment since, the initiator's 0 erases none, and its 8 comes after all six;
* a core that is at `switch_to_user_space` or past it finds all three cores past their reload of the
  GDT, and the counter set to 8. -/
theorem secureRouter_handover {t : Traced 4}
    (h : Reach (tstep secureRouter) FirstRound (tinit 4) t) :
    (∀ i j, (t.st.core i).nmi = .updateGdt → (t.st.core j).nmi = .updateGdt → i = j) ∧
    (t.st.sh.resumeCounter = t.assigned + t.increments ∧
      ∀ m, coreEvent secureRouter 0 (t.st.core 0) = .assign m →
        m = 0 ∧ t.increments = 0 ∨ m = 8 ∧ t.increments = 6) ∧
    ∀ i, (t.st.core i).nmi = .switchToUserSpace ∨ (t.st.core i).main = .user →
      t.assigned = 8 ∧ ∀ j, j ≠ 0 → reloaded (t.st.core j) := by
  obtain ⟨T, hs⟩ := handover_reach h
  refine ⟨fun i j hi hj => ?_, ⟨hs.count, fun m he => hs.increments_at_assign he⟩, fun i hi => ?_⟩
  · obtain ⟨hi0, hri⟩ := hs.rank_updateGdt hi
    obtain ⟨hj0, hrj⟩ := hs.rank_updateGdt hj
    exact hs.sync.active_unique hi0 hj0 (by omega) (by omega)
  · have hT := hs.late_of_switch hi
    refine ⟨hs.late hT, fun j hj => ?_⟩
    have hw := hs.sync.within j hj
    exact reloaded_of_rank (hw.reloaded (by omega)) hw.last

/-- The first round up to core 0xc in user space. -/
def handoverRun : List (Act 4) :=
  quiesceRun 0 ++ go 3 0 ++ [1, 2, 3, 1, 2, 3].flatMap (fun c => go 4 c ++ go 2 0) ++ go 2 1

theorem secureRouter_handover_first : ∃ t : Traced 4,
    Reach (tstep secureRouter) FirstRound (tinit 4) t ∧ (t.st.core 1).main = .user ∧
    t.assigned = 8 ∧ ∀ j, j ≠ 0 → reloaded (t.st.core j) := by
  obtain ⟨t, hr, hm⟩ : ∃ t, Reach (tstep secureRouter) FirstRound (tinit 4) t ∧
      (t.st.core 1).main = .user := Reach.exists_of_checked handoverRun (by decide +kernel)
  exact ⟨t, hr, hm, (secureRouter_handover hr).2.2 1 (.inr hm)⟩

end Xmhf.Smp.Vmx
