import Xmhf.Smp.Proof.VmxHandover
import Xmhf.Smp.Tss

/-!
# Whose stack a core gets

All cores load their task register with the one `user_tss`, and each writes its own stack to it. `Kept` is
the invariant: the segment has the stack of the last core that wrote it. So a core that goes to user space
has its own stack just when it was the last (`ownStack_iff_last`).
-/

namespace Xmhf.Smp.Tss

open Xmhf.Trans Xmhf.Smp.Vmx

variable {n : Nat} {v : Variant n} {cpus : Vcpus n}

/-! ## What one core writes -/

theorem base_of_fields (x : BitVec 32) :
    ((((x >>> 24) &&& 0xFF).setWidth 8 : BitVec 8) ++ (((x >>> 16) &&& 0xFF).setWidth 8 : BitVec 8) ++
      ((x &&& 0xFFFF).setWidth 16 : BitVec 16) : BitVec 32) = x := by
  have h24 : ((x >>> 24) &&& 0xFF).toNat = x.toNat / 2 ^ 24 % 2 ^ 8 := by
    rw [BitVec.toNat_and, BitVec.toNat_ushiftRight, Nat.shiftRight_eq_div_pow]
    exact Nat.and_two_pow_sub_one_eq_mod _ 8
  have h16 : ((x >>> 16) &&& 0xFF).toNat = x.toNat / 2 ^ 16 % 2 ^ 8 := by
    rw [BitVec.toNat_and, BitVec.toNat_ushiftRight, Nat.shiftRight_eq_div_pow]
    exact Nat.and_two_pow_sub_one_eq_mod _ 8
  have h0 : (x &&& 0xFFFF).toNat = x.toNat % 2 ^ 16 := by
    rw [BitVec.toNat_and]
    exact Nat.and_two_pow_sub_one_eq_mod _ 16
  have hx := x.isLt
  apply BitVec.eq_of_toNat_eq
  rw [BitVec.toNat_append, BitVec.toNat_append, BitVec.toNat_setWidth, BitVec.toNat_setWidth,
    BitVec.toNat_setWidth, h24, h16, h0, ← Nat.shiftLeft_add_eq_or_of_lt (by omega),
    ← Nat.shiftLeft_add_eq_or_of_lt (by omega), Nat.shiftLeft_eq, Nat.shiftLeft_eq]
  omega

theorem gsGate_ne {id num : Nat} {selector : BitVec 16} (h : gsGate id = some (num, selector)) :
    num ≠ 5 := by
  unfold gsGate at h
  split_ifs at h
  all_goals
    cases h
    decide

theorem updateGdt_tr (id : Nat) (c : Fin n) (t : Tables n) :
    (updateGdtRemoteCore cpus id c t).tr = Function.update t.tr c (some ⟨0x2B, cpus.userTss⟩) := by
  have hbase : ∀ t' : Tables n, ((writeTss cpus c t' 5 0xE9 0x10).gdt 5).base = cpus.userTss := by
    intro t'
    simp only [writeTss, Function.update_self]
    exact base_of_fields cpus.userTss
  rw [updateGdtRemoteCore]
  cases hgate : gsGate id with
  | none => simp only [Nat.reduceDiv, hbase]; rfl
  | some gate =>
    obtain ⟨num, selector⟩ := gate
    simp only [Nat.reduceDiv, gdtSetGate, Function.update_of_ne (gsGate_ne hgate).symm, hbase]
    rfl

theorem updateGdt_tss (id : Nat) (c : Fin n) (t : Tables n) :
    ((updateGdtRemoteCore cpus id c t).tss cpus.userTss).esp0 = cpus.esp c := by
  have htss : (updateGdtRemoteCore cpus id c t).tss =
      Function.update t.tss cpus.userTss ⟨0x10, cpus.esp c⟩ := rfl
  rw [htss, Function.update_self]

/-! ## Runs -/

/-- Past `update_gdt_remote_core`. -/
def prepared (k : Core) : Bool :=
  decide (k.main = .user) ||
    match k.nmi with
    | .readUpdated | .writeUpdated _ | .awaitGdtSignal | .reloadGdt | .readReloaded | .writeReloaded _
    | .awaitEight | .switchToUserSpace => true
    | _ => false

theorem Access.prepared_after {c : Fin n} {g g' : Shared n} {k k' : Core} (h : Access v c g k g' k')
    (hp : prepared k') : prepared k ∨ k.nmi = .updateGdt := by
  cases h <;> simp_all [prepared]

/-- A core that gets prepared by a step goes through `update_gdt_remote_core` in it. -/
theorem prepared_after {s s' : State n} {a : Act n} (h : step v s a = some s') {c : Fin n}
    (hp : prepared (s'.core c)) : prepared (s.core c) ∨ updating s a = some c := by
  rcases step_access h with ⟨c', rfl, -, hcore⟩ | ⟨c', k', hact, hcore, haccess⟩
  · rw [hcore] at hp
    exact Or.inl hp
  · rw [hcore] at hp
    by_cases hc : c = c'
    · subst hc
      rw [Function.update_self] at hp
      rcases Access.prepared_after haccess hp with hold | hupdate
      · exact Or.inl hold
      · rcases hact with ⟨rfl, -⟩ | ⟨-, hout, -⟩
        · exact Or.inr (if_pos hupdate)
        · exact absurd (hout.symm.trans hupdate) (by decide)
    · rw [Function.update_of_ne hc] at hp
      exact Or.inl hp

/-- The segment is the one of every prepared core, with the stack of the last core that wrote it. -/
structure Kept (cpus : Vcpus n) (s : PState n) : Prop where
  loaded : ∀ c, prepared (s.st.core c) → s.tables.tr c = some ⟨0x2B, cpus.userTss⟩
  written : ∀ c, s.last = some c → (s.tables.tss cpus.userTss).esp0 = cpus.esp c
  some : ∀ c, prepared (s.st.core c) → s.last ≠ none

theorem not_prepared_init (c : Fin n) : ¬ prepared ((pinit n).st.core c) := Bool.false_ne_true

theorem kept_init : Kept cpus (pinit n) where
  loaded _ h := absurd h (not_prepared_init _)
  written _ h := by cases h
  some _ h := absurd h (not_prepared_init _)

theorem Kept.step {s s' : PState n} {a : Act n} (hs : Kept cpus s)
    (h : pstep v cpus s a = Option.some s') : Kept cpus s' := by
  obtain ⟨st, hst, hs'⟩ := Option.map_eq_some_iff.1 h
  cases hupdate : updating s.st a with
  | some c =>
    simp only [hupdate] at hs'
    subst hs'
    refine ⟨fun c' hp => ?_, fun c' hlast => ?_, fun _ _ => Option.some_ne_none c⟩
    · change (updateGdtRemoteCore cpus (v.id c) c s.tables).tr c' = _
      rw [updateGdt_tr]
      by_cases hc : c' = c
      · rw [hc, Function.update_self]
      · rw [Function.update_of_ne hc]
        rcases prepared_after hst hp with hold | hnew
        · exact hs.loaded c' hold
        · exact absurd (Option.some.inj (hnew.symm.trans hupdate)) hc
    · cases hlast
      exact updateGdt_tss ..
  | none =>
    simp only [hupdate] at hs'
    subst hs'
    have hold : ∀ c, prepared (st.core c) → prepared (s.st.core c) := fun c hp =>
      (prepared_after hst hp).resolve_right fun hnew => by rw [hupdate] at hnew; cases hnew
    exact ⟨fun c hp => hs.loaded c (hold c hp), hs.written, fun c hp => hs.some c (hold c hp)⟩

theorem kept_reach {s : PState n} (h : Reach (pstep v cpus) anyStep (pinit n) s) : Kept cpus s :=
  h.inv kept_init fun _ _ _ hs _ hst => hs.step hst

/-- A prepared core gets the stack of the last core that wrote the segment. -/
theorem Kept.ownStack_iff {s : PState n} (hs : Kept cpus s) {c : Fin n} (hp : prepared (s.st.core c)) :
    OwnStack cpus s c ↔ s.last = Option.some c := by
  obtain ⟨l, hl⟩ := Option.ne_none_iff_exists'.1 (hs.some c hp)
  have hstack : s.tables.kernelStack c = Option.some (cpus.esp l) := by
    rw [Tables.kernelStack, hs.loaded c hp, Option.map_some, hs.written l hl]
  rw [OwnStack, hstack, hl, Option.some.injEq, Option.some.injEq, cpus.esp_inj.eq_iff]

theorem prepared_of_entersUser {s : PState n} {c : Fin n} (h : EntersUser s c) :
    prepared (s.st.core c) := by
  rcases h with h | h
  · simp [prepared, h]
  · simp [prepared, h]

/-! ## One core only -/

/-- A core goes through `update_gdt_remote_core` while no other core is past it. -/
def Alone (s : PState n) (a : Act n) : Prop :=
  ∀ c, updating s.st a = some c → ∀ j, j ≠ c → prepared (s.st.core j) = false

instance (s : PState n) (a : Act n) : Decidable (Alone s a) :=
  inferInstanceAs (Decidable (∀ _, _ → ∀ _, _ → _))

theorem last_step {s s' : PState n} {a : Act n}
    (hs : ∀ c, prepared (s.st.core c) → s.last = some c) (halone : Alone s a)
    (h : pstep v cpus s a = some s') : ∀ c, prepared (s'.st.core c) → s'.last = some c := by
  obtain ⟨st, hst, hs'⟩ := Option.map_eq_some_iff.1 h
  intro c' hp
  cases hupdate : updating s.st a with
  | some c =>
    simp only [hupdate] at hs'
    subst hs'
    by_cases hc : c' = c
    · rw [hc]
    · rcases prepared_after hst hp with hold | hnew
      · exact absurd (hold.symm.trans (halone c hupdate c' hc)) (by decide)
      · exact absurd (Option.some.inj (hnew.symm.trans hupdate)) hc
  | none =>
    simp only [hupdate] at hs'
    subst hs'
    refine hs c' ((prepared_after hst hp).resolve_right fun hnew => ?_)
    rw [hupdate] at hnew
    cases hnew

/-- **Whose stack a core gets**, for every order in which cores are released: a core that goes to user
space has its own stack just when it was the last to write the segment. So all cores have their own in the
runs in which none writes it after another. -/
theorem ownStack_iff_last (v : Variant n) (cpus : Vcpus n) :
    (∀ s, Reach (pstep v cpus) anyStep (pinit n) s → ∀ c, EntersUser s c →
      (OwnStack cpus s c ↔ s.last = some c)) ∧
    ∀ s, Reach (pstep v cpus) Alone (pinit n) s → ∀ c, EntersUser s c → OwnStack cpus s c := by
  refine ⟨fun s h c hc => (kept_reach h).ownStack_iff (prepared_of_entersUser hc), fun s h c hc => ?_⟩
  have hp := prepared_of_entersUser hc
  have hlast : ∀ c, prepared (s.st.core c) → s.last = some c :=
    h.inv (I := fun s => ∀ c, prepared (s.st.core c) → s.last = some c)
      (fun c hp => absurd hp (not_prepared_init c)) fun _ _ _ hs hok hst => last_step hs hok hst
  exact ((kept_reach h.any).ownStack_iff hp).2 (hlast c hp)

/-- Stacks of 4KB one above the other. -/
def runtimeStacks (n : Nat) (hn : n ≤ 16) : Vcpus n where
  userTss := 0xC0301000
  esp c := BitVec.ofNat 32 (0xC0400000 + 4096 * (c.val + 1))
  guestGsBase _ := 0
  esp_inj c c' h := by
    have hc := c.isLt
    have hc' := c'.isLt
    have h' := congrArg BitVec.toNat h
    rw [BitVec.toNat_ofNat, BitVec.toNat_ofNat] at h'
    omega

def routerStacks : Vcpus 4 := runtimeStacks 4 (by decide)

def isolationStacks : Vcpus 6 := runtimeStacks 6 (by decide)

/-- In the first round core 0x1a writes last and has its stack; where core 0xe alone is handed over, it
has its own. -/
theorem ownStack_iff_last_rounds :
    (∃ s, Reach (pstep secureRouter routerStacks) anyStep (pinit 4) s ∧ EntersUser s 3 ∧
      OwnStack routerStacks s 3) ∧
    ∃ s, Reach (pstep coreIsolation isolationStacks) Alone (pinit 6) s ∧ EntersUser s 2 ∧
      OwnStack isolationStacks s 2 := by
  obtain ⟨s, hr, huser, hlast⟩ : ∃ s, Reach (pstep secureRouter routerStacks) anyStep (pinit 4) s ∧
      EntersUser s 3 ∧ s.last = some 3 :=
    Reach.exists_of_checked (handoverRun ++ go 2 3) (by decide +kernel)
  obtain ⟨s', hr', huser'⟩ : ∃ s, Reach (pstep coreIsolation isolationStacks) Alone (pinit 6) s ∧
      EntersUser s 2 := Reach.exists_of_checked (quiesceRun 1 ++ endquiesceRun 1 0 ++ go 2 2) (by decide +kernel)
  exact ⟨⟨s, hr, huser, ((ownStack_iff_last secureRouter _).1 s hr 3 huser).2 hlast⟩,
    ⟨s', hr', huser', (ownStack_iff_last coreIsolation _).2 s' hr' 2 huser'⟩⟩

/-- Core 0xc is handed over first, and its privilege changes are on the stack of core 0x1a. -/
theorem ownStack_not : ¬ ∀ s,
    Reach (pstep secureRouter routerStacks) anyStep (pinit 4) s →
      ∀ c, EntersUser s c → OwnStack routerStacks s c := by
  intro h
  obtain ⟨s, hr, huser, hother⟩ : ∃ s, Reach (pstep secureRouter routerStacks) anyStep (pinit 4) s ∧
      EntersUser s 1 ∧ ¬ OwnStack routerStacks s 1 :=
    Reach.exists_of_checked handoverRun (by decide +kernel)
  exact hother (h s hr 1 huser)

end Xmhf.Smp.Tss
