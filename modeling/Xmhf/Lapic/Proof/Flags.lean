import Xmhf.Lib.Trans
import Xmhf.Lapic.Svm

/-!
# The guest's flags across an intercepted access

The handlers set TF and the #DB intercept for one instruction, and on VMX clear IF. `SameFlags` says
that the guest finds all three as they were.

* VMX saves IF and TF and puts them back: every intercepted access of every run is transparent.
* SVM leaves IF alone and clears TF: an access is transparent exactly if TF was clear before it.

`flags_transparent` states both over runs from boot, in which the guest may set its flags between
accesses as it likes.
-/

namespace Xmhf.Lapic

open Xmhf.Memory Xmhf.Trans
open Xmhf.Lapic.Vmx (Access Instr Event)

/-- TF and IF of RFLAGS, and the #DB bit of the exceptions intercepted, are as before. -/
structure SameFlags (rflags : BitVec 64) (bitmap : BitVec 32) (rflags' : BitVec 64)
    (bitmap' : BitVec 32) : Prop where
  tf : rflags'.getLsbD 8 = rflags.getLsbD 8
  iF : rflags'.getLsbD 9 = rflags.getLsbD 9
  db : bitmap'.getLsbD 1 = bitmap.getLsbD 1

/-- The event is an instruction that accesses the LAPIC page. -/
def accessesLapic : Event → Bool
  | .instr i => !i.accesses.isEmpty
  | .setFlags _ => false

theorem eq_instr_of_accessesLapic {e : Event} (h : accessesLapic e = true) :
    ∃ i a as, e = .instr i ∧ i.accesses = a :: as := by
  cases e with
  | setFlags f => cases h
  | instr i =>
    cases hi : i.accesses with
    | nil => simp [accessesLapic, hi] at h
    | cons a as => exact ⟨i, a, as, rfl, hi⟩

/-! ## VMX -/

namespace Vmx

/-- What the flags depend on is the same in two states. -/
structure SameControls (s t : State) : Prop where
  rflags : t.rflags = s.rflags
  tfifmask : t.tfifmask = s.tfifmask
  bitmap : t.exceptionBitmap = s.exceptionBitmap
  halted : t.halted = s.halted

theorem SameControls.refl (s : State) : SameControls s s := ⟨rfl, rfl, rfl, rfl⟩

theorem SameControls.trans {s t u : State} (h : SameControls s t) (h' : SameControls t u) :
    SameControls s u :=
  ⟨h'.rflags.trans h.rflags, h'.tfifmask.trans h.tfifmask, h'.bitmap.trans h.bitmap,
    h'.halted.trans h.halted⟩

theorem access_sameControls (s : State) (a : Access) : SameControls s (s.access a) := by
  unfold State.access
  split
  · split
    · exact ⟨rfl, rfl, rfl, rfl⟩
    · exact ⟨rfl, rfl, rfl, rfl⟩
    · exact .refl s
  · exact .refl s

theorem execute_sameControls (s : State) (accesses : List Access) :
    SameControls s (execute s accesses) := by
  induction accesses generalizing s with
  | nil => exact .refl s
  | cons a as ih => exact (access_sameControls s a).trans (ih _)

theorem emulate_sameControls {s s' : State} {d : Bool} (h : emulate s = some (s', d)) :
    SameControls s s' := by
  unfold emulate at h
  split at h
  · split at h
    · simp only at h
      split at h
      · split at h
        · cases h
          exact .refl s
        · split at h
          · obtain ⟨r, -, hr⟩ := Option.map_eq_some_iff.1 h
            cases hr
            exact ⟨rfl, rfl, rfl, rfl⟩
          · cases h
            exact ⟨rfl, rfl, rfl, rfl⟩
      · cases h
        exact ⟨rfl, rfl, rfl, rfl⟩
    · cases h
  · split at h
    · cases h
      exact .refl s
    · cases h
  · cases h
    exact .refl s

/-- The access traps to the violation handler. -/
def Traps (s : State) (e : Event) : Prop :=
  s.halted = false ∧ s.mapping = none ∧ accessesLapic e = true

/-- An intercepted access, once the #DB handler is done, leaves the flags as they were. -/
def Transparent (s : State) (e : Event) : Prop :=
  Traps s e → (stepEvent s e).halted = false →
    SameFlags s.rflags s.exceptionBitmap (stepEvent s e).rflags (stepEvent s e).exceptionBitmap

theorem hwpgtblviolation_flags (s : State) (paddr e : BitVec 32) :
    (hwpgtblviolation s paddr e).rflags = (s.rflags ||| eflagsTF) &&& ~~~eflagsIF ∧
      (hwpgtblviolation s paddr e).tfifmask =
        s.rflags.setWidth 32 &&& (eflagsIF ||| eflagsTF).setWidth 32 ∧
      (hwpgtblviolation s paddr e).exceptionBitmap = s.exceptionBitmap ||| dbIntercept := by
  unfold hwpgtblviolation
  dsimp only
  split
  · split <;> exact ⟨rfl, rfl, rfl⟩
  · split <;> exact ⟨rfl, rfl, rfl⟩

/-- What `dbexception` leaves, if it does not halt. -/
theorem dbexception_flags {t : State} (h : (dbexception t).halted = false) :
    (dbexception t).rflags =
        ((t.rflags &&& ~~~eflagsIF) &&& ~~~eflagsTF) ||| t.tfifmask.setWidth 64 ∧
      (dbexception t).exceptionBitmap = t.exceptionBitmap &&& ~~~dbIntercept := by
  unfold dbexception at h ⊢
  cases he : emulate t with
  | none => simp [he] at h
  | some p =>
    obtain ⟨t', d⟩ := p
    have hs := emulate_sameControls he
    simp only [changemapping, hs.rflags, hs.tfifmask, hs.bitmap, and_self]

/-- An intercepted access is the instruction between the two handlers. -/
theorem stepEvent_intercepted {s : State} {i : Instr} {a : Access} {as : List Access}
    (hrun : s.halted = false) (hmap : s.mapping = none) (hi : i.accesses = a :: as) :
    stepEvent s (.instr i) = dbexception (executeInstr
      (hwpgtblviolation s (s.lapicBase + BitVec.ofNat 32 a.off) a.errorcode) i) := by
  simp [stepEvent, hrun, hmap, hi]

/-- **Every intercepted access is transparent** while the hypervisor does not intercept #DB for
another reason. -/
theorem transparent_of_clear {s : State} (hdb : s.exceptionBitmap.getLsbD 1 = false) (e : Event) :
    Transparent s e := by
  rintro ⟨hrun, hmap, he⟩ hlive
  obtain ⟨i, a, as, rfl, hi⟩ := eq_instr_of_accessesLapic he
  rw [stepEvent_intercepted hrun hmap hi] at hlive ⊢
  obtain ⟨hr, hm, hb⟩ :=
    hwpgtblviolation_flags s (s.lapicBase + BitVec.ofNat 32 a.off) a.errorcode
  generalize hwpgtblviolation s _ _ = t at hlive hr hm hb ⊢
  have hex := execute_sameControls t i.accesses
  obtain ⟨hr', hb'⟩ := dbexception_flags hlive
  have hmask : (executeInstr t i).tfifmask = t.tfifmask := hex.tfifmask
  have hbits : (executeInstr t i).exceptionBitmap = t.exceptionBitmap := hex.bitmap
  rw [hmask, hm] at hr'
  rw [hbits, hb] at hb'
  refine ⟨?_, ?_, ?_⟩
  · rw [hr']
    simp [eflagsIF, eflagsTF]
  · rw [hr']
    simp [eflagsIF, eflagsTF]
  · rw [hb', hdb]
    simp [dbIntercept]

/-- The #DB intercept is clear between accesses. -/
def DbClear (s : State) : Prop := s.halted = false → s.exceptionBitmap.getLsbD 1 = false

theorem stepEvent_dbClear {s : State} (e : Event) (h : DbClear s) : DbClear (stepEvent s e) := by
  intro hlive
  by_cases hrun : s.halted = true
  · simp [stepEvent, hrun] at hlive
  · have hdb := h (by simpa using hrun)
    by_cases hint : Traps s e
    · exact (transparent_of_clear hdb e hint hlive).db.trans hdb
    · cases e with
      | setFlags f => simpa [stepEvent, hrun] using hdb
      | instr i =>
        have hex : stepEvent s (.instr i) = executeInstr s i := by
          cases hi : i.accesses with
          | nil => simp [stepEvent, hrun, hi]
          | cons a as =>
            cases hmap : s.mapping with
            | none => exact absurd ⟨by simpa using hrun, hmap, by simp [accessesLapic, hi]⟩ hint
            | some p => simp [stepEvent, hrun, hi, hmap]
        rw [hex]
        exact (congrArg (·.getLsbD 1) (execute_sameControls s i.accesses).bitmap).trans hdb

end Vmx

/-! ## SVM -/

namespace Svm

open Xmhf.Lapic.Vmx (eflagsTF)

variable {c : Config}

/-- What the flags depend on is the same in two states. -/
structure SameControls (s t : State) : Prop where
  rflags : t.rflags = s.rflags
  intercepts : t.exceptionIntercepts = s.exceptionIntercepts
  halted : t.halted = s.halted

theorem SameControls.refl (s : State) : SameControls s s := ⟨rfl, rfl, rfl⟩

theorem SameControls.trans {s t u : State} (h : SameControls s t) (h' : SameControls t u) :
    SameControls s u :=
  ⟨h'.rflags.trans h.rflags, h'.intercepts.trans h.intercepts, h'.halted.trans h.halted⟩

theorem accesses_sameControls (s : State) (accesses : List Access) :
    SameControls s (accesses.foldl State.access s) := by
  induction accesses generalizing s with
  | nil => exact .refl s
  | cons a as ih =>
    have ha : SameControls s (s.access a) := by
      unfold State.access
      split
      · split
        · exact ⟨rfl, rfl, rfl⟩
        · exact .refl s
      · exact .refl s
    exact ha.trans (ih _)

theorem emulate_sameControls {s s' : State} {d : Bool} (h : emulate c s = some (s', d)) :
    SameControls s s' := by
  unfold emulate at h
  split at h
  · split at h
    · simp only at h
      split at h
      · split at h
        · cases h
          exact .refl s
        · split at h
          · obtain ⟨r, -, hr⟩ := Option.map_eq_some_iff.1 h
            cases hr
            exact ⟨rfl, rfl, rfl⟩
          · cases h
            exact ⟨rfl, rfl, rfl⟩
      · cases h
        exact ⟨rfl, rfl, rfl⟩
    · cases h
  · split at h
    · cases h
      exact .refl s
    · cases h
  · cases h
    exact .refl s

/-- The access traps to the violation handler. -/
def Traps (s : State) (e : Event) : Prop :=
  s.halted = false ∧ s.mapping = none ∧ accessesLapic e = true

/-- An intercepted access, once the #DB handler is done, leaves the flags as they were. -/
def Transparent (c : Config) (s : State) (e : Event) : Prop :=
  Traps s e → (stepEvent c s e).halted = false →
    SameFlags s.rflags s.exceptionIntercepts (stepEvent c s e).rflags
      (stepEvent c s e).exceptionIntercepts

/-- An access that is intercepted, and does not halt the hypervisor, is made with TF clear. -/
def Untrapped (c : Config) (s : State) (e : Event) : Prop :=
  Traps s e → (stepEvent c s e).halted = false → s.rflags.getLsbD 8 = false

theorem hwpgtblviolation_flags (s : State) (paddr e : BitVec 32) :
    (hwpgtblviolation c s paddr e).rflags = s.rflags ||| eflagsTF ∧
      (hwpgtblviolation c s paddr e).exceptionIntercepts =
        s.exceptionIntercepts ||| exceptionInterceptDB := by
  unfold hwpgtblviolation
  dsimp only
  split <;> exact ⟨rfl, rfl⟩

/-- What `dbexception` leaves, if it does not halt. -/
theorem dbexception_flags {t : State} (h : (dbexception c t).halted = false) :
    (dbexception c t).rflags = t.rflags &&& ~~~eflagsTF ∧
      (dbexception c t).exceptionIntercepts =
        t.exceptionIntercepts &&& ~~~exceptionInterceptDB := by
  unfold dbexception at h ⊢
  cases he : emulate c t with
  | none => simp [he] at h
  | some p =>
    obtain ⟨t', d⟩ := p
    have hs := emulate_sameControls he
    simp only [changemapping, hs.rflags, hs.intercepts, and_self]

/-- An intercepted access is the instruction between the two handlers. -/
theorem stepEvent_intercepted {s : State} {i : Instr} {a : Access} {as : List Access}
    (hrun : s.halted = false) (hmap : s.mapping = none) (hi : i.accesses = a :: as) :
    stepEvent c s (.instr i) = dbexception c (executeInstr
      (hwpgtblviolation c s (s.lapicBase + BitVec.ofNat 32 a.off) (errorcode a)) i) := by
  simp [stepEvent, hrun, hmap, hi]

/-- After an intercepted access TF and the #DB intercept are clear, and IF is as it was. -/
theorem intercepted_flags {s : State} {e : Event} (hint : Traps s e)
    (hlive : (stepEvent c s e).halted = false) :
    (stepEvent c s e).rflags.getLsbD 8 = false ∧
      (stepEvent c s e).rflags.getLsbD 9 = s.rflags.getLsbD 9 ∧
      (stepEvent c s e).exceptionIntercepts.getLsbD 1 = false := by
  obtain ⟨hrun, hmap, he⟩ := hint
  obtain ⟨i, a, as, rfl, hi⟩ := eq_instr_of_accessesLapic he
  rw [stepEvent_intercepted hrun hmap hi] at hlive ⊢
  obtain ⟨hr, -⟩ :=
    hwpgtblviolation_flags (c := c) s (s.lapicBase + BitVec.ofNat 32 a.off) (errorcode a)
  generalize hwpgtblviolation c s _ _ = t at hlive hr ⊢
  have hex : (executeInstr t i).rflags = i.flags t.rflags :=
    congrArg i.flags (accesses_sameControls t i.accesses).rflags
  obtain ⟨hr', hb'⟩ := dbexception_flags hlive
  rw [hex] at hr'
  refine ⟨?_, ?_, ?_⟩
  · rw [hr']
    simp [eflagsTF]
  · have hIF : (i.flags t.rflags).getLsbD 9 = s.rflags.getLsbD 9 := by
      rw [i.keepsIF, hr]
      simp [eflagsTF]
    rw [hr', ← hIF]
    simp [eflagsTF]
  · rw [hb']
    simp [exceptionInterceptDB]

/-- The #DB intercept is clear between accesses. -/
def DbClear (s : State) : Prop := s.halted = false → s.exceptionIntercepts.getLsbD 1 = false

/-- **An intercepted access is transparent exactly if TF was clear before it.** -/
theorem transparent_iff {s : State} (h : DbClear s) (e : Event) :
    Transparent c s e ↔ Untrapped c s e := by
  refine forall_congr' fun hint => forall_congr' fun hlive => ?_
  obtain ⟨htf, hif, hdb⟩ := intercepted_flags hint hlive
  constructor
  · intro hsame
    rw [← hsame.tf, htf]
  · intro hclear
    exact ⟨by rw [htf, hclear], hif, by rw [hdb, h hint.1]⟩

theorem stepEvent_dbClear {s : State} (e : Event) (h : DbClear s) : DbClear (stepEvent c s e) := by
  intro hlive
  by_cases hrun : s.halted = true
  · simp [stepEvent, hrun] at hlive
  · have hdb := h (by simpa using hrun)
    by_cases hint : Traps s e
    · obtain ⟨-, -, hclear⟩ := intercepted_flags hint hlive
      exact hclear
    · cases e with
      | setFlags f => simpa [stepEvent, hrun] using hdb
      | instr i =>
        have hex : stepEvent c s (.instr i) = executeInstr s i := by
          cases hi : i.accesses with
          | nil => simp [stepEvent, hrun, hi]
          | cons a as =>
            cases hmap : s.mapping with
            | none => exact absurd ⟨by simpa using hrun, hmap, by simp [accessesLapic, hi]⟩ hint
            | some p => simp [stepEvent, hrun, hi, hmap]
        rw [hex]
        exact (congrArg (·.getLsbD 1) (accesses_sameControls s i.accesses).intercepts).trans hdb

end Svm

/-! ## Runs from boot -/

theorem Vmx.booted_dbClear (virt phys : Mem) (rflags : BitVec 64) (cores : List Core)
    (eax edx : BitVec 32) : DbClear (booted virt phys 0 rflags cores eax edx) := by
  intro _
  have hzero : (0 : BitVec 32).getLsbD 1 = false := by decide
  unfold booted lapicInitialize
  split <;> exact hzero

theorem Svm.booted_dbClear (mem : Mem) (rflags : BitVec 64) (cores : List Core)
    (eax edx : BitVec 32) : DbClear (booted mem rflags cores eax edx) := by
  intro _
  have hzero : (0 : BitVec 32).getLsbD 1 = false := by decide
  unfold booted lapicInitialize
  split <;> exact hzero

/-- **Interception is transparent to the guest's flags** in every run from boot: on VMX at every
intercepted access, on SVM if and only if TF is clear before each of them. -/
theorem flags_transparent (rflags : BitVec 64) (cores : List Core) (eax edx : BitVec 32)
    (events : List Event) :
    (∀ virt phys, Along Vmx.stepEvent Vmx.Transparent
      (Vmx.booted virt phys 0 rflags cores eax edx) events) ∧
    ∀ c mem,
      Along (Svm.stepEvent c) (Svm.Transparent c) (Svm.booted mem rflags cores eax edx) events ↔
      Along (Svm.stepEvent c) (Svm.Untrapped c) (Svm.booted mem rflags cores eax edx) events := by
  refine ⟨fun virt phys => ?_, fun c mem => ?_⟩
  · refine along_of_inv (J := Vmx.DbClear) (fun s e => Vmx.stepEvent_dbClear e)
      (fun s e hs hint => ?_) (Vmx.booted_dbClear virt phys rflags cores eax edx) events
    exact Vmx.transparent_of_clear (hs hint.1) e hint
  · exact along_congr (J := Svm.DbClear) (fun s e => Svm.stepEvent_dbClear e)
      (fun s e hs => Svm.transparent_iff hs e) (Svm.booted_dbClear mem rflags cores eax edx) events

theorem readWidth_pos : 0 < 4 := by decide

theorem version_within : 0x30 + 4 ≤ Paging.pageSize4K := by decide

/-- A read of the LAPIC's version register by an instruction that leaves RFLAGS alone. -/
def readVersion : Instr where
  accesses := [⟨false, 0x30, 4, 0, readWidth_pos, version_within⟩]
  flags := id
  keepsTF _ := rfl
  keepsIF _ := rfl

/-- On SVM a guest that single-steps itself loses TF at its first intercepted access. -/
theorem singleStepping_not_transparent :
    ¬ Along (Svm.stepEvent ⟨Paging.relocated, 0xC0300000⟩)
      (Svm.Transparent ⟨Paging.relocated, 0xC0300000⟩) (Svm.booted (fun _ => 0) 0x102 [] 0xFEE00900 0)
      [.instr readVersion] := by
  intro h
  have htf := (h.1 ⟨rfl, rfl, rfl⟩ rfl).tf
  revert htf
  decide +kernel

end Xmhf.Lapic
