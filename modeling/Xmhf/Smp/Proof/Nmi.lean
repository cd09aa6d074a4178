import Xmhf.Smp.Nmi

/-!
# Which NMIs are forwarded

Both handlers take the NMI's origin from the last VM exit, VMX for the guest if that was an NMI, SVM for
the guest if it was not. So VMX errs on the NMIs in the hypervisor after an NMI exit, SVM on the guest's
and on those in the hypervisor after any other exit, and of one NMI the two never do the same. Both test
bit `CPU_EXCEPTION_NMI - 1` of the exception bitmap, #DB's, and inject nothing while it is set.
-/

namespace Xmhf.Smp.Nmi

open Xmhf.Trans

variable {s : State}

/-! ## The handlers -/

/-- The bit tested is #DB's. -/
theorem Bitmap.and_cpuExceptionNmi (b : Bitmap) : b &&& cpuExceptionNmi ≠ 0 ↔ b.db = true := by
  constructor
  · intro h
    by_contra hdb
    refine h (BitVec.eq_of_getLsbD_eq fun i hi => ?_)
    rw [BitVec.getLsbD_and, show cpuExceptionNmi = BitVec.twoPow 32 1 from rfl, BitVec.getLsbD_twoPow,
      show (0 : BitVec 32).getLsbD i = false from BitVec.getLsbD_zero]
    by_cases h1 : 1 = i
    · subst h1
      rw [show b.getLsbD 1 = false from Bool.eq_false_iff.2 hdb, Bool.false_and]
    · rw [decide_eq_false h1, Bool.and_false, Bool.and_false]
  · intro hdb h
    have hbit : (b &&& cpuExceptionNmi).getLsbD 1 = true := by
      rw [BitVec.getLsbD_and, show b.getLsbD 1 = true from hdb]
      rfl
    rw [h] at hbit
    exact Bool.false_ne_true hbit

theorem Vmcs.nmiexception_injected (m : Vmcs) : m.nmiexception.injected =
    if m.nmiinhvm = true ∧ m.exceptionBitmap.db = false then m.injected ++ [nmiInformation]
    else m.injected := by
  rw [nmiexception]
  by_cases hhvm : m.nmiinhvm = true
  · by_cases hdb : m.exceptionBitmap.db = true
    · rw [if_pos hhvm, if_pos ((Bitmap.and_cpuExceptionNmi _).2 hdb), if_neg (by simp [hdb])]
    · rw [if_pos hhvm, if_neg (mt (Bitmap.and_cpuExceptionNmi _).1 hdb), if_pos ⟨hhvm, by simpa using hdb⟩]
  · rw [if_neg hhvm, if_neg (fun h => hhvm h.1)]

theorem Vmcb.nmiexception_injected (m : Vmcb) : m.nmiexception.injected =
    if m.exitcode ≠ svmVmexitNmi ∧ m.exceptionInterceptsBitmask.db = false then m.injected ++ [.nmi]
    else m.injected := by
  have hhvm : m.nmiinhvm = true ↔ m.exitcode ≠ svmVmexitNmi := by simp [nmiinhvm]
  rw [nmiexception]
  by_cases hexit : m.nmiinhvm = true
  · by_cases hdb : m.exceptionInterceptsBitmask.db = true
    · rw [if_pos hexit, if_pos ((Bitmap.and_cpuExceptionNmi _).2 hdb), if_neg (by simp [hdb])]
    · rw [if_pos hexit, if_neg (mt (Bitmap.and_cpuExceptionNmi _).1 hdb),
        if_pos ⟨hhvm.1 hexit, by simpa using hdb⟩]
  · rw [if_neg hexit, if_neg (fun h => hexit (hhvm.2 h.1))]

/-- The handlers leave what they decide by as it is. -/
theorem Vmcs.nmiexception_kept (m : Vmcs) : m.nmiexception.nmiinhvm = m.nmiinhvm ∧
    m.nmiexception.exceptionBitmap = m.exceptionBitmap := by
  rw [nmiexception]
  split_ifs <;> exact ⟨rfl, rfl⟩

theorem Vmcb.nmiexception_kept (m : Vmcb) : m.nmiexception.exitcode = m.exitcode ∧
    m.nmiexception.exceptionInterceptsBitmask = m.exceptionInterceptsBitmask := by
  rw [nmiexception]
  split_ifs <;> exact ⟨rfl, rfl⟩

/-- The intercept handlers call them for the guest's NMIs. -/
theorem Vmcs.interceptHandler_eq (m : Vmcs) :
    m.interceptHandler = if m.nmiinhvm = true then m.nmiexception else m := by
  simp only [interceptHandler, nmiinhvm, decide_eq_true_eq, ite_and]

/-! ## The cores stay in step -/

theorem inStep_launched : InStep launched := ⟨by decide, rfl, rfl⟩

theorem InStep.record (h : InStep s) (e : Exit) : InStep (s.record e) where
  exit := by
    rw [Vmcs.nmiinhvm, decide_eq_true_eq]
    exact e.corresponds
  bitmap := h.bitmap
  notNmi := h.notNmi

theorem InStep.nmi (h : InStep s) : InStep (step s .nmi) where
  exit := by
    change s.vmcs.nmiexception.nmiinhvm = true ↔ s.vmcb.nmiexception.exitcode = _
    rw [(Vmcs.nmiexception_kept _).1, (Vmcb.nmiexception_kept _).1]
    exact h.exit
  bitmap := (Vmcb.nmiexception_kept _).2.trans (h.bitmap.trans (Vmcs.nmiexception_kept _).2.symm)
  notNmi := (congrArg Bitmap.nmi (Vmcs.nmiexception_kept _).2).trans h.notNmi

/-- An NMI exit runs the NMI handlers on what it records; any other exit records only. -/
theorem InStep.step_exit (h : InStep s) (e : Exit) :
    step s (.exit e) = if e.exitcode = svmVmexitNmi then step (s.record e) .nmi else s.record e := by
  have hexit : (s.record e).vmcs.nmiinhvm = true ↔ e.exitcode = svmVmexitNmi := (h.record e).exit
  have hcode : (s.record e).vmcb.exitcode = e.exitcode := rfl
  rw [step, Vmcs.interceptHandler_eq, Vmcb.interceptHandler, hcode]
  by_cases he : e.exitcode = svmVmexitNmi
  · rw [if_pos he, if_pos (hexit.2 he), if_pos he]
    rfl
  · rw [if_neg he, if_neg (mt hexit.1 he), if_neg he]

theorem InStep.after (h : InStep s) (a : Event) : InStep (step s a) := by
  cases a with
  | exit e =>
    rw [h.step_exit e]
    split_ifs
    · exact (h.record e).nmi
    · exact h.record e
  | intercept i => exact ⟨h.exit, rfl, i.notNmi⟩
  | nmi => exact h.nmi

/-! ## One event -/

section
variable {α : Type} {p : Prop} [Decidable p] {nmi : α} {l : List α}

/-- A conditional injection injects one event where the condition holds. -/
theorem injected_eq_append_iff : (if p then l ++ [nmi] else l) = l ++ [nmi] ↔ p := by
  by_cases hp : p
  · exact iff_of_true (if_pos hp) hp
  · rw [if_neg hp]
    exact iff_of_false (fun h => List.cons_ne_nil _ _ (List.self_eq_append_right.1 h)) hp

theorem injected_eq_iff : (if p then l ++ [nmi] else l) = l ↔ ¬ p := by
  by_cases hp : p
  · rw [if_pos hp]
    exact iff_of_false (fun h => List.cons_ne_nil _ _ (List.append_right_eq_self.1 h)) (not_not_intro hp)
  · exact iff_of_true (if_neg hp) hp

end

/-- An NMI with the last exit recorded: VMX injects it after an NMI exit. -/
theorem InStep.nmi_vmcs (h : InStep s) : (step s .nmi).vmcs.injected =
    if s.vmcb.exitcode = svmVmexitNmi ∧ s.vmcs.exceptionBitmap.db = false then
      s.vmcs.injected ++ [nmiInformation]
    else s.vmcs.injected := by
  simp only [← h.exit]
  exact Vmcs.nmiexception_injected _

theorem InStep.nmi_vmcb (h : InStep s) : (step s .nmi).vmcb.injected =
    if s.vmcb.exitcode ≠ svmVmexitNmi ∧ s.vmcs.exceptionBitmap.db = false then
      s.vmcb.injected ++ [.nmi]
    else s.vmcb.injected := by
  rw [← h.bitmap]
  exact Vmcb.nmiexception_injected _

theorem InStep.exit_nmi (h : InStep s) {e : Exit} (he : e.nmi) :
    (step s (.exit e)).vmcs.injected =
        (if s.vmcs.exceptionBitmap.db = false then s.vmcs.injected ++ [nmiInformation]
        else s.vmcs.injected) ∧
      (step s (.exit e)).vmcb.injected = s.vmcb.injected := by
  have hexit : (s.record e).vmcb.exitcode = svmVmexitNmi := he
  rw [h.step_exit e, if_pos (show e.exitcode = svmVmexitNmi from he), (h.record e).nmi_vmcs,
    (h.record e).nmi_vmcb]
  simp only [hexit, ne_eq, true_and, not_true_eq_false, false_and, if_false]
  exact ⟨rfl, rfl⟩

theorem InStep.exit_other (h : InStep s) {e : Exit} (he : ¬ e.nmi) :
    (step s (.exit e)).vmcs.injected = s.vmcs.injected ∧
      (step s (.exit e)).vmcb.injected = s.vmcb.injected := by
  rw [h.step_exit e, if_neg (show ¬ e.exitcode = svmVmexitNmi from he)]
  exact ⟨rfl, rfl⟩

/-- What VMX forwards: the guest's NMIs unless #DB is intercepted, and of those in the hypervisor the ones
after an exit that was no NMI. -/
theorem InStep.vmx_iff (h : InStep s) (a : Event) :
    Forwarded nmiInformation s.vmcs.injected (step s a).vmcs.injected a ↔
      match a with
      | .exit e => e.nmi → s.vmcs.exceptionBitmap.db = false
      | .intercept _ => True
      | .nmi => ¬ (s.vmcb.exitcode = svmVmexitNmi ∧ s.vmcs.exceptionBitmap.db = false) := by
  cases a with
  | exit e =>
    refine forall_congr' fun he => ?_
    rw [(h.exit_nmi he).1]
    exact injected_eq_append_iff
  | intercept i => exact Iff.rfl
  | nmi =>
    rw [Forwarded, h.nmi_vmcs]
    exact injected_eq_iff

/-- What SVM forwards: none of the guest's NMIs, and of those in the hypervisor the ones after an NMI exit
or while #DB is intercepted. -/
theorem InStep.svm_iff (h : InStep s) (a : Event) :
    Forwarded .nmi s.vmcb.injected (step s a).vmcb.injected a ↔
      match a with
      | .exit e => ¬ e.nmi
      | .intercept _ => True
      | .nmi => ¬ (s.vmcb.exitcode ≠ svmVmexitNmi ∧ s.vmcs.exceptionBitmap.db = false) := by
  cases a with
  | exit e =>
    refine forall_congr' fun he => iff_of_false (fun heq => ?_) id
    rw [(h.exit_nmi he).2] at heq
    exact List.cons_ne_nil _ _ (List.self_eq_append_right.1 heq)
  | intercept i => exact Iff.rfl
  | nmi =>
    rw [Forwarded, h.nmi_vmcb]
    exact injected_eq_iff

/-- The decisions on an NMI are the same only while #DB is intercepted: then neither injects it. -/
theorem InStep.same_iff (h : InStep s) (a : Event) :
    ((step s a).vmcs.injected = s.vmcs.injected ↔ (step s a).vmcb.injected = s.vmcb.injected) ↔
      match a with
      | .exit e => e.nmi → s.vmcs.exceptionBitmap.db = true
      | .intercept _ => True
      | .nmi => s.vmcs.exceptionBitmap.db = true := by
  cases a with
  | exit e =>
    by_cases he : e.nmi
    · rw [(h.exit_nmi he).1, (h.exit_nmi he).2, injected_eq_iff, Bool.not_eq_false]
      exact ⟨fun hsame _ => hsame.2 rfl, fun hdb => iff_of_true (hdb he) rfl⟩
    · exact iff_of_true (iff_of_true (h.exit_other he).1 (h.exit_other he).2) fun hnmi => absurd hnmi he
  | intercept i => exact iff_of_true (iff_of_true rfl rfl) trivial
  | nmi =>
    rw [h.nmi_vmcs, h.nmi_vmcb, injected_eq_iff, injected_eq_iff]
    by_cases hexit : s.vmcb.exitcode = svmVmexitNmi
    · simp [hexit]
    · simp [hexit]

theorem InStep.forwards_iff_onlyMasked (h : InStep s) (a : Event) : Forwards s a ↔ OnlyMasked s a := by
  constructor
  · intro hforwards
    have hsvm := (h.svm_iff a).1 hforwards.svm
    have hsame := (h.same_iff a).1 hforwards.same
    cases a with
    | exit e => exact hsvm
    | intercept i => trivial
    | nmi => exact hsame
  · intro hmasked
    refine ⟨(h.vmx_iff a).2 ?_, (h.svm_iff a).2 ?_, (h.same_iff a).2 ?_⟩
    all_goals
      cases a with
      | exit e => first | exact hmasked | exact fun he => absurd he hmasked
      | intercept i => trivial
      | nmi => first | exact hmasked | exact fun hand => Bool.false_ne_true (hand.2.symm.trans hmasked)

/-! ## Runs -/

/-- **NMI forwarding**, on every run of both back ends: they forward its NMIs, and the same, just when the
guest takes none of them and #DB is intercepted at those that the hypervisor takes. -/
theorem forwards_iff (h : InStep s) (as : List Event) :
    Along step Forwards s as ↔ Along step OnlyMasked s as :=
  along_congr (fun _ a hs => hs.after a) (fun _ a hs => hs.forwards_iff_onlyMasked a) h as

/-- An NMI that comes during LAPIC emulation, in the run from the first VM entry. -/
theorem forwards_iff_masked :
    Along step Forwards launched [.intercept ⟨2, by decide⟩, .nmi] :=
  (forwards_iff inStep_launched _).2 ⟨trivial, rfl, trivial⟩

/-- The guest's first NMI, which SVM does not inject, and an NMI in the hypervisor after it, which VMX does. -/
theorem forwards_not :
    InStep launched ∧
      (¬ Along step Forwards launched [.exit guestNmi] ∧
        (step launched (.exit guestNmi)).vmcb.injected = []) ∧
      ¬ Forwards (step launched (.exit guestNmi)) .nmi ∧
        (step (step launched (.exit guestNmi)) .nmi).vmcs.injected = [nmiInformation, nmiInformation] := by
  refine ⟨⟨by decide, rfl, rfl⟩, ⟨fun h => ?_, by decide⟩, fun h => ?_, by decide⟩
  · exact absurd (h.1.svm rfl) (by decide)
  · have hkept : (step (step launched (.exit guestNmi)) .nmi).vmcs.injected =
        (step launched (.exit guestNmi)).vmcs.injected := h.vmx
    exact absurd hkept (by decide)

end Xmhf.Smp.Nmi
