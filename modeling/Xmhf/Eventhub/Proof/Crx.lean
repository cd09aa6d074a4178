import Xmhf.Eventhub.Crx
import Mathlib.Data.List.Induction

/-!
# The guest's control registers

* `crxAccess_cases`: what an access that does not halt does.
* `CrInv`: the masks stay what they were set to, and `guest_CR4` too.
* `crxRun_exact_iff`: in which runs CR0 is legal throughout and the guest sees what it wrote.
-/

namespace Xmhf.Eventhub

/-- A move to a control register: which one, and the value. -/
def GuestState.movTo (g : GuestState) : Option (Nat × BitVec 32) :=
  if g.vmcs.tofrom = 0 then (decodeReg g.vmcs g.regs g.vmcs.gpr).map (g.vmcs.crx, ·) else none

/-- The value of the last move to CR0. -/
def lastCR0 (gs : List GuestState) : Option (BitVec 32) :=
  gs.reverse.findSome? fun g => g.movTo.bind fun p => if p.1 = 0 then some p.2 else none

/-- What the guest reads in CR0: the shadow where the mask is set, else the register. -/
def Vmcs.readCR0 (v : Vmcs) : BitVec 64 :=
  (v.controlCR0Shadow &&& v.controlCR0Mask) ||| (v.guestCR0 &&& ~~~v.controlCR0Mask)

/-- `guest_CR0` has the bits of `IA32_VMX_CR0_FIXED0` but for PE and PG, and CD and NW clear. -/
structure LegalCR0 (msrs : VmxMsrs) (v : Vmcs) : Prop where
  fixed : ∀ i, i ≠ 0 → i ≠ 31 → msrs.cr0Fixed0.getLsbD i = true → v.guestCR0.getLsbD i = true
  nw : v.guestCR0.getLsbD 29 = false
  cd : v.guestCR0.getLsbD 30 = false

/-- CR0 is legal, the guest reads in it what it last wrote, and the bits of CR4 that it owns are those that
it wrote with the last access. -/
structure CrExact (msrs : VmxMsrs) (gs : List GuestState) (v : Vmcs) : Prop where
  legal : LegalCR0 msrs v
  read : ∀ w, lastCR0 gs = some w → v.readCR0 = w.setWidth 64
  cr4 : ∀ gs' g w, gs = gs' ++ [g] → g.movTo = some (4, w) →
    v.guestCR4 &&& ~~~v.controlCR4Mask = w.setWidth 64 &&& ~~~v.controlCR4Mask

/-- The bits of `IA32_VMX_CR0_FIXED0` are those of a `u32`, without CD and NW. -/
def Fixed0Ok (msrs : VmxMsrs) : Prop :=
  ∀ i, msrs.cr0Fixed0.getLsbD i = true → i < 32 ∧ i ≠ 29 ∧ i ≠ 30

/-- The access does not clear a bit of `IA32_VMX_CR0_FIXED0` but for PE and PG, and sets none in CR4 that
`IA32_VMX_CR4_FIXED0` does not have. -/
structure Meets (msrs : VmxMsrs) (g : GuestState) : Prop where
  cr0 : ∀ w, g.movTo = some (0, w) →
    ∀ i, i ≠ 0 → i ≠ 31 → msrs.cr0Fixed0.getLsbD i = true → w.getLsbD i = true
  cr4 : ∀ w, g.movTo = some (4, w) → ∀ i, w.getLsbD i = true → msrs.cr4Fixed0.getLsbD i = true

/-! ## One access -/

theorem handleCr0Access_spec {v v' : Vcpu} {gpr tofrom : Nat} (h : handleCr0Access v gpr tofrom = some v') :
    tofrom = 0 ∧ ∃ w, decodeReg v.vmcs v.regs gpr = some w ∧ v' = { v with vmcs := { v.vmcs with
      controlCR0Shadow := w.setWidth 64
      guestCR0 := (w &&& ~~~(cr0CD ||| cr0NW)).setWidth 64 } } := by
  unfold handleCr0Access at h
  obtain ⟨_, hto, h⟩ := Option.bind_eq_some_iff.1 h
  obtain ⟨w, hw, h⟩ := Option.bind_eq_some_iff.1 h
  exact ⟨by simpa [guard] using hto, w, hw, (Option.some.inj h).symm⟩

theorem handleCr4Access_spec {v v' : Vcpu} {gpr tofrom : Nat} (h : handleCr4Access v gpr tofrom = some v') :
    v' = v := by
  unfold handleCr4Access at h
  split at h
  · obtain ⟨_, -, h⟩ := Option.bind_eq_some_iff.1 h
    exact (Option.some.inj h).symm
  · exact (Option.some.inj h).symm

/-- **What an access that does not halt does**: a move to CR0 sets the shadow and the register, and an
access to CR4 sets nothing. -/
theorem crxAccess_cases {v v' : Vcpu} {g : GuestState} (h : crxAccess (v.arrive g) = some v') :
    (∃ w, g.movTo = some (0, w) ∧ v' = { v.arrive g with vmcs := { (v.arrive g).vmcs with
      controlCR0Shadow := w.setWidth 64
      guestCR0 := (w &&& ~~~(cr0CD ||| cr0NW)).setWidth 64 } }.skip) ∨
    (g.vmcs.crx = 4 ∧ v' = (v.arrive g).skip) := by
  unfold crxAccess at h
  split at h
  · obtain ⟨v1, h1, rfl⟩ := Option.map_eq_some_iff.1 h
    unfold crxSwitch at h1
    split at h1
    · rename_i hcrx
      obtain ⟨hto, w, hw, rfl⟩ := handleCr0Access_spec h1
      have hmov : g.movTo = some (g.vmcs.crx, w) := by
        rw [GuestState.movTo, if_pos (show g.vmcs.tofrom = 0 from hto)]
        exact congrArg (Option.map (g.vmcs.crx, ·)) hw
      exact .inl ⟨w, hmov.trans (congrArg (fun c => some (c, w)) hcrx), rfl⟩
    · rename_i hcrx
      split at h1
      · exact .inr ⟨hcrx, congrArg Vcpu.skip (handleCr4Access_spec h1)⟩
      · cases h1
    · cases h1
  · cases h

/-! ## Runs -/

/-- The state that the guest starts in. -/
def Vcpu.start (msrs : VmxMsrs) (isbsp : Bool) (sipivector : BitVec 32) (v : Vcpu) : Vcpu :=
  { v with vmcs := initunrestrictedguestVMCS msrs isbsp sipivector v.vmcs }

/-- The masks are what they were set to, and so is `guest_CR4`. -/
structure CrInv (msrs : VmxMsrs) (v : Vmcs) : Prop where
  cr0Mask : v.controlCR0Mask =
    msrs.cr0Fixed0 &&& notPE &&& notPG ||| cr0CD.setWidth 64 ||| cr0NW.setWidth 64
  cr4Mask : v.controlCR4Mask = msrs.cr4Fixed0
  cr4 : v.guestCR4 = msrs.cr4Fixed0

theorem crInv_start (msrs : VmxMsrs) (isbsp : Bool) (sipivector : BitVec 32) (v : Vcpu) :
    CrInv msrs (Vcpu.start msrs isbsp sipivector v).vmcs := ⟨rfl, rfl, rfl⟩

theorem CrInv.step {msrs : VmxMsrs} {v v' : Vcpu} {g : GuestState} (hinv : CrInv msrs v.vmcs)
    (h : crxAccess (v.arrive g) = some v') : CrInv msrs v'.vmcs := by
  obtain ⟨w, -, rfl⟩ | ⟨-, rfl⟩ := crxAccess_cases h
  · exact ⟨hinv.cr0Mask, hinv.cr4Mask, hinv.cr4⟩
  · exact ⟨hinv.cr0Mask, hinv.cr4Mask, hinv.cr4⟩

theorem crxRun_append {v v' : Vcpu} {gs gs' : List GuestState} (h : crxRun v (gs ++ gs') = some v') :
    ∃ v1, crxRun v gs = some v1 ∧ crxRun v1 gs' = some v' := by
  rw [crxRun, List.foldlM_append] at h
  exact Option.bind_eq_some_iff.1 h

theorem crxRun_concat {v v' : Vcpu} {gs : List GuestState} {g : GuestState}
    (h : crxRun v (gs ++ [g]) = some v') :
    ∃ v1, crxRun v gs = some v1 ∧ crxAccess (v1.arrive g) = some v' := by
  obtain ⟨v1, h1, h2⟩ := crxRun_append h
  exact ⟨v1, h1, by simpa [crxRun] using h2⟩

theorem CrInv.run {msrs : VmxMsrs} {v v' : Vcpu} {gs : List GuestState} (hinv : CrInv msrs v.vmcs)
    (h : crxRun v gs = some v') : CrInv msrs v'.vmcs := by
  induction gs using List.reverseRecOn generalizing v' with
  | nil => exact Option.some.inj h ▸ hinv
  | append_singleton gs g ih =>
    obtain ⟨v1, h1, h2⟩ := crxRun_concat h
    exact (ih h1).step h2

/-! ## Bits -/

/-- A value's bits from the bits below its width. -/
theorem getLsbD_eq_decide {n : Nat} (x : BitVec n) (p : Nat → Prop) [DecidablePred p]
    (hlt : ∀ i < n, x.getLsbD i = decide (p i)) (hge : ∀ i, n ≤ i → ¬p i) (i : Nat) :
    x.getLsbD i = decide (p i) := by
  by_cases hi : i < n
  · exact hlt i hi
  · rw [BitVec.getLsbD_of_ge x i (Nat.le_of_not_lt hi), decide_eq_false (hge i (Nat.le_of_not_lt hi))]

theorem getLsbD_cdnw (i : Nat) : (cr0CD ||| cr0NW).getLsbD i = decide (i = 29 ∨ i = 30) :=
  getLsbD_eq_decide _ (fun i => i = 29 ∨ i = 30) (by decide) (by omega) i

theorem getLsbD_notPE_and_notPG (i : Nat) : (notPE &&& notPG).getLsbD i = decide (i ≠ 0 ∧ i < 31) :=
  getLsbD_eq_decide _ (fun i => i ≠ 0 ∧ i < 31) (by decide) (by omega) i

theorem getLsbD_cr0Value (w : BitVec 32) (i : Nat) :
    ((w &&& ~~~(cr0CD ||| cr0NW)).setWidth 64).getLsbD i = (w.getLsbD i && !decide (i = 29 ∨ i = 30)) := by
  rw [BitVec.getLsbD_setWidth, BitVec.getLsbD_and, BitVec.getLsbD_not, getLsbD_cdnw]
  by_cases hi : i < 32
  · simp [hi, Nat.lt_trans hi (by decide : 32 < 64)]
  · rw [BitVec.getLsbD_of_ge w i (Nat.le_of_not_lt hi)]
    simp

theorem getLsbD_cr0Start (msrs : VmxMsrs) (i : Nat) :
    (msrs.cr0Fixed0 &&& notPE &&& notPG).getLsbD i =
      (msrs.cr0Fixed0.getLsbD i && decide (i ≠ 0 ∧ i < 31)) := by
  rw [BitVec.and_assoc, BitVec.getLsbD_and, getLsbD_notPE_and_notPG]

/-! ## Which runs are exact -/

variable {msrs : VmxMsrs}

theorem legalCR0_start_iff (isbsp : Bool) (sipivector : BitVec 32) (v : Vcpu) :
    LegalCR0 msrs (Vcpu.start msrs isbsp sipivector v).vmcs ↔ Fixed0Ok msrs := by
  have hbit (i : Nat) : (Vcpu.start msrs isbsp sipivector v).vmcs.guestCR0.getLsbD i =
      (msrs.cr0Fixed0.getLsbD i && decide (i ≠ 0 ∧ i < 31)) := getLsbD_cr0Start msrs i
  refine ⟨fun h i hi => ?_, fun h => ⟨fun i h0 h31 hi => ?_, ?_, ?_⟩⟩
  · have hfix : i ≠ 0 → i ≠ 31 → i < 31 := fun h0 h31 => by
      have hset := h.fixed i h0 h31 hi
      rw [hbit, hi] at hset
      exact (of_decide_eq_true hset).2
    refine ⟨by omega, ?_, ?_⟩
    · rintro rfl
      have hnw := h.nw
      rw [hbit, hi] at hnw
      cases hnw
    · rintro rfl
      have hcd := h.cd
      rw [hbit, hi] at hcd
      cases hcd
  · obtain ⟨hlt, -⟩ := h i hi
    rw [hbit, hi, Bool.true_and, decide_eq_true_iff]
    omega
  · have hclear : msrs.cr0Fixed0.getLsbD 29 = false := Bool.eq_false_iff.2 fun hi => (h 29 hi).2.1 rfl
    rw [hbit, hclear, Bool.false_and]
  · have hclear : msrs.cr0Fixed0.getLsbD 30 = false := Bool.eq_false_iff.2 fun hi => (h 30 hi).2.2 rfl
    rw [hbit, hclear, Bool.false_and]

/-- After a move to CR0 it is legal if the value has the fixed bits. -/
theorem legalCR0_write_iff (hok : Fixed0Ok msrs) {v : Vmcs} {w : BitVec 32}
    (hv : v.guestCR0 = (w &&& ~~~(cr0CD ||| cr0NW)).setWidth 64) :
    LegalCR0 msrs v ↔ ∀ i, i ≠ 0 → i ≠ 31 → msrs.cr0Fixed0.getLsbD i = true → w.getLsbD i = true := by
  have hbit (i : Nat) : v.guestCR0.getLsbD i = (w.getLsbD i && !decide (i = 29 ∨ i = 30)) :=
    hv ▸ getLsbD_cr0Value w i
  refine ⟨fun h i h0 h31 hi => ?_, fun h => ⟨fun i h0 h31 hi => ?_, ?_, ?_⟩⟩
  · have := h.fixed i h0 h31 hi
    rw [hbit] at this
    exact (Bool.and_eq_true_iff.1 this).1
  · obtain ⟨-, h29, h30⟩ := hok i hi
    rw [hbit, h i h0 h31 hi]
    simp [h29, h30]
  · rw [hbit]
    simp
  · rw [hbit]
    simp

/-- The guest reads the value that it moved to CR0, as the mask has CD and NW. -/
theorem readCR0_write {v : Vmcs} {w : BitVec 32} (hinv : CrInv msrs v)
    (hshadow : v.controlCR0Shadow = w.setWidth 64)
    (hcr0 : v.guestCR0 = (w &&& ~~~(cr0CD ||| cr0NW)).setWidth 64) : v.readCR0 = w.setWidth 64 := by
  apply BitVec.eq_of_getLsbD_eq
  intro i hi
  have hmask : decide (i = 29 ∨ i = 30) = true → v.controlCR0Mask.getLsbD i = true := by
    intro hd
    rw [hinv.cr0Mask, BitVec.getLsbD_or, BitVec.getLsbD_or]
    obtain rfl | rfl := of_decide_eq_true hd
    · rw [show (cr0NW.setWidth 64).getLsbD 29 = true by decide, Bool.or_true]
    · rw [show (cr0CD.setWidth 64).getLsbD 30 = true by decide, Bool.or_true, Bool.true_or]
  have hw : (w.setWidth 64).getLsbD i = w.getLsbD i := by
    rw [BitVec.getLsbD_setWidth, decide_eq_true hi, Bool.true_and]
  rw [Vmcs.readCR0, BitVec.getLsbD_or, BitVec.getLsbD_and, BitVec.getLsbD_and, BitVec.getLsbD_not, hshadow,
    hcr0, getLsbD_cr0Value, hw, decide_eq_true hi, Bool.true_and]
  cases hc : decide (i = 29 ∨ i = 30)
  · cases w.getLsbD i <;> cases v.controlCR0Mask.getLsbD i <;> rfl
  · rw [hmask hc]
    simp

/-- A move to CR4 leaves the guest's bits as it asked for if it asked for no bit of its own. -/
theorem cr4_write_iff {v : Vmcs} {w : BitVec 32} (hinv : CrInv msrs v) :
    v.guestCR4 &&& ~~~v.controlCR4Mask = w.setWidth 64 &&& ~~~v.controlCR4Mask ↔
      ∀ i, w.getLsbD i = true → msrs.cr4Fixed0.getLsbD i = true := by
  have hzero : v.guestCR4 &&& ~~~v.controlCR4Mask = 0 := by
    rw [hinv.cr4, hinv.cr4Mask, BitVec.and_not_self]
  rw [hzero, hinv.cr4Mask]
  refine ⟨fun h i hi => ?_, fun h => (BitVec.eq_of_getLsbD_eq fun i hi => ?_).symm⟩
  · have hi64 : i < 64 := Nat.lt_trans (BitVec.lt_of_getLsbD hi) (by decide)
    have hbit := congrArg (BitVec.getLsbD · i) h
    simpa [BitVec.getLsbD_setWidth, hi64, hi] using hbit
  · have := h i
    simp only [BitVec.getLsbD_and, BitVec.getLsbD_setWidth, BitVec.getLsbD_not]
    cases hw : w.getLsbD i
    · simp
    · simp [this hw]

theorem GuestState.crx_of_movTo {g : GuestState} {c : Nat} {w : BitVec 32} (h : g.movTo = some (c, w)) :
    g.vmcs.crx = c := by
  unfold GuestState.movTo at h
  split at h
  · obtain ⟨w', -, hp⟩ := Option.map_eq_some_iff.1 h
    exact congrArg Prod.fst hp
  · cases h

theorem lastCR0_concat_of_movTo {gs : List GuestState} {g : GuestState} {w : BitVec 32}
    (h : g.movTo = some (0, w)) : lastCR0 (gs ++ [g]) = some w := by
  simp [lastCR0, h]

theorem lastCR0_concat_of_crx {gs : List GuestState} {g : GuestState} (h : g.vmcs.crx ≠ 0) :
    lastCR0 (gs ++ [g]) = lastCR0 gs := by
  have hskip : (g.movTo.bind fun p => if p.1 = 0 then some p.2 else none) = none := by
    cases hm : g.movTo with
    | none => rfl
    | some p =>
      rw [Option.bind_some, if_neg]
      exact fun hp => h ((GuestState.crx_of_movTo (c := p.1) (w := p.2) hm).trans hp)
  simp [lastCR0, hskip]

/-- **One access keeps the guest's view exact** when the operand meets the condition. -/
theorem CrExact.step {gs : List GuestState} {v v' : Vcpu} {g : GuestState} (hinv : CrInv msrs v.vmcs)
    (hok : Fixed0Ok msrs) (hg : Meets msrs g) (hex : CrExact msrs gs v.vmcs)
    (h : crxAccess (v.arrive g) = some v') : CrExact msrs (gs ++ [g]) v'.vmcs := by
  have hinv' := hinv.step h
  obtain ⟨w, hw, rfl⟩ | ⟨hcrx, rfl⟩ := crxAccess_cases h
  · refine ⟨(legalCR0_write_iff hok rfl).2 (hg.cr0 w hw), fun x hx => ?_, fun gs' g' x hgs hx => ?_⟩
    · obtain rfl : w = x := Option.some.inj ((lastCR0_concat_of_movTo hw).symm.trans hx)
      exact readCR0_write hinv' rfl rfl
    · obtain ⟨-, rfl⟩ := List.append_singleton_inj.1 hgs
      cases hw.symm.trans hx
  · refine ⟨⟨hex.legal.fixed, hex.legal.nw, hex.legal.cd⟩, fun x hx => ?_, fun gs' g' x hgs hx => ?_⟩
    · rw [lastCR0_concat_of_crx (hcrx ▸ by decide)] at hx
      exact hex.read x hx
    · obtain ⟨-, rfl⟩ := List.append_singleton_inj.1 hgs
      exact (cr4_write_iff hinv').2 (hg.cr4 x hx)

theorem CrExact.run {isbsp : Bool} {sipivector : BitVec 32} {v v' : Vcpu} {gs : List GuestState}
    (hok : Fixed0Ok msrs) (hmeets : ∀ g ∈ gs, Meets msrs g)
    (h : crxRun (Vcpu.start msrs isbsp sipivector v) gs = some v') : CrExact msrs gs v'.vmcs := by
  induction gs using List.reverseRecOn generalizing v' with
  | nil =>
    obtain rfl := Option.some.inj h
    exact ⟨(legalCR0_start_iff ..).2 hok, (fun w hw => by cases hw), fun gs' g w hgs => by simp at hgs⟩
  | append_singleton gs g ih =>
    obtain ⟨v1, h1, h2⟩ := crxRun_concat h
    exact CrExact.step ((crInv_start ..).run h1) hok (hmeets g (by simp))
      (ih (fun x hx => hmeets x (List.mem_append_left _ hx)) h1) h2

theorem CrExact.meets {gs : List GuestState} {v v' : Vcpu} {g : GuestState} (hinv : CrInv msrs v.vmcs)
    (hok : Fixed0Ok msrs) (h : crxAccess (v.arrive g) = some v')
    (hex : CrExact msrs (gs ++ [g]) v'.vmcs) : Meets msrs g := by
  have hinv' := hinv.step h
  refine ⟨fun w hw => ?_, fun w hw => (cr4_write_iff hinv').1 (hex.cr4 gs g w rfl hw)⟩
  obtain ⟨w', hw', rfl⟩ | ⟨hcrx, -⟩ := crxAccess_cases h
  · obtain rfl : w' = w := congrArg Prod.snd (Option.some.inj (hw'.symm.trans hw))
    exact (legalCR0_write_iff hok rfl).1 hex.legal
  · exact absurd (hcrx.symm.trans (GuestState.crx_of_movTo hw)) (by decide)

/-- **The guest's control registers are exact throughout a run** if and only if `IA32_VMX_CR0_FIXED0` is as
a processor has it, every value moved to CR0 has its bits, and every value moved to CR4 has bits of
`IA32_VMX_CR4_FIXED0` alone. -/
theorem crxRun_exact_iff {isbsp : Bool} {sipivector : BitVec 32} {v v' : Vcpu} {gs : List GuestState}
    (h : crxRun (Vcpu.start msrs isbsp sipivector v) gs = some v') :
    (∀ gs' v1, gs' <+: gs → crxRun (Vcpu.start msrs isbsp sipivector v) gs' = some v1 →
        CrExact msrs gs' v1.vmcs) ↔
      Fixed0Ok msrs ∧ ∀ g ∈ gs, Meets msrs g := by
  refine ⟨fun hall => ?_, fun ⟨hok, hmeets⟩ gs' v1 hpre hrun =>
    CrExact.run hok (fun g hg => hmeets g (hpre.subset hg)) hrun⟩
  have hok : Fixed0Ok msrs := (legalCR0_start_iff ..).1 (hall [] _ (List.nil_prefix) rfl).legal
  refine ⟨hok, fun g hg => ?_⟩
  obtain ⟨gs1, gs2, rfl⟩ := List.append_of_mem hg
  rw [← List.singleton_append, ← List.append_assoc] at h
  obtain ⟨v1, h1, -⟩ := crxRun_append h
  obtain ⟨v0, h0, hstep⟩ := crxRun_concat h1
  exact CrExact.meets ((crInv_start ..).run h0) hok hstep
    (hall (gs1 ++ [g]) v1 ⟨gs2, by simp⟩ h1)

/-- The fixed bits of a processor: PE, NE and PG of CR0, VMXE of CR4. -/
def someMsrs : VmxMsrs := ⟨0x80000021, 0x2000⟩

/-- A move of `eax` to control register `crx`. -/
def movExit (crx : BitVec 64) (eax : BitVec 32) : GuestState :=
  ⟨{ (default : Regs) with eax := eax },
    { (default : Vmcs) with infoVmexitInstructionLength := 3, infoExitQualification := crx }⟩

/-- The guest's first processor, with nothing run on it. -/
def firstCpu : Vcpu := Vcpu.start someMsrs true 0 { (default : Vcpu) with vmxGuestUnrestricted := true }

theorem fixed0Ok_someMsrs : Fixed0Ok someMsrs := fun i hi =>
  (by decide : ∀ i < 64, someMsrs.cr0Fixed0.getLsbD i = true → i < 32 ∧ i ≠ 29 ∧ i ≠ 30) i
    (BitVec.lt_of_getLsbD hi) hi

theorem meets_movExit : ∀ g ∈ [movExit 0 0x31, movExit 4 0x2000], Meets someMsrs g := by
  intro g hg
  obtain rfl | rfl : g = movExit 0 0x31 ∨ g = movExit 4 0x2000 := by simpa using hg
  · refine ⟨fun w hw i h0 h31 hi => ?_, fun w hw => absurd (GuestState.crx_of_movTo hw) (by decide)⟩
    obtain rfl : (0x31 : BitVec 32) = w := congrArg Prod.snd (Option.some.inj hw)
    exact (by decide : ∀ i < 64, i ≠ 0 → i ≠ 31 → someMsrs.cr0Fixed0.getLsbD i = true →
      (0x31 : BitVec 32).getLsbD i = true) i (BitVec.lt_of_getLsbD hi) h0 h31 hi
  · refine ⟨fun w hw => absurd (GuestState.crx_of_movTo hw) (by decide), fun w hw i hi => ?_⟩
    obtain rfl : (0x2000 : BitVec 32) = w := congrArg Prod.snd (Option.some.inj hw)
    exact (by decide : ∀ i < 32, (0x2000 : BitVec 32).getLsbD i = true →
      someMsrs.cr4Fixed0.getLsbD i = true) i (BitVec.lt_of_getLsbD hi) hi

theorem crxRun_exact_firstCpu : ∃ v', crxRun firstCpu [movExit 0 0x31, movExit 4 0x2000] = some v' ∧
    ∀ gs' v1, gs' <+: [movExit 0 0x31, movExit 4 0x2000] → crxRun firstCpu gs' = some v1 →
      CrExact someMsrs gs' v1.vmcs :=
  ⟨_, rfl, (crxRun_exact_iff rfl).2 ⟨fixed0Ok_someMsrs, meets_movExit⟩⟩

/-- **A move to CR0 without NE** leaves the register without it, and a move to CR4 is dropped. -/
theorem crx_goes_wrong : ∃ v1 v2, crxRun firstCpu [movExit 0 0x10] = some v1 ∧ ¬LegalCR0 someMsrs v1.vmcs ∧
    crxRun firstCpu [movExit 4 0x20] = some v2 ∧
    v2.vmcs.guestCR4 &&& ~~~v2.vmcs.controlCR4Mask ≠ 0x20 &&& ~~~v2.vmcs.controlCR4Mask := by
  refine ⟨_, _, rfl, fun h => ?_, rfl, by decide +kernel⟩
  have := h.fixed 5 (by decide) (by decide) (by decide)
  exact absurd this (by decide +kernel)

end Xmhf.Eventhub
