import Xmhf.Lapic.Proof.VmxAirtight

/-!
# Startup of the guest's cores through the intercepted ICR

The guest starts its cores with writes to the two halves of the ICR. `sipi_emulation`: as long as they are
intercepted and do not halt,

* each core is as its first STARTUP left it (`firstSipi`), with the destination that the last write to
  ICR_HIGH gave;
* a write to ICR_HIGH, and one to ICR_LOW that is neither INIT nor STARTUP, reaches the LAPIC unchanged;
* the page is unmapped again, but after the STARTUP with which all cores have received theirs.
-/

namespace Xmhf.Lapic.Vmx

open Xmhf.Memory Xmhf.Paging

/-! ## Writes to the ICR -/

/-- A write to ICR_LOW or ICR_HIGH. -/
inductive IcrWrite
  | low (v : BitVec 32)
  | high (v : BitVec 32)
  deriving DecidableEq, Repr

theorem icrWidth_pos : 0 < 4 := by decide

theorem icrLow_within : icrLowReg + 4 ≤ pageSize4K := by decide

theorem icrHigh_within : icrHighReg + 4 ≤ pageSize4K := by decide

/-- The access it makes. -/
def IcrWrite.access : IcrWrite → Access
  | low v => ⟨true, icrLowReg, 4, v.toNat, icrWidth_pos, icrLow_within⟩
  | high v => ⟨true, icrHighReg, 4, v.toNat, icrWidth_pos, icrHigh_within⟩

/-- The run of the writes, each an instruction of its own. -/
def runWrites (s : State) (ws : List IcrWrite) : State := run s (ws.map fun w => [w.access])

/-- The handler takes the value as INIT. -/
def isInit (v : BitVec 32) : Prop := v &&& 0xF00 = 0x500

instance (v : BitVec 32) : Decidable (isInit v) := inferInstanceAs (Decidable (_ = _))

/-- The handler takes the value as STARTUP. -/
def isStartup (v : BitVec 32) : Prop := v &&& 0xF00 = 0x600

instance (v : BitVec 32) : Decidable (isStartup v) := inferInstanceAs (Decidable (_ = _))

/-- The write is a STARTUP. -/
def IcrWrite.startsUp : IcrWrite → Bool
  | low v => isStartup v
  | high _ => false

/-- The vector of the first STARTUP to the core `id`, with ICR_HIGH as `high` before the writes. -/
def firstSipi (id : BitVec 32) : BitVec 32 → List IcrWrite → Option (BitVec 32)
  | _, [] => none
  | _, .high v :: ws => firstSipi id v ws
  | high, .low v :: ws =>
    if isStartup v ∧ high >>> 24 = id then some ((v.setWidth 8).setWidth 32)
    else firstSipi id high ws

/-! ## One core -/

/-- A core after the STARTUPs to it. -/
def receiveAll (c : Core) : BitVec 32 → List IcrWrite → Core
  | _, [] => c
  | _, .high v :: ws => receiveAll c v ws
  | high, .low v :: ws =>
    if isStartup v ∧ high >>> 24 = c.lapicId then receiveAll (c.receiveSIPI v) high ws
    else receiveAll c high ws

@[simp] theorem receiveSIPI_lapicId (c : Core) (v : BitVec 32) :
    (c.receiveSIPI v).lapicId = c.lapicId := by
  unfold Core.receiveSIPI
  split <;> rfl

/-- A core that has received its SIPI ignores the others. -/
theorem receiveAll_of_received {c : Core} (h : c.sipireceived = true) (high : BitVec 32)
    (ws : List IcrWrite) : receiveAll c high ws = c := by
  have hrecv : ∀ v, c.receiveSIPI v = c := fun v => if_pos h
  induction ws generalizing high with
  | nil => rfl
  | cons w ws ih =>
    cases w with
    | high v => exact ih v
    | low v => rw [receiveAll, hrecv, ih, ite_self]

/-- **A core keeps its first SIPI.** -/
theorem receiveAll_eq {c : Core} (hrecv : c.sipireceived = false) (hvec : c.sipivector = 0)
    (high : BitVec 32) (ws : List IcrWrite) : receiveAll c high ws = { c with
      sipireceived := (firstSipi c.lapicId high ws).isSome
      sipivector := (firstSipi c.lapicId high ws).getD 0 } := by
  induction ws generalizing high with
  | nil =>
    rw [receiveAll, firstSipi, Option.isSome_none, Option.getD_none, ← hrecv, ← hvec]
  | cons w ws ih =>
    cases w with
    | high v => exact ih v
    | low v =>
      rw [receiveAll, firstSipi]
      split
      · have hfirst : c.receiveSIPI v =
            { c with sipivector := (v.setWidth 8).setWidth 32, sipireceived := true } :=
          if_neg (by rw [hrecv]; decide)
        rw [hfirst, receiveAll_of_received rfl]
        rfl
      · exact ih high

/-! ## The search -/

/-- With distinct LAPIC ids, the search changes the core with the destination's id alone. -/
theorem sendSIPI_eq_map {dest v : BitVec 32} {cores cs : List Core}
    (hids : (cores.map Core.lapicId).Nodup) (h : sendSIPI dest v cores = some cs) :
    cs = cores.map fun c => if c.lapicId = dest then c.receiveSIPI v else c := by
  induction cores generalizing cs with
  | nil => cases h
  | cons c cores ih =>
    rw [List.map_cons, List.nodup_cons] at hids
    rw [sendSIPI] at h
    split at h
    · next hdest =>
      split at h
      · cases h
        rw [List.map_cons, if_pos hdest]
        congr 1
        refine (List.map_id _).symm.trans (List.map_congr_left fun c' hc' => ?_)
        rw [if_neg, id]
        rintro rfl
        exact hids.1 (hdest ▸ List.mem_map_of_mem hc')
      · cases h
    · next hdest =>
      obtain ⟨cs', hcs', rfl⟩ := Option.map_eq_some_iff.1 h
      rw [List.map_cons, if_neg hdest, ih hids.2 hcs']

/-! ## One write -/

/-- The value written. -/
def IcrWrite.value : IcrWrite → BitVec 32
  | low v => v
  | high v => v

/-- ICR_HIGH after a write. -/
def IcrWrite.highAfter (h : BitVec 32) : IcrWrite → BitVec 32
  | low _ => h
  | high v => v

/-- The cores after a write, with ICR_HIGH as `h` before it. -/
def IcrWrite.deliver (h : BitVec 32) (cores : List Core) : IcrWrite → List Core
  | low v => cores.map fun c => if isStartup v ∧ h >>> 24 = c.lapicId then c.receiveSIPI v else c
  | high _ => cores

/-- What a write that is intercepted and does not halt leaves. -/
structure Emulated (s s' : State) (w : IcrWrite) : Prop where
  cores : s'.cores = w.deliver (load32 s.virt icrHighReg) s.cores
  icrHigh : load32 s'.virt icrHighReg = w.highAfter (load32 s.virt icrHighReg)
  forwarded : w = .high w.value ∨ ¬ isInit w.value ∧ ¬ isStartup w.value →
    load32 s'.phys w.access.off = w.value
  mapping : s'.mapping = if w.startsUp ∧ haveAllCoresRecievedSIPI s'.cores then some .physical else none

/-- The state in which the #DB handler finds a write. -/
structure AtDb (s t : State) (w : IcrWrite) : Prop where
  lapicReg : t.lapicReg = BitVec.ofNat 32 w.access.off
  lapicOp : t.lapicOp = .write
  virt : t.virt = writeLE s.virt w.access.off 4 w.value.toNat
  cores : t.cores = s.cores
  halted : t.halted = false

section
variable {s : State}

theorem step_write (hlive : s.Intercepting) (w : IcrWrite) :
    ∃ t, step s [w.access] = dbexception t ∧ AtDb s t w := by
  have hicr : isIcr (BitVec.ofNat 32 w.access.off) = true := by
    cases w <;> rfl
  have hwrite : w.access.errorcode &&& errorcodeWrite ≠ 0 :=
    w.access.errorcode_write.2 (by cases w <;> rfl)
  obtain ⟨bitmap, mask, flags, hv⟩ := hwpgtblviolation_icr (s := s) (e := w.access.errorcode) hicr
  simp only [step, hlive.1, hlive.2, Bool.false_eq_true, ↓reduceIte, hv, if_pos hwrite]
  rw [execute_virtual rfl]
  refine ⟨_, rfl, rfl, rfl, ?_, rfl, rfl⟩
  cases w <;> rfl

/-- What the #DB handler leaves of the emulation. -/
theorem dbexception_of_emulate {t t' : State} {d : Bool} (h : emulate t = some (t', d)) :
    (dbexception t).cores = t'.cores ∧ (dbexception t).virt = t'.virt ∧
      (dbexception t).phys = t'.phys ∧
      (dbexception t).mapping = if d then some .physical else none := by
  unfold dbexception
  rw [h]
  exact ⟨rfl, rfl, rfl, rfl⟩

theorem load32_writeLE_high (m : Mem) (v : Nat) :
    load32 (writeLE m icrLowReg 4 v) icrHighReg = load32 m icrHighReg := by
  rw [load32, load32, readLE_writeLE_of_disjoint (by decide)]

theorem emulated_high (hlive : s.Intercepting) (v : BitVec 32) :
    Emulated s (step s [(IcrWrite.high v).access]) (.high v) := by
  obtain ⟨t, hstep, ht⟩ := step_write hlive (.high v)
  have hvirt : load32 t.virt icrHighReg = v := by
    rw [ht.virt]
    exact load32_writeLE ..
  have hemu := emulate_icrHigh ht.lapicOp ht.lapicReg
  rw [hvirt] at hemu
  obtain ⟨hcores, hv, hphys, hmap⟩ := dbexception_of_emulate hemu
  rw [hstep]
  refine ⟨hcores.trans ht.cores, ?_, fun _ => ?_, hmap⟩
  · rw [hv]
    exact hvirt
  · rw [hphys]
    exact load32_writeLE ..

theorem AtDb.icr {t : State} {v : BitVec 32} (ht : AtDb s t (.low v)) :
    load32 t.virt icrLowReg = v ∧ load32 t.virt icrHighReg = load32 s.virt icrHighReg := by
  rw [ht.virt]
  exact ⟨load32_writeLE .., load32_writeLE_high ..⟩

theorem emulated_startup (hids : (s.cores.map Core.lapicId).Nodup) (hlive : s.Intercepting)
    {v : BitVec 32} (hs : isStartup v)
    (hrun : (step s [(IcrWrite.low v).access]).halted = false) :
    Emulated s (step s [(IcrWrite.low v).access]) (.low v) := by
  obtain ⟨t, hstep, ht⟩ := step_write hlive (.low v)
  obtain ⟨hvirt, hhigh⟩ := ht.icr
  have hinit : v &&& 0xF00 ≠ 0x500 := by
    unfold isStartup at hs
    rw [hs]
    decide
  have hemu := emulate_icrLow ht.lapicOp ht.lapicReg hvirt
  rw [if_neg hinit, if_pos (show v &&& 0xF00 = 0x600 from hs), ht.cores, hhigh, processSIPI] at hemu
  rw [hstep] at hrun ⊢
  split at hemu
  · cases hsend : sendSIPI (load32 s.virt icrHighReg >>> 24) v s.cores with
    | none =>
      rw [hsend] at hemu
      unfold dbexception at hrun
      rw [show emulate t = none from hemu] at hrun
      cases hrun
    | some cs =>
      rw [hsend] at hemu
      obtain ⟨hcores, hv, -, hmap⟩ := dbexception_of_emulate hemu
      refine ⟨?_, by rw [hv]; exact hhigh, ?_, ?_⟩
      · rw [hcores, IcrWrite.deliver]
        simp only [hs, true_and]
        rw [sendSIPI_eq_map hids hsend]
        simp only [eq_comm]
      · rintro (h | h)
        · cases h
        · exact absurd hs h.2
      · rw [hmap, hcores, IcrWrite.startsUp, decide_eq_true hs]
        simp only [true_and]
  · unfold dbexception at hrun
    rw [show emulate t = none from hemu] at hrun
    cases hrun

/-- An INIT is voided, anything else but a STARTUP goes to the LAPIC. -/
theorem emulated_other (hlive : s.Intercepting) {v : BitVec 32} (hs : ¬ isStartup v) :
    Emulated s (step s [(IcrWrite.low v).access]) (.low v) := by
  obtain ⟨t, hstep, ht⟩ := step_write hlive (.low v)
  obtain ⟨hvirt, hhigh⟩ := ht.icr
  have hemu := emulate_icrLow ht.lapicOp ht.lapicReg hvirt
  have hsame : s.cores = (IcrWrite.low v).deliver (load32 s.virt icrHighReg) s.cores := by
    simp [IcrWrite.deliver, hs]
  have hunmap : ∀ cores, ¬ ((IcrWrite.low v).startsUp = true ∧ haveAllCoresRecievedSIPI cores = true) :=
    fun _ h => hs (of_decide_eq_true h.1)
  rw [hstep]
  by_cases hinit : v &&& 0xF00 = 0x500
  · rw [if_pos hinit] at hemu
    obtain ⟨hcores, hv, -, hmap⟩ := dbexception_of_emulate hemu
    refine ⟨(hcores.trans ht.cores).trans hsame, by rw [hv]; exact hhigh, ?_, ?_⟩
    · rintro (h | h)
      · cases h
      · exact absurd hinit h.1
    · rw [hmap, if_neg (hunmap _), if_neg (by decide)]
  · rw [if_neg hinit, if_neg (show ¬ v &&& 0xF00 = 0x600 from hs)] at hemu
    obtain ⟨hcores, hv, hphys, hmap⟩ := dbexception_of_emulate hemu
    refine ⟨(hcores.trans ht.cores).trans hsame, by rw [hv]; exact hhigh, fun _ => ?_, ?_⟩
    · rw [hphys]
      exact load32_writeLE ..
    · rw [hmap, if_neg (hunmap _), if_neg (by decide)]

/-- **What an intercepted write to the ICR does.** -/
theorem emulated_write (hids : (s.cores.map Core.lapicId).Nodup) (hlive : s.Intercepting)
    (w : IcrWrite) (hrun : (step s [w.access]).halted = false) :
    Emulated s (step s [w.access]) w := by
  cases w with
  | high v => exact emulated_high hlive v
  | low v =>
    by_cases hs : isStartup v
    · exact emulated_startup hids hlive hs hrun
    · exact emulated_other hlive hs

end

/-! ## Runs of writes -/

/-- Each write of the run is intercepted. -/
def Intercepted (s : State) (ws : List IcrWrite) : Prop :=
  ∀ pre w post, ws = pre ++ w :: post → (runWrites s pre).mapping = none

theorem Intercepted.tail {s : State} {w : IcrWrite} {ws : List IcrWrite}
    (h : Intercepted s (w :: ws)) : Intercepted (step s [w.access]) ws := by
  intro pre w' post hws
  exact h (w :: pre) w' post (by rw [hws]; rfl)

theorem runWrites_halted {s : State} (h : s.halted = true) (ws : List IcrWrite) :
    runWrites s ws = s := by
  induction ws with
  | nil => rfl
  | cons w ws ih =>
    rw [runWrites, List.map_cons, run, List.foldl_cons, step_halted h]
    exact ih

theorem halted_of_runWrites {s : State} {ws : List IcrWrite} (h : (runWrites s ws).halted = false) :
    s.halted = false := by
  by_contra hs
  rw [Bool.not_eq_false] at hs
  rw [runWrites_halted hs, hs] at h
  cases h

theorem deliver_lapicId (h : BitVec 32) (cores : List Core) (w : IcrWrite) :
    (w.deliver h cores).map Core.lapicId = cores.map Core.lapicId := by
  cases w with
  | high v => rfl
  | low v =>
    rw [IcrWrite.deliver, List.map_map]
    refine List.map_congr_left fun c _ => ?_
    rw [Function.comp_apply]
    split
    · exact receiveSIPI_lapicId c v
    · rfl

theorem receiveAll_cons (h : BitVec 32) (cores : List Core) (w : IcrWrite) (ws : List IcrWrite) :
    (w.deliver h cores).map (receiveAll · (w.highAfter h) ws) =
      cores.map (receiveAll · h (w :: ws)) := by
  cases w with
  | high v => rfl
  | low v =>
    rw [IcrWrite.deliver, List.map_map]
    refine List.map_congr_left fun c _ => ?_
    rw [Function.comp_apply, receiveAll]
    split <;> rfl

/-- **A run of writes to the ICR**: what each does, and the cores after all. -/
theorem runWrites_emulated {s : State} {ws : List IcrWrite}
    (hids : (s.cores.map Core.lapicId).Nodup) (hmap : Intercepted s ws)
    (hrun : (runWrites s ws).halted = false) :
    (runWrites s ws).cores = s.cores.map (receiveAll · (load32 s.virt icrHighReg) ws) ∧
    ∀ pre w post, ws = pre ++ w :: post →
      Emulated (runWrites s pre) (runWrites s (pre ++ [w])) w := by
  induction ws generalizing s with
  | nil =>
    refine ⟨(List.map_id _).symm, fun pre w post h => ?_⟩
    cases pre <;> cases h
  | cons w ws ih =>
    have hlive : s.Intercepting := ⟨hmap [] w ws rfl, halted_of_runWrites hrun⟩
    have hrun' : (runWrites (step s [w.access]) ws).halted = false := hrun
    have hfirst := emulated_write hids hlive w (halted_of_runWrites hrun')
    have hids' : ((step s [w.access]).cores.map Core.lapicId).Nodup := by
      rw [hfirst.cores, deliver_lapicId]
      exact hids
    obtain ⟨hcores, hrest⟩ := ih hids' hmap.tail hrun'
    constructor
    · rw [← receiveAll_cons, ← hfirst.cores, ← hfirst.icrHigh]
      exact hcores
    · intro pre w' post h
      cases pre with
      | nil =>
        cases h
        exact hfirst
      | cons w'' pre =>
        cases h
        exact hrest pre w' post rfl

/-- No core has received a SIPI. -/
def Fresh (cores : List Core) : Prop := ∀ c ∈ cores, c.sipireceived = false ∧ c.sipivector = 0

/-- **SIPI emulation**: for cores with distinct LAPIC ids and any run of intercepted writes to the ICR that
does not halt, each core holds its first STARTUP, what is neither INIT nor STARTUP is forwarded, and the
page is mapped through after exactly the STARTUP with which every core but the BSP has received one. -/
theorem sipi_emulation (virt phys : Mem) (bitmap : BitVec 32) (rflags : BitVec 64) (cores : List Core)
    (eax edx : BitVec 32) (ws : List IcrWrite) (hids : (cores.map Core.lapicId).Nodup)
    (hfresh : Fresh cores) :
    let s := booted virt phys bitmap rflags cores eax edx
    Intercepted s ws → (runWrites s ws).halted = false →
    (runWrites s ws).cores = cores.map (fun c => { c with
      sipireceived := (firstSipi c.lapicId (load32 virt icrHighReg) ws).isSome
      sipivector := (firstSipi c.lapicId (load32 virt icrHighReg) ws).getD 0 }) ∧
    (∀ pre v post, ws = pre ++ .low v :: post → ¬ isInit v → ¬ isStartup v →
      load32 (runWrites s (pre ++ [.low v])).phys icrLowReg = v) ∧
    (∀ pre v post, ws = pre ++ .high v :: post →
      load32 (runWrites s (pre ++ [.high v])).phys icrHighReg = v) ∧
    ∀ pre w post, ws = pre ++ w :: post → (runWrites s (pre ++ [w])).mapping =
      if w.startsUp ∧ ∀ c ∈ (runWrites s (pre ++ [w])).cores, c.isbsp ∨ c.sipireceived then
        some .physical
      else none := by
  intro s hmap hrun
  have hcores : s.cores = cores := by
    simp only [s, booted, lapicInitialize]
    split <;> rfl
  have hvirt : s.virt = virt := by
    simp only [s, booted, lapicInitialize]
    split <;> rfl
  rw [← hcores] at hids
  obtain ⟨hend, hsteps⟩ := runWrites_emulated hids hmap hrun
  refine ⟨?_, fun pre v post h hi hs => ?_, fun pre v post h => ?_, fun pre w post h => ?_⟩
  · rw [hend, hcores, hvirt]
    exact List.map_congr_left fun c hc => receiveAll_eq (hfresh c hc).1 (hfresh c hc).2 _ ws
  · exact (hsteps pre _ post h).forwarded (.inr ⟨hi, hs⟩)
  · exact (hsteps pre _ post h).forwarded (.inl rfl)
  · rw [(hsteps pre w post h).mapping]
    simp only [haveAllCoresRecievedSIPI, List.all_eq_true, Bool.or_eq_true]

theorem intercepted_of_take {s : State} {ws : List IcrWrite}
    (h : ∀ k < ws.length, (runWrites s (ws.take k)).mapping = none) : Intercepted s ws := by
  intro pre w post hws
  have hpre := h pre.length (by rw [hws]; simp)
  rwa [hws, List.take_left] at hpre

/-- The BSP selects core 1 and sends it INIT and a STARTUP with vector 8. -/
def startCore1 : List IcrWrite := [.high 0x01000000, .low 0x4500, .low 0x4608]

theorem sipi_emulation_two :
    (runWrites twoCores startCore1).cores = [⟨0, 0, true, false, 0⟩, ⟨1, 1, false, true, 8⟩] ∧
    (runWrites twoCores startCore1).mapping = some .physical := by
  obtain ⟨hcores, -, -, hmap⟩ := sipi_emulation (fun _ => 0) (fun _ => 0) 0 0x202
    [⟨0, 0, true, false, 0⟩, ⟨1, 1, false, false, 0⟩] 0xFEE00900 0 startCore1 (by decide)
    (by unfold Fresh; decide) (intercepted_of_take (by decide +kernel)) (by decide +kernel)
  refine ⟨hcores.trans (by decide +kernel), ?_⟩
  have hlast := hmap (startCore1.take 2) (.low 0x4608) [] rfl
  exact hlast.trans (if_pos (by decide +kernel))

end Xmhf.Lapic.Vmx
