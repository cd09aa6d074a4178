import Mathlib.Data.List.Induction
import Xmhf.Lapic.Vmx

/-!
# What reaches the ICR while the LAPIC is intercepted

The page an instruction runs with is chosen by its first access alone. `passed` lists the values an
intercepted instruction gives the LAPIC's ICR_LOW (`step_icrLow`):

* if its first access is at one of the two halves of the ICR, all its accesses go to the virtual page,
  and at most the value left in the virtual ICR_LOW is forwarded, after the handler's test;
* otherwise all its accesses go to the LAPIC, and those that reach ICR_LOW pass untested.

So interception is airtight exactly when the instructions of the second kind do not use it
(`airtight_iff`). The handler's test takes bit 11, the destination mode, as part of the delivery mode.
-/

namespace Xmhf.Lapic.Vmx

open Xmhf.Memory Xmhf.Paging

/-! ## Runs of accesses -/

/-- The bytes of a page after the stores of an instruction. -/
def writeAll (m : Mem) (accesses : List Access) : Mem :=
  accesses.foldl (fun m a => if a.isWrite then writeLE m a.off a.width a.value else m) m

/-- The access stores to a byte of ICR_LOW. -/
def Access.reachesIcrLow (a : Access) : Prop :=
  a.isWrite ∧ a.off < icrLowReg + 4 ∧ icrLowReg < a.off + a.width

instance (a : Access) : Decidable a.reachesIcrLow := inferInstanceAs (Decidable (_ ∧ _))

/-- The values the stores of an instruction give ICR_LOW of the page `m`. -/
def icrValues (m : Mem) : List Access → List (BitVec 32)
  | [] => []
  | a :: as =>
    if a.reachesIcrLow then load32 (writeAll m [a]) icrLowReg :: icrValues (writeAll m [a]) as
    else icrValues (writeAll m [a]) as

theorem access_virtual {s : State} (h : s.mapping = some .virtual) (a : Access) :
    s.access a = { s with virt := writeAll s.virt [a] } := by
  unfold State.access
  by_cases hw : a.isWrite = true
  · simp [hw, h, writeAll]
  · simp [hw, writeAll]

theorem execute_virtual {s : State} (h : s.mapping = some .virtual) (accesses : List Access) :
    execute s accesses = { s with virt := writeAll s.virt accesses } := by
  induction accesses generalizing s with
  | nil => rfl
  | cons a as ih =>
    rw [execute, List.foldl_cons, access_virtual h]
    exact ih h

theorem access_physical {s : State} (h : s.mapping = some .physical) (a : Access) :
    s.access a = { s with
      phys := writeAll s.phys [a]
      icrLow := s.icrLow ++ icrValues s.phys [a] } := by
  unfold State.access
  by_cases hw : a.isWrite = true
  · simp only [hw, ↓reduceIte, h, State.storePhys, writeAll, icrValues, Access.reachesIcrLow, true_and,
      List.foldl_cons, List.foldl_nil]
    split <;> simp
  · simp [hw, writeAll, icrValues, Access.reachesIcrLow]

theorem icrValues_cons (m : Mem) (a : Access) (as : List Access) :
    icrValues m (a :: as) = icrValues m [a] ++ icrValues (writeAll m [a]) as := by
  simp only [icrValues]
  split <;> rfl

theorem execute_physical {s : State} (h : s.mapping = some .physical) (accesses : List Access) :
    execute s accesses = { s with
      phys := writeAll s.phys accesses
      icrLow := s.icrLow ++ icrValues s.phys accesses } := by
  induction accesses generalizing s with
  | nil => simp [execute, writeAll, icrValues]
  | cons a as ih =>
    rw [execute, List.foldl_cons, access_physical h, icrValues_cons s.phys a as, ← List.append_assoc]
    exact ih h

/-! ## One intercepted instruction -/

/-- The violation handler at the register `reg`. -/
theorem hwpgtblviolation_icr {s : State} {reg e : BitVec 32} (h : isIcr reg = true) :
    ∃ bitmap mask flags, hwpgtblviolation s (s.lapicBase + reg) e = { s with
      lapicReg := reg
      lapicOp := if e &&& errorcodeWrite ≠ 0 then .write else .read
      mapping := some .virtual
      exceptionBitmap := bitmap
      tfifmask := mask
      rflags := flags } := by
  have hreg : s.lapicBase + reg - s.lapicBase = reg := by
    rw [BitVec.add_comm, BitVec.add_sub_cancel]
  unfold hwpgtblviolation
  simp only [hreg, h, ↓reduceIte, changemapping]
  split <;> exact ⟨_, _, _, rfl⟩

theorem hwpgtblviolation_other {s : State} {reg e : BitVec 32} (h : isIcr reg = false) :
    ∃ bitmap mask flags, hwpgtblviolation s (s.lapicBase + reg) e = { s with
      lapicReg := reg
      lapicOp := .rsvd
      mapping := some .physical
      exceptionBitmap := bitmap
      tfifmask := mask
      rflags := flags } := by
  have hreg : s.lapicBase + reg - s.lapicBase = reg := by
    rw [BitVec.add_comm, BitVec.add_sub_cancel]
  unfold hwpgtblviolation
  simp only [hreg, h, Bool.false_eq_true, ↓reduceIte, changemapping, ite_self]
  exact ⟨_, _, _, rfl⟩

/-- The handler's test for INIT and STARTUP: bits 11:8 of the value. -/
def Tested (v : BitVec 32) : Prop := v &&& 0xF00 = 0x500 ∨ v &&& 0xF00 = 0x600

instance (v : BitVec 32) : Decidable (Tested v) := inferInstanceAs (Decidable (_ ∨ _))

/-- The first access is at one of the two halves of the ICR. -/
def atIcr : List Access → Bool
  | [] => false
  | a :: _ => a.off = icrLowReg || a.off = icrHighReg

/-- The first access is a write at ICR_LOW. -/
def writesIcrLow : List Access → Bool
  | [] => false
  | a :: _ => a.isWrite && a.off = icrLowReg

/-- The values an intercepted instruction gives ICR_LOW of the LAPIC. -/
def passed (s : State) (accesses : List Access) : List (BitVec 32) :=
  if atIcr accesses then
    if writesIcrLow accesses ∧ ¬ Tested (load32 (writeAll s.virt accesses) icrLowReg) then
      [load32 (writeAll s.virt accesses) icrLowReg]
    else []
  else icrValues s.phys accesses

theorem ofNat_eq_iff {off n : Nat} (h : off < pageSize4K) (hn : n < pageSize4K) :
    BitVec.ofNat 32 off = BitVec.ofNat 32 n ↔ off = n := by
  simp only [pageSize4K] at h hn
  rw [← BitVec.toNat_inj, BitVec.toNat_ofNat, BitVec.toNat_ofNat, Nat.mod_eq_of_lt (by omega),
    Nat.mod_eq_of_lt (by omega)]

theorem Access.off_lt (a : Access) : a.off < pageSize4K := by
  have h1 := a.width_pos
  have h2 := a.within
  omega

theorem Access.reg_eq_icrLow (a : Access) :
    BitVec.ofNat 32 a.off = BitVec.ofNat 32 icrLowReg ↔ a.off = icrLowReg :=
  ofNat_eq_iff a.off_lt (by decide)

theorem atIcr_cons (a : Access) (as : List Access) :
    atIcr (a :: as) = isIcr (BitVec.ofNat 32 a.off) := by
  simp only [atIcr, isIcr, a.reg_eq_icrLow,
    ofNat_eq_iff a.off_lt (show icrHighReg < pageSize4K by decide)]

theorem Access.errorcode_write (a : Access) :
    a.errorcode &&& errorcodeWrite ≠ 0 ↔ a.isWrite = true := by
  unfold Access.errorcode
  cases a.isWrite <;> decide

/-- What the #DB handler forwards to ICR_LOW. -/
def forwarded (s : State) : List (BitVec 32) :=
  if s.lapicOp = .write ∧ s.lapicReg = BitVec.ofNat 32 icrLowReg ∧
      ¬ Tested (load32 s.virt icrLowReg) then
    [load32 s.virt icrLowReg]
  else []

theorem storePhys_icrLow (s : State) (v : BitVec 32) :
    (s.storePhys icrLowReg 4 v.toNat).icrLow = s.icrLow ++ [v] := by
  rw [State.storePhys, load32_writeLE]
  rfl

/-- The handler after a write at ICR_LOW. -/
theorem emulate_icrLow {s : State} {v : BitVec 32} (hop : s.lapicOp = .write)
    (hreg : s.lapicReg = BitVec.ofNat 32 icrLowReg) (hv : load32 s.virt icrLowReg = v) :
    emulate s = if v &&& 0xF00 = 0x500 then some (s, false)
      else if v &&& 0xF00 = 0x600 then
        (processSIPI s.cores v (load32 s.virt icrHighReg)).map fun r => ({ s with cores := r.1 }, r.2)
      else some (s.storePhys icrLowReg 4 v.toNat, false) := by
  have hoff : (BitVec.ofNat 32 icrLowReg).toNat = icrLowReg := rfl
  unfold emulate
  simp only [hop, isIcr, hreg, hoff, hv, decide_true, Bool.true_or, ↓reduceIte]

theorem emulate_icrHigh {s : State} (hop : s.lapicOp = .write)
    (hreg : s.lapicReg = BitVec.ofNat 32 icrHighReg) :
    emulate s = some (s.storePhys icrHighReg 4 (load32 s.virt icrHighReg).toNat, false) := by
  have hoff : (BitVec.ofNat 32 icrHighReg).toNat = icrHighReg := rfl
  have hne : BitVec.ofNat 32 icrHighReg ≠ BitVec.ofNat 32 icrLowReg := by decide
  unfold emulate
  simp only [hop, isIcr, hoff, hreg, decide_true, Bool.or_true, hne, ↓reduceIte]

theorem emulate_icrLow_log {s s' : State} {d : Bool} (h : emulate s = some (s', d)) :
    s'.icrLow = s.icrLow ++ forwarded s := by
  unfold forwarded
  by_cases hop : s.lapicOp = .write
  · by_cases hlow : s.lapicReg = BitVec.ofNat 32 icrLowReg
    · rw [emulate_icrLow hop hlow rfl] at h
      simp only [hop, hlow, true_and, Tested]
      split at h
      · next hinit =>
        cases h
        rw [if_neg fun hnot => hnot (.inl hinit), List.append_nil]
      · split at h
        · next hstart =>
          obtain ⟨r, -, hr⟩ := Option.map_eq_some_iff.1 h
          cases hr
          rw [if_neg fun hnot => hnot (.inr hstart), List.append_nil]
        · next hinit hstart =>
          cases h
          rw [storePhys_icrLow, if_pos (not_or.2 ⟨hinit, hstart⟩)]
    · simp only [hlow, false_and, and_false, ↓reduceIte, List.append_nil]
      by_cases hhigh : s.lapicReg = BitVec.ofNat 32 icrHighReg
      · rw [emulate_icrHigh hop hhigh] at h
        cases h
        rfl
      · simp [emulate, hop, isIcr, hlow, hhigh] at h
  · simp only [hop, false_and, ↓reduceIte, List.append_nil]
    cases hop' : s.lapicOp with
    | write => exact absurd hop' hop
    | read =>
      simp only [emulate, hop', Option.ite_none_right_eq_some] at h
      cases h.2
      rfl
    | rsvd =>
      simp only [emulate, hop'] at h
      cases h
      rfl

theorem forwarded_of_halt {s : State} (h : emulate s = none) : forwarded s = [] := by
  unfold forwarded
  rw [if_neg]
  rintro ⟨hop, hlow, htest⟩
  rw [emulate_icrLow hop hlow rfl, if_neg (not_or.1 htest).1, if_neg (not_or.1 htest).2] at h
  cases h

theorem dbexception_icrLow (s : State) : (dbexception s).icrLow = s.icrLow ++ forwarded s := by
  unfold dbexception
  cases hemu : emulate s with
  | none => simp [forwarded_of_halt hemu]
  | some r =>
    obtain ⟨s', d⟩ := r
    have hlog : s'.icrLow = s.icrLow ++ forwarded s := emulate_icrLow_log hemu
    exact hlog

/-- **What one intercepted instruction gives ICR_LOW.** -/
theorem step_icrLow {s : State} (hrun : s.halted = false) (hmap : s.mapping = none)
    (accesses : List Access) : (step s accesses).icrLow = s.icrLow ++ passed s accesses := by
  cases accesses with
  | nil => simp [step, passed, atIcr, icrValues, hrun]
  | cons a as =>
    simp only [step, hrun, hmap, Bool.false_eq_true, ↓reduceIte, dbexception_icrLow, passed, atIcr_cons]
    cases hicr : isIcr (BitVec.ofNat 32 a.off) with
    | true =>
      obtain ⟨bitmap, mask, flags, hv⟩ := hwpgtblviolation_icr (s := s) (e := a.errorcode) hicr
      rw [hv, execute_virtual rfl]
      simp only [forwarded, a.reg_eq_icrLow, a.errorcode_write, writesIcrLow, ↓reduceIte,
        Bool.and_eq_true, decide_eq_true_eq, and_assoc, ite_eq_left_iff, reduceCtorEq, imp_false,
        Bool.not_eq_true, Bool.not_eq_false]
    | false =>
      obtain ⟨bitmap, mask, flags, hv⟩ := hwpgtblviolation_other (s := s) (e := a.errorcode) hicr
      rw [hv, execute_physical rfl]
      simp [forwarded]

/-! ## Runs -/

/-- The page is unmapped and the machine runs. -/
def State.Intercepting (s : State) : Prop := s.mapping = none ∧ s.halted = false

/-- **Interception is airtight for `bad`**: up to and including the instruction at which it is delinked,
ICR_LOW is given no `bad` value. -/
def Airtight (bad : BitVec 32 → Prop) (s : State) (instrs : List (List Access)) : Prop :=
  ∀ pre i post, instrs = pre ++ i :: post → (run s pre).mapping = none →
    ∀ v ∈ (run s (pre ++ [i])).icrLow, ¬ bad v

theorem run_append_one (s : State) (pre : List (List Access)) (i : List Access) :
    run s (pre ++ [i]) = step (run s pre) i := by
  rw [run, List.foldl_append]
  rfl

theorem execute_mapping (s : State) (accesses : List Access) :
    (execute s accesses).mapping = s.mapping := by
  rcases hmap : s.mapping with _ | _ | _
  · induction accesses generalizing s with
    | nil => exact hmap
    | cons a as ih =>
      have hstep : s.access a = s := by
        unfold State.access
        simp only [hmap, ite_self]
      rw [execute, List.foldl_cons, hstep]
      exact ih s hmap
  · rw [execute_virtual hmap, hmap]
  · rw [execute_physical hmap, hmap]

theorem step_halted {s : State} (h : s.halted = true) (i : List Access) : step s i = s := by
  unfold step
  rw [if_pos h]

/-- Delinking is for good. -/
theorem step_mapping_of_ne_none {s : State} (h : s.mapping ≠ none) (i : List Access) :
    (step s i).mapping = s.mapping := by
  obtain ⟨p, hp⟩ := Option.ne_none_iff_exists'.1 h
  unfold step
  split
  · rfl
  · cases i with
    | nil => rfl
    | cons a as =>
      simp only [hp]
      rw [execute_mapping, hp]

theorem forall_mem_step {bad : BitVec 32 → Prop} {s : State} {i : List Access}
    (hmap : s.mapping = none) (hold : ∀ v ∈ s.icrLow, ¬ bad v)
    (hnew : s.Intercepting → ∀ v ∈ passed s i, ¬ bad v) : ∀ v ∈ (step s i).icrLow, ¬ bad v := by
  by_cases hhalt : s.halted = true
  · rw [step_halted hhalt]
    exact hold
  · rw [Bool.not_eq_true] at hhalt
    rw [step_icrLow hhalt hmap]
    exact fun v hv => (List.mem_append.1 hv).elim (hold v) (hnew ⟨hmap, hhalt⟩ v)

/-- A run is airtight exactly when no intercepted instruction passes a `bad` value. -/
theorem airtight_iff_passed {bad : BitVec 32 → Prop} {s : State} (hs : s.icrLow = [])
    (instrs : List (List Access)) :
    Airtight bad s instrs ↔ ∀ pre i post, instrs = pre ++ i :: post → (run s pre).Intercepting →
      ∀ v ∈ passed (run s pre) i, ¬ bad v := by
  constructor
  · intro h pre i post hinstrs hlive v hv
    refine h pre i post hinstrs hlive.1 v ?_
    rw [run_append_one, step_icrLow hlive.2 hlive.1]
    exact List.mem_append_right _ hv
  · intro h
    -- up to the last instruction before which the page is unmapped, by induction on the run
    have hbefore : ∀ pre post, instrs = pre ++ post → (run s pre).mapping = none →
        ∀ v ∈ (run s pre).icrLow, ¬ bad v := by
      intro pre
      induction pre using List.reverseRecOn with
      | nil =>
        intro post _ _ v hv
        rw [show run s [] = s from rfl, hs] at hv
        cases hv
      | append_singleton pre j ih =>
        intro post hinstrs hmap
        rw [run_append_one] at hmap ⊢
        rw [List.append_assoc] at hinstrs
        have hmap' : (run s pre).mapping = none := by
          by_contra hne
          exact hne ((step_mapping_of_ne_none hne j).symm.trans hmap)
        exact forall_mem_step hmap' (ih _ hinstrs hmap') (h pre j post hinstrs)
    intro pre i post hinstrs hmap
    rw [run_append_one]
    exact forall_mem_step hmap (hbefore pre _ hinstrs hmap) (h pre i post hinstrs)

/-! ## The two readings of the delivery mode -/

/-- The delivery mode, bits 10:8, is INIT or STARTUP. -/
def Delivers (v : BitVec 32) : Prop := v &&& 0x700 = 0x500 ∨ v &&& 0x700 = 0x600

instance (v : BitVec 32) : Decidable (Delivers v) := inferInstanceAs (Decidable (_ ∨ _))

/-- The handler misses INIT and STARTUP exactly when the destination mode is logical. -/
theorem not_tested_iff {v : BitVec 32} (h : Delivers v) : ¬ Tested v ↔ v.getLsbD 11 = true := by
  have hsplit : v &&& 0xF00 = (v &&& 0x700) ||| (if v.getLsbD 11 then 0x800#32 else 0#32) := by
    have hmask : (0xF00 : BitVec 32) = 0x700 ||| BitVec.twoPow 32 11 := by decide
    rw [hmask, BitVec.and_or_distrib_left, BitVec.and_twoPow]
    rfl
  unfold Tested
  rw [hsplit]
  rcases h with h | h <;> rw [h] <;> cases v.getLsbD 11 <;> decide

/-- The instruction's first access is at one of the two halves of the ICR, or none of its stores leaves
a `bad` value in the LAPIC's ICR_LOW. -/
def Contained (bad : BitVec 32 → Prop) (s : State) (i : List Access) : Prop :=
  atIcr i = false → ∀ v ∈ icrValues s.phys i, ¬ bad v

/-- No INIT or STARTUP with a logical destination is written at ICR_LOW. -/
def PhysicalDest (s : State) (i : List Access) : Prop :=
  writesIcrLow i = true → Delivers (load32 (writeAll s.virt i) icrLowReg) →
    (load32 (writeAll s.virt i) icrLowReg).getLsbD 11 = false

theorem atIcr_of_writesIcrLow {i : List Access} (h : writesIcrLow i = true) : atIcr i = true := by
  cases i with
  | nil => cases h
  | cons a as =>
    simp only [writesIcrLow, Bool.and_eq_true] at h
    simp only [atIcr, h.2, Bool.true_or]

theorem forall_passed_tested_iff (s : State) (i : List Access) :
    (∀ v ∈ passed s i, ¬ Tested v) ↔ Contained Tested s i := by
  unfold passed Contained
  cases hat : atIcr i with
  | false => simp
  | true =>
    simp only [↓reduceIte, reduceCtorEq, false_implies, iff_true]
    split
    · next h =>
      intro v hv
      rw [List.mem_singleton.1 hv]
      exact h.2
    · simp

theorem forall_passed_delivers_iff (s : State) (i : List Access) :
    (∀ v ∈ passed s i, ¬ Delivers v) ↔ Contained Delivers s i ∧ PhysicalDest s i := by
  unfold passed Contained PhysicalDest
  cases hat : atIcr i with
  | false =>
    have hlow : writesIcrLow i ≠ true := fun h => by
      rw [atIcr_of_writesIcrLow h] at hat
      cases hat
    simp [hlow]
  | true =>
    simp only [↓reduceIte, reduceCtorEq, false_implies, true_and]
    generalize load32 (writeAll s.virt i) icrLowReg = v
    constructor
    · intro h hlow hdel
      by_contra hbit
      rw [Bool.not_eq_false, ← not_tested_iff hdel] at hbit
      rw [if_pos ⟨hlow, hbit⟩] at h
      exact h v (List.mem_singleton.2 rfl) hdel
    · intro h
      split
      · next hpass =>
        intro w hw hdel
        rw [List.mem_singleton.1 hw] at hdel
        have hbit := (not_tested_iff hdel).1 hpass.2
        rw [h hpass.1 hdel] at hbit
        cases hbit
      · simp

/-- **When LAPIC interception is airtight**: for the handler's test, exactly when every intercepted
instruction whose first access is at neither half of the ICR keeps `bad` values out of the LAPIC's
ICR_LOW; for the delivery mode in bits 10:8, exactly when moreover no INIT or STARTUP is written to
ICR_LOW with a logical destination. -/
theorem airtight_iff (virt phys : Mem) (bitmap : BitVec 32) (rflags : BitVec 64) (cores : List Core)
    (eax edx : BitVec 32) (instrs : List (List Access)) :
    let s := booted virt phys bitmap rflags cores eax edx
    (Airtight Tested s instrs ↔ ∀ pre i post, instrs = pre ++ i :: post →
      (run s pre).Intercepting → Contained Tested (run s pre) i) ∧
    (Airtight Delivers s instrs ↔ ∀ pre i post, instrs = pre ++ i :: post →
      (run s pre).Intercepting → Contained Delivers (run s pre) i ∧ PhysicalDest (run s pre) i) := by
  intro s
  have hlog : s.icrLow = [] := by
    simp only [s, booted, lapicInitialize]
    split <;> rfl
  constructor
  · rw [airtight_iff_passed hlog]
    simp only [forall_passed_tested_iff]
  · rw [airtight_iff_passed hlog]
    simp only [forall_passed_delivers_iff]

/-- A store to the timer's initial count, then a string move from there to ICR_LOW. -/
def stringMove : List (List Access) :=
  [[⟨true, 0x380, 4, 0x4500, by decide, by decide⟩],
    [⟨false, 0x380, 4, 0, by decide, by decide⟩, ⟨true, 0x300, 4, 0x4500, by decide, by decide⟩]]

/-- The BSP and one AP, before the guest runs. -/
def twoCores : State :=
  booted (fun _ => 0) (fun _ => 0) 0 0x202 [⟨0, 0, true, false, 0⟩, ⟨1, 1, false, false, 0⟩]
    0xFEE00900 0

theorem stringMove_not_airtight :
    ¬ Airtight Tested twoCores stringMove ∧ ¬ Airtight Delivers twoCores stringMove := by
  have hmap : (run twoCores (stringMove.take 1)).mapping = none := by decide +kernel
  have hmem : 0x4500 ∈ (run twoCores (stringMove.take 1 ++ [stringMove.get ⟨1, by decide⟩])).icrLow := by
    decide +kernel
  constructor
  · exact fun h => h _ _ [] rfl hmap _ hmem (by decide)
  · exact fun h => h _ _ [] rfl hmap _ hmem (by decide)

end Xmhf.Lapic.Vmx
