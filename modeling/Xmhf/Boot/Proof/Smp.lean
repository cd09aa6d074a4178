import Xmhf.Boot.Smp

/-!
# What `smp_getinfo` finds

The loop over the MADT takes its records in turn (`madt_fold`) and fills `pcpus` from the front; the loop over
the CPU entries of the MP table puts each enabled one at its own index in the table (`mp_fold`). So on
well-formed tables the cores are enumerated exactly under `SmpFaithful`:

* an MADT without records has no enabled processor where the first record would be (`pastEnd`);
* without an enabled processor in the MADT, there is one in the MP table, and the enabled CPU entries come
  before all disabled ones, unless they are too many anyway.

The result is `smpExact_iff`, for all contents of `pcpus` before the call.
-/

namespace Xmhf.Boot

open Xmhf.Memory Xmhf.Word Xmhf.Bytes Xmhf.Records

variable {m : Mem} {madt mpctable i j : Nat} {c c' : Pcpus} {f f' : Bool} {l : List Nat}

/-! ## The processors of the tables -/

/-- LAPIC id and base of a core. -/
def Pcpu.core (p : Pcpu) : Nat × Nat := (p.lapicId, p.lapicBase)

/-- LAPIC id and base in a processor record of the MADT. -/
def apicCore (m : Mem) (madt offset : Nat) : Nat × Nat :=
  (field m (apicrecord madt offset) 3 1, field m madt 36 4)

/-- The records of the MADT. -/
def madtRecords (m : Mem) (madt : Nat) : List Nat :=
  recordsFrom (apicLength m madt) (madtrecordlength m madt) (madtrecordlength m madt) 0

/-- The enabled processors of the MADT, in its order. -/
def madtCores (m : Mem) : List (Nat × Nat) :=
  match findMadt m with
  | none => []
  | some madt => ((madtRecords m madt).filter (madtEnabled m madt)).map (apicCore m madt)

/-- The address of an entry of the MP table, as long as only CPU entries come before it. -/
def cpuAddr (mpctable i : Nat) : Nat := add32 (add32 mpctable sizeofMpconftable) (sizeofMpentrycpu * i)

/-- The entry at an index is a CPU entry. -/
def isCpuAt (m : Mem) (mpctable i : Nat) : Bool := isCpuEntry m (cpuAddr mpctable i)

/-- The CPU entry at an index is enabled. -/
def enabledAt (m : Mem) (mpctable i : Nat) : Bool := cpuEnabled m (cpuAddr mpctable i)

/-- The indices of the leading CPU entries of the MP table. -/
def mpLeading (m : Mem) (mpctable : Nat) : List Nat :=
  (List.range (field m mpctable 34 2)).takeWhile (isCpuAt m mpctable)

/-- The indices of the enabled ones among them. -/
def mpEnabled (m : Mem) (mpctable : Nat) : List Nat :=
  (mpLeading m mpctable).filter (enabledAt m mpctable)

/-- LAPIC id and base in a CPU entry. -/
def cpuCore (m : Mem) (mpctable i : Nat) : Nat × Nat := (mpPcpu m mpctable (cpuAddr mpctable i)).core

/-- The configuration table that the floating pointer points to. -/
def mpTable (m : Mem) : Option Nat := (findMpfp m).map fun mpfp => field m mpfp 4 4

/-- The enabled processors of the MP table, in its order. -/
def mpCores (m : Mem) : List (Nat × Nat) :=
  match mpTable m with
  | none => []
  | some mpctable => (mpEnabled m mpctable).map (cpuCore m mpctable)

/-- The processors of the table used: the MADT if it has any. -/
def usedCores (m : Mem) : List (Nat × Nat) := if madtCores m = [] then mpCores m else madtCores m

/-! ## What the function should do -/

/-- The function halts if there are more processors than entries; it returns 1 exactly if there is a
processor, and then `pcpus` begins with the processors. -/
def Enumerates (cores : List (Nat × Nat)) : SmpOutcome → Prop
  | .halt => maxPcpuEntries < cores.length
  | .ret r c => (r = 1 ↔ cores ≠ []) ∧ (r = 1 → c.num = cores.length ∧
      ∀ j core, cores[j]? = some core → (c.entry j).core = core)

/-- From any contents of `*num_pcpus` and `pcpus`, the function ends and enumerates the processors. -/
def SmpExact (m : Mem) : Prop :=
  ∀ c, ∃ N, ∀ fuel, N ≤ fuel → ∃ out, smpGetinfo m fuel c = some out ∧ Enumerates (usedCores m) out

/-- The records of an MADT end with it, and a floating pointer leads to a configuration table. -/
structure WellFormed (m : Mem) : Prop where
  madt : ∀ madt, findMadt m = some madt → Path (recordNext (apicLength m madt) (madtrecordlength m madt)) 0
    (madtRecords m madt) (madtrecordlength m madt)
  mp : ∀ mpctable, mpTable m = some mpctable →
    mpctable ≠ 0 ∧ readLE m mpctable 4 = mpconftableSignature

/-- The enabled processor that follows an MADT without records. -/
def pastEnd (m : Mem) : Option (Nat × Nat) :=
  (findMadt m).bind fun madt =>
    if madtrecordlength m madt = 0 ∧ madtEnabled m madt 0 = true then some (apicCore m madt 0) else none

/-- The enabled CPU entries come before all disabled ones. -/
def EnabledFirst (m : Mem) : Prop :=
  ∀ mpctable, mpTable m = some mpctable →
    mpEnabled m mpctable = List.range (mpEnabled m mpctable).length

/-- The tables do not mislead the function. -/
def SmpFaithful (m : Mem) : Prop :=
  match pastEnd m with
  | some core => mpCores m = [core]
  | none => madtCores m ≠ [] ∨
      mpCores m ≠ [] ∧ (maxPcpuEntries < (mpCores m).length ∨ EnabledFirst m)

/-! ## The MADT -/

theorem Pcpus.put_num (c : Pcpus) (i : Nat) (p : Pcpu) : (c.put i p).num = c.num + 1 := rfl

theorem Pcpus.put_entry_self (c : Pcpus) (i : Nat) (p : Pcpu) : (c.put i p).entry i = p :=
  Function.update_self ..

theorem Pcpus.put_entry_of_ne {p : Pcpu} (h : j ≠ i) : (c.put i p).entry j = c.entry j :=
  Function.update_of_ne h ..

/-- What the records have added to `pcpus`. -/
structure Filled (c c' : Pcpus) (cores : List (Nat × Nat)) : Prop where
  num : c'.num = c.num + cores.length
  other : ∀ j, j < c.num ∨ c.num + cores.length ≤ j → c'.entry j = c.entry j
  cores : ∀ j core, cores[j]? = some core → (c'.entry (c.num + j)).core = core

theorem Filled.nil : Filled c c [] := ⟨rfl, fun _ _ => rfl, fun _ _ h => by cases h⟩

theorem Filled.cons {p : Pcpu} {cores : List (Nat × Nat)} (h : Filled (c.put c.num p) c' cores) :
    Filled c c' (p.core :: cores) := by
  obtain ⟨hnum, hother, hcores⟩ := h
  rw [Pcpus.put_num] at hnum hother
  refine ⟨?_, fun j hj => ?_, fun j core hj => ?_⟩
  · rw [hnum, List.length_cons]
    omega
  · rw [List.length_cons] at hj
    rw [hother j (by omega), Pcpus.put_entry_of_ne (by omega)]
  · cases j with
    | zero =>
      rw [Nat.add_zero, hother c.num (.inl (Nat.lt_succ_self _)), Pcpus.put_entry_self]
      exact Option.some.inj hj
    | succ j =>
      have hcore := hcores j core hj
      rwa [Pcpus.put_num, Nat.add_right_comm, Nat.add_assoc] at hcore

/-- The enabled processors among the records `l`. -/
def coresOf (m : Mem) (madt : Nat) (l : List Nat) : List (Nat × Nat) :=
  (l.filter (madtEnabled m madt)).map (apicCore m madt)

theorem coresOf_cons (h : madtEnabled m madt i = true) :
    coresOf m madt (i :: l) = apicCore m madt i :: coresOf m madt l := by
  rw [coresOf, List.filter_cons_of_pos h, List.map_cons, coresOf]

theorem coresOf_cons_of_not (h : ¬ madtEnabled m madt i = true) :
    coresOf m madt (i :: l) = coresOf m madt l := by
  rw [coresOf, List.filter_cons_of_neg h, coresOf]

/-- **The records of the MADT in turn**: too many processors, or `pcpus` is filled from the front. -/
theorem madt_fold (hc : c.num ≤ maxPcpuEntries) :
    (l.foldlM (madtRecord m madt) (c, f) = none ∧ maxPcpuEntries < c.num + (coresOf m madt l).length) ∨
    ∃ c', l.foldlM (madtRecord m madt) (c, f) = some (c', f || !(coresOf m madt l).isEmpty) ∧
      Filled c c' (coresOf m madt l) := by
  induction l generalizing c f with
  | nil => exact .inr ⟨c, by simp [coresOf], .nil⟩
  | cons o l ih =>
    rw [List.foldlM_cons, madtRecord, Option.bind_eq_bind]
    by_cases hen : madtEnabled m madt o = true
    · rw [if_pos hen, coresOf_cons hen]
      by_cases hfull : c.num < maxPcpuEntries
      · rw [if_pos hfull, Option.bind_some]
        rcases ih (c := c.put c.num _) (f := true) (Nat.succ_le_of_lt hfull) with ⟨hnone, hlen⟩ | ⟨c', hsome, hfilled⟩
        · refine .inl ⟨hnone, ?_⟩
          rw [Pcpus.put_num] at hlen
          rw [List.length_cons]
          omega
        · refine .inr ⟨c', ?_, hfilled.cons⟩
          rw [hsome, Bool.true_or, List.isEmpty_cons, Bool.not_false, Bool.or_true]
      · rw [if_neg hfull]
        refine .inl ⟨rfl, ?_⟩
        rw [List.length_cons]
        omega
    · rw [if_neg hen, Option.bind_some, coresOf_cons_of_not hen]
      exact ih hc

/-! ## The MP table -/

/-- One CPU entry of the MP table. -/
def mpEntry (m : Mem) (mpctable : Nat) (c : Pcpus) (i : Nat) : Option Pcpus :=
  if enabledAt m mpctable i then
    if c.num < maxPcpuEntries then some (c.put i (mpPcpu m mpctable (cpuAddr mpctable i))) else none
  else some c

theorem add32_cpuAddr (mpctable i : Nat) :
    add32 (cpuAddr mpctable i) sizeofMpentrycpu = cpuAddr mpctable (i + 1) := by
  rw [cpuAddr, add32_add32, cpuAddr, Nat.mul_succ]

/-- The loop takes the leading CPU entries in turn. -/
theorem mpLoop_eq (n : Nat) : mpLoop m mpctable n i (cpuAddr mpctable i) c =
    ((List.range' i n).takeWhile (isCpuAt m mpctable)).foldlM (mpEntry m mpctable) c := by
  induction n generalizing i c with
  | zero => rfl
  | succ n ih =>
    rw [mpLoop, List.range'_succ, add32_cpuAddr]
    by_cases hcpu : isCpuAt m mpctable i = true
    · rw [if_pos (show isCpuEntry m _ = true from hcpu), List.takeWhile_cons_of_pos hcpu, List.foldlM_cons,
        mpEntry, Option.bind_eq_bind]
      by_cases hen : enabledAt m mpctable i = true
      · rw [if_pos (show cpuEnabled m _ = true from hen), if_pos hen]
        by_cases hfull : c.num < maxPcpuEntries
        · rw [if_pos hfull, if_pos hfull, Option.bind_some, ih]
        · rw [if_neg hfull, if_neg hfull]
          rfl
      · rw [if_neg (show ¬ cpuEnabled m _ = true from hen), if_neg hen, Option.bind_some, ih]
    · rw [if_neg (show ¬ isCpuEntry m _ = true from hcpu), List.takeWhile_cons_of_neg hcpu]
      rfl

/-- What the CPU entries at the indices `is` have added to `pcpus`. -/
structure Placed (m : Mem) (mpctable : Nat) (c c' : Pcpus) (is : List Nat) : Prop where
  num : c'.num = c.num + is.length
  other : ∀ j, j ∉ is → c'.entry j = c.entry j
  placed : ∀ j ∈ is, (c'.entry j).core = cpuCore m mpctable j
  le : c'.num ≤ maxPcpuEntries

theorem Placed.nil (hc : c.num ≤ maxPcpuEntries) : Placed m mpctable c c [] :=
  ⟨rfl, fun _ _ => rfl, List.forall_mem_nil _, hc⟩

theorem Placed.cons {is : List Nat}
    (h : Placed m mpctable (c.put i (mpPcpu m mpctable (cpuAddr mpctable i))) c' is) :
    Placed m mpctable c c' (i :: is) := by
  obtain ⟨hnum, hother, hplaced, hle⟩ := h
  refine ⟨?_, fun j hj => ?_, fun j hj => ?_, hle⟩
  · rw [hnum, List.length_cons, Pcpus.put_num]
    omega
  · rw [hother j fun hmem => hj (List.mem_cons_of_mem _ hmem),
      Pcpus.put_entry_of_ne fun h => hj (List.mem_cons.2 (.inl h))]
  · by_cases hmem : j ∈ is
    · exact hplaced j hmem
    · obtain rfl := (List.mem_cons.1 hj).resolve_right hmem
      rw [hother j hmem, Pcpus.put_entry_self, cpuCore]

/-- **The CPU entries in turn**: too many processors, or each is put at its index in the table. -/
theorem mp_fold (hc : c.num ≤ maxPcpuEntries) :
    (l.foldlM (mpEntry m mpctable) c = none ∧
      maxPcpuEntries < c.num + (l.filter (enabledAt m mpctable)).length) ∨
    ∃ c', l.foldlM (mpEntry m mpctable) c = some c' ∧
      Placed m mpctable c c' (l.filter (enabledAt m mpctable)) := by
  induction l generalizing c with
  | nil => exact .inr ⟨c, rfl, .nil hc⟩
  | cons i l ih =>
    rw [List.foldlM_cons, mpEntry, Option.bind_eq_bind]
    by_cases hen : enabledAt m mpctable i = true
    · rw [if_pos hen, List.filter_cons_of_pos hen]
      by_cases hfull : c.num < maxPcpuEntries
      · rw [if_pos hfull, Option.bind_some]
        rcases ih (c := c.put i _) (Nat.succ_le_of_lt hfull) with ⟨hnone, hlen⟩ | ⟨c', hsome, hplaced⟩
        · refine .inl ⟨hnone, ?_⟩
          rw [Pcpus.put_num] at hlen
          rw [List.length_cons]
          omega
        · exact .inr ⟨c', hsome, hplaced.cons⟩
      · rw [if_neg hfull]
        refine .inl ⟨rfl, ?_⟩
        rw [List.length_cons]
        omega
    · rw [if_neg hen, Option.bind_some, List.filter_cons_of_neg hen]
      exact ih hc

theorem fallthrough_none (h : mpTable m = none) : smpFallthrough m c = .ret 1 c := by
  rw [mpTable, Option.map_eq_none_iff] at h
  rw [smpFallthrough, h]

theorem mpLoop_start (m : Mem) (mpctable : Nat) (c : Pcpus) :
    mpLoop m mpctable (field m mpctable 34 2) 0 (add32 mpctable sizeofMpconftable) c =
      (mpLeading m mpctable).foldlM (mpEntry m mpctable) c := by
  rw [mpLeading, List.range_eq_range', ← mpLoop_eq, cpuAddr, Nat.mul_zero, add32_zero (add32_lt ..)]

theorem fallthrough_some (hw : WellFormed m) (h : mpTable m = some mpctable) :
    (smpFallthrough m c = .halt ∧ maxPcpuEntries < (mpEnabled m mpctable).length) ∨
    ∃ c', smpFallthrough m c = .ret 1 c' ∧
      Placed m mpctable { c with num := 0 } c' (mpEnabled m mpctable) := by
  obtain ⟨hne, hsig⟩ := hw.mp mpctable h
  obtain ⟨mpfp, hmpfp, rfl⟩ := Option.map_eq_some_iff.1 h
  rw [smpFallthrough, hmpfp, mpEnabled]
  simp only [if_neg hne, hsig, ne_eq, not_true_eq_false, if_false, mpLoop_start]
  generalize mpLeading m (field m mpfp 4 4) = l
  rcases mp_fold (c := { c with num := 0 }) (l := l) (Nat.zero_le _) with ⟨hnone, hlen⟩ | ⟨c', hsome, hplaced⟩
  · rw [Nat.zero_add] at hlen
    exact .inl ⟨by rw [hnone], hlen⟩
  · exact .inr ⟨c', by rw [hsome], hplaced⟩

/-! ## Indices in order -/

/-- Increasing numbers from `a` on are `a`, `a + 1` and so on, or one of these is left out. -/
theorem eq_range'_or_gap {a : Nat} {is : List Nat} (hsort : is.Pairwise (· < ·)) (ha : ∀ i ∈ is, a ≤ i) :
    is = List.range' a is.length ∨ ∃ i < is.length, a + i ∉ is := by
  induction is generalizing a with
  | nil => exact .inl rfl
  | cons i is ih =>
    obtain ⟨hlt, htail⟩ := List.pairwise_cons.1 hsort
    rcases Nat.lt_or_eq_of_le (ha i (List.mem_cons_self ..)) with hi | rfl
    · refine .inr ⟨0, Nat.zero_lt_succ _, fun hmem => ?_⟩
      rcases List.mem_cons.1 hmem with h | h
      · omega
      · have := hlt _ h
        omega
    · rcases ih htail (a := a + 1) fun j hj => hlt j hj with heq | ⟨k, hk, hmem⟩
      · refine .inl ?_
        rw [List.length_cons, List.range'_succ, ← heq]
      · refine .inr ⟨k + 1, Nat.succ_lt_succ hk, fun h => ?_⟩
        rcases List.mem_cons.1 h with h | h
        · omega
        · rw [← Nat.add_assoc, Nat.add_right_comm] at h
          exact hmem h

theorem pairwise_mpEnabled : (mpEnabled m mpctable).Pairwise (· < ·) :=
  (List.pairwise_lt_range.sublist (List.takeWhile_sublist _)).sublist List.filter_sublist

/-! ## Enumerating the MP table -/

theorem mpCores_eq (h : mpTable m = some mpctable) :
    mpCores m = (mpEnabled m mpctable).map (cpuCore m mpctable) := by
  rw [mpCores, h]

theorem mpCores_none (h : mpTable m = none) : mpCores m = [] := by
  rw [mpCores, h]

/-- The MP table is enumerated if it has processors, and the enabled ones come first. -/
theorem enumerates_fallthrough (hw : WellFormed m) (hne : mpCores m ≠ [])
    (h : maxPcpuEntries < (mpCores m).length ∨ EnabledFirst m) :
    Enumerates (mpCores m) (smpFallthrough m c) := by
  cases htable : mpTable m with
  | none => exact absurd (mpCores_none htable) hne
  | some mpctable =>
    have hlen : (mpCores m).length = (mpEnabled m mpctable).length := by
      rw [mpCores_eq htable, List.length_map]
    rcases fallthrough_some (c := c) hw htable with ⟨hhalt, hmany⟩ | ⟨c', hret, hplaced⟩
    · rw [hhalt, Enumerates, hlen]
      exact hmany
    · have hnum : c'.num = (mpCores m).length := by rw [hlen, hplaced.num, Nat.zero_add]
      have hfirst := h.resolve_left (Nat.not_lt.2 (hnum ▸ hplaced.le)) mpctable htable
      rw [hret]
      refine ⟨iff_of_true rfl hne, fun _ => ⟨hnum, fun j core hj => ?_⟩⟩
      rw [mpCores_eq htable, List.getElem?_map, Option.map_eq_some_iff] at hj
      obtain ⟨i, hi, rfl⟩ := hj
      have hij := hi
      rw [hfirst] at hij
      obtain rfl : j = i := by simpa using (List.getElem?_eq_some_iff.1 hij).2
      exact hplaced.placed j (List.mem_of_getElem? hi)

/-- A core other than the given one. -/
def otherPcpu (core : Nat × Nat) : Pcpu := ⟨core.1 + 1, 0, 0, 0⟩

/-- Whatever `pcpus` holds before, only so is the MP table enumerated. -/
theorem of_enumerates_fallthrough (hw : WellFormed m)
    (h : ∀ c : Pcpus, c.num = 0 → Enumerates (mpCores m) (smpFallthrough m c)) :
    mpCores m ≠ [] ∧ (maxPcpuEntries < (mpCores m).length ∨ EnabledFirst m) := by
  cases htable : mpTable m with
  | none =>
    have hret := h ⟨0, fun _ => ⟨0, 0, 0, 0⟩⟩ rfl
    rw [fallthrough_none htable, mpCores_none htable] at hret
    exact absurd rfl (hret.1.1 rfl)
  | some mpctable =>
    have hlen : (mpCores m).length = (mpEnabled m mpctable).length := by
      rw [mpCores_eq htable, List.length_map]
    by_cases hmany : maxPcpuEntries < (mpCores m).length
    · exact ⟨List.ne_nil_of_length_pos (Nat.zero_lt_of_lt hmany), .inl hmany⟩
    · have hret (c : Pcpus) (hc : c.num = 0) : mpCores m ≠ [] ∧ ∃ c', Placed m mpctable c c'
          (mpEnabled m mpctable) ∧ ∀ j core, (mpCores m)[j]? = some core → (c'.entry j).core = core := by
        have henum := h c hc
        rcases fallthrough_some (c := c) hw htable with ⟨-, hlt⟩ | ⟨c', hret, hplaced⟩
        · exact absurd (hlen ▸ hlt) hmany
        · rw [hret] at henum
          exact ⟨henum.1.1 rfl, c', by rwa [← hc] at hplaced, (henum.2 rfl).2⟩
      refine ⟨(hret ⟨0, fun _ => otherPcpu (0, 0)⟩ rfl).1, .inr fun tbl htbl => ?_⟩
      obtain rfl := Option.some.inj (htable.symm.trans htbl)
      rcases eq_range'_or_gap pairwise_mpEnabled (a := 0) fun _ _ => Nat.zero_le _ with heq | ⟨i, hi, hgap⟩
      · rwa [List.range_eq_range']
      · -- the entry at the gap keeps what it held
        obtain ⟨-, c', hplaced, hcores⟩ := hret ⟨0, fun _ => otherPcpu (cpuCore m mpctable
          (mpEnabled m mpctable)[i])⟩ rfl
        have hi' : (mpCores m)[i]? = some (cpuCore m mpctable (mpEnabled m mpctable)[i]) := by
          rw [mpCores_eq htable, List.getElem?_map, List.getElem?_eq_getElem hi, Option.map_some]
        have hcore := hcores i _ hi'
        rw [Nat.zero_add] at hgap
        rw [hplaced.other i hgap] at hcore
        exact absurd (congrArg Prod.fst hcore) (Nat.succ_ne_self _)

/-! ## Both tables -/

/-- The records as the loop takes them: at least one. -/
def scannedRecords (m : Mem) (madt : Nat) : List Nat :=
  if madtrecordlength m madt = 0 then [0] else madtRecords m madt

theorem sub32_lt (x y : Nat) : sub32 x y < 2 ^ 32 := Nat.mod_lt _ (by decide)

/-- **The scan of the MADT ends**, after all its records in turn. -/
theorem recordLoop_madt (hw : WellFormed m) (h : findMadt m = some madt) (s : Pcpus × Bool) :
    ∃ N, ∀ fuel, N ≤ fuel → recordLoop (apicLength m madt) (madtrecordlength m madt) (madtRecord m madt)
      fuel 0 s = some ((scannedRecords m madt).foldlM (madtRecord m madt) s) := by
  have hpath := hw.madt madt h
  have hlt : madtrecordlength m madt < 2 ^ 32 := sub32_lt ..
  unfold scannedRecords
  generalize madtRecords m madt = l at *
  generalize madtrecordlength m madt = limit at *
  by_cases hempty : limit = 0
  · refine ⟨1, fun fuel hfuel => ?_⟩
    obtain ⟨n, rfl⟩ := Nat.exists_eq_add_one_of_ne_zero (Nat.ne_of_gt hfuel)
    rw [recordLoop, if_pos hempty, List.foldlM_cons, hempty]
    cases madtRecord m madt s 0 with
    | none => rfl
    | some s' => simp
  · refine ⟨l.length, fun fuel hfuel => ?_⟩
    rw [if_neg hempty]
    refine hpath.recordLoop (fun hnil => ?_) hlt hfuel
    rw [hnil] at hpath
    exact hempty (path_nil_iff.1 hpath).symm

/-- What the function ends with, on well-formed tables. -/
def smpResult (m : Mem) (c : Pcpus) : SmpOutcome :=
  match findMadt m with
  | none => smpFallthrough m c
  | some madt => smpFoundcores m
      ((scannedRecords m madt).foldlM (madtRecord m madt) ({ c with num := 0 }, false))

theorem smpResult_none (h : findMadt m = none) (c : Pcpus) : smpResult m c = smpFallthrough m c := by
  rw [smpResult, h]

theorem smpResult_some (h : findMadt m = some madt) (c : Pcpus) : smpResult m c = smpFoundcores m
    ((scannedRecords m madt).foldlM (madtRecord m madt) ({ c with num := 0 }, false)) := by
  rw [smpResult, h]

/-- **The function ends.** -/
theorem smpGetinfo_eq (hw : WellFormed m) (c : Pcpus) :
    ∃ N, ∀ fuel, N ≤ fuel → smpGetinfo m fuel c = some (smpResult m c) := by
  cases h : findMadt m with
  | none => exact ⟨0, fun _ _ => by rw [smpGetinfo, h, smpResult_none h]⟩
  | some madt =>
    obtain ⟨N, hN⟩ := recordLoop_madt hw h ({ c with num := 0 }, false)
    refine ⟨N, fun fuel hfuel => ?_⟩
    have hloop := hN fuel hfuel
    rw [smpResult_some h]
    generalize (scannedRecords m madt).foldlM (madtRecord m madt) _ = out at *
    rw [smpGetinfo, h]
    exact congrArg (Option.map (smpFoundcores m)) hloop

theorem smpExact_iff_result (hw : WellFormed m) :
    SmpExact m ↔ ∀ c, Enumerates (usedCores m) (smpResult m c) := by
  unfold SmpExact
  refine forall_congr' fun c => ?_
  obtain ⟨N, hN⟩ := smpGetinfo_eq hw c
  generalize smpResult m c = result at *
  generalize usedCores m = cores
  constructor
  · rintro ⟨N', h⟩
    obtain ⟨out, hout, henum⟩ := h (max N N') (Nat.le_max_right N N')
    rw [hN _ (Nat.le_max_left N N')] at hout
    rwa [Option.some.inj hout]
  · intro h
    exact ⟨N, fun fuel hfuel => ⟨_, hN fuel hfuel, h⟩⟩

/-- With enabled processors among the records, these are enumerated. -/
theorem enumerates_found (c : Pcpus) (hl : coresOf m madt l ≠ []) : Enumerates (coresOf m madt l)
    (smpFoundcores m (l.foldlM (madtRecord m madt) ({ c with num := 0 }, false))) := by
  rcases madt_fold (c := { c with num := 0 }) (f := false) (Nat.zero_le _) with
    ⟨hnone, hmany⟩ | ⟨c', hsome, hfilled⟩
  · rw [hnone]
    rwa [Nat.zero_add] at hmany
  · have hfound : (!(coresOf m madt l).isEmpty) = true := by simpa using hl
    rw [hsome, Bool.false_or, hfound, smpFoundcores, if_pos rfl]
    refine ⟨iff_of_true rfl hl, fun _ => ⟨?_, fun j core hj => ?_⟩⟩
    · rw [hfilled.num, Nat.zero_add]
    · have hcore := hfilled.cores j core hj
      rwa [Nat.zero_add] at hcore

theorem fold_of_none (hl : coresOf m madt l = []) :
    l.foldlM (madtRecord m madt) (c, f) = some (c, f) := by
  induction l with
  | nil => rfl
  | cons o l ih =>
    by_cases hen : madtEnabled m madt o = true
    · rw [coresOf_cons hen] at hl
      cases hl
    · rw [coresOf_cons_of_not hen] at hl
      rw [List.foldlM_cons, madtRecord, if_neg hen, Option.bind_eq_bind, Option.bind_some, ih hl]

/-- What is enumerated is determined, but for a halt. -/
theorem Enumerates.unique {cores cores' : List (Nat × Nat)} {out : SmpOutcome} (h : Enumerates cores out)
    (h' : Enumerates cores' out) (hne : cores ≠ []) (hlen : cores.length ≤ maxPcpuEntries) :
    cores' = cores := by
  cases out with
  | halt => exact absurd h (Nat.not_lt.2 hlen)
  | ret r c =>
    have hr := h.1.2 hne
    obtain ⟨hnum, hcores⟩ := h.2 hr
    obtain ⟨hnum', hcores'⟩ := h'.2 hr
    refine List.ext_getElem (hnum'.symm.trans hnum) fun j hj hj' => ?_
    rw [← hcores j _ (List.getElem?_eq_getElem hj'), hcores' j _ (List.getElem?_eq_getElem hj)]

/-! ## The result -/

theorem madtCores_none (h : findMadt m = none) : madtCores m = [] := by
  rw [madtCores, h]

theorem madtCores_eq (h : findMadt m = some madt) : madtCores m = coresOf m madt (madtRecords m madt) := by
  rw [madtCores, h, coresOf]

theorem madtRecords_empty (h : madtrecordlength m madt = 0) : madtRecords m madt = [] := by
  rw [madtRecords, h, recordsFrom]

theorem usedCores_mp (h : madtCores m = []) : usedCores m = mpCores m := if_pos h

theorem usedCores_madt (h : madtCores m ≠ []) : usedCores m = madtCores m := if_neg h

theorem num_zero (c : Pcpus) (hc : c.num = 0) : ({ c with num := 0 } : Pcpus) = c := by
  rw [← hc]

/-- When the scan of the MADT finds nothing; `g` is what it makes of `*num_pcpus`. -/
theorem exact_iff_fallthrough (hw : WellFormed m) (hused : usedCores m = mpCores m) (g : Pcpus → Pcpus)
    (hg : ∀ c, c.num = 0 → g c = c) (hres : ∀ c, smpResult m c = smpFallthrough m (g c)) :
    SmpExact m ↔ mpCores m ≠ [] ∧ (maxPcpuEntries < (mpCores m).length ∨ EnabledFirst m) := by
  rw [smpExact_iff_result hw, hused]
  constructor
  · intro h
    have hall (c : Pcpus) (hc : c.num = 0) : Enumerates (mpCores m) (smpFallthrough m c) := by
      have hc' := h c
      rwa [hres, hg c hc] at hc'
    exact of_enumerates_fallthrough hw hall
  · intro h c
    rw [hres]
    exact enumerates_fallthrough hw h.1 h.2

theorem pastEnd_of_ne (h : findMadt m = some madt) (hlen : madtrecordlength m madt ≠ 0) :
    pastEnd m = none := by
  rw [pastEnd, h, Option.bind_some, if_neg fun h => hlen h.1]

theorem pastEnd_empty (h : findMadt m = some madt) (hlen : madtrecordlength m madt = 0) :
    pastEnd m = (coresOf m madt [0]).head? := by
  rw [pastEnd, h, Option.bind_some]
  by_cases hen : madtEnabled m madt 0 = true
  · rw [if_pos ⟨hlen, hen⟩, coresOf_cons hen, List.head?_cons]
  · rw [if_neg fun h => hen h.2, coresOf_cons_of_not hen]
    rfl

theorem length_coresOf_le : (coresOf m madt l).length ≤ l.length := by
  rw [coresOf, List.length_map]
  exact List.length_filter_le ..

/-- **The cores are enumerated** exactly if the tables do not mislead the function. -/
theorem smpExact_iff (hw : WellFormed m) : SmpExact m ↔ SmpFaithful m := by
  unfold SmpFaithful
  cases h : findMadt m with
  | none =>
    have hpast : pastEnd m = none := by rw [pastEnd, h]; rfl
    have hused := usedCores_mp (madtCores_none h)
    rw [hpast, exact_iff_fallthrough hw hused id (fun _ _ => rfl) (smpResult_none h)]
    exact (or_iff_right (not_not.2 (madtCores_none h))).symm
  | some madt =>
    have hcores := madtCores_eq h
    have hres := smpResult_some h
    by_cases hlen : madtrecordlength m madt = 0
    · -- the loop takes what is at the end of the table for a record
      rw [madtRecords_empty hlen] at hcores
      rw [scannedRecords, if_pos hlen] at hres
      rw [pastEnd_empty h hlen]
      have hused := usedCores_mp hcores
      cases hfound : coresOf m madt [0] with
      | nil =>
        rw [exact_iff_fallthrough hw hused (fun c => { c with num := 0 }) num_zero fun c => ?_]
        · exact (or_iff_right (not_not.2 hcores)).symm
        · rw [hres, fold_of_none hfound]
          rfl
      | cons core cores =>
        have hone : (coresOf m madt [0]).length ≤ 1 := length_coresOf_le
        obtain rfl : cores = [] := by
          rw [hfound, List.length_cons] at hone
          exact List.length_eq_zero_iff.1 (by omega)
        have hne : coresOf m madt [0] ≠ [] := hfound ▸ List.cons_ne_nil _ _
        have hall (c : Pcpus) : Enumerates (coresOf m madt [0]) (smpResult m c) := by
          rw [hres]
          exact enumerates_found c hne
        rw [smpExact_iff_result hw, hused, List.head?_cons]
        constructor
        · intro hex
          let c : Pcpus := ⟨0, fun _ => otherPcpu core⟩
          rw [(hall c).unique (hex c) hne (Nat.le_trans hone (by decide)), hfound]
        · intro hcore c
          rw [hcore, ← hfound]
          exact hall c
    · rw [scannedRecords, if_neg hlen] at hres
      rw [pastEnd_of_ne h hlen]
      generalize madtRecords m madt = l at hcores hres
      by_cases hfound : coresOf m madt l = []
      · have hnone := hcores.trans hfound
        rw [exact_iff_fallthrough hw (usedCores_mp hnone) (fun c => { c with num := 0 }) num_zero fun c => ?_]
        · exact (or_iff_right (not_not.2 hnone)).symm
        · rw [hres, fold_of_none hfound]
          rfl
      · have hsome : madtCores m ≠ [] := fun hnil => hfound (hcores.symm.trans hnil)
        refine iff_of_true ((smpExact_iff_result hw).2 fun c => ?_) (.inl hsome)
        rw [usedCores_madt hsome, hcores, hres]
        exact enumerates_found c hfound

/-- A CPU entry of the MP table. -/
def cpuEntry (lapicid cpuflags : Nat) : Octets :=
  leBytes 1 0 ++ leBytes 1 lapicid ++ leBytes 1 0x14 ++ leBytes 1 cpuflags ++ leBytes 16 0

/-- An RSDT without tables, and an MP table with a disabled processor between two enabled ones. -/
def disabledBetween : Mem :=
  putBytes (putBytes (putBytes (putBytes (putBytes (fun _ => 0)
    0x40E (leBytes 2 0x9FC0))
    0x9FC00 (leBytes 8 acpiRsdpSignature ++ leBytes 8 209 ++ leBytes 4 0x1000))
    0x1000 (leBytes 4 0 ++ leBytes 4 36))
    0x9FC20 (leBytes 4 mpfpSignature ++ leBytes 4 0x2000 ++ leBytes 1 1 ++ leBytes 1 4 ++ leBytes 1 128))
    0x2000 (leBytes 4 mpconftableSignature ++ leBytes 30 0 ++ leBytes 2 3 ++ leBytes 4 0xFEE00000 ++
      leBytes 4 0 ++ cpuEntry 0 3 ++ cpuEntry 1 0 ++ cpuEntry 2 1)

theorem wellFormed_disabledBetween : WellFormed disabledBetween where
  madt madt h := by
    have hnone : findMadt disabledBetween = none := by decide +kernel
    rw [hnone] at h
    cases h
  mp mpctable h := by
    have htable : mpTable disabledBetween = some 0x2000 := by decide +kernel
    rw [htable] at h
    cases h
    decide +kernel

/-- The processor after the disabled one is put at its index in the table. -/
theorem smpExact_not : WellFormed disabledBetween ∧ ¬ SmpExact disabledBetween := by
  refine ⟨wellFormed_disabledBetween, fun hex => ?_⟩
  have hnone : findMadt disabledBetween = none := by decide +kernel
  have htable : mpTable disabledBetween = some 0x2000 := by decide +kernel
  have henabled : mpEnabled disabledBetween 0x2000 = [0, 2] := by decide +kernel
  have hlen : (mpCores disabledBetween).length = 2 := by rw [mpCores_eq htable, henabled]; rfl
  rw [exact_iff_fallthrough wellFormed_disabledBetween (usedCores_mp (madtCores_none hnone)) id
    (fun _ _ => rfl) (smpResult_none hnone)] at hex
  rcases hex.2 with hmany | hfirst
  · rw [hlen] at hmany
    exact absurd hmany (by decide)
  · have heq := hfirst 0x2000 htable
    rw [henabled] at heq
    exact absurd heq (by decide)

theorem smpExact_iff_disabledBetween : SmpExact disabledBetween ↔ SmpFaithful disabledBetween :=
  smpExact_iff wellFormed_disabledBetween

end Xmhf.Boot
