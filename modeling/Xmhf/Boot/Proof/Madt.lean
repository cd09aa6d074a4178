import Xmhf.Boot.Smp

/-!
# The scan of any MADT

What the loop over the MADT's records reads, and when it ends, for every contents of the table. A run of the
loop (`RecordRun`) ends in the table just when the table is `MadtClean`: the records up to where the scan ends
have their headers in the table and are not empty, and the scan ends past the last of them, at an enabled
processor that `pcpus` has no entry for, or at an empty record of an enabled processor, which is taken until
`pcpus` is full. The result is `madtScanSafe_iff`.
-/

namespace Xmhf.Boot

open Xmhf.Memory Xmhf.Word Xmhf.Bytes Xmhf.Records

variable {m : Mem} {madt i o k : Nat} {c : Pcpus} {f : Bool} {l : List Nat} {r : Option (Pcpus × Bool)}

/-! ## Safety -/

/-- A byte of the records of the MADT. -/
def InRecords (m : Mem) (madt x : Nat) : Prop := madt + sizeofAcpiMadt ≤ x ∧ x < madt + field m madt 4 4

/-- What is read of a record is in the table. -/
def ApicIn (m : Mem) (madt i : Nat) : Prop := ∀ x ∈ apicReads madt i, InRecords m madt x

/-- The scan ends, and every record it takes is read inside the table. -/
structure MadtScanSafe (m : Mem) (madt : Nat) (c : Pcpus) : Prop where
  ends : ∃ fuel, (recordLoop (apicLength m madt) (madtrecordlength m madt) (madtRecord m madt) fuel 0
    ({ c with num := 0 }, false)).isSome
  reads : ∀ fuel, ∀ i ∈ recordVisits (apicLength m madt) (madtrecordlength m madt) (madtRecord m madt)
    fuel 0 ({ c with num := 0 }, false), ApicIn m madt i

/-! ## Clean tables -/

/-- The offset after a record that is not empty. -/
def apicNext (m : Mem) (madt i : Nat) : Option Nat :=
  if i < madtrecordlength m madt ∧ 0 < apicLength m madt i then some (add32 i (apicLength m madt i)) else none

/-- The number of enabled processors among records. -/
def enabledCount (m : Mem) (madt : Nat) (l : List Nat) : Nat := (l.filter (madtEnabled m madt)).length

/-- The scan is over after the records `l`, at offset `o`, with `k` processors before them. -/
inductive ScanEnd (m : Mem) (madt k : Nat) (l : List Nat) (o : Nat) : Prop
  | past : madtrecordlength m madt ≤ o → l ≠ [] → ScanEnd m madt k l o
  | full : o < madtrecordlength m madt → ApicIn m madt o → madtEnabled m madt o = true →
      k + enabledCount m madt l = maxPcpuEntries → ScanEnd m madt k l o
  | empty : o < madtrecordlength m madt → ApicIn m madt o → madtEnabled m madt o = true →
      apicLength m madt o = 0 → ScanEnd m madt k l o

/-- From offset `i` on, with `k` processors before, the records are in the table, and the scan ends after
them. -/
def CleanFrom (m : Mem) (madt i k : Nat) : Prop :=
  ∃ l o, Path (apicNext m madt) i l o ∧ (∀ j ∈ l, ApicIn m madt j) ∧
    k + enabledCount m madt l ≤ maxPcpuEntries ∧ ScanEnd m madt k l o

/-- The scan of the table ends inside. -/
def MadtClean (m : Mem) (madt : Nat) : Prop := CleanFrom m madt 0 0

/-! ## Runs -/

/-- The loop over the MADT's records, for as long as it takes. -/
abbrev MadtRun (m : Mem) (madt : Nat) : Nat → Pcpus × Bool → List Nat → Option (Pcpus × Bool) → Prop :=
  RecordRun (apicLength m madt) (madtrecordlength m madt) (madtRecord m madt)

/-- **The scan is safe** just when it has a run with all records in the table. -/
theorem madtScanSafe_iff_run : MadtScanSafe m madt c ↔
    ∃ l r, MadtRun m madt 0 ({ c with num := 0 }, false) l r ∧ ∀ i ∈ l, ApicIn m madt i := by
  constructor
  · rintro ⟨hends, hreads⟩
    obtain ⟨l, r, hrun⟩ := recordLoop_iff.1 hends
    have hin := hreads l.length
    rw [hrun.visits, List.take_length] at hin
    exact ⟨l, r, hrun, hin⟩
  · rintro ⟨l, r, hrun, hin⟩
    refine ⟨recordLoop_iff.2 ⟨l, r, hrun⟩, fun fuel i hi => ?_⟩
    rw [hrun.visits] at hi
    exact hin i (List.mem_of_mem_take hi)

theorem apicNext_eq_some {j : Nat} : apicNext m madt i = some j ↔ i < madtrecordlength m madt ∧
    0 < apicLength m madt i ∧ j = add32 i (apicLength m madt i) :=
  ite_and_eq_some

variable {s s' : Pcpus × Bool}

theorem madtRecord_full (hen : madtEnabled m madt i = true) (hk : maxPcpuEntries ≤ s.1.num) :
    madtRecord m madt s i = none := by
  rw [madtRecord, if_pos hen, if_neg (Nat.not_lt.2 hk)]

theorem madtRecord_enabled (hen : madtEnabled m madt i = true) (hk : s.1.num < maxPcpuEntries) :
    ∃ s', madtRecord m madt s i = some s' ∧ s'.1.num = s.1.num + 1 :=
  ⟨_, by rw [madtRecord, if_pos hen, if_pos hk], rfl⟩

theorem madtRecord_other (hen : ¬ madtEnabled m madt i = true) : madtRecord m madt s i = some s := by
  rw [madtRecord, if_neg hen]

theorem enabledCount_cons (hen : madtEnabled m madt i = true) :
    enabledCount m madt (i :: l) = enabledCount m madt l + 1 := by
  rw [enabledCount, List.filter_cons_of_pos hen, List.length_cons, enabledCount]

theorem enabledCount_cons_of_not (hen : ¬ madtEnabled m madt i = true) :
    enabledCount m madt (i :: l) = enabledCount m madt l := by
  rw [enabledCount, List.filter_cons_of_neg hen, enabledCount]

theorem enabledCount_split (i : Nat) (l : List Nat) :
    enabledCount m madt (i :: l) = enabledCount m madt [i] + enabledCount m madt l := by
  rw [enabledCount, ← List.singleton_append, List.filter_append, List.length_append, enabledCount, enabledCount]

theorem madtRecord_some (h : madtRecord m madt s i = some s') : s'.1.num = s.1.num + enabledCount m madt [i] ∧
    (madtEnabled m madt i = true → s.1.num < maxPcpuEntries) := by
  by_cases hen : madtEnabled m madt i = true
  · rw [enabledCount_cons hen]
    by_cases hk : s.1.num < maxPcpuEntries
    · obtain ⟨s'', hs'', hnum⟩ := madtRecord_enabled hen hk
      rw [hs''] at h
      cases h
      exact ⟨hnum, fun _ => hk⟩
    · rw [madtRecord_full hen (Nat.le_of_not_lt hk)] at h
      cases h
  · rw [madtRecord_other hen] at h
    cases h
    rw [enabledCount_cons_of_not hen]
    exact ⟨rfl, fun h => absurd h hen⟩

/-! ## Runs in the table are clean -/

theorem add32_self (hi : i < madtrecordlength m madt) : add32 i 0 = i :=
  add32_zero (Nat.lt_trans hi (Nat.mod_lt _ (by decide)))

/-- The records before a place that is clean. -/
theorem CleanFrom.cons (hi : i < madtrecordlength m madt) (hin : ApicIn m madt i)
    (hlen : 0 < apicLength m madt i) {k' : Nat} (hk : k' = k + enabledCount m madt [i])
    (h : CleanFrom m madt (add32 i (apicLength m madt i)) k') : CleanFrom m madt i k := by
  obtain ⟨l, o, hp, hl, hle, hend⟩ := h
  have hcount : k + enabledCount m madt (i :: l) = k' + enabledCount m madt l := by
    rw [enabledCount_split, hk, Nat.add_assoc]
  refine ⟨i :: l, o, .cons (apicNext_eq_some.2 ⟨hi, hlen, rfl⟩) hp,
    List.forall_mem_cons.2 ⟨hin, hl⟩, hcount ▸ hle, ?_⟩
  cases hend with
  | past ho _ => exact .past ho (List.cons_ne_nil _ _)
  | full ho hino hen hfull => exact .full ho hino hen (hcount.trans hfull)
  | empty ho hino hen hempty => exact .empty ho hino hen hempty

theorem num_le_of_some (h : madtRecord m madt s i = some s') (hk : s.1.num ≤ maxPcpuEntries) :
    s'.1.num ≤ maxPcpuEntries := by
  obtain ⟨hnum, hlt⟩ := madtRecord_some h
  rw [hnum]
  by_cases hen : madtEnabled m madt i = true
  · rw [enabledCount_cons hen]
    exact hlt hen
  · rw [enabledCount_cons_of_not hen]
    exact hk

/-- From an empty record on, only an enabled processor is clean. -/
theorem CleanFrom.enabled (h : CleanFrom m madt i k) (hlen : apicLength m madt i = 0)
    (hi : i < madtrecordlength m madt) : madtEnabled m madt i = true := by
  obtain ⟨l, o, hp, -, -, hend⟩ := h
  cases hp with
  | nil =>
    cases hend with
    | past ho _ => exact absurd hi (Nat.not_lt.2 ho)
    | full _ _ hen => exact hen
    | empty _ _ hen => exact hen
  | cons hnext => exact absurd hlen (Nat.ne_of_gt (apicNext_eq_some.1 hnext).2.1)

/-- **A run in the table** is on a clean one. -/
theorem MadtRun.clean (h : MadtRun m madt i s l r) (hin : ∀ j ∈ l, ApicIn m madt j)
    (hi : i < madtrecordlength m madt) (hk : s.1.num ≤ maxPcpuEntries) : CleanFrom m madt i s.1.num := by
  induction h with
  | @halt i s hb =>
    have hini := hin i (List.mem_cons_self ..)
    by_cases hen : madtEnabled m madt i = true
    · have hfull : s.1.num = maxPcpuEntries := by
        refine Nat.le_antisymm hk (Nat.le_of_not_lt fun hlt => ?_)
        obtain ⟨s', hs', -⟩ := madtRecord_enabled hen hlt
        rw [hs'] at hb
        cases hb
      exact ⟨[], i, .nil, List.forall_mem_nil _, hk, .full hi hini hen hfull⟩
    · rw [madtRecord_other hen] at hb
      cases hb
  | @last i s s' hb hlim =>
    have hlen : 0 < apicLength m madt i := by
      refine Nat.pos_of_ne_zero fun h0 => ?_
      rw [h0, add32_self hi] at hlim
      exact absurd hi (Nat.not_lt.2 hlim)
    refine ⟨[i], _, .cons (apicNext_eq_some.2 ⟨hi, hlen, rfl⟩) .nil, hin, ?_,
      .past hlim (List.cons_ne_nil _ _)⟩
    exact (madtRecord_some hb).1 ▸ num_le_of_some hb hk
  | @next i s s' l r hb hlim _ ih =>
    obtain ⟨hini, hinl⟩ := List.forall_mem_cons.1 hin
    have hclean := ih hinl hlim (num_le_of_some hb hk)
    by_cases hlen : apicLength m madt i = 0
    · -- the loop stays at an empty record
      have hnext : add32 i (apicLength m madt i) = i := by rw [hlen, add32_self hi]
      rw [hnext] at hclean
      exact ⟨[], i, .nil, List.forall_mem_nil _, hk, .empty hi hini (hclean.enabled hlen hi) hlen⟩
    · exact .cons hi hini (Nat.pos_of_ne_zero hlen) (madtRecord_some hb).1 hclean

/-! ## Clean tables have runs -/

theorem madtRecord_of_room (hk : s.1.num + enabledCount m madt [i] ≤ maxPcpuEntries) :
    ∃ s', madtRecord m madt s i = some s' ∧ s'.1.num = s.1.num + enabledCount m madt [i] := by
  by_cases hen : madtEnabled m madt i = true
  · rw [enabledCount_cons hen] at hk ⊢
    exact madtRecord_enabled hen (Nat.lt_of_lt_of_le (Nat.lt_add_of_pos_right (Nat.succ_pos _)) hk)
  · rw [enabledCount_cons_of_not hen]
    exact ⟨s, madtRecord_other hen, rfl⟩

/-- An empty record of an enabled processor is taken until `pcpus` is full. -/
theorem run_empty (hi : i < madtrecordlength m madt) (hin : ApicIn m madt i)
    (hen : madtEnabled m madt i = true) (hlen : apicLength m madt i = 0) (d : Nat) :
    ∀ s : Pcpus × Bool, s.1.num + d = maxPcpuEntries →
      ∃ l r, MadtRun m madt i s l r ∧ ∀ j ∈ l, ApicIn m madt j := by
  have hnext : add32 i (apicLength m madt i) = i := by rw [hlen, add32_self hi]
  induction d with
  | zero =>
    intro s hs
    exact ⟨[i], none, .halt (madtRecord_full hen (Nat.le_of_eq hs.symm)), by simpa using hin⟩
  | succ d ih =>
    intro s hs
    obtain ⟨s', hb, hnum⟩ := madtRecord_enabled hen (s := s) (by omega)
    obtain ⟨l, r, hrun, hl⟩ := ih s' (by omega)
    rw [← hnext] at hrun
    exact ⟨i :: l, r, .next hb (hnext.symm ▸ hi) hrun, List.forall_mem_cons.2 ⟨hin, hl⟩⟩

/-- **A clean table has a run inside.** -/
theorem CleanFrom.run (h : CleanFrom m madt i s.1.num) :
    ∃ l r, MadtRun m madt i s l r ∧ ∀ j ∈ l, ApicIn m madt j := by
  obtain ⟨l, o, hp, hl, hle, hend⟩ := h
  induction l generalizing i s with
  | nil =>
    obtain rfl := path_nil_iff.1 hp
    cases hend with
    | past _ hne => exact absurd rfl hne
    | full _ hin hen hfull =>
      exact ⟨[i], none, .halt (madtRecord_full hen (Nat.le_of_eq hfull.symm)), by simpa using hin⟩
    | empty hi hin hen hlen => exact run_empty hi hin hen hlen _ s (Nat.add_sub_of_le hle)
  | cons j l ih =>
    obtain ⟨rfl, i', hnext, hp⟩ := path_cons_iff.1 hp
    obtain ⟨hi, hlen, rfl⟩ := apicNext_eq_some.1 hnext
    obtain ⟨hin, hl⟩ := List.forall_mem_cons.1 hl
    have hroom : s.1.num + enabledCount m madt [j] ≤ maxPcpuEntries := by
      rw [enabledCount_split] at hle
      omega
    obtain ⟨s', hb, hnum⟩ := madtRecord_of_room hroom
    have hcount : s.1.num + enabledCount m madt (j :: l) = s'.1.num + enabledCount m madt l := by
      rw [enabledCount_split, hnum, Nat.add_assoc]
    by_cases hlim : add32 j (apicLength m madt j) < madtrecordlength m madt
    · have hend' : ScanEnd m madt s'.1.num l o := by
        cases hend with
        | past ho _ =>
          refine .past ho fun hnil => ?_
          rw [hnil] at hp
          exact absurd (path_nil_iff.1 hp ▸ hlim) (Nat.not_lt.2 ho)
        | full ho hino hen hfull => exact .full ho hino hen (hcount ▸ hfull)
        | empty ho hino hen hempty => exact .empty ho hino hen hempty
      obtain ⟨l', r, hrun, hl'⟩ := ih hp hl (hcount ▸ hle) hend'
      exact ⟨j :: l', r, .next hb hlim hrun, List.forall_mem_cons.2 ⟨hin, hl'⟩⟩
    · exact ⟨[j], some s', .last hb (Nat.le_of_not_lt hlim), by simpa using hin⟩

/-! ## The result -/

theorem pos_of_apicIn (h : ApicIn m madt i) : 0 < madtrecordlength m madt := by
  have hmem : add32 (apicrecord madt i) 0 + 0 ∈ apicReads madt i := by simp [apicReads, fieldAddrs]
  obtain ⟨hge, hlt⟩ := h _ hmem
  have hbound : field m madt 4 4 < 2 ^ 32 := readLE_lt m _ 4
  unfold madtrecordlength sub32
  unfold sizeofAcpiMadt at *
  omega

/-- **The scan of the MADT ends and stays in the table** exactly on clean tables. -/
theorem madtScanSafe_iff (m : Mem) (madt : Nat) (c : Pcpus) : MadtScanSafe m madt c ↔ MadtClean m madt := by
  rw [madtScanSafe_iff_run]
  constructor
  · rintro ⟨l, r, hrun, hin⟩
    have hin0 : ApicIn m madt 0 := by
      cases hrun with
      | halt | last | next => exact hin 0 (List.mem_cons_self ..)
    exact MadtRun.clean hrun hin (pos_of_apicIn hin0) (Nat.zero_le _)
  · intro h
    exact CleanFrom.run (s := ({ c with num := 0 }, false)) h

/-- An MADT with an enabled processor, and after it a record of 6 bytes for an NMI line. -/
def nmiLast : Mem :=
  putBytes (fun _ => 0) 0x1000 (leBytes 4 acpiMadtSignature ++ leBytes 4 58 ++ leBytes 28 0 ++
    leBytes 4 0xFEE00000 ++ leBytes 4 1 ++
    leBytes 1 0 ++ leBytes 1 8 ++ leBytes 2 0 ++ leBytes 4 1 ++
    leBytes 1 4 ++ leBytes 1 6 ++ leBytes 4 0x100FF)

/-- The flags of the last record are read beyond the table. -/
theorem madtScanSafe_not : ¬ MadtScanSafe nmiLast 0x1000 ⟨0, fun _ => ⟨0, 0, 0, 0⟩⟩ := by
  intro h
  have hvisit : 8 ∈ recordVisits (apicLength nmiLast 0x1000) (madtrecordlength nmiLast 0x1000)
      (madtRecord nmiLast 0x1000) 2 0 (⟨0, fun _ => ⟨0, 0, 0, 0⟩⟩, false) := by decide +kernel
  have hread : 0x103A ∈ apicReads 0x1000 8 := by decide +kernel
  have hlength : field nmiLast 0x1000 4 4 = 58 := by decide +kernel
  have hin := (h.reads 2 8 hvisit _ hread).2
  rw [hlength] at hin
  exact absurd hin (by decide)

end Xmhf.Boot
