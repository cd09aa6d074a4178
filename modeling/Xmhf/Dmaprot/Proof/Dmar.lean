import Xmhf.Dmaprot.Dmar
import Xmhf.Lib.Records

/-!
# What the DMAR scan does on any table

`ScanRun` is the loop over the structures without a bound on its rounds (`drhdLoop_iff`). A run does what
a scan should (`ExactFrom`) exactly on a table that is `Clean` (`ScanRun.exact_iff`): each structure met
before a ninth unit is not empty, its header is in the table, and a unit is in the table, fits in what is
left of `vtd_drhd`, and has at least the 16 bytes of its slot. Clean tables are the ones scanned to an end
(`Clean.run`).

The result is `dmarScan_exact_iff`; the flag `dmarfound` decides it where no table is a DMAR table.
-/

namespace Xmhf.Dmaprot

open Xmhf.Memory Xmhf.Word Xmhf.Bytes Xmhf.Records

variable {m drhd : Mem} {dmar rsdtaddress fuel fuel' i k x : Nat} {s s' : DrhdScan}
  {out : DmarOutcome} {locals : DmarLocals}

/-! ## Tables -/

/-- The address of the remapping structures of a table. -/
def remapping (dmar : Nat) : Nat := add32 dmar sizeofVtdDmar

/-- The size of the remapping structures of a table. -/
def dmarLimit (m : Mem) (dmar : Nat) : Nat := sub32 (dmarLength m dmar) sizeofVtdDmar

/-- A byte of the table. -/
def InTable (m : Mem) (dmar x : Nat) : Prop := dmar ≤ x ∧ x < dmar + dmarLength m dmar

/-- The offset after a structure that is not empty. -/
def dmarNext (m : Mem) (dmar i : Nat) : Option Nat :=
  if i < dmarLimit m dmar ∧ 0 < dmarLen m (remapping dmar) i then
    some (add32 i (dmarLen m (remapping dmar) i))
  else none

/-- The structure is a hardware unit. -/
def isDrhd (m : Mem) (dmar i : Nat) : Bool := decide (dmarType m (remapping dmar) i = 0)

/-- The units among the structures at the offsets `l`. -/
def drhds (m : Mem) (dmar : Nat) (l : List Nat) : List Nat := l.filter (isDrhd m dmar)

/-- The leading bytes of a structure that a slot of `vtd_drhd` has room for. -/
def leading (m : Mem) (dmar o : Nat) : Octets :=
  (flatCopy m (add32 (remapping dmar) o) (dmarLen m (remapping dmar) o)).take sizeofVtdDrhd

/-- The first table of the RSDT with the DMAR signature. -/
def dmarTable (m : Mem) (rsdtaddress : Nat) : Option Nat :=
  ((List.range (numRsdtentries m rsdtaddress)).map (rsdtEntry m rsdtaddress)).find?
    fun table => decide (dmarSignature m table = vtdDmarSignature)

/-! ## What a scan should do -/

/-- Nothing was read beyond the table, and nothing written outside `vtd_drhd`. -/
structure DrhdScan.Inside (s : DrhdScan) (m : Mem) (dmar : Nat) : Prop where
  reads : ∀ x ∈ s.reads, InTable m dmar x
  writes : ∀ y ∈ s.writes, y < sizeofVtdDrhd * vtdMaxDrhd

/-- The scan from offset `i` on, with `k` units before it: it stays inside, and it halts at a ninth unit, or
ends with the leading bytes of all units in their slots in table order. -/
def ExactFrom (m : Mem) (dmar i k : Nat) : DmarOutcome → Prop
  | .unsupported | .bail => False
  | .halt s => s.Inside m dmar ∧ ∃ l o, Path (dmarNext m dmar) i l o ∧ o < dmarLimit m dmar ∧
      isDrhd m dmar o = true ∧ k + (drhds m dmar l).length = vtdMaxDrhd
  | .scanned s => s.Inside m dmar ∧ ∃ l e, Path (dmarNext m dmar) i l e ∧ dmarLimit m dmar ≤ e ∧
      s.num = k + (drhds m dmar l).length ∧ ∀ j o, (drhds m dmar l)[j]? = some o →
        bytesAt s.drhd (sizeofVtdDrhd * (k + j)) sizeofVtdDrhd = leading m dmar o

/-- The scan returns, with 0 if no table of the RSDT is a DMAR table, and else it does what it should with
the first one. -/
def DmarExact (m : Mem) (rsdtaddress : Nat) (locals : DmarLocals) (drhd : Mem) : Prop :=
  ∃ N, ∀ fuel, N ≤ fuel → ∃ out, dmarScan m rsdtaddress locals drhd fuel = some out ∧
    match dmarTable m rsdtaddress with
    | none => out = .bail
    | some dmar => ExactFrom m dmar 0 0 out

/-! ## Clean tables -/

/-- The header of a structure is in the table. -/
def HeaderIn (m : Mem) (dmar i : Nat) : Prop := ∀ x ∈ headerAddrs (remapping dmar) i, InTable m dmar x

/-- All bytes of a structure are in the table. -/
def BodyIn (m : Mem) (dmar i : Nat) : Prop :=
  ∀ x ∈ flatAddrs (add32 (remapping dmar) i) (dmarLen m (remapping dmar) i), InTable m dmar x

/-- The structures from offset `i` on, with `k` units before, up to the end or (`ninth`) a ninth unit. -/
inductive Clean (m : Mem) (dmar : Nat) : Bool → Nat → Nat → Prop
  | done {i k : Nat} : dmarLimit m dmar ≤ i → Clean m dmar false i k
  | ninth {i : Nat} : i < dmarLimit m dmar → isDrhd m dmar i = true → HeaderIn m dmar i →
      Clean m dmar true i vtdMaxDrhd
  | unit {ninth : Bool} {i k : Nat} : i < dmarLimit m dmar → isDrhd m dmar i = true → k < vtdMaxDrhd →
      HeaderIn m dmar i → BodyIn m dmar i → 0 < dmarLen m (remapping dmar) i →
      sizeofVtdDrhd * k + dmarLen m (remapping dmar) i ≤ sizeofVtdDrhd * vtdMaxDrhd →
      (ninth = false → sizeofVtdDrhd ≤ dmarLen m (remapping dmar) i) →
      Clean m dmar ninth (add32 i (dmarLen m (remapping dmar) i)) (k + 1) → Clean m dmar ninth i k
  | other {ninth : Bool} {i k : Nat} : i < dmarLimit m dmar → isDrhd m dmar i = false → HeaderIn m dmar i →
      0 < dmarLen m (remapping dmar) i →
      Clean m dmar ninth (add32 i (dmarLen m (remapping dmar) i)) k → Clean m dmar ninth i k

/-! ## Runs -/

/-- The loop, for as long as it takes. -/
inductive ScanRun (m : Mem) (dmar : Nat) : DrhdScan → DmarOutcome → Prop
  | done {s : DrhdScan} : dmarLimit m dmar ≤ s.i → ScanRun m dmar s (.scanned s)
  | full {s : DrhdScan} : s.i < dmarLimit m dmar → isDrhd m dmar s.i = true → vtdMaxDrhd ≤ s.num →
      ScanRun m dmar s (.halt (s.header (remapping dmar)))
  | unit {s : DrhdScan} {out : DmarOutcome} : s.i < dmarLimit m dmar → isDrhd m dmar s.i = true → s.num < vtdMaxDrhd →
      ScanRun m dmar (s.unit m (remapping dmar)) out → ScanRun m dmar s out
  | skip {s : DrhdScan} {out : DmarOutcome} : s.i < dmarLimit m dmar → isDrhd m dmar s.i = false →
      ScanRun m dmar (s.skip m (remapping dmar)) out → ScanRun m dmar s out

theorem drhdLoop_mono (h : drhdLoop m (remapping dmar) (dmarLimit m dmar) fuel s = some out)
    (hle : fuel ≤ fuel') : drhdLoop m (remapping dmar) (dmarLimit m dmar) fuel' s = some out := by
  induction fuel generalizing s fuel' with
  | zero => cases h
  | succ fuel ih =>
    obtain ⟨fuel', rfl⟩ := Nat.exists_eq_add_one_of_ne_zero (Nat.ne_of_gt (Nat.zero_lt_of_lt hle))
    have hle' := Nat.le_of_succ_le_succ hle
    unfold drhdLoop at h ⊢
    split_ifs at h ⊢ with h1 h2 h3
    · exact ih h hle'
    · exact h
    · exact ih h hle'
    · exact h

/-- **The loop returns** what its run gives. -/
theorem drhdLoop_iff : (∃ fuel, drhdLoop m (remapping dmar) (dmarLimit m dmar) fuel s = some out) ↔
    ScanRun m dmar s out := by
  constructor
  · rintro ⟨fuel, h⟩
    induction fuel generalizing s with
    | zero => cases h
    | succ fuel ih =>
      unfold drhdLoop at h
      split_ifs at h with h1 h2 h3
      · exact .unit h1 (decide_eq_true h2) h3 (ih h)
      · cases h
        exact .full h1 (decide_eq_true h2) (Nat.le_of_not_lt h3)
      · exact .skip h1 (decide_eq_false h2) (ih h)
      · cases h
        exact .done (Nat.le_of_not_lt h1)
  · intro h
    induction h with
    | done hi => exact ⟨1, by rw [drhdLoop, if_neg (Nat.not_lt.2 hi)]⟩
    | full hi ht hn =>
      exact ⟨1, by rw [drhdLoop, if_pos hi, if_pos (of_decide_eq_true ht), if_neg (Nat.not_lt.2 hn)]⟩
    | unit hi ht hn _ ih =>
      obtain ⟨fuel, h⟩ := ih
      exact ⟨fuel + 1, by rw [drhdLoop, if_pos hi, if_pos (of_decide_eq_true ht), if_pos hn, h]⟩
    | skip hi ht _ ih =>
      obtain ⟨fuel, h⟩ := ih
      exact ⟨fuel + 1, by rw [drhdLoop, if_pos hi, if_neg (of_decide_eq_false ht), h]⟩

/-! ## Staying inside -/

/-- The accesses of the scan so far. -/
def DmarOutcome.Inside (m : Mem) (dmar : Nat) : DmarOutcome → Prop
  | .unsupported | .bail => False
  | .halt s => s.Inside m dmar
  | .scanned s => s.Inside m dmar

theorem ExactFrom.inside (h : ExactFrom m dmar i k out) : out.Inside m dmar := by
  cases out with
  | unsupported | bail => exact h
  | halt => exact h.1
  | scanned => exact h.1

theorem inside_header : (s.header (remapping dmar)).Inside m dmar ↔
    s.Inside m dmar ∧ HeaderIn m dmar s.i := by
  constructor
  · rintro ⟨hr, hw⟩
    exact ⟨⟨fun x hx => hr x (List.mem_append_left _ hx), hw⟩,
      fun x hx => hr x (List.mem_append_right _ hx)⟩
  · rintro ⟨⟨hr, hw⟩, hh⟩
    refine ⟨fun x hx => ?_, hw⟩
    rcases List.mem_append.1 hx with hx | hx
    · exact hr x hx
    · exact hh x hx

theorem inside_skip : (s.skip m (remapping dmar)).Inside m dmar ↔
    s.Inside m dmar ∧ HeaderIn m dmar s.i := by
  rw [← inside_header]
  exact ⟨fun ⟨hr, hw⟩ => ⟨hr, hw⟩, fun ⟨hr, hw⟩ => ⟨hr, hw⟩⟩

theorem inside_unit (hn : s.num < vtdMaxDrhd) : (s.unit m (remapping dmar)).Inside m dmar ↔
    s.Inside m dmar ∧ HeaderIn m dmar s.i ∧ BodyIn m dmar s.i ∧
      sizeofVtdDrhd * s.num + dmarLen m (remapping dmar) s.i ≤ sizeofVtdDrhd * vtdMaxDrhd := by
  constructor
  · rintro ⟨hr, hw⟩
    obtain ⟨hs, hh⟩ := inside_header.1 (⟨fun x hx => hr x (List.mem_append_left _ hx),
      fun y hy => hw y (List.mem_append_left _ hy)⟩ : (s.header (remapping dmar)).Inside m dmar)
    refine ⟨hs, hh, fun x hx => hr x (List.mem_append_right _ hx), ?_⟩
    by_contra hlt
    unfold sizeofVtdDrhd vtdMaxDrhd at *
    have hlast : 16 * 8 - 16 * s.num < dmarLen m (remapping dmar) s.i := by omega
    have hin := hw _ (List.mem_append_right _ (List.mem_map.2 ⟨_, List.mem_range.2 hlast, rfl⟩))
    unfold sizeofVtdDrhd at hin
    omega
  · rintro ⟨hs, hh, hb, hfit⟩
    obtain ⟨hr, hw⟩ := inside_header.2 ⟨hs, hh⟩
    refine ⟨fun x hx => ?_, fun y hy => ?_⟩
    · rcases List.mem_append.1 hx with hx | hx
      · exact hr x hx
      · exact hb x hx
    · rcases List.mem_append.1 hy with hy | hy
      · exact hw y hy
      · obtain ⟨j, hj, rfl⟩ := List.mem_map.1 hy
        have := List.mem_range.1 hj
        omega

/-- A run that ends inside has been inside all along. -/
theorem ScanRun.inside (h : ScanRun m dmar s out) (ho : out.Inside m dmar) : s.Inside m dmar := by
  induction h with
  | done => exact ho
  | full => exact (inside_header.1 ho).1
  | unit _ _ hn _ ih => exact ((inside_unit hn).1 (ih ho)).1
  | skip _ _ _ ih => exact (inside_skip.1 (ih ho)).1

/-! ## Slots -/

theorem ScanRun.drhd_eq (h : ScanRun m dmar s (.scanned s')) (hx : x < sizeofVtdDrhd * s.num) :
    s'.drhd x = s.drhd x := by
  generalize hout : DmarOutcome.scanned s' = out at h
  induction h with
  | done => cases hout; rfl
  | full => cases hout
  | @unit s out _ _ _ _ ih =>
    rw [ih (Nat.lt_of_lt_of_le hx (Nat.mul_le_mul_left _ (Nat.le_succ s.num))) hout]
    exact if_pos hx
  | skip _ _ _ ih => exact ih hx hout

theorem length_flatCopy (src size : Nat) : (flatCopy m src size).length = size := by
  simp [flatCopy, flatAddrs]

/-- After the copy of a unit of at least a slot's size, the slot holds its leading bytes. -/
theorem ScanRun.slot (h : ScanRun m dmar (s.unit m (remapping dmar)) (.scanned s'))
    (hlen : sizeofVtdDrhd ≤ dmarLen m (remapping dmar) s.i) :
    bytesAt s'.drhd (sizeofVtdDrhd * s.num) sizeofVtdDrhd = leading m dmar s.i := by
  have hcopy : bytesAt s'.drhd (sizeofVtdDrhd * s.num) sizeofVtdDrhd =
      bytesAt (s.unit m (remapping dmar)).drhd (sizeofVtdDrhd * s.num) sizeofVtdDrhd := by
    refine List.map_congr_left fun j hj => h.drhd_eq ?_
    have := List.mem_range.1 hj
    rw [DrhdScan.unit, Nat.mul_succ]
    omega
  have htake : sizeofVtdDrhd = (leading m dmar s.i).length := by
    rw [leading, List.length_take, length_flatCopy, Nat.min_eq_left hlen]
  have hsplit : flatCopy m (add32 (remapping dmar) s.i) (dmarLen m (remapping dmar) s.i) =
      [] ++ leading m dmar s.i ++
        (flatCopy m (add32 (remapping dmar) s.i) (dmarLen m (remapping dmar) s.i)).drop sizeofVtdDrhd := by
    rw [List.nil_append, leading, List.take_append_drop]
  have hpart := bytesAt_putBytes_part s.drhd (sizeofVtdDrhd * s.num) [] (leading m dmar s.i)
    ((flatCopy m (add32 (remapping dmar) s.i) (dmarLen m (remapping dmar) s.i)).drop sizeofVtdDrhd)
  rw [← hsplit, ← htake, List.length_nil, Nat.add_zero] at hpart
  rw [hcopy, DrhdScan.unit, hpart]

/-! ## Runs and clean tables -/

/-- The run ends at a ninth unit. -/
def DmarOutcome.isHalt : DmarOutcome → Bool
  | .halt _ => true
  | _ => false

/-- **A clean table is scanned to an end.** -/
theorem Clean.run {ninth : Bool} (h : Clean m dmar ninth i k) :
    ∀ s : DrhdScan, s.i = i → s.num = k → ∃ out, ScanRun m dmar s out ∧ out.isHalt = ninth := by
  induction h with
  | done hi =>
    rintro s rfl rfl
    exact ⟨_, .done hi, rfl⟩
  | ninth hi ht _ =>
    rintro s rfl hn
    exact ⟨_, .full hi ht (Nat.le_of_eq hn.symm), rfl⟩
  | unit hi ht hk _ _ _ _ _ _ ih =>
    rintro s rfl rfl
    obtain ⟨out, hrun, hhalt⟩ := ih (s.unit m (remapping dmar)) rfl rfl
    exact ⟨out, .unit hi ht hk hrun, hhalt⟩
  | other hi ht _ _ _ ih =>
    rintro s rfl rfl
    obtain ⟨out, hrun, hhalt⟩ := ih (s.skip m (remapping dmar)) rfl rfl
    exact ⟨out, .skip hi ht hrun, hhalt⟩

theorem dmarNext_eq_some {j : Nat} : dmarNext m dmar i = some j ↔ i < dmarLimit m dmar ∧
    0 < dmarLen m (remapping dmar) i ∧ j = add32 i (dmarLen m (remapping dmar) i) :=
  ite_and_eq_some

section
variable {ninth : Bool} {l : List Nat}

theorem drhds_unit (ht : isDrhd m dmar i = true) : drhds m dmar (i :: l) = i :: drhds m dmar l :=
  List.filter_cons_of_pos ht

theorem drhds_other (ht : isDrhd m dmar i = false) : drhds m dmar (i :: l) = drhds m dmar l :=
  List.filter_cons_of_neg (by rw [ht]; exact Bool.false_ne_true)

theorem exactFrom_other (hi : i < dmarLimit m dmar) (ht : isDrhd m dmar i = false) :
    ExactFrom m dmar i k out ↔ 0 < dmarLen m (remapping dmar) i ∧
      ExactFrom m dmar (add32 i (dmarLen m (remapping dmar) i)) k out := by
  constructor
  · intro h
    cases out with
    | unsupported | bail => exact h.elim
    | halt s =>
      obtain ⟨hin, l, o, hp, ho, hto, hk⟩ := h
      cases hp with
      | nil => rw [ht] at hto; cases hto
      | cons hnext hp =>
        obtain ⟨-, hpos, rfl⟩ := dmarNext_eq_some.1 hnext
        rw [drhds_other ht] at hk
        exact ⟨hpos, hin, _, o, hp, ho, hto, hk⟩
    | scanned s =>
      obtain ⟨hin, l, e, hp, he, hnum, hslots⟩ := h
      cases hp with
      | nil => exact absurd hi (Nat.not_lt.2 he)
      | cons hnext hp =>
        obtain ⟨-, hpos, rfl⟩ := dmarNext_eq_some.1 hnext
        rw [drhds_other ht] at hnum hslots
        exact ⟨hpos, hin, _, e, hp, he, hnum, hslots⟩
  · rintro ⟨hpos, h⟩
    have hnext := dmarNext_eq_some.2 ⟨hi, hpos, rfl⟩
    cases out with
    | unsupported | bail => exact h.elim
    | halt s =>
      obtain ⟨hin, l, o, hp, ho, hto, hk⟩ := h
      exact ⟨hin, i :: l, o, .cons hnext hp, ho, hto, by rw [drhds_other ht]; exact hk⟩
    | scanned s =>
      obtain ⟨hin, l, e, hp, he, hnum, hslots⟩ := h
      refine ⟨hin, i :: l, e, .cons hnext hp, he, ?_⟩
      rw [drhds_other ht]
      exact ⟨hnum, hslots⟩

theorem exactFrom_unit (hi : i < dmarLimit m dmar) (ht : isDrhd m dmar i = true) (hk : k < vtdMaxDrhd) :
    ExactFrom m dmar i k out ↔ 0 < dmarLen m (remapping dmar) i ∧
      ExactFrom m dmar (add32 i (dmarLen m (remapping dmar) i)) (k + 1) out ∧
      ∀ s, out = .scanned s → bytesAt s.drhd (sizeofVtdDrhd * k) sizeofVtdDrhd = leading m dmar i := by
  constructor
  · intro h
    cases out with
    | unsupported | bail => exact h.elim
    | halt s =>
      obtain ⟨hin, l, o, hp, ho, hto, hlen⟩ := h
      cases hp with
      | nil => exact absurd hlen (Nat.ne_of_lt hk)
      | cons hnext hp =>
        obtain ⟨-, hpos, rfl⟩ := dmarNext_eq_some.1 hnext
        rw [drhds_unit ht, List.length_cons] at hlen
        exact ⟨hpos, ⟨hin, _, o, hp, ho, hto, by omega⟩, fun s h => by cases h⟩
    | scanned s =>
      obtain ⟨hin, l, e, hp, he, hnum, hslots⟩ := h
      cases hp with
      | nil => exact absurd hi (Nat.not_lt.2 he)
      | cons hnext hp =>
        obtain ⟨-, hpos, rfl⟩ := dmarNext_eq_some.1 hnext
        rw [drhds_unit ht] at hnum hslots
        rw [List.length_cons] at hnum
        refine ⟨hpos, ⟨hin, _, e, hp, he, by omega, fun j o hj => ?_⟩, fun s' h => ?_⟩
        · rw [Nat.add_right_comm]
          exact hslots (j + 1) o hj
        · cases h
          exact hslots 0 i rfl
  · rintro ⟨hpos, h, hslot⟩
    have hnext := dmarNext_eq_some.2 ⟨hi, hpos, rfl⟩
    cases out with
    | unsupported | bail => exact h.elim
    | halt s =>
      obtain ⟨hin, l, o, hp, ho, hto, hlen⟩ := h
      refine ⟨hin, i :: l, o, .cons hnext hp, ho, hto, ?_⟩
      rw [drhds_unit ht, List.length_cons]
      omega
    | scanned s =>
      obtain ⟨hin, l, e, hp, he, hnum, hslots⟩ := h
      refine ⟨hin, i :: l, e, .cons hnext hp, he, ?_⟩
      rw [drhds_unit ht, List.length_cons]
      refine ⟨by omega, fun j o hj => ?_⟩
      cases j with
      | zero =>
        cases hj
        exact hslot s rfl
      | succ j =>
        rw [Nat.add_comm j 1, ← Nat.add_assoc]
        exact hslots j o hj

theorem clean_full (hi : i < dmarLimit m dmar) (ht : isDrhd m dmar i = true) :
    Clean m dmar ninth i vtdMaxDrhd ↔ ninth = true ∧ HeaderIn m dmar i := by
  constructor
  · intro h
    cases h with
    | done he => exact absurd hi (Nat.not_lt.2 he)
    | ninth _ _ hh => exact ⟨rfl, hh⟩
    | unit _ _ hk => exact absurd hk (Nat.lt_irrefl _)
    | other _ ht' => rw [ht] at ht'; cases ht'
  · rintro ⟨rfl, hh⟩
    exact .ninth hi ht hh

theorem clean_unit (hi : i < dmarLimit m dmar) (ht : isDrhd m dmar i = true) (hk : k < vtdMaxDrhd) :
    Clean m dmar ninth i k ↔ (HeaderIn m dmar i ∧ BodyIn m dmar i ∧
      sizeofVtdDrhd * k + dmarLen m (remapping dmar) i ≤ sizeofVtdDrhd * vtdMaxDrhd) ∧
      0 < dmarLen m (remapping dmar) i ∧
      (ninth = false → sizeofVtdDrhd ≤ dmarLen m (remapping dmar) i) ∧
      Clean m dmar ninth (add32 i (dmarLen m (remapping dmar) i)) (k + 1) := by
  constructor
  · intro h
    cases h with
    | done he => exact absurd hi (Nat.not_lt.2 he)
    | ninth => exact absurd hk (Nat.lt_irrefl _)
    | unit _ _ _ hh hb hpos hfit hlen hc => exact ⟨⟨hh, hb, hfit⟩, hpos, hlen, hc⟩
    | other _ ht' => rw [ht] at ht'; cases ht'
  · rintro ⟨⟨hh, hb, hfit⟩, hpos, hlen, hc⟩
    exact .unit hi ht hk hh hb hpos hfit hlen hc

theorem clean_other (hi : i < dmarLimit m dmar) (ht : isDrhd m dmar i = false) :
    Clean m dmar ninth i k ↔ HeaderIn m dmar i ∧ 0 < dmarLen m (remapping dmar) i ∧
      Clean m dmar ninth (add32 i (dmarLen m (remapping dmar) i)) k := by
  constructor
  · intro h
    cases h with
    | done he => exact absurd hi (Nat.not_lt.2 he)
    | ninth _ ht' => rw [ht] at ht'; cases ht'
    | unit _ ht' => rw [ht] at ht'; cases ht'
    | other _ _ hh hpos hc => exact ⟨hh, hpos, hc⟩
  · rintro ⟨hh, hpos, hc⟩
    exact .other hi ht hh hpos hc

end

/-- A slot that holds the leading bytes of a unit: the unit is at least as long. -/
theorem le_dmarLen_of_slot {a : Nat} (h : bytesAt drhd a sizeofVtdDrhd = leading m dmar i) :
    sizeofVtdDrhd ≤ dmarLen m (remapping dmar) i := by
  have hlen := congrArg List.length h
  rw [length_bytesAt, leading, List.length_take, length_flatCopy] at hlen
  omega

/-- **Runs and tables agree**: a run does what it should exactly from a clean place on. -/
theorem ScanRun.exact_iff (h : ScanRun m dmar s out) (hs : s.Inside m dmar) (hn : s.num ≤ vtdMaxDrhd) :
    ExactFrom m dmar s.i s.num out ↔ Clean m dmar out.isHalt s.i s.num := by
  induction h with
  | @done s hi =>
    refine ⟨fun _ => .done hi, fun _ => ⟨hs, [], s.i, .nil, hi, rfl, fun j o h => ?_⟩⟩
    simp [drhds] at h
  | @full s hi ht hn' =>
    rw [Nat.le_antisymm hn hn', clean_full hi ht]
    constructor
    · intro h
      exact ⟨rfl, (inside_header.1 h.1).2⟩
    · rintro ⟨-, hh⟩
      exact ⟨inside_header.2 ⟨hs, hh⟩, [], s.i, .nil, hi, ht, rfl⟩
  | @unit s out hi ht hn' hrun ih =>
    rw [exactFrom_unit hi ht hn', clean_unit hi ht hn']
    constructor
    · rintro ⟨hpos, hex, hslot⟩
      have hin := hrun.inside hex.inside
      refine ⟨((inside_unit hn').1 hin).2, hpos, fun hninth => ?_, (ih hin hn').1 hex⟩
      cases out with
      | unsupported | bail => exact hex.elim
      | halt => cases hninth
      | scanned s' => exact le_dmarLen_of_slot (hslot s' rfl)
    · rintro ⟨hacc, hpos, hlen, hc⟩
      refine ⟨hpos, (ih ((inside_unit hn').2 ⟨hs, hacc⟩) hn').2 hc, ?_⟩
      rintro s' rfl
      exact hrun.slot (hlen rfl)
  | @skip s out hi ht hrun ih =>
    rw [exactFrom_other hi ht, clean_other hi ht]
    constructor
    · rintro ⟨hpos, hex⟩
      have hin := hrun.inside hex.inside
      exact ⟨(inside_skip.1 hin).2, hpos, (ih hin hn).1 hex⟩
    · rintro ⟨hh, hpos, hc⟩
      exact ⟨hpos, (ih (inside_skip.2 ⟨hs, hh⟩) hn).2 hc⟩

/-! ## Looking for the table -/

/-- The first DMAR table among the entries from `i` on. -/
def dmarAmong (m : Mem) (rsdtaddress i n : Nat) : Option Nat :=
  ((List.range' i n).map (rsdtEntry m rsdtaddress)).find?
    fun table => decide (dmarSignature m table = vtdDmarSignature)

theorem dmarTable_eq : dmarTable m rsdtaddress =
    dmarAmong m rsdtaddress 0 (numRsdtentries m rsdtaddress) := by
  rw [dmarTable, dmarAmong, List.range_eq_range']

/-- Without a DMAR table, the flag is left as it was. -/
theorem findDmar_none {n : Nat} (h : dmarAmong m rsdtaddress i n = none) (g len : Nat) :
    ∃ len', findDmar m rsdtaddress n i (g, len) = (i + n, g, len') := by
  induction n generalizing i len with
  | zero => exact ⟨len, rfl⟩
  | succ n ih =>
    simp only [dmarAmong, List.range'_succ, List.map_cons, List.find?_cons] at h
    by_cases hsig : dmarSignature m (rsdtEntry m rsdtaddress i) = vtdDmarSignature
    · simp [hsig] at h
    · simp only [hsig, decide_false] at h
      obtain ⟨len', hrun⟩ := ih h (dmarLength m (rsdtEntry m rsdtaddress i))
      refine ⟨len', ?_⟩
      rw [findDmar, if_neg hsig, hrun]
      congr 1
      omega

theorem findDmar_some {n : Nat} (h : dmarAmong m rsdtaddress i n = some dmar) (g len : Nat) :
    ∃ k, k < i + n ∧ rsdtEntry m rsdtaddress k = dmar ∧
      findDmar m rsdtaddress n i (g, len) = (k, 1, dmarLength m dmar) := by
  induction n generalizing i len with
  | zero => cases h
  | succ n ih =>
    simp only [dmarAmong, List.range'_succ, List.map_cons, List.find?_cons] at h
    by_cases hsig : dmarSignature m (rsdtEntry m rsdtaddress i) = vtdDmarSignature
    · simp only [hsig, decide_true, Option.some.injEq] at h
      subst h
      exact ⟨i, by omega, rfl, by rw [findDmar, if_pos hsig]⟩
    · simp only [hsig, decide_false] at h
      obtain ⟨k, hk, hentry, hrun⟩ := ih h (dmarLength m (rsdtEntry m rsdtaddress i))
      exact ⟨k, by omega, hentry, by rw [findDmar, if_neg hsig, hrun]⟩

theorem dmarScan_none (hsup : numRsdtentries m rsdtaddress < acpiMaxRsdtEntries)
    (h : dmarTable m rsdtaddress = none) (hfound : locals.dmarfound = 0) :
    dmarScan m rsdtaddress locals drhd fuel = some .bail := by
  rw [dmarTable_eq] at h
  obtain ⟨len, hrun⟩ := findDmar_none h locals.dmarfound locals.dmarLength
  rw [dmarScan, if_pos hsup, hrun, dmarScanFound]
  exact if_pos hfound

theorem drhdLoop_ne_bail {rem limit : Nat} : drhdLoop m rem limit fuel s ≠ some .bail := by
  induction fuel generalizing s with
  | zero => simp [drhdLoop]
  | succ fuel ih =>
    unfold drhdLoop
    split_ifs
    · exact ih
    · simp
    · exact ih
    · simp

theorem dmarScan_none_ne (hsup : numRsdtentries m rsdtaddress < acpiMaxRsdtEntries)
    (h : dmarTable m rsdtaddress = none) (hfound : locals.dmarfound ≠ 0) :
    dmarScan m rsdtaddress locals drhd fuel ≠ some .bail := by
  rw [dmarTable_eq] at h
  obtain ⟨len, hrun⟩ := findDmar_none h locals.dmarfound locals.dmarLength
  rw [dmarScan, if_pos hsup, hrun, dmarScanFound, if_neg (show ¬ _ from hfound)]
  exact drhdLoop_ne_bail

theorem dmarScan_some (hsup : numRsdtentries m rsdtaddress < acpiMaxRsdtEntries)
    (h : dmarTable m rsdtaddress = some dmar) :
    dmarScan m rsdtaddress locals drhd fuel =
      drhdLoop m (remapping dmar) (dmarLimit m dmar) fuel (scanFrom dmar drhd) := by
  rw [dmarTable_eq] at h
  obtain ⟨k, hk, hentry, hrun⟩ := findDmar_some h locals.dmarfound locals.dmarLength
  rw [Nat.zero_add] at hk
  rw [dmarScan, if_pos hsup, hrun, dmarScanFound, if_neg (show ¬ (1 = 0) from Nat.one_ne_zero)]
  simp only
  rw [if_pos hk, hentry, remapping, dmarLimit]

/-! ## The scan -/

/-- The header of the table is in the table, and its structures are clean from the first on. -/
structure CleanTable (m : Mem) (dmar : Nat) : Prop where
  header : ∀ x ∈ flatAddrs dmar sizeofVtdDmar, InTable m dmar x
  clean : ∃ ninth, Clean m dmar ninth 0 0

theorem scanFrom_inside_iff : (scanFrom dmar drhd).Inside m dmar ↔
    ∀ x ∈ flatAddrs dmar sizeofVtdDmar, InTable m dmar x := by
  constructor
  · intro h
    exact h.reads
  · intro h
    exact ⟨h, List.forall_mem_nil _⟩

/-- On a DMAR table, the scan does what it should exactly if the table is clean. -/
theorem scan_exact_iff : (∃ N, ∀ fuel, N ≤ fuel → ∃ out,
    drhdLoop m (remapping dmar) (dmarLimit m dmar) fuel (scanFrom dmar drhd) = some out ∧
      ExactFrom m dmar 0 0 out) ↔ CleanTable m dmar := by
  have hi : (scanFrom dmar drhd).i = 0 := rfl
  have hnum : (scanFrom dmar drhd).num = 0 := rfl
  generalize hs : scanFrom dmar drhd = s at *
  have hinside : s.Inside m dmar ↔ ∀ x ∈ flatAddrs dmar sizeofVtdDmar, InTable m dmar x := by
    rw [← hs]
    exact scanFrom_inside_iff
  have hiff {out : DmarOutcome} (hrun : ScanRun m dmar s out) (hin : s.Inside m dmar) :
      ExactFrom m dmar 0 0 out ↔ Clean m dmar out.isHalt 0 0 := by
    have h := hrun.exact_iff hin (hnum.symm ▸ Nat.zero_le _)
    rwa [hi, hnum] at h
  constructor
  · rintro ⟨N, h⟩
    obtain ⟨out, hloop, hex⟩ := h N (Nat.le_refl N)
    have hrun := drhdLoop_iff.1 ⟨N, hloop⟩
    have hin := hrun.inside hex.inside
    exact ⟨hinside.1 hin, _, (hiff hrun hin).1 hex⟩
  · rintro ⟨hheader, ninth, hclean⟩
    have hin := hinside.2 hheader
    obtain ⟨out, hrun, hhalt⟩ := hclean.run s hi hnum
    obtain ⟨fuel, hloop⟩ := drhdLoop_iff.2 hrun
    refine ⟨fuel, fun fuel' hle => ⟨out, drhdLoop_mono hloop hle, (hiff hrun hin).2 ?_⟩⟩
    rw [hhalt]
    exact hclean

theorem dmarScan_unsupported (hsup : ¬ numRsdtentries m rsdtaddress < acpiMaxRsdtEntries) :
    dmarScan m rsdtaddress locals drhd fuel = some .unsupported := by
  rw [dmarScan, if_neg hsup]

/-- **The DMAR scan is exact** just when the RSDT has no more entries than the code supports, and either no
table is a DMAR table and the flag happens to be 0, or the first DMAR table is clean. -/
theorem dmarScan_exact_iff (m : Mem) (rsdtaddress : Nat) (locals : DmarLocals) (drhd : Mem) :
    DmarExact m rsdtaddress locals drhd ↔ numRsdtentries m rsdtaddress < acpiMaxRsdtEntries ∧
      match dmarTable m rsdtaddress with
      | none => locals.dmarfound = 0
      | some dmar => CleanTable m dmar := by
  by_cases hsup : numRsdtentries m rsdtaddress < acpiMaxRsdtEntries
  · rw [and_iff_right hsup]
    cases h : dmarTable m rsdtaddress with
    | none =>
      rw [DmarExact, h]
      constructor
      · rintro ⟨N, hrun⟩
        obtain ⟨out, hscan, rfl⟩ := hrun N (Nat.le_refl N)
        by_contra hfound
        exact dmarScan_none_ne hsup h hfound hscan
      · intro hfound
        exact ⟨0, fun fuel _ => ⟨.bail, dmarScan_none hsup h hfound, rfl⟩⟩
    | some dmar =>
      have hscan : ∀ fuel, dmarScan m rsdtaddress locals drhd fuel =
          drhdLoop m (remapping dmar) (dmarLimit m dmar) fuel (scanFrom dmar drhd) :=
        fun fuel => dmarScan_some hsup h
      rw [DmarExact, h]
      exact Iff.trans (exists_congr fun N => forall_congr' fun fuel => by rw [hscan fuel]) scan_exact_iff
  · refine ⟨?_, fun h => absurd h.1 hsup⟩
    rintro ⟨N, hrun⟩
    obtain ⟨out, hscan, hout⟩ := hrun N (Nat.le_refl N)
    rw [dmarScan_unsupported hsup] at hscan
    obtain rfl := Option.some.inj hscan
    cases h : dmarTable m rsdtaddress with
    | none => rw [h] at hout; cases hout
    | some dmar => rw [h] at hout; exact hout.elim

/-- A hardware unit of 24 bytes: its own 16, and one device scope. -/
def scopedUnit : Octets := leBytes 2 0 ++ leBytes 2 24 ++ leBytes 20 0

/-- An RSDT with one entry, and a DMAR table with eight hardware units. -/
def scopedUnits : Mem :=
  putBytes (putBytes (fun _ => 0) 0x1000 (leBytes 4 0 ++ leBytes 4 40 ++ leBytes 28 0 ++ leBytes 4 0x2000))
    0x2000 (leBytes 4 vtdDmarSignature ++ leBytes 4 240 ++ leBytes 40 0 ++
      (List.replicate 8 scopedUnit).flatten)

/-- The scan ended with a write beyond `vtd_drhd`. -/
def DmarOutcome.beyond : DmarOutcome → Bool
  | .scanned s => s.writes.any fun y => decide (sizeofVtdDrhd * vtdMaxDrhd ≤ y)
  | _ => false

theorem not_exactFrom_of_beyond (h : out.beyond = true) : ¬ ExactFrom m dmar i k out := by
  intro hex
  cases out with
  | unsupported | bail | halt => cases h
  | scanned s =>
    obtain ⟨y, hy, hle⟩ := List.any_eq_true.1 h
    exact absurd (hex.1.writes y hy) (Nat.not_lt.2 (of_decide_eq_true hle))

/-- Eight units with a device scope each: the last one is copied beyond `vtd_drhd`. -/
theorem dmarExact_not : ¬ DmarExact scopedUnits 0x1000 ⟨0, fun _ => 0, 0⟩ fun _ => 0 := by
  rintro ⟨N, hrun⟩
  have hsup : numRsdtentries scopedUnits 0x1000 < acpiMaxRsdtEntries := by decide +kernel
  have htable : dmarTable scopedUnits 0x1000 = some 0x2000 := by decide +kernel
  have hbeyond : (drhdLoop scopedUnits (remapping 0x2000) (dmarLimit scopedUnits 0x2000) 9
      (scanFrom 0x2000 fun _ => 0)).any DmarOutcome.beyond = true := by decide +kernel
  obtain ⟨out, hloop, hout⟩ := (Option.any_eq_true _ _).1 hbeyond
  obtain ⟨out', hscan, hex⟩ := hrun (max N 9) (Nat.le_max_left N 9)
  rw [dmarScan_some hsup htable, drhdLoop_mono hloop (Nat.le_max_right N 9)] at hscan
  obtain rfl := Option.some.inj hscan
  rw [htable] at hex
  exact not_exactFrom_of_beyond hout hex

end Xmhf.Dmaprot
