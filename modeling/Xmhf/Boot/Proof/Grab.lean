import Xmhf.Boot.Proof.E820

/-!
# Where the memory map is copied to

The copy of the multiboot memory map has no bound but the map's own end: it ends, and stays in
`grube820list`, just when the map has at most `MAX_E820_ENTRIES` entries (`MapEntries`), where each entry is
reached from the one before by its size, which may wrap. Then the revision stays in `te820`
(`te820Writes_lt`). The result is `mapCopyBounded_iff`.
-/

namespace Xmhf.Boot

open Xmhf.Memory Xmhf.Word

variable {m : Mem} {stop mmap n fuel : Nat} {list : List GrubE820}

/-- The address of the next entry of the map. -/
def mmapNext (m : Mem) (mmap : Nat) : Nat := add32 mmap (add32 (load32 m mmap).toNat 4)

/-- From `mmap` on, the map has `n` entries. -/
inductive MapEntries (m : Mem) (stop : Nat) : Nat → Nat → Prop
  | nil {mmap : Nat} : stop ≤ mmap → MapEntries m stop mmap 0
  | cons {mmap n : Nat} : mmap < stop → MapEntries m stop (mmapNext m mmap) n → MapEntries m stop mmap (n + 1)

/-- Where the map ends. -/
def MultibootInfo.mapEnd (mbi : MultibootInfo) : Nat := (mbi.mmapAddr + mbi.mmapLength).toNat

/-- The copy ends, and neither it nor the revision writes beyond an array. -/
structure CopyBounded (m : Mem) (mbi : MultibootInfo) (runtimesize : BitVec 32) : Prop where
  ends : ∃ fuel, (grabE820 m mbi.mapEnd fuel mbi.mmapAddr.toNat).isSome
  grabbed : ∀ fuel, ∀ i ∈ grabWrites m mbi.mapEnd fuel mbi.mmapAddr.toNat 0, i < maxE820Entries
  revised : ∀ fuel list, grabE820 m mbi.mapEnd fuel mbi.mmapAddr.toNat = some list →
    ∀ i ∈ te820Writes targetBaseSL runtimesize list, i < maxE820Entries

/-- Once `dealwithE820` has a map to copy. -/
def MapCopyBounded (m : Mem) (mbi : MultibootInfo) (runtimesize : BitVec 32) : Prop :=
  mbi.flags &&& mbiMemmap ≠ 0 → CopyBounded m mbi runtimesize

/-! ## The copy -/

theorem grabE820_succ (h : mmap < stop) : grabE820 m stop (fuel + 1) mmap =
    (grabE820 m stop fuel (mmapNext m mmap)).map fun rest =>
      ⟨load32 m (add32 mmap 4), load32 m (add32 mmap 8), load32 m (add32 mmap 12),
        load32 m (add32 mmap 16), load32 m (add32 mmap 20)⟩ :: rest := by
  simp only [grabE820, if_pos h, mmapNext]
  cases grabE820 m stop fuel _ <;> rfl

theorem grabE820_some (h : grabE820 m stop fuel mmap = some list) : MapEntries m stop mmap list.length := by
  induction fuel generalizing mmap list with
  | zero =>
    rw [grabE820] at h
    split_ifs at h with hlt
    cases h
    exact .nil (Nat.le_of_not_lt hlt)
  | succ fuel ih =>
    by_cases hlt : mmap < stop
    · rw [grabE820_succ hlt, Option.map_eq_some_iff] at h
      obtain ⟨rest, hrest, rfl⟩ := h
      exact .cons hlt (ih hrest)
    · rw [grabE820, if_neg hlt] at h
      cases h
      exact .nil (Nat.le_of_not_lt hlt)

theorem MapEntries.grab (h : MapEntries m stop mmap n) : (grabE820 m stop n mmap).isSome := by
  induction h with
  | nil hle => rw [grabE820, if_neg (Nat.not_lt.2 hle)]; rfl
  | cons hlt _ ih => rwa [grabE820_succ hlt, Option.isSome_map]

theorem MapEntries.unique {k : Nat} (h : MapEntries m stop mmap n) (h' : MapEntries m stop mmap k) :
    n = k := by
  induction h generalizing k with
  | nil hle =>
    cases h' with
    | nil => rfl
    | cons hlt => exact absurd hlt (Nat.not_lt.2 hle)
  | cons hlt _ ih =>
    cases h' with
    | nil hle => exact absurd hlt (Nat.not_lt.2 hle)
    | cons _ h' => rw [ih h']

/-- The entries are written one after the other. -/
theorem MapEntries.writes_eq (h : MapEntries m stop mmap n) (fuel k : Nat) (hk : k + min fuel n < 2 ^ 32) :
    grabWrites m stop fuel mmap k = List.range' k (min fuel n) := by
  induction fuel generalizing mmap n k with
  | zero => rw [Nat.zero_min]; rfl
  | succ fuel ih =>
    cases h with
    | nil hle => rw [grabWrites, if_neg (Nat.not_lt.2 hle)]; rfl
    | @cons _ n hlt h =>
      have hk' : k + 1 + min fuel n < 2 ^ 32 := by omega
      have hmin : min (fuel + 1) (n + 1) = min fuel n + 1 := by omega
      rw [grabWrites, if_pos hlt, inc32_of_lt (by omega), hmin, List.range'_succ, ← ih h (k + 1) hk', mmapNext]

/-! ## The revision -/

theorem length_splitEntry_le (slBase runtimesize : BitVec 32) (e : GrubE820) :
    (splitEntry slBase runtimesize e).length ≤ 3 := by
  unfold splitEntry
  split_ifs <;> simp

theorem te820Writes_lt {slBase runtimesize : BitVec 32} (hlen : list.length ≤ maxE820Entries) :
    ∀ i ∈ te820Writes slBase runtimesize list, i < maxE820Entries := by
  intro i hi
  unfold te820Writes at hi
  cases hfind : findEntry slBase runtimesize list 0 with
  | none => rw [hfind] at hi; cases hi
  | some found =>
    cases found with
    | none => rw [hfind] at hi; cases hi
    | some k =>
      rw [hfind] at hi
      obtain ⟨pre, e, post, rfl, hk, -⟩ := findEntry_spec hfind
      rw [Nat.zero_add] at hk
      simp only [hk, List.length_append, List.length_cons] at hi hlen
      rcases List.mem_append.1 hi with hi | hi
      · have := List.mem_range.1 hi
        omega
      · have hget : (pre ++ e :: post)[pre.length]? = some e := by simp
        rw [hget] at hi
        split_ifs at hi with hroom
        · have hsplit := length_splitEntry_le slBase runtimesize e
          have := (List.mem_range'_1.1 hi).2
          omega
        · cases hi

/-! ## The result -/

/-- **The copy is bounded** exactly if the map has at most `MAX_E820_ENTRIES` entries. -/
theorem mapCopyBounded_iff (m : Mem) (mbi : MultibootInfo) (runtimesize : BitVec 32) :
    MapCopyBounded m mbi runtimesize ↔ mbi.flags &&& mbiMemmap = 0 ∨
      ∃ n ≤ maxE820Entries, MapEntries m mbi.mapEnd mbi.mmapAddr.toNat n := by
  rw [MapCopyBounded, ne_eq, ← or_iff_not_imp_left]
  refine or_congr_right ?_
  constructor
  · rintro ⟨⟨fuel, hends⟩, hgrabbed, -⟩
    obtain ⟨list, hlist⟩ := Option.isSome_iff_exists.1 hends
    have hentries := grabE820_some hlist
    refine ⟨list.length, Nat.le_of_not_lt fun hlt => ?_, hentries⟩
    have hmin : min (maxE820Entries + 1) list.length = maxE820Entries + 1 := Nat.min_eq_left hlt
    have hwrites := hentries.writes_eq (maxE820Entries + 1) 0 (by rw [hmin]; decide)
    have hlast := hgrabbed (maxE820Entries + 1) maxE820Entries (by
      rw [hwrites, hmin]
      exact List.mem_range'_1.2 ⟨Nat.zero_le _, by omega⟩)
    exact absurd hlast (Nat.lt_irrefl _)
  · rintro ⟨n, hn, hentries⟩
    refine ⟨⟨n, hentries.grab⟩, fun fuel i hi => ?_, fun fuel list hlist => ?_⟩
    · have hn' : n ≤ 64 := hn
      rw [hentries.writes_eq fuel 0 (by omega)] at hi
      have := (List.mem_range'_1.1 hi).2
      omega
    · refine te820Writes_lt ?_
      rwa [(grabE820_some hlist).unique hentries]

/-- A map of entries of 20 bytes and their sizes, from 0x1000 on. -/
def evenMap : Mem := fun a => if a % 24 = 0x1000 % 24 then 20 else 0

/-- The multiboot information for 65 entries. -/
def manyEntries : MultibootInfo := ⟨mbiMemmap, 65 * 24, 0x1000⟩

/-- The entry at index 64 is written after the array. -/
theorem mapCopyBounded_not : ¬ MapCopyBounded evenMap manyEntries 0x200000 := by
  intro h
  have hwrite : 64 ∈ grabWrites evenMap manyEntries.mapEnd 65 manyEntries.mmapAddr.toNat 0 := by
    decide +kernel
  exact absurd ((h (by decide)).grabbed 65 64 hwrite) (by decide)

end Xmhf.Boot
