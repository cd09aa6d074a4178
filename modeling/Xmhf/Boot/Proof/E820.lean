import Xmhf.Boot.E820
import Xmhf.Lib.Extent

/-!
# The revised memory map

`dealwithE820` reserves the memory of secure loader and runtime and changes the map nowhere else.

* `Accommodates.bounds`: an entry that the search finds does not wrap around at 4 GB, and it goes on past
  the end of the runtime. The branches for an exact match and for the right aligned range are never taken.
* `splitEntry_consecutive`, `splitEntry_typeAt`: the entries it is split into.
* `dealwithE820_revises`: the whole map, for a runtime that is not empty.
-/

namespace Xmhf.Boot

open Xmhf.Memory Xmhf.Word Xmhf.Extent

/-- The base address of an entry. -/
def GrubE820.base (e : GrubE820) : Nat := e.baseaddrLow.toNat + 2 ^ 32 * e.baseaddrHigh.toNat

/-- The length of an entry. -/
def GrubE820.length (e : GrubE820) : Nat := e.lengthLow.toNat + 2 ^ 32 * e.lengthHigh.toNat

/-- The type of the memory at address `a`. -/
def typeAt (list : List GrubE820) (a : Nat) : Option (BitVec 32) :=
  lookup (Within GrubE820.base GrubE820.length) GrubE820.type list a

/-- No address is in two entries. -/
def DisjointE820 (list : List GrubE820) : Prop := Apart (Within GrubE820.base GrubE820.length) list

/-- The runtime's addresses. -/
def InRuntime (slBase runtimesize : BitVec 32) (a : Nat) : Prop :=
  slBase.toNat ≤ a ∧ a < slBase.toNat + runtimesize.toNat

instance (slBase runtimesize : BitVec 32) (a : Nat) : Decidable (InRuntime slBase runtimesize a) :=
  inferInstanceAs (Decidable (_ ∧ _))

/-! ## The entry found -/

/-- The test by which the search finds an entry. -/
structure Accommodates (slBase runtimesize : BitVec 32) (e : GrubE820) : Prop where
  free : e.type = 1
  baseHigh : e.baseaddrHigh = 0
  lengthHigh : e.lengthHigh = 0
  low : e.baseaddrLow ≤ slBase
  high : slBase + runtimesize < e.baseaddrLow + e.lengthLow

theorem findEntry_spec {slBase runtimesize : BitVec 32} {list : List GrubE820} {i k : Nat}
    (h : findEntry slBase runtimesize list i = some (some k)) :
    ∃ pre e post, list = pre ++ e :: post ∧ k = i + pre.length ∧ Accommodates slBase runtimesize e := by
  induction list generalizing i with
  | nil => cases h
  | cons e es ih =>
    have hskip (h : findEntry slBase runtimesize es (i + 1) = some (some k)) :
        ∃ pre e' post, e :: es = pre ++ e' :: post ∧ k = i + pre.length ∧ Accommodates slBase runtimesize e' := by
      obtain ⟨pre, e', post, rfl, hk, hacc⟩ := ih h
      exact ⟨e :: pre, e', post, rfl, by rw [List.length_cons]; omega, hacc⟩
    rw [findEntry] at h
    split at h
    · rename_i hfree
      split at h
      · exact hskip h
      · rename_i hbase
        split at h
        · cases h
        · rename_i hlen
          split at h
          · rename_i hfit
            obtain rfl : i = k := by simpa using h
            exact ⟨[], e, es, rfl, rfl, hfree, not_not.1 hbase, not_not.1 hlen, hfit.1, hfit.2⟩
          · exact hskip h
    · exact hskip h

variable {slBase runtimesize : BitVec 32} {e : GrubE820}

theorem Accommodates.base_eq (h : Accommodates slBase runtimesize e) : e.base = e.baseaddrLow.toNat := by
  rw [GrubE820.base, h.baseHigh]
  rfl

theorem Accommodates.length_eq (h : Accommodates slBase runtimesize e) : e.length = e.lengthLow.toNat := by
  rw [GrubE820.length, h.lengthHigh]
  rfl

theorem toNat_base_add (hsize : slBase.toNat + runtimesize.toNat < 2 ^ 32) :
    (slBase + runtimesize).toNat = slBase.toNat + runtimesize.toNat := by
  rw [BitVec.toNat_add, Nat.mod_eq_of_lt hsize]

/-- **An entry found does not wrap around**, and it goes on past the runtime's end. -/
theorem Accommodates.bounds (h : Accommodates slBase runtimesize e)
    (hsize : slBase.toNat + runtimesize.toNat < 2 ^ 32) :
    e.baseaddrLow.toNat ≤ slBase.toNat ∧
      slBase.toNat + runtimesize.toNat < e.baseaddrLow.toNat + e.lengthLow.toNat ∧
      e.baseaddrLow.toNat + e.lengthLow.toNat < 2 ^ 32 := by
  have hlow := BitVec.le_def.1 h.low
  have hhigh := BitVec.lt_def.1 h.high
  rw [toNat_base_add hsize, BitVec.toNat_add] at hhigh
  have h1 := e.baseaddrLow.isLt
  have h2 := e.lengthLow.isLt
  -- A sum that wraps is below the slBase.
  omega

/-! ## The split -/

theorem not_exact (h : Accommodates slBase runtimesize e) :
    ¬(slBase + runtimesize = e.baseaddrLow + e.lengthLow) := fun heq => by
  have := BitVec.lt_def.1 h.high
  rw [heq] at this
  exact Nat.lt_irrefl _ this

theorem splitEntry_left (h : Accommodates slBase runtimesize e)
    (hsize : slBase.toNat + runtimesize.toNat < 2 ^ 32) (hbase : slBase = e.baseaddrLow) :
    splitEntry slBase runtimesize e = [⟨e.baseaddrLow, 0, runtimesize, 0, 2⟩,
      ⟨e.baseaddrLow + runtimesize, 0, e.lengthLow - runtimesize, 0, 1⟩] := by
  obtain ⟨-, hhigh, -⟩ := h.bounds hsize
  have hlt : runtimesize < e.lengthLow := by
    rw [BitVec.lt_def, ← hbase] at *
    omega
  rw [splitEntry, if_neg fun hc => not_exact h hc.2, if_pos ⟨hbase, hlt⟩]

theorem splitEntry_middle (h : Accommodates slBase runtimesize e) (hbase : slBase ≠ e.baseaddrLow) :
    splitEntry slBase runtimesize e = [⟨e.baseaddrLow, 0, slBase - e.baseaddrLow, 0, 1⟩,
      ⟨slBase, 0, runtimesize, 0, 2⟩, ⟨slBase + runtimesize, 0,
        e.lengthLow - runtimesize - (slBase - e.baseaddrLow), 0, 1⟩] := by
  rw [splitEntry, if_neg fun hc => hbase hc.1, if_neg fun hc => hbase hc.1,
    if_neg fun hc => not_exact h hc.1]

@[simp] theorem base_mk (lo n t : BitVec 32) : GrubE820.base ⟨lo, 0, n, 0, t⟩ = lo.toNat := rfl

@[simp] theorem length_mk (lo n t : BitVec 32) : GrubE820.length ⟨lo, 0, n, 0, t⟩ = n.toNat := rfl

/-- The type of entry `p` is 2 on the runtime's addresses and 1 on others. -/
def TypedAs (slBase runtimesize : BitVec 32) (p : GrubE820) : Prop :=
  ∀ a, Within GrubE820.base GrubE820.length p a → p.type = if InRuntime slBase runtimesize a then 2 else 1

theorem typedAs_reserved : TypedAs slBase runtimesize ⟨slBase, 0, runtimesize, 0, 2⟩ :=
  fun a ha => (if_pos (c := InRuntime slBase runtimesize a) ha).symm

theorem typedAs_below {lo n : BitVec 32} (h : lo.toNat + n.toNat ≤ slBase.toNat) :
    TypedAs slBase runtimesize ⟨lo, 0, n, 0, 1⟩ := by
  intro a ha
  obtain ⟨-, ha⟩ := ha
  rw [base_mk, length_mk] at ha
  exact (if_neg fun hc => by unfold InRuntime at hc; omega).symm

theorem typedAs_above {lo n : BitVec 32} (h : slBase.toNat + runtimesize.toNat ≤ lo.toNat) :
    TypedAs slBase runtimesize ⟨lo, 0, n, 0, 1⟩ := by
  intro a ha
  obtain ⟨ha, -⟩ := ha
  rw [base_mk] at ha
  exact (if_neg fun hc => by unfold InRuntime at hc; omega).symm

/-- **The entries of the split** are consecutive and not empty, and the runtime's addresses are of type 2,
the others of type 1. -/
theorem splitEntry_spec (h : Accommodates slBase runtimesize e)
    (hsize : slBase.toNat + runtimesize.toNat < 2 ^ 32) (hpos : 0 < runtimesize.toNat) :
    Consecutive GrubE820.base GrubE820.length e.base (splitEntry slBase runtimesize e) (e.base + e.length) ∧
      (∀ p ∈ splitEntry slBase runtimesize e, TypedAs slBase runtimesize p) ∧
      (splitEntry slBase runtimesize e).length ≤ 3 := by
  obtain ⟨hlow, hhigh, hwrap⟩ := h.bounds hsize
  have hsum := toNat_base_add hsize
  have hlen : (e.lengthLow - runtimesize).toNat = e.lengthLow.toNat - runtimesize.toNat :=
    BitVec.toNat_sub_of_le (BitVec.le_def.2 (by omega))
  rw [h.base_eq, h.length_eq]
  by_cases hbase : slBase = e.baseaddrLow
  · rw [splitEntry_left h hsize hbase, ← hbase]
    rw [← hbase] at hhigh hwrap
    refine ⟨?_, ?_, by simp⟩
    · simp only [Consecutive, base_mk, length_mk, hsum, hlen, true_and]
      omega
    · simp only [List.forall_mem_cons, List.not_mem_nil, false_imp_iff, implies_true, and_true]
      exact ⟨typedAs_reserved, typedAs_above (Nat.le_of_eq hsum.symm)⟩
  · have hgap : (slBase - e.baseaddrLow).toNat = slBase.toNat - e.baseaddrLow.toNat :=
      BitVec.toNat_sub_of_le h.low
    have hne : slBase.toNat ≠ e.baseaddrLow.toNat := fun heq => hbase (BitVec.eq_of_toNat_eq heq)
    have hrest : (e.lengthLow - runtimesize - (slBase - e.baseaddrLow)).toNat =
        e.lengthLow.toNat - runtimesize.toNat - (slBase.toNat - e.baseaddrLow.toNat) := by
      rw [BitVec.toNat_sub_of_le (BitVec.le_def.2 (by omega)), hlen, hgap]
    rw [splitEntry_middle h hbase]
    refine ⟨?_, ?_, by simp⟩
    · simp only [Consecutive, base_mk, length_mk, hgap, hrest, hsum, true_and]
      omega
    · simp only [List.forall_mem_cons, List.not_mem_nil, false_imp_iff, implies_true, and_true]
      exact ⟨typedAs_below (by omega), typedAs_reserved, typedAs_above (Nat.le_of_eq hsum.symm)⟩

/-- The entry found is free throughout, and has all of the runtime. -/
theorem Accommodates.covers (h : Accommodates slBase runtimesize e)
    (hsize : slBase.toNat + runtimesize.toNat < 2 ^ 32) {a : Nat} (ha : InRuntime slBase runtimesize a) :
    Within GrubE820.base GrubE820.length e a := by
  obtain ⟨hlow, hhigh, -⟩ := h.bounds hsize
  unfold InRuntime at ha
  unfold Within
  rw [h.base_eq, h.length_eq]
  omega

theorem typeAt_of_typedAs {ps : List GrubE820} (h : ∀ p ∈ ps, TypedAs slBase runtimesize p) {a : Nat}
    (ha : ∃ p ∈ ps, Within GrubE820.base GrubE820.length p a) :
    typeAt ps a = some (if InRuntime slBase runtimesize a then 2 else 1) := by
  obtain ⟨p, hp, hpa⟩ := ha
  have hsome : (ps.find? (Within GrubE820.base GrubE820.length · a)).isSome :=
    List.find?_isSome.2 ⟨p, hp, by simpa using hpa⟩
  obtain ⟨q, hq⟩ := Option.isSome_iff_exists.1 hsome
  rw [typeAt, lookup, hq, Option.map_some,
    h q (List.mem_of_find?_eq_some hq) a (by simpa using List.find?_some hq)]

/-- **The map after the revision** by the entries that the found one is split into. -/
theorem typeAt_splitEntry {pre post : List GrubE820} (h : Accommodates slBase runtimesize e)
    (hsize : slBase.toNat + runtimesize.toNat < 2 ^ 32) (hpos : 0 < runtimesize.toNat)
    (hd : DisjointE820 (pre ++ e :: post)) (a : Nat) :
    typeAt (pre ++ splitEntry slBase runtimesize e ++ post) a =
      if InRuntime slBase runtimesize a then some 2 else typeAt (pre ++ e :: post) a := by
  obtain ⟨hcons, htyped, -⟩ := splitEntry_spec h hsize hpos
  have hrepl := hcons.tiles.lookup_replace GrubE820.type hd a
  rw [typeAt, hrepl]
  by_cases hin : Within GrubE820.base GrubE820.length e a
  · have hold : typeAt (pre ++ e :: post) a = some 1 := by
      have hpre : ∀ x ∈ pre, ¬Within GrubE820.base GrubE820.length x a := fun x hx hxa =>
        (List.pairwise_append.1 hd).2.2 x hx e List.mem_cons_self a ⟨hxa, hin⟩
      rw [typeAt, lookup_append, lookup_eq_none _ _ hpre, Option.none_or, lookup_cons_of _ _ hin, h.free]
    rw [if_pos hin, ← typeAt, typeAt_of_typedAs htyped (hcons.complete hin.1 hin.2), hold]
    split <;> rfl
  · rw [if_neg hin, if_neg fun ha => hin (h.covers hsize ha), typeAt]

/-! ## The whole revision -/

theorem reviseE820_spec {list revised : List GrubE820} (h : reviseE820 slBase runtimesize list = some revised) :
    ∃ pre e post, list = pre ++ e :: post ∧ Accommodates slBase runtimesize e ∧
      revised = pre ++ splitEntry slBase runtimesize e ++ post := by
  unfold reviseE820 at h
  obtain ⟨found, hfound, h⟩ := Option.bind_eq_some_iff.1 h
  cases found with
  | none => cases h
  | some i =>
    obtain ⟨pre, e, post, rfl, hi, hacc⟩ := findEntry_spec hfound
    obtain rfl : i = pre.length := by omega
    obtain ⟨-, -, h⟩ := Option.bind_eq_some_iff.1 h
    obtain ⟨e', he', h⟩ := Option.bind_eq_some_iff.1 h
    obtain rfl : e = e' := by simpa using he'
    refine ⟨pre, e, post, rfl, hacc, ?_⟩
    simpa using h.symm

/-- `revised` is `list` with one entry split into consecutive ones that are not empty. -/
def SplitOnce (list revised : List GrubE820) : Prop :=
  ∃ pre e pieces post, list = pre ++ e :: post ∧ revised = pre ++ pieces ++ post ∧
    Consecutive GrubE820.base GrubE820.length e.base pieces (e.base + e.length)

/-- **The map that `dealwithE820` leaves** has the runtime's addresses reserved and is the grabbed one
elsewhere. Its entries are disjoint again and in the order of the grabbed ones, of which one is split into
at most three entries. -/
theorem dealwithE820_revises {fuel : Nat} {m : Mem} {mbi : MultibootInfo} {list revised : List GrubE820}
    {physBase : BitVec 32}
    (hgrab : grabE820 m (mbi.mmapAddr + mbi.mmapLength).toNat fuel mbi.mmapAddr.toNat = some list)
    (hd : DisjointE820 list) (hsize : targetBaseSL.toNat + runtimesize.toNat < 2 ^ 32)
    (hpos : 0 < runtimesize.toNat) (h : dealwithE820 fuel m mbi runtimesize = some (physBase, revised)) :
    (∀ a, typeAt revised a = if InRuntime targetBaseSL runtimesize a then some 2 else typeAt list a) ∧
      DisjointE820 revised ∧ SplitOnce list revised ∧ revised.length ≤ list.length + 2 := by
  unfold dealwithE820 at h
  obtain ⟨-, -, h⟩ := Option.bind_eq_some_iff.1 h
  obtain ⟨list', hlist', h⟩ := Option.bind_eq_some_iff.1 h
  obtain rfl : list = list' := Option.some.inj (hgrab.symm.trans hlist')
  obtain ⟨revised', hrev, h⟩ := Option.bind_eq_some_iff.1 h
  obtain rfl : revised' = revised := congrArg Prod.snd (Option.some.inj h)
  obtain ⟨pre, e, post, rfl, hacc, rfl⟩ := reviseE820_spec hrev
  obtain ⟨hcons, -, hlen⟩ := splitEntry_spec hacc hsize hpos
  refine ⟨typeAt_splitEntry hacc hsize hpos hd, hcons.tiles.apart_replace hd,
    ⟨pre, e, _, post, rfl, rfl, hcons⟩, ?_⟩
  simp only [List.length_append, List.length_cons]
  omega

/-- A memory map of two entries at `0x9000`: `0xA0000` free bytes at 0, and 1 GB from 1 MB on. -/
def grubMem : Mem := ofWords fun n => match n with
  | 0x1200 => 20
  | 0x1201 => 0xA000000000000
  | 0x1202 => 0x100000000
  | 0x1203 => 0x10000000000014
  | 0x1204 => 0x4000000000000000
  | 0x1205 => 0x100000000
  | _ => 0

/-- The list that is grabbed from `grubMem`. -/
def grubList : List GrubE820 := [⟨0, 0, 0xA0000, 0, 1⟩, ⟨0x100000, 0, 0x40000000, 0, 1⟩]

theorem grabE820_grubMem : grabE820 grubMem 0x9030 2 0x9000 = some grubList := by decide +kernel

theorem disjoint_grubList : DisjointE820 grubList := by
  refine List.pairwise_cons.2 ⟨fun e he a ha => ?_, List.pairwise_singleton _ _⟩
  obtain rfl : e = ⟨0x100000, 0, 0x40000000, 0, 1⟩ := List.mem_singleton.1 he
  have h1 : a < 0 + 0xA0000 := ha.1.2
  have h2 : 0x100000 ≤ a := ha.2.1
  omega

/-- The list with 128 MB of runtime at 256 MB. -/
def grubRevised : List GrubE820 :=
  [⟨0, 0, 0xA0000, 0, 1⟩, ⟨0x100000, 0, 0xFF00000, 0, 1⟩, ⟨0x10000000, 0, 0x8000000, 0, 2⟩,
    ⟨0x18000000, 0, 0x28100000, 0, 1⟩]

theorem dealwithE820_grubMem :
    dealwithE820 2 grubMem ⟨0x46, 0x30, 0x9000⟩ 0x8000000 = some (targetBaseSL, grubRevised) := by
  decide +kernel

theorem dealwithE820_revises_grubMem :
    (∀ a, typeAt grubRevised a = if InRuntime targetBaseSL 0x8000000 a then some 2 else typeAt grubList a) ∧
      DisjointE820 grubRevised ∧ SplitOnce grubList grubRevised ∧
      grubRevised.length ≤ grubList.length + 2 :=
  dealwithE820_revises grabE820_grubMem disjoint_grubList (by decide) (by decide) dealwithE820_grubMem

/-- **A runtime of no bytes** is given an empty entry, where every entry of the map had bytes. -/
theorem dealwithE820_empty_entry : ∃ revised,
    grabE820 grubMem 0x9030 2 0x9000 = some grubList ∧ DisjointE820 grubList ∧
      (∀ e ∈ grubList, 0 < e.length) ∧ (0 : BitVec 32).toNat % 2 ^ 21 = 0 ∧
      targetBaseSL.toNat + (0 : BitVec 32).toNat < 2 ^ 32 ∧
      dealwithE820 2 grubMem ⟨0x46, 0x30, 0x9000⟩ 0 = some (targetBaseSL, revised) ∧
      ¬∀ e ∈ revised, 0 < e.length :=
  ⟨[⟨0, 0, 0xA0000, 0, 1⟩, ⟨0x100000, 0, 0xFF00000, 0, 1⟩, ⟨0x10000000, 0, 0, 0, 2⟩,
      ⟨0x10000000, 0, 0x30100000, 0, 1⟩], grabE820_grubMem, disjoint_grubList, by decide, by decide,
    by decide, by decide +kernel, by decide⟩

end Xmhf.Boot
