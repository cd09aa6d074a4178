import Mathlib.Data.Nat.Basic

/-!
# Radix trees in a heap

A tree of maps in a heap: at depth `d` the key picks the entry `idx key d` of a map, and `next d` says
whether the entry links a map of the next depth. An entry that links nothing may be a leaf.

* `mapAt` is the map a key reaches at a depth; `IsTree` says that each map is reached along one path.
* `lookup` is the list of entries down to the leaf of a key.
* **Frame** (`Writes.lookup_eq`): a write to one entry of the tree shows only to the keys of that entry.
* **Linking** (`Links.lookup_eq`): an empty new map in place of an entry that is nothing shows to no key,
  and the tree is a tree still (`Links.isTree`).
-/

namespace Xmhf.Radix

variable {K P I E : Type*}

/-- How entries link maps, how keys pick them, and where the tree starts. -/
structure Shape (K P I E : Type*) where
  idx : K → Nat → I
  next : Nat → E → Option P
  leaf : Nat → E → Bool
  root : P

variable (S : Shape K P I E) (h h' : P → I → E)

/-- The map that `key` reaches at a depth. -/
def mapAt (key : K) : Nat → Option P
  | 0 => some S.root
  | d + 1 => (mapAt key d).bind fun p => S.next d (h p (S.idx key d))

/-- The entries from the map `p` at depth `d` down to the leaf, in `n` rounds at most. -/
def lookupFrom (key : K) : Nat → Nat → P → Option (List E)
  | 0, _, _ => none
  | n + 1, d, p =>
    let e := h p (S.idx key d)
    match S.next d e with
    | some q => (lookupFrom key n (d + 1) q).map fun es => e :: es
    | none => if S.leaf d e then some [e] else none

/-- The entries from the root down to the leaf of `key`. -/
def lookup (n : Nat) (key : K) : Option (List E) := lookupFrom S h key n 0 S.root

/-- The two keys take the same path to depth `d`. -/
def Agree (d : Nat) (key key' : K) : Prop := ∀ k < d, S.idx key k = S.idx key' k

/-- Each map is reached along one path. -/
def IsTree : Prop :=
  ∀ key key' d d' p, mapAt S h key d = some p → mapAt S h key' d' = some p → d = d' ∧ Agree S d key key'

variable {S h h'} {key key' key₀ : K} {d d₀ n : Nat} {p p₀ q : P} {e : E}

theorem Agree.mono {d' : Nat} (ha : Agree S d key key') (hd : d' ≤ d) : Agree S d' key key' :=
  fun k hk => ha k (Nat.lt_of_lt_of_le hk hd)

theorem Agree.succ (ha : Agree S d key key') (hd : S.idx key d = S.idx key' d) :
    Agree S (d + 1) key key' := by
  intro k hk
  rcases Nat.lt_succ_iff_lt_or_eq.1 hk with hlt | rfl
  · exact ha k hlt
  · exact hd

theorem mapAt_succ_eq_some : mapAt S h key (d + 1) = some q ↔
    ∃ p, mapAt S h key d = some p ∧ S.next d (h p (S.idx key d)) = some q := by
  rw [mapAt, Option.bind_eq_some_iff]

theorem Agree.mapAt_eq (ha : Agree S d key key') : mapAt S h key d = mapAt S h key' d := by
  induction d with
  | zero => rfl
  | succ d ih => rw [mapAt, mapAt, ih (ha.mono (Nat.le_succ d)), ha d (Nat.lt_succ_self d)]

/-- Above a map on its path there are maps. -/
theorem exists_mapAt_of_le (hq : mapAt S h key d = some q) {k : Nat} (hk : k ≤ d) :
    ∃ p, mapAt S h key k = some p := by
  induction d generalizing q with
  | zero =>
    obtain rfl := Nat.le_zero.1 hk
    exact ⟨q, hq⟩
  | succ d ih =>
    rcases Nat.le_succ_iff.1 hk with hle | rfl
    · obtain ⟨p, hp, -⟩ := mapAt_succ_eq_some.1 hq
      exact ih hp hle
    · exact ⟨q, hq⟩

/-! ## A write to one entry -/

/-- In the maps of the tree, `h'` is `h` with `e` at the entry of `key₀` in its map `p₀` at depth `d₀`. -/
structure Writes (S : Shape K P I E) (h h' : P → I → E) (key₀ : K) (d₀ : Nat) (p₀ : P) (e : E) :
    Prop where
  tree : IsTree S h
  map : mapAt S h key₀ d₀ = some p₀
  entry : h' p₀ (S.idx key₀ d₀) = e
  other : ∀ key d p, mapAt S h key d = some p → (p = p₀ → S.idx key d ≠ S.idx key₀ d₀) →
    h' p (S.idx key d) = h p (S.idx key d)

namespace Writes

variable (w : Writes S h h' key₀ d₀ p₀ e)
include w

/-- Off the path of the written entry, nothing has changed. -/
theorem entry_eq (hp : mapAt S h key d = some p) (hoff : d = d₀ → ¬ Agree S (d₀ + 1) key key₀) :
    h' p (S.idx key d) = h p (S.idx key d) := by
  refine w.other key d p hp ?_
  rintro rfl hidx
  obtain ⟨rfl, ha⟩ := w.tree _ _ _ _ _ hp w.map
  exact hoff rfl (ha.succ hidx)

theorem mapAt_eq_of_le (hd : d ≤ d₀) : mapAt S h' key d = mapAt S h key d := by
  induction d with
  | zero => rfl
  | succ d ih =>
    rw [mapAt, mapAt, ih (Nat.le_of_succ_le hd)]
    refine Option.bind_congr fun p hp => ?_
    rw [w.entry_eq hp fun hd' => absurd hd' (Nat.ne_of_lt hd)]

theorem mapAt_eq_of_not_agree (hoff : ¬ Agree S (d₀ + 1) key key₀) :
    mapAt S h' key d = mapAt S h key d := by
  induction d with
  | zero => rfl
  | succ d ih =>
    rw [mapAt, mapAt, ih]
    refine Option.bind_congr fun p hp => ?_
    rw [w.entry_eq hp fun _ => hoff]

theorem lookupFrom_eq (hoff : ¬ Agree S (d₀ + 1) key key₀) (hp : mapAt S h key d = some p) :
    lookupFrom S h' key n d p = lookupFrom S h key n d p := by
  induction n generalizing d p with
  | zero => rfl
  | succ n ih =>
    rw [lookupFrom, lookupFrom, w.entry_eq hp fun _ => hoff]
    cases hnext : S.next d (h p (S.idx key d)) with
    | none => rfl
    | some q => simp only [ih (mapAt_succ_eq_some.2 ⟨p, hp, hnext⟩)]

/-- **Frame**: the lookup of a key that does not use the written entry is the same. -/
theorem lookup_eq (hoff : ¬ Agree S (d₀ + 1) key key₀) : lookup S h' n key = lookup S h n key :=
  w.lookupFrom_eq hoff rfl

end Writes

/-! ## Linking a new map -/

/-- The write links the map `q`, which the tree does not have and all of whose entries are nothing, in
the place of an entry that is nothing. -/
structure Links (S : Shape K P I E) (h h' : P → I → E) (key₀ : K) (d₀ : Nat) (p₀ : P) (e : E) (q : P) :
    Prop extends Writes S h h' key₀ d₀ p₀ e where
  absent : S.next d₀ (h p₀ (S.idx key₀ d₀)) = none ∧ S.leaf d₀ (h p₀ (S.idx key₀ d₀)) = false
  link : S.next d₀ e = some q
  new : ∀ key d, mapAt S h key d ≠ some q
  empty : ∀ key, S.next (d₀ + 1) (h' q (S.idx key (d₀ + 1))) = none ∧
    S.leaf (d₀ + 1) (h' q (S.idx key (d₀ + 1))) = false

namespace Links

variable (l : Links S h h' key₀ d₀ p₀ e q)
include l

/-- The maps after the link: those from before, and the new one. -/
theorem mapAt_cases (hp : mapAt S h' key d = some p) :
    mapAt S h key d = some p ∨ p = q ∧ d = d₀ + 1 ∧ Agree S (d₀ + 1) key key₀ := by
  by_cases ha : Agree S (d₀ + 1) key key₀
  · rcases Nat.lt_trichotomy d (d₀ + 1) with hlt | rfl | hgt
    · rw [l.mapAt_eq_of_le (Nat.lt_succ_iff.1 hlt)] at hp
      exact Or.inl hp
    · obtain ⟨p', hp', hnext⟩ := mapAt_succ_eq_some.1 hp
      rw [l.mapAt_eq_of_le le_rfl, (ha.mono (Nat.le_succ d₀)).mapAt_eq, l.map] at hp'
      rw [← Option.some.inj hp', ha d₀ (Nat.lt_succ_self d₀), l.entry, l.link] at hnext
      exact Or.inr ⟨(Option.some.inj hnext).symm, rfl, ha⟩
    · -- below the new map there is nothing
      obtain ⟨p', hp'⟩ := exists_mapAt_of_le hp hgt
      obtain ⟨q', hq', hnext'⟩ := mapAt_succ_eq_some.1 hp'
      obtain ⟨p'', hp'', hnext⟩ := mapAt_succ_eq_some.1 hq'
      rw [l.mapAt_eq_of_le le_rfl, (ha.mono (Nat.le_succ d₀)).mapAt_eq, l.map] at hp''
      rw [← Option.some.inj hp'', ha d₀ (Nat.lt_succ_self d₀), l.entry, l.link] at hnext
      rw [← Option.some.inj hnext, (l.empty key).1] at hnext'
      cases hnext'
  · rw [l.mapAt_eq_of_not_agree ha] at hp
    exact Or.inl hp

theorem isTree : IsTree S h' := by
  intro key key' d d' p hp hp'
  rcases l.mapAt_cases hp with hold | ⟨rfl, rfl, ha⟩ <;>
    rcases l.mapAt_cases hp' with hold' | ⟨hq, rfl, ha'⟩
  · exact l.tree _ _ _ _ _ hold hold'
  · rw [hq] at hold
    exact absurd hold (l.new key d)
  · exact absurd hold' (l.new key' d')
  · exact ⟨rfl, fun k hk => (ha k hk).trans (ha' k hk).symm⟩

/-- On the path of the new map nothing is found, before and after. -/
theorem lookupFrom_none (ha : Agree S (d₀ + 1) key key₀) (hd : d ≤ d₀)
    (hp : mapAt S h key d = some p) :
    lookupFrom S h key n d p = none ∧ lookupFrom S h' key n d p = none := by
  induction n generalizing d p with
  | zero => exact ⟨rfl, rfl⟩
  | succ n ih =>
    rcases Nat.lt_or_eq_of_le hd with hlt | rfl
    · have hsame := l.entry_eq hp fun hd' => absurd hd' (Nat.ne_of_lt hlt)
      have hmap₀ : mapAt S h key d₀ = some p₀ := by
        rw [(ha.mono (Nat.le_succ d₀)).mapAt_eq, l.map]
      obtain ⟨q', hq'⟩ := exists_mapAt_of_le hmap₀ hlt
      obtain ⟨p', hp', hnext⟩ := mapAt_succ_eq_some.1 hq'
      obtain rfl : p' = p := Option.some.inj (hp'.symm.trans hp)
      obtain ⟨h1, h2⟩ := ih hlt hq'
      constructor
      · simp only [lookupFrom, hnext, h1, Option.map_none]
      · simp only [lookupFrom, hsame, hnext, h2, Option.map_none]
    · rw [(ha.mono (Nat.le_succ d)).mapAt_eq, l.map] at hp
      obtain rfl := Option.some.inj hp
      have hidx := ha d (Nat.lt_succ_self d)
      have hnew : lookupFrom S h' key n (d + 1) q = none := by
        cases n with
        | zero => rfl
        | succ n =>
          obtain ⟨h1, h2⟩ := l.empty key
          simp only [lookupFrom, h1, h2, Bool.false_eq_true, if_false]
      constructor
      · simp only [lookupFrom, hidx, l.absent.1, l.absent.2, Bool.false_eq_true, if_false]
      · simp only [lookupFrom, hidx, l.entry, l.link, hnew, Option.map_none]

/-- **Linking** an empty map changes the lookup of no key. -/
theorem lookup_eq : lookup S h' n key = lookup S h n key := by
  by_cases ha : Agree S (d₀ + 1) key key₀
  · obtain ⟨h1, h2⟩ := l.lookupFrom_none ha (Nat.zero_le d₀) rfl
    rw [lookup, lookup, h1, h2]
  · exact l.toWrites.lookup_eq ha

end Links

end Xmhf.Radix
