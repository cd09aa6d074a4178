import Mathlib.Data.List.Basic

/-!
# Lists of extents

A list of entries, each covering some addresses, read as a partial map (`lookup`): the first entry that
covers an address gives its value.

* `Tiles e ps`: the entries `ps` divide up what `e` covers.
* `Tiles.lookup_replace`: with `ps` in the place of `e`, the map changes only where `e` covers.
* `Tiles.apart_replace`: the entries stay apart.
* `consecutive_append`: entries one after the other, in two parts.
* `Consecutive.tiles`: non-empty entries, one after the other, tile the entry from the first one's start
  to the last one's end.
-/

namespace Xmhf.Extent

variable {α β : Type*} (covers : α → Nat → Prop)

/-- No address is covered twice. -/
def Apart (l : List α) : Prop := l.Pairwise fun e e' => ∀ a, ¬(covers e a ∧ covers e' a)

/-- The entries `ps` divide up what `e` covers. -/
structure Tiles (e : α) (ps : List α) : Prop where
  inside : ∀ p ∈ ps, ∀ a, covers p a → covers e a
  apart : Apart covers ps
  complete : ∀ a, covers e a → ∃ p ∈ ps, covers p a

section
variable [∀ e a, Decidable (covers e a)] (val : α → β)

/-- The value at address `a`. -/
def lookup (l : List α) (a : Nat) : Option β := (l.find? (covers · a)).map val

theorem lookup_append (l l' : List α) (a : Nat) :
    lookup covers val (l ++ l') a = (lookup covers val l a).or (lookup covers val l' a) := by
  rw [lookup, List.find?_append, lookup, lookup]
  cases l.find? (covers · a) <;> rfl

theorem lookup_cons_of_not {e : α} {a : Nat} (h : ¬covers e a) (l : List α) :
    lookup covers val (e :: l) a = lookup covers val l a := by
  rw [lookup, List.find?_cons_of_neg (by simpa using h), lookup]

theorem lookup_cons_of {e : α} {a : Nat} (h : covers e a) (l : List α) :
    lookup covers val (e :: l) a = some (val e) := by
  rw [lookup, List.find?_cons_of_pos (by simpa using h), Option.map_some]

theorem lookup_eq_none {l : List α} {a : Nat} (h : ∀ e ∈ l, ¬covers e a) :
    lookup covers val l a = none := by
  rw [lookup, List.find?_eq_none.2 fun e he => by simpa using h e he, Option.map_none]

variable {covers} {e : α} {pre ps post : List α}

/-- **Only where `e` covers does the map change** when entries that tile `e` take its place. -/
theorem Tiles.lookup_replace (h : Tiles covers e ps) (hd : Apart covers (pre ++ e :: post)) (a : Nat) :
    lookup covers val (pre ++ ps ++ post) a =
      if covers e a then lookup covers val ps a else lookup covers val (pre ++ e :: post) a := by
  rw [List.append_assoc, lookup_append, lookup_append]
  split
  · rename_i hea
    have hpre : ∀ x ∈ pre, ¬covers x a := fun x hx hxa =>
      (List.pairwise_append.1 hd).2.2 x hx e List.mem_cons_self a ⟨hxa, hea⟩
    obtain ⟨p, hp, hpa⟩ := h.complete a hea
    have hsome : (ps.find? (covers · a)).isSome := List.find?_isSome.2 ⟨p, hp, by simpa using hpa⟩
    obtain ⟨q, hq⟩ := Option.isSome_iff_exists.1 hsome
    rw [lookup_eq_none covers val hpre, Option.none_or, lookup, hq]
    rfl
  · rename_i hea
    have hps : ∀ p ∈ ps, ¬covers p a := fun p hp hpa => hea (h.inside p hp a hpa)
    rw [lookup_eq_none covers val hps, Option.none_or, lookup_append, lookup_cons_of_not covers val hea]

end

variable {covers} {e : α} {pre ps post : List α}

/-- Entries that tile `e` are apart from what `e` is apart from. -/
theorem Tiles.apart_replace (h : Tiles covers e ps) (hd : Apart covers (pre ++ e :: post)) :
    Apart covers (pre ++ ps ++ post) := by
  obtain ⟨hpre, hrest, hcross⟩ := List.pairwise_append.1 hd
  obtain ⟨he, hpost⟩ := List.pairwise_cons.1 hrest
  rw [List.append_assoc]
  refine List.pairwise_append.2 ⟨hpre, List.pairwise_append.2 ⟨h.apart, hpost, ?_⟩, ?_⟩
  · intro p hp x hx a hpx
    exact he x hx a ⟨h.inside p hp a hpx.1, hpx.2⟩
  · intro x hx y hy a hxy
    rcases List.mem_append.1 hy with hy | hy
    · exact hcross x hx e List.mem_cons_self a ⟨hxy.1, h.inside y hy a hxy.2⟩
    · exact hcross x hx y (List.mem_cons_of_mem e hy) a hxy

/-! ## Consecutive entries -/

section
variable (base len : α → Nat)

/-- The addresses of an entry. -/
def Within (e : α) (a : Nat) : Prop := base e ≤ a ∧ a < base e + len e

instance (e : α) (a : Nat) : Decidable (Within base len e a) := inferInstanceAs (Decidable (_ ∧ _))

/-- Non-empty entries, one after the other, from `lo` to `hi`. -/
def Consecutive : Nat → List α → Nat → Prop
  | lo, [], hi => lo = hi
  | lo, p :: ps, hi => base p = lo ∧ 0 < len p ∧ Consecutive (lo + len p) ps hi

end

variable {base len : α → Nat} {lo hi : Nat}

theorem Consecutive.le (h : Consecutive base len lo ps hi) : lo ≤ hi := by
  induction ps generalizing lo with
  | nil => exact Nat.le_of_eq h
  | cons p ps ih => exact Nat.le_of_add_right_le (ih h.2.2)

theorem consecutive_append {qs : List α} : Consecutive base len lo (ps ++ qs) hi ↔
    ∃ mid, Consecutive base len lo ps mid ∧ Consecutive base len mid qs hi := by
  induction ps generalizing lo with
  | nil =>
    constructor
    · exact fun h => ⟨lo, rfl, h⟩
    · rintro ⟨_, rfl, h⟩
      exact h
  | cons p ps ih =>
    constructor
    · rintro ⟨hbase, hpos, hrest⟩
      obtain ⟨mid, h1, h2⟩ := ih.1 hrest
      exact ⟨mid, ⟨hbase, hpos, h1⟩, h2⟩
    · rintro ⟨mid, ⟨hbase, hpos, h1⟩, h2⟩
      exact ⟨hbase, hpos, ih.2 ⟨mid, h1, h2⟩⟩

theorem Consecutive.of_mem {p : α} (h : Consecutive base len lo ps hi) (hp : p ∈ ps) :
    lo ≤ base p ∧ 0 < len p ∧ base p + len p ≤ hi := by
  induction ps generalizing lo with
  | nil => cases hp
  | cons q ps ih =>
    obtain ⟨hbase, hpos, hrest⟩ := h
    rcases List.mem_cons.1 hp with rfl | hp
    · exact ⟨Nat.le_of_eq hbase.symm, hpos, hbase ▸ hrest.le⟩
    · obtain ⟨h1, h2⟩ := ih hrest hp
      exact ⟨by omega, h2⟩

theorem Consecutive.apart (h : Consecutive base len lo ps hi) : Apart (Within base len) ps := by
  induction ps generalizing lo with
  | nil => exact List.Pairwise.nil
  | cons q ps ih =>
    obtain ⟨hbase, -, hrest⟩ := h
    refine List.pairwise_cons.2 ⟨fun p hp a ⟨hq, hpa⟩ => ?_, ih hrest⟩
    obtain ⟨hlo, -⟩ := hrest.of_mem hp
    unfold Within at hq hpa
    omega

theorem Consecutive.complete (h : Consecutive base len lo ps hi) {a : Nat} (h1 : lo ≤ a) (h2 : a < hi) :
    ∃ p ∈ ps, Within base len p a := by
  induction ps generalizing lo with
  | nil => exact absurd (h ▸ h1 : hi ≤ a) (Nat.not_le_of_lt h2)
  | cons q ps ih =>
    obtain ⟨hbase, -, hrest⟩ := h
    by_cases hq : a < lo + len q
    · exact ⟨q, List.mem_cons_self, by unfold Within; omega⟩
    · obtain ⟨p, hp, hpa⟩ := ih hrest (by omega)
      exact ⟨p, List.mem_cons_of_mem q hp, hpa⟩

/-- Consecutive entries tile the entry with the same start and end. -/
theorem Consecutive.tiles (h : Consecutive base len (base e) ps (base e + len e)) :
    Tiles (Within base len) e ps where
  inside p hp a ha := by
    obtain ⟨h1, -, h2⟩ := h.of_mem hp
    unfold Within at ha ⊢
    omega
  apart := h.apart
  complete a ha := h.complete ha.1 ha.2

end Xmhf.Extent
