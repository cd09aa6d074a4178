import Mathlib.Data.Vector.Basic

/-!
# Bulk operations on rings and slot arrays

* `Ring`: a bounded queue whose bulk operations move all of the elements that are asked for, or none.
* `storeSlots`, `loadSlots`: the slots of an array from an index on; `none` beyond its end.
-/

namespace Xmhf

variable {β : Type*}

/-! ## Rings -/

/-- A bounded first-in first-out queue; the head of `items` is the oldest element. -/
structure Ring (β : Type*) where
  capacity : Nat
  items : List β
  fits : items.length ≤ capacity

namespace Ring

variable {r r' : Ring β} {xs : List β} {n : Nat}

/-- An empty ring -/
def empty (capacity : Nat) : Ring β := { capacity, items := [], fits := Nat.zero_le _ }

/-- The `n` oldest elements and the ring without them; `none` when there are fewer. -/
def dequeueBulk (r : Ring β) (n : Nat) : Option (List β × Ring β) :=
  if n ≤ r.items.length then
    some (r.items.take n, { r with
      items := r.items.drop n
      fits := (List.drop_sublist n r.items).length_le.trans r.fits })
  else
    none

/-- The ring with `xs` added; `none` when they do not all fit. -/
def enqueueBulk (r : Ring β) (xs : List β) : Option (Ring β) :=
  if h : r.items.length + xs.length ≤ r.capacity then
    some { r with items := r.items ++ xs, fits := by rwa [List.length_append] }
  else
    none

theorem dequeueBulk_eq_some (h : r.dequeueBulk n = some (xs, r')) :
    r.items = xs ++ r'.items ∧ xs.length = n := by
  obtain ⟨hn, h⟩ := Option.ite_none_right_eq_some.mp h
  obtain ⟨rfl, rfl⟩ := Prod.mk.inj (Option.some.inj h)
  exact ⟨(List.take_append_drop ..).symm, List.length_take_of_le hn⟩

theorem enqueueBulk_eq_some (h : r.enqueueBulk xs = some r') : r'.items = r.items ++ xs := by
  obtain ⟨hfits, h⟩ := Option.dite_none_right_eq_some.mp h
  obtain rfl : { r with items := r.items ++ xs, fits := _ } = r' := Option.some.inj h
  rfl

end Ring

/-! ## Slots -/

variable {n pos count : Nat} {a a' : List.Vector β n} {xs : List β}

/-- `xs` stored in the slots from `pos` on -/
def storeSlots (a : List.Vector β n) (pos : Nat) (xs : List β) : Option (List.Vector β n) :=
  if h : pos + xs.length ≤ n then
    some ⟨a.toList.take pos ++ (xs ++ a.toList.drop (pos + xs.length)), by
      have := a.toList_length
      grind⟩
  else
    none

/-- The first `count` slots -/
def loadSlots (a : List.Vector β n) (count : Nat) : Option (List β) :=
  if count ≤ n then some (a.toList.take count) else none

theorem loadSlots_of_le (h : count ≤ n) : loadSlots a count = some (a.toList.take count) := if_pos h

theorem storeSlots_of_le (h : pos + xs.length ≤ n) :
    ∃ a', storeSlots a pos xs = some a' ∧ a'.toList.take (pos + xs.length) = a.toList.take pos ++ xs := by
  refine ⟨_, dif_pos h, ?_⟩
  have hlen : (a.toList.take pos).length = pos := by
    rw [List.length_take_of_le]
    rw [a.toList_length]
    omega
  change List.take _ (List.take pos a.toList ++ (xs ++ _)) = _
  rw [← List.append_assoc, List.take_left' (by rw [List.length_append, hlen])]

end Xmhf
