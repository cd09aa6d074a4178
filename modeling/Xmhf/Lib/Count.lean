import Mathlib.Data.Fintype.EquivFin
import Mathlib.Algebra.BigOperators.Group.Finset.Basic

/-!
# Families of cores and one core's step

A step of one core changes a family `f : ι → α` at one index (`Function.update f c v`). How
quantified facts (`forall_update`), exclusive ones (`AtMostOne.update`) and counts (`count_update`)
of the family follow the step.
-/

namespace Xmhf.Count

variable {ι α : Type*} [DecidableEq ι]

/-- A fact of every index after a step of `c`: the new value at `c`, and the others as they are. -/
theorem forall_update {P : ι → α → Prop} {f : ι → α} {c : ι} {v : α} (hc : P c v)
    (ho : ∀ i, i ≠ c → P i (f i)) : ∀ i, P i (Function.update f c v i) := by
  intro i
  by_cases hi : i = c
  · subst hi; simpa using hc
  · simpa [hi] using ho i hi

/-- At most one index has `p`. -/
def AtMostOne (p : α → Bool) (f : ι → α) : Prop := ∀ i, p (f i) → ∀ j, p (f j) → i = j

/-- **Exclusion is kept** by a step of `c` that keeps `p` or enters it while no other index has
it. -/
theorem AtMostOne.update {p : α → Bool} {f : ι → α} {c : ι} {v : α} (h : AtMostOne p f)
    (hc : p v → p (f c) ∨ ∀ i, i ≠ c → p (f i) = false) :
    AtMostOne p (Function.update f c v) := by
  have hother : ∀ i, i ≠ c → p (f i) → p v → False := by
    intro i hi hp hv
    rcases hc hv with h' | h'
    · exact hi (h i hp c h')
    · simp [h' i hi] at hp
  intro i hi j hj
  by_cases hic : i = c <;> by_cases hjc : j = c
  · rw [hic, hjc]
  · simp only [hic, Function.update_self, ne_eq, hjc, not_false_eq_true,
      Function.update_of_ne] at hi hj
    exact (hother j hjc hj hi).elim
  · simp only [hjc, Function.update_self, ne_eq, hic, not_false_eq_true,
      Function.update_of_ne] at hi hj
    exact (hother i hic hi hj).elim
  · simp only [ne_eq, hic, hjc, not_false_eq_true, Function.update_of_ne] at hi hj
    exact h i hi j hj

variable [Fintype ι]

/-- How many indices `j` have `p j (f j)`. -/
def count (p : ι → α → Bool) (f : ι → α) : Nat :=
  (Finset.univ.filter fun j => p j (f j) = true).card

/-- **Counting after a step of `c`**: only the index `c` enters or leaves. -/
theorem count_update (p : ι → α → Bool) (f : ι → α) (c : ι) (v : α) :
    count p (Function.update f c v) + (p c (f c)).toNat = count p f + (p c v).toNat := by
  have hsplit : ∀ g : ι → α, count p g =
      (p c (g c)).toNat + ((Finset.univ.erase c).filter fun j => p j (g j) = true).card := by
    intro g
    unfold count
    rw [← Finset.insert_erase (Finset.mem_univ c), Finset.filter_insert]
    cases h : p c (g c)
    · simp
    · rw [if_pos rfl, Finset.card_insert_of_notMem (by simp)]
      simp [Nat.add_comm]
  have hrest : ((Finset.univ.erase c).filter fun j => p j (Function.update f c v j) = true) =
      (Finset.univ.erase c).filter fun j => p j (f j) = true := by
    apply Finset.filter_congr
    intro j hj
    rw [Function.update_of_ne (Finset.ne_of_mem_erase hj)]
  rw [hsplit (Function.update f c v), hsplit f, hrest, Function.update_self]
  omega

/-- **A full count**: a count of at least `card - 1` that leaves `i` out counts every other
index. -/
theorem forall_of_count {p : ι → α → Bool} {f : ι → α} {i : ι} (hi : p i (f i) = false)
    (h : Fintype.card ι - 1 ≤ count p f) : ∀ j, j ≠ i → p j (f j) = true := by
  intro j hj
  by_contra hp
  have hsub : (Finset.univ.filter fun j => p j (f j) = true) ⊆ (Finset.univ.erase i).erase j := by
    intro x hx
    have hx' : p x (f x) = true := (Finset.mem_filter.1 hx).2
    refine Finset.mem_erase.2 ⟨?_, Finset.mem_erase.2 ⟨?_, Finset.mem_univ x⟩⟩
    · rintro rfl; exact hp hx'
    · rintro rfl; simp [hi] at hx'
  have hle := Finset.card_le_card hsub
  have h1 : ((Finset.univ.erase i).erase j).card = Fintype.card ι - 1 - 1 := by
    rw [Finset.card_erase_of_mem (Finset.mem_erase.2 ⟨hj, Finset.mem_univ j⟩),
      Finset.card_erase_of_mem (Finset.mem_univ i), Finset.card_univ]
  have h2 : 1 < Fintype.card ι := Fintype.one_lt_card_iff.2 ⟨i, j, hj.symm⟩
  unfold count at h
  omega

end Xmhf.Count
