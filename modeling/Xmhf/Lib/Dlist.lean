import Mathlib.Data.List.Basic
import Mathlib.Logic.Function.Basic

/-!
# Doubly linked lists

A list threaded through nodes by the functions `next` and `prev`, with a node `null` at its ends.

* `Linked next prev null x l`: from `x` on, `next` leads through `l` to `null`, and `prev` leads back.
* `Linked.congr`: only the links of the list count.
* `Linked.insert`, `Linked.erase`: the stores that put a node at the front, and that take any node out.
-/

namespace Xmhf.Dlist

variable {α : Type*}

/-- From `x` on, `next` leads through `l` to `null`, and `prev` leads back to `x`. -/
def Linked (next prev : α → α) (null : α) : α → List α → Prop
  | x, [] => next x = null
  | x, a :: l => next x = a ∧ prev a = x ∧ Linked next prev null a l

variable {next prev next' prev' : α → α} {null x a : α} {l : List α}

theorem Linked.congr (h : Linked next prev null x l) (hnext : ∀ y ∈ x :: l, next' y = next y)
    (hprev : ∀ y ∈ l, prev' y = prev y) : Linked next' prev' null x l := by
  induction l generalizing x with
  | nil => exact (hnext x List.mem_cons_self).trans h
  | cons b l ih =>
    refine ⟨(hnext x List.mem_cons_self).trans h.1, (hprev b List.mem_cons_self).trans h.2.1, ?_⟩
    exact ih h.2.2 (fun y hy => hnext y (List.mem_cons_of_mem x hy))
      fun y hy => hprev y (List.mem_cons_of_mem b hy)

theorem Linked.next_start (h : Linked next prev null x l) : next x = l.headD null := by
  cases l with
  | nil => exact h
  | cons b l => exact h.1

theorem Linked.eq_nil_iff (h : Linked next prev null x l) (hnull : null ∉ l) : l = [] ↔ next x = null := by
  cases l with
  | nil => exact iff_of_true rfl h
  | cons b l =>
    refine iff_of_false (List.cons_ne_nil b l) fun hx => hnull ?_
    exact hx ▸ h.1 ▸ List.mem_cons_self

theorem Linked.prev_mem (h : Linked next prev null x l) (ha : a ∈ l) : prev a ∈ x :: l := by
  induction l generalizing x with
  | nil => cases ha
  | cons b l ih =>
    rcases List.mem_cons.1 ha with rfl | ha
    · exact List.mem_cons.2 (Or.inl h.2.1)
    · exact List.mem_cons_of_mem x (ih h.2.2 ha)

theorem Linked.prev_ne (h : Linked next prev null x l) (hd : (x :: l).Nodup) (ha : a ∈ l) : prev a ≠ a := by
  induction l generalizing x with
  | nil => cases ha
  | cons b l ih =>
    obtain ⟨hx, hl⟩ := List.nodup_cons.1 hd
    rcases List.mem_cons.1 ha with rfl | ha
    · rw [h.2.1]
      exact fun he => hx (he ▸ List.mem_cons_self)
    · exact ih h.2.2 hl ha

theorem Linked.next_mem (h : Linked next prev null x l) (ha : a ∈ x :: l) : next a = null ∨ next a ∈ l := by
  induction l generalizing x with
  | nil =>
    obtain rfl := List.mem_singleton.1 ha
    exact Or.inl h
  | cons b l ih =>
    rcases List.mem_cons.1 ha with rfl | ha
    · exact Or.inr (List.mem_cons.2 (Or.inl h.1))
    · exact (ih h.2.2 ha).imp_right (List.mem_cons_of_mem b)

/-- The node before `a` is the start just when `a` comes first. -/
theorem Linked.prev_eq_start (h : Linked next prev null x l) (hx : x ∉ l) (ha : a ∈ l) :
    prev a = x ↔ next x = a := by
  cases l with
  | nil => cases ha
  | cons b l =>
    rcases List.mem_cons.1 ha with rfl | ha
    · exact ⟨fun _ => h.1, fun _ => h.2.1⟩
    · constructor
      · intro hp
        exact absurd (hp ▸ h.2.2.prev_mem ha) hx
      · intro hn
        obtain rfl : b = a := h.1.symm.trans hn
        exact h.2.1

variable [DecidableEq α]

/-- **A node is put at the front.** -/
theorem Linked.insert (h : Linked next prev null x l) (hd : (x :: l).Nodup) (hnull : null ∉ l)
    (ha : a ∉ x :: l) (hane : a ≠ null) :
    Linked (Function.update (Function.update next a (next x)) x a)
      (Function.update (Function.update prev a x) (next x) a) null x (a :: l) := by
  obtain ⟨hx, hl⟩ := List.nodup_cons.1 hd
  obtain ⟨hax, hal⟩ : a ≠ x ∧ a ∉ l := by simpa using ha
  have hna : a ≠ next x := by
    rcases h.next_mem List.mem_cons_self with hn | hn
    · rw [hn]
      exact hane
    · exact fun he => hal (he ▸ hn)
  refine ⟨Function.update_self .., ?_, ?_⟩
  · rw [Function.update_of_ne hna, Function.update_self]
  · cases l with
    | nil =>
      rw [Linked, Function.update_of_ne hax, Function.update_self]
      exact h
    | cons b l =>
      obtain ⟨hb, -, hrest⟩ := h
      subst hb
      refine ⟨?_, Function.update_self .., hrest.congr ?_ ?_⟩
      · rw [Function.update_of_ne hax, Function.update_self]
      · intro y hy
        rw [Function.update_of_ne (ne_of_mem_of_not_mem hy hx),
          Function.update_of_ne (ne_of_mem_of_not_mem hy hal)]
      · intro y hy
        rw [Function.update_of_ne (ne_of_mem_of_not_mem hy (List.nodup_cons.1 hl).1),
          Function.update_of_ne (ne_of_mem_of_not_mem (List.mem_cons_of_mem _ hy) hal)]

/-- **A node is taken out.** -/
theorem Linked.erase (h : Linked next prev null x l) (hd : (x :: l).Nodup) (hnull : null ∉ l)
    (ha : a ∈ l) :
    Linked (Function.update next (prev a) (next a)) (Function.update prev (next a) (prev a)) null x
      (l.erase a) := by
  induction l generalizing x with
  | nil => cases ha
  | cons b l ih =>
    obtain ⟨hx, hl⟩ := List.nodup_cons.1 hd
    obtain ⟨hb, hback, hrest⟩ := h
    by_cases hab : a = b
    · -- the links around the first node: `x` and the node after `b`
      subst hab
      rw [List.erase_cons_head, hback]
      cases l with
      | nil =>
        rw [Linked, Function.update_self]
        exact hrest
      | cons c l =>
        obtain ⟨hc, -, hrest⟩ := hrest
        subst hc
        refine ⟨Function.update_self .., Function.update_self .., hrest.congr ?_ ?_⟩
        · intro y hy
          exact Function.update_of_ne (ne_of_mem_of_not_mem (List.mem_cons_of_mem _ hy) hx) ..
        · intro y hy
          have hcl := (List.nodup_cons.1 (List.nodup_cons.1 hl).2).1
          exact Function.update_of_ne (ne_of_mem_of_not_mem hy hcl) ..
    · have hal := (List.mem_cons.1 ha).resolve_left hab
      have hnull' : null ∉ l := fun hn => hnull (List.mem_cons_of_mem b hn)
      rw [List.erase_cons_tail (by simpa using Ne.symm hab)]
      refine ⟨?_, ?_, ih hrest hl hnull' hal⟩
      · rw [Function.update_of_ne (ne_of_mem_of_not_mem (hrest.prev_mem hal) hx).symm, hb]
      · refine (Function.update_of_ne (fun he => ?_) ..).trans hback
        rcases hrest.next_mem (List.mem_cons_of_mem b hal) with hn | hn
        · exact hnull (List.mem_cons.2 (Or.inl (he.trans hn).symm))
        · exact (List.nodup_cons.1 hl).1 (he ▸ hn)

end Xmhf.Dlist
