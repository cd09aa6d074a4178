import Mathlib.Data.List.Nodup

/-!
# Custody

Logs of events that handle resources, and the resources that are handed over exactly once.

* `Once`: one event of the log takes the resource over, and none after it mentions the resource.
* `once_cons_of_takes`, `once_cons_of_not_takes`: the log event by event.
* `once_map`: resources that are handed over one after the other.
-/

namespace Xmhf

/-- How events of type `ε` handle resources of type `ρ`. -/
structure Custody (ε ρ : Type*) where
  /-- The event has to do with the resource. -/
  mentions : ε → ρ → Prop
  /-- The event takes the resource over from the party whose log it is in. -/
  takes : ε → ρ → Prop
  mentions_of_takes : ∀ {e r}, takes e r → mentions e r

namespace Custody

variable {ε ρ : Type*} {c : Custody ε ρ} {log : List ε} {e : ε} {r : ρ}

/-- `r` is taken over exactly once, and left alone from then on. -/
def Once (c : Custody ε ρ) (log : List ε) (r : ρ) : Prop :=
  ∃ pre e post, log = pre ++ e :: post ∧ c.takes e r ∧ (∀ x ∈ pre, ¬ c.takes x r) ∧
    ∀ x ∈ post, ¬ c.mentions x r

theorem Once.exists_takes (h : c.Once log r) : ∃ e ∈ log, c.takes e r := by
  obtain ⟨pre, e, post, rfl, he, -, -⟩ := h
  exact ⟨e, by simp, he⟩

/-- A leak. -/
theorem not_once_of_not_takes (h : ∀ e ∈ log, ¬ c.takes e r) : ¬ c.Once log r := by
  intro ho
  obtain ⟨e, he, ht⟩ := ho.exists_takes
  exact h e he ht

theorem once_cons_of_takes (he : c.takes e r) : c.Once (e :: log) r ↔ ∀ x ∈ log, ¬ c.mentions x r := by
  constructor
  · rintro ⟨pre, e', post, heq, -, hpre, hpost⟩
    cases pre with
    | nil =>
      obtain ⟨-, rfl⟩ := List.cons.inj heq
      exact hpost
    | cons x pre =>
      obtain ⟨rfl, -⟩ := List.cons.inj heq
      exact absurd he (hpre e (List.mem_cons_self ..))
  · intro h
    exact ⟨[], e, log, rfl, he, by simp, h⟩

theorem once_cons_of_not_takes (he : ¬ c.takes e r) : c.Once (e :: log) r ↔ c.Once log r := by
  constructor
  · rintro ⟨pre, e', post, heq, he', hpre, hpost⟩
    cases pre with
    | nil =>
      obtain ⟨rfl, -⟩ := List.cons.inj heq
      exact absurd he' he
    | cons x pre =>
      obtain ⟨-, rfl⟩ := List.cons.inj heq
      exact ⟨pre, e', post, rfl, he', fun y hy => hpre y (List.mem_cons_of_mem _ hy), hpost⟩
  · rintro ⟨pre, e', post, rfl, he', hpre, hpost⟩
    refine ⟨e :: pre, e', post, rfl, he', ?_, hpost⟩
    intro y hy
    rcases List.mem_cons.mp hy with rfl | hy
    · exact he
    · exact hpre y hy

/-- Events before the first that takes `r` do not count. -/
theorem once_append_of_not_takes {pre : List ε} (hpre : ∀ e ∈ pre, ¬ c.takes e r) :
    c.Once (pre ++ log) r ↔ c.Once log r := by
  induction pre with
  | nil => rfl
  | cons x pre ih =>
    rw [List.cons_append, once_cons_of_not_takes (hpre x (List.mem_cons_self ..))]
    exact ih fun e he => hpre e (List.mem_cons_of_mem _ he)

/-- Each of a list of different resources is taken over by an event of its own. -/
theorem once_map {α : Type*} {f : α → ε} {key : α → ρ} (htakes : ∀ x, c.takes (f x) (key x))
    (hmentions : ∀ x r, c.mentions (f x) r → key x = r) {xs : List α} (hnd : (xs.map key).Nodup) {x : α}
    (hx : x ∈ xs) : c.Once (xs.map f) (key x) := by
  induction xs with
  | nil => cases hx
  | cons y ys ih =>
    obtain ⟨hy, hnd⟩ := List.nodup_cons.mp hnd
    rw [List.map_cons]
    by_cases hyx : key y = key x
    · refine (once_cons_of_takes (hyx ▸ htakes y)).mpr ?_
      intro e he hm
      obtain ⟨z, hz, rfl⟩ := List.mem_map.mp he
      have hzx : key z = key x := hmentions z _ hm
      exact hy (List.mem_map.mpr ⟨z, hz, hzx.trans hyx.symm⟩)
    · have hskip : ¬ c.takes (f y) (key x) := fun ht => hyx (hmentions y _ (c.mentions_of_takes ht))
      rw [once_cons_of_not_takes hskip]
      exact ih hnd ((List.mem_cons.mp hx).resolve_left fun h => hyx (h ▸ rfl))

end Custody

end Xmhf
