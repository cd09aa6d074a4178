import Mathlib.Data.Option.Basic
import Xmhf.Hpt.Walk

/-!
# One level and a whole walk

`nextLvl_iff` says everything one level can do (`Step`): stop at an entry that is not present or is a
page, lose the next page map, or go down to it. `Walks` is a walk by these steps, and `walkFrom_iff`
that `walkFrom` computes it.
-/

namespace Xmhf.Hpt

open Xmhf.Memory Xmhf.Bitfield Xmhf.Paging

variable {ctx : Ctx} {m : Mem} {va : Va} {pmo pmo' last : Pmo} {e : Pmeo} {es : List Pmeo} {b : Bool}
  {n : Nat}

/-! ## One level -/

/-- What `nextLvl` does at the entry `e` of `pmo`. -/
inductive Step (ctx : Ctx) (m : Mem) (pmo : Pmo) (e : Pmeo) : Bool → Pmo → Prop
  | absent : e.isPresent = some false → Step ctx m pmo e false pmo
  | page : e.isPresent = some true → e.isPage = some true → Step ctx m pmo e false pmo
  | lost {pa : Pa} {sz avail : Nat} : e.isPresent = some true → e.isPage = some false →
      pmSize pmo.t (pmo.lvl - 1) = some sz → e.getAddress = some pa →
      ctx.pa2ptr m pa sz protsR .cpl0 = some (0, avail) → Step ctx m pmo e false ⟨0, .invalid, 0⟩
  | down {pa : Pa} {sz pm : Nat} : e.isPresent = some true → e.isPage = some false →
      pmSize pmo.t (pmo.lvl - 1) = some sz → e.getAddress = some pa →
      ctx.pa2ptr m pa sz protsR .cpl0 = some (pm, sz) → pm ≠ 0 →
      Step ctx m pmo e true ⟨pm, pmo.t, pmo.lvl - 1⟩

theorem nextLvl_iff : nextLvl ctx m va pmo = some (b, pmo') ↔
    pmo.pm ≠ 0 ∧ ∃ e, pmo.getPmeoByVa m va = some e ∧ Step ctx m pmo e b pmo' := by
  constructor
  · intro h
    simp only [nextLvl, Option.bind_eq_bind, Option.bind_eq_some_iff, Option.guard_eq_some'] at h
    obtain ⟨e, he, -, hpm, present, hpresent, h⟩ := h
    refine ⟨hpm, e, he, ?_⟩
    cases present with
    | false =>
      simp only [Bool.false_eq_true, if_false, Option.pure_def, Option.some.injEq, Prod.mk.injEq] at h
      obtain ⟨rfl, rfl⟩ := h
      exact .absent hpresent
    | true =>
      simp only [if_true, Option.bind_eq_some_iff] at h
      obtain ⟨page, hpage, h⟩ := h
      cases page with
      | true =>
        simp only [if_true, Option.pure_def, Option.some.injEq, Prod.mk.injEq] at h
        obtain ⟨rfl, rfl⟩ := h
        exact .page hpresent hpage
      | false =>
        simp only [Bool.false_eq_true, if_false, Option.bind_eq_some_iff] at h
        obtain ⟨sz, hsz, pa, hpa, ⟨pm, avail⟩, hptr, h⟩ := h
        by_cases h0 : pm = 0
        · subst h0
          simp only [if_true, Option.pure_def, Option.some.injEq, Prod.mk.injEq] at h
          obtain ⟨rfl, rfl⟩ := h
          exact .lost hpresent hpage hsz hpa hptr
        · simp only [h0, if_false, Option.bind_eq_some_iff, Option.guard_eq_some', Option.pure_def,
            Option.some.injEq, Prod.mk.injEq] at h
          obtain ⟨-, rfl, rfl, rfl⟩ := h
          exact .down hpresent hpage hsz hpa hptr h0
  · rintro ⟨hpm, e, he, hstep⟩
    cases hstep with
    | absent hpresent => simp [nextLvl, he, hpm, hpresent]
    | page hpresent hpage => simp [nextLvl, he, hpm, hpresent, hpage]
    | lost hpresent hpage hsz hpa hptr => simp [nextLvl, he, hpm, hpresent, hpage, hsz, hpa, hptr]
    | down hpresent hpage hsz hpa hptr h0 =>
      simp [nextLvl, he, hpm, hpresent, hpage, hsz, hpa, hptr, h0]

/-! ## A walk -/

/-- A walk from `pmo` down: its entries and where it ends. -/
inductive Walks (ctx : Ctx) (m : Mem) (va : Va) : Pmo → List Pmeo → Pmo → Prop
  | stop {pmo last : Pmo} {e : Pmeo} : pmo.pm ≠ 0 → pmo.getPmeoByVa m va = some e →
      Step ctx m pmo e false last → Walks ctx m va pmo [e] last
  | down {pmo pmo' last : Pmo} {e : Pmeo} {es : List Pmeo} : pmo.pm ≠ 0 →
      pmo.getPmeoByVa m va = some e → Step ctx m pmo e true pmo' → Walks ctx m va pmo' es last →
      Walks ctx m va pmo (e :: es) last

theorem Walks.ne_nil (h : Walks ctx m va pmo es last) : es ≠ [] := by
  cases h <;> simp

theorem walkFrom_iff : walkFrom ctx m va n pmo = some (es, last) ↔
    Walks ctx m va pmo es last ∧ es.length ≤ n := by
  induction n generalizing pmo es with
  | zero =>
    constructor
    · intro h
      cases h
    · rintro ⟨h, hlen⟩
      exact absurd (List.length_eq_zero_iff.1 (Nat.le_zero.1 hlen)) h.ne_nil
  | succ n ih =>
    constructor
    · intro h
      simp only [walkFrom, Option.bind_eq_bind, Option.bind_eq_some_iff] at h
      obtain ⟨e, he, ⟨b, pmo'⟩, hnext, h⟩ := h
      obtain ⟨hpm, e', he', hstep⟩ := nextLvl_iff.1 hnext
      obtain rfl : e = e' := Option.some.inj (he.symm.trans he')
      cases b with
      | false =>
        simp only [Bool.false_eq_true, if_false, Option.pure_def, Option.some.injEq,
          Prod.mk.injEq] at h
        obtain ⟨rfl, rfl⟩ := h
        exact ⟨.stop hpm he hstep, by simp⟩
      | true =>
        simp only [if_true, Option.bind_eq_some_iff, Option.pure_def, Option.some.injEq] at h
        obtain ⟨⟨es', last'⟩, hwalk, h⟩ := h
        obtain ⟨rfl, rfl⟩ := Prod.mk.inj h
        obtain ⟨hw, hlen⟩ := ih.1 hwalk
        exact ⟨.down hpm he hstep hw, by simpa using hlen⟩
    · rintro ⟨h, hlen⟩
      cases h with
      | stop hpm he hstep => simp [walkFrom, he, nextLvl_iff.2 ⟨hpm, _, he, hstep⟩]
      | down hpm he hstep hw =>
        have hrest := ih.2 ⟨hw, by simpa using hlen⟩
        simp [walkFrom, he, nextLvl_iff.2 ⟨hpm, _, he, hstep⟩, hrest]

end Xmhf.Hpt
