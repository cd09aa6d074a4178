import Mathlib.Data.List.Basic
import Mathlib.Data.List.Pairwise
import Xmhf.Lib.Trans

/-!
# What an allocator is for

A client's view of an allocator: the regions of memory that it holds, and the bytes in them whose value it
knows, since it wrote them or asked for them. `View.after` is the view after a request and the answer to it.

* `View.Wf`: the regions are apart, and what is known is in a region. `View.Wf.after_wf`: so they stay if a new
  region is apart from the others (`View.Fresh`).
* `View.Holds`: memory has what the client knows. `View.Holds.after_holds`: so it stays if a request leaves in
  memory what it should (`View.Serves`).
* `reach_served`: the rule for an allocator whose calls meet both under an invariant of its own.
-/

namespace Xmhf.Allocator

/-- `size` bytes from `addr` on. -/
structure Region where
  addr : Nat
  size : Nat
  deriving DecidableEq, Repr

/-- The addresses of a region. -/
def Region.Has (r : Region) (x : Nat) : Prop := r.addr ≤ x ∧ x < r.addr + r.size

instance (r : Region) (x : Nat) : Decidable (r.Has x) := inferInstanceAs (Decidable (_ ∧ _))

/-- The two regions do not overlap. -/
def Region.Apart (r s : Region) : Prop := ∀ x, ¬(r.Has x ∧ s.Has x)

theorem Region.Apart.symm {r s : Region} (h : r.Apart s) : s.Apart r := fun x hx => h x hx.symm

/-- A client's view. -/
structure View (β : Type*) where
  live : List Region
  known : Nat → Option β

/-- What a client asks for. The bytes of a new region are all `init`, if that is a byte. -/
inductive Request (β : Type*)
  | alloc (size : Nat) (init : Option β)
  | resize (r : Region) (size : Nat)
  | release (r : Region)
  | write (x : Nat) (b : β)
  | skip

namespace View

variable {β : Type*}

/-- No region. -/
def empty : View β := { live := [], known := fun _ => none }

/-- A client passes regions that it holds, and writes into them. -/
def Legal (v : View β) : Request β → Prop
  | .alloc _ _ => True
  | .resize r _ => r ∈ v.live
  | .release r => r ∈ v.live
  | .write x _ => ∃ r ∈ v.live, r.Has x
  | .skip => True

/-- The view without the region `r`. -/
def drop (v : View β) (r : Region) : View β :=
  { live := v.live.erase r, known := fun x => if r.Has x then none else v.known x }

/-- The view with the region `r`, in which `f` is known. -/
def add (v : View β) (r : Region) (f : Nat → Option β) : View β :=
  { live := r :: v.live, known := fun x => if r.Has x then f (x - r.addr) else v.known x }

/-- The view with the byte `b` at `x`. -/
def put (v : View β) (x : Nat) (b : β) : View β :=
  { v with known := fun y => if y = x then some b else v.known y }

/-- The first bytes of a region, as many as fit in `size`. -/
def prefixOf (v : View β) (r : Region) (size i : Nat) : Option β :=
  if i < min r.size size then v.known (r.addr + i) else none

/-- **The view after a request**, when the answer is the pointer `p`; 0 is a failure. -/
def after (v : View β) (p : Nat) : Request β → View β
  | .alloc size init => if p = 0 then v else v.add ⟨p, size⟩ fun _ => init
  | .resize r size => if p = 0 then v else (v.drop r).add ⟨p, size⟩ (v.prefixOf r size)
  | .release r => v.drop r
  | .write x b => v.put x b
  | .skip => v

/-- The regions are apart, and what is known is in one of them. -/
structure Wf (v : View β) : Prop where
  apart : v.live.Pairwise Region.Apart
  inside : ∀ x, v.known x ≠ none → ∃ r ∈ v.live, r.Has x

/-- **An answer may be a region** that is apart from those that the client keeps. -/
def Fresh (v : View β) (p : Nat) : Request β → Prop
  | .alloc size _ => p ≠ 0 → ∀ s ∈ v.live, Region.Apart ⟨p, size⟩ s
  | .resize r size => p ≠ 0 → ∀ s ∈ v.live.erase r, Region.Apart ⟨p, size⟩ s
  | _ => True

variable {v : View β} {r : Region} {f : Nat → Option β} {q : Request β} {p : Nat}

theorem known_drop (x : Nat) : (v.drop r).known x = if r.Has x then none else v.known x := rfl

theorem known_add (x : Nat) : (v.add r f).known x = if r.Has x then f (x - r.addr) else v.known x := rfl

theorem known_put {x : Nat} {b : β} (y : Nat) : (v.put x b).known y = if y = x then some b else v.known y := rfl

theorem empty_wf : (empty : View β).Wf := ⟨List.Pairwise.nil, fun _ hx => absurd rfl hx⟩

theorem Wf.drop (h : v.Wf) (r : Region) : (v.drop r).Wf where
  apart := h.apart.sublist List.erase_sublist
  inside x hx := by
    by_cases hr : r.Has x
    · exact absurd (if_pos hr) hx
    · obtain ⟨s, hs, hsx⟩ := h.inside x (by rwa [known_drop, if_neg hr] at hx)
      refine ⟨s, (List.mem_erase_of_ne ?_).2 hs, hsx⟩
      rintro rfl
      exact hr hsx

theorem Wf.add (h : v.Wf) (hfresh : ∀ s ∈ v.live, r.Apart s) (f : Nat → Option β) : (v.add r f).Wf where
  apart := List.pairwise_cons.2 ⟨hfresh, h.apart⟩
  inside x hx := by
    by_cases hr : r.Has x
    · exact ⟨r, List.mem_cons_self, hr⟩
    · obtain ⟨s, hs, hsx⟩ := h.inside x (by rwa [known_add, if_neg hr] at hx)
      exact ⟨s, List.mem_cons_of_mem r hs, hsx⟩

/-- **A view stays well-formed** with every legal request and fresh answer. -/
theorem Wf.after_wf (h : v.Wf) (hq : v.Legal q) (hp : v.Fresh p q) : (v.after p q).Wf := by
  cases q with
  | alloc size init =>
    by_cases hp0 : p = 0
    · rw [after, if_pos hp0]
      exact h
    · rw [after, if_neg hp0]
      exact h.add (hp hp0) _
  | resize r size =>
    by_cases hp0 : p = 0
    · rw [after, if_pos hp0]
      exact h
    · rw [after, if_neg hp0]
      exact (h.drop r).add (hp hp0) _
  | release r => exact h.drop r
  | write x b =>
    refine ⟨h.apart, fun y hy => ?_⟩
    by_cases hyx : y = x
    · exact hyx ▸ hq
    · exact h.inside y (by rwa [after, known_put, if_neg hyx] at hy)
  | skip => exact h

/-! ## Memory -/

/-- Memory has what the client knows. -/
def Holds (v : View β) (m : Nat → β) : Prop := ∀ x b, v.known x = some b → m x = b

variable {m m' : Nat → β}

theorem Holds.of_eq (h : v.Holds m) (hm : ∀ x, v.known x ≠ none → m' x = m x) : v.Holds m' :=
  fun x b hx => (hm x (by rw [hx]; exact Option.some_ne_none b)).trans (h x b hx)

theorem Holds.drop (h : v.Holds m) (r : Region) (hm : ∀ x, (v.drop r).known x ≠ none → m' x = m x) :
    (v.drop r).Holds m' := by
  refine Holds.of_eq (fun x b hx => ?_) hm
  by_cases hr : r.Has x
  · rw [known_drop, if_pos hr] at hx
    cases hx
  · rw [known_drop, if_neg hr] at hx
    exact h x b hx

theorem Holds.add (h : v.Holds m') (hr : ∀ i < r.size, ∀ b, f i = some b → m' (r.addr + i) = b) :
    (v.add r f).Holds m' := by
  intro x b hx
  by_cases hin : r.Has x
  · rw [known_add, if_pos hin] at hx
    obtain ⟨h1, h2⟩ := hin
    have hb := hr (x - r.addr) (by omega) b hx
    rwa [Nat.add_sub_cancel' h1] at hb
  · rw [known_add, if_neg hin] at hx
    exact h x b hx

/-- **What a request has to leave in memory**, when the answer is `p`. -/
def Serves (v : View β) (m m' : Nat → β) (p : Nat) : Request β → Prop
  | .alloc size init => (∀ x, v.known x ≠ none → m' x = m x) ∧
      (p ≠ 0 → ∀ b, init = some b → ∀ i < size, m' (p + i) = b)
  | .resize r size => if p = 0 then ∀ x, v.known x ≠ none → m' x = m x
      else (∀ x, (v.drop r).known x ≠ none → m' x = m x) ∧
        ∀ i < min r.size size, m' (p + i) = m (r.addr + i)
  | .release r => ∀ x, (v.drop r).known x ≠ none → m' x = m x
  | .write x b => m' x = b ∧ ∀ y, y ≠ x → v.known y ≠ none → m' y = m y
  | .skip => ∀ x, v.known x ≠ none → m' x = m x

/-- **Memory has what the client knows** after every request that is served. -/
theorem Holds.after_holds (h : v.Holds m) (hq : v.Serves m m' p q) : (v.after p q).Holds m' := by
  cases q with
  | alloc size init =>
    by_cases hp0 : p = 0
    · rw [after, if_pos hp0]
      exact h.of_eq hq.1
    · rw [after, if_neg hp0]
      exact (h.of_eq hq.1).add fun i hi b hb => hq.2 hp0 b hb i hi
  | resize r size =>
    by_cases hp0 : p = 0
    · rw [after, if_pos hp0]
      rw [Serves, if_pos hp0] at hq
      exact h.of_eq hq
    · rw [after, if_neg hp0]
      rw [Serves, if_neg hp0] at hq
      refine (h.drop r hq.1).add fun i _ b hb => ?_
      unfold prefixOf at hb
      split at hb
      · next hi => exact (hq.2 i hi).trans (h _ b hb)
      · cases hb
  | release r => exact h.drop r hq
  | write x b =>
    intro y c hy
    by_cases hyx : y = x
    · rw [after, known_put, if_pos hyx] at hy
      rw [hyx, hq.1]
      exact Option.some.inj hy
    · rw [after, known_put, if_neg hyx] at hy
      exact (hq.2 y hyx (by rw [hy]; exact Option.some_ne_none c)).trans (h y c hy)
  | skip => exact h.of_eq hq

end View

/-! ## Runs -/

/-- Memory, and the client's view of it. -/
structure Client (β : Type*) where
  mem : Nat → β
  view : View β

section
variable {ω β : Type*} (call : (Nat → β) → ω → Option (Nat × (Nat → β))) (request : ω → Request β)

/-- A client makes a call, which answers with a pointer. -/
def step (s : Client β) (op : ω) : Option (Client β) :=
  (call s.mem op).map fun a => { mem := a.2, view := s.view.after a.1 (request op) }

variable {call request} {ok : ω → Prop} {I : Client β → Prop}

/-- **Contract rule.** Where a legal call answers, with a fresh region and what it should leave in memory,
and keeps an invariant, every run of legal calls answers, and the client's view stays right. -/
theorem reach_served {s₀ s : Client β}
    (hcall : ∀ s op, I s → s.view.Wf → s.view.Legal (request op) → ok op → ∃ p m', call s.mem op = some (p, m') ∧
      s.view.Fresh p (request op) ∧ s.view.Serves s.mem m' p (request op) ∧
      I { mem := m', view := s.view.after p (request op) })
    (h₀ : I s₀ ∧ s₀.view.Wf ∧ s₀.view.Holds s₀.mem)
    (h : Trans.Reach (step call request) (fun s op => s.view.Legal (request op) ∧ ok op) s₀ s) :
    (I s ∧ s.view.Wf ∧ s.view.Holds s.mem) ∧
      ∀ op, s.view.Legal (request op) → ok op → (step call request s op).isSome := by
  have hinv : I s ∧ s.view.Wf ∧ s.view.Holds s.mem := by
    refine h.inv (I := fun s => I s ∧ s.view.Wf ∧ s.view.Holds s.mem) h₀
      fun s op s' ⟨hI, hwf, hholds⟩ ⟨hlegal, hok⟩ hs => ?_
    obtain ⟨p, m', hrun, hfresh, hserves, hI'⟩ := hcall s op hI hwf hlegal hok
    rw [step, hrun, Option.map_some] at hs
    obtain rfl := Option.some.inj hs
    exact ⟨hI', hwf.after_wf hlegal hfresh, hholds.after_holds hserves⟩
  refine ⟨hinv, fun op hlegal hok => ?_⟩
  obtain ⟨p, m', hrun, -⟩ := hcall s op hinv.1 hinv.2.1 hlegal hok
  rw [step, hrun]
  rfl

end

end Xmhf.Allocator
