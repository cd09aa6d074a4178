import Xmhf.Hpt.Copy
import Xmhf.Hpt.Proof.Leaf

/-!
# The pages of a translation

`EmhfCtx.translate` is the pointer of an address by its own page walk. It goes through one page, or two for
a guest (`EmhfCtx.hops`).

* The next address goes through the same pages, one byte further on, unless it leaves one of them
  (`EmhfCtx.hops_add`).
* A checked access returns the translation, and a size that stays on the frames of its pages
  (`EmhfCtx.hops_of_access`).
-/

namespace Xmhf.Hpt

open Xmhf.Memory Xmhf.Word Xmhf.Bitfield Xmhf.Paging

/-- A page that a translation goes through: from the address `va` to the address `pa`. -/
structure Hop where
  leaf : Pmeo
  va : Va
  pa : Pa
  deriving DecidableEq, Repr

/-- `va` is the last address of the page. -/
def Hop.Leaves (x : Hop) : Prop := (x.va.toNat + 1) % 2 ^ x.leaf.pageSizeLog2 = 0

instance (x : Hop) : Decidable x.Leaves := inferInstanceAs (Decidable (_ = _))

/-- `pa` is the last address of a frame of the page's size. -/
def Hop.Ends (x : Hop) : Prop := (x.pa.toNat + 1) % 2 ^ x.leaf.pageSizeLog2 = 0

instance (x : Hop) : Decidable x.Ends := inferInstanceAs (Decidable (_ = _))

/-- The same page, `i` bytes further on. -/
def Hop.add (x : Hop) (i : Nat) : Hop := ⟨x.leaf, vaAt x.va i, vaAt x.pa i⟩

/-- The pages of the translation of `va`: the page of the host, or those of the guest and the host. -/
def EmhfCtx.hops (r : Rpb) (m : Mem) : EmhfCtx → Va → Option (List Hop)
  | host h, va => (leafAt (h.super r) m va).map fun q => [⟨q.1, va, q.2⟩]
  | guest g, va => do
    let (leaf, gpa) ← leafAt (g.super r) m va
    let (leaf', pa) ← leafAt (g.hostCtx.super r) m gpa
    return [⟨leaf, va, gpa⟩, ⟨leaf', gpa, pa⟩]

/-- Where the last page leads, as a pointer of the runtime. -/
def lastPtr (r : Rpb) (xs : List Hop) : Option Nat := xs.getLast?.map fun x => spa2hva1 r x.pa.toNat

/-- The pointer of `va` by its page walk. -/
def EmhfCtx.translate (r : Rpb) (m : Mem) (c : EmhfCtx) (va : Va) : Option Nat :=
  (c.hops r m va).bind (lastPtr r)

variable {ctx : Ctx} {c : EmhfCtx} {r : Rpb} {m : Mem} {va : Va} {x : Hop} {xs : List Hop} {access : Prot}
  {cpl : Cpl} {i k n ptr : Nat}

/-! ## The next address -/

theorem vaAt_zero (va : Va) : vaAt va 0 = va := BitVec.add_zero va

theorem vaAt_vaAt (va : Va) (i k : Nat) : vaAt (vaAt va i) k = vaAt va (i + k) := by
  rw [vaAt, vaAt, vaAt, BitVec.add_assoc, ← BitVec.ofNat_add]

theorem Hop.add_zero (x : Hop) : x.add 0 = x := by
  rw [Hop.add, vaAt_zero, vaAt_zero]

theorem Hop.add_add (x : Hop) (i k : Nat) : (x.add i).add k = x.add (i + k) := by
  rw [Hop.add, Hop.add, Hop.add, vaAt_vaAt, vaAt_vaAt]

/-- **The next address** goes through the same pages, unless it leaves one. -/
theorem EmhfCtx.hops_add_one (h : c.hops r m va = some xs) (hin : ∀ x ∈ xs, ¬ x.Leaves) :
    c.hops r m (vaAt va 1) = some (xs.map (·.add 1)) := by
  cases c with
  | host c =>
    obtain ⟨⟨leaf, pa⟩, hleaf, rfl⟩ := Option.map_eq_some_iff.1 h
    have hnext := leafAt_add_one hleaf (hin _ List.mem_cons_self)
    exact congrArg (Option.map _) hnext
  | guest g =>
    simp only [hops, Option.bind_eq_bind, Option.bind_eq_some_iff, Option.pure_def, Option.some.injEq] at h
    obtain ⟨⟨leaf, gpa⟩, hleaf, ⟨leaf', pa⟩, hleaf', rfl⟩ := h
    have hnext := leafAt_add_one hleaf (hin _ List.mem_cons_self)
    have hnext' := leafAt_add_one hleaf' (hin _ (List.mem_cons_of_mem _ List.mem_cons_self))
    have hnext : leafAt (g.super r) m (vaAt va 1) = some (leaf, vaAt gpa 1) := hnext
    have hnext' : leafAt (g.hostCtx.super r) m (vaAt gpa 1) = some (leaf', vaAt pa 1) := hnext'
    simp only [hops, hnext, hnext', Option.bind_eq_bind, Option.bind_some, Option.pure_def, List.map_cons,
      List.map_nil, Hop.add]

theorem EmhfCtx.hops_add (h : c.hops r m va = some xs) (hin : ∀ j < i, ∀ x ∈ xs, ¬ (x.add j).Leaves) :
    c.hops r m (vaAt va i) = some (xs.map (·.add i)) := by
  induction i with
  | zero =>
    have hid : (fun x : Hop => x.add 0) = id := funext Hop.add_zero
    rw [vaAt_zero, h, hid, List.map_id]
  | succ i ih =>
    have hnext := hops_add_one (ih fun j hj => hin j (Nat.lt_succ_of_lt hj)) fun x hx => by
      obtain ⟨y, hy, rfl⟩ := List.mem_map.1 hx
      exact hin i (Nat.lt_succ_self i) y hy
    rw [vaAt_vaAt] at hnext
    rw [hnext, List.map_map]
    congr 2
    exact funext fun x => x.add_add i 1

theorem spa2hva1_vaAt (r : Rpb) (pa : Pa) (i : Nat) :
    spa2hva1 r (vaAt pa i).toNat = add32 (spa2hva1 r pa.toNat) i := by
  rw [vaAt, BitVec.toNat_add, BitVec.toNat_ofNat]
  unfold spa2hva1 add32 sub32
  omega

theorem lastPtr_add (h : lastPtr r xs = some ptr) (i : Nat) :
    lastPtr r (xs.map (·.add i)) = some (add32 ptr i) := by
  obtain ⟨x, hx, rfl⟩ := Option.map_eq_some_iff.1 h
  rw [lastPtr, List.getLast?_map, hx, Option.map_some, Option.map_some, ← spa2hva1_vaAt]
  rfl

/-- In what remains on the frame, only the last byte is at its end. -/
theorem Hop.not_ends (h : i + 1 < x.leaf.remainingOnPage x.pa) : ¬ (x.add i).Ends := by
  have hhi := vaIdxHi_lt x.leaf.t (x.leaf.lvl - 1)
  have hdvd : 2 ^ x.leaf.pageSizeLog2 ∣ 2 ^ 64 :=
    Nat.pow_dvd_pow 2 (by rw [Pmeo.pageSizeLog2]; omega)
  rw [Pmeo.remainingOnPage_eq] at h
  have hpa : (vaAt x.pa i).toNat % 2 ^ x.leaf.pageSizeLog2 = x.pa.toNat % 2 ^ x.leaf.pageSizeLog2 + i := by
    rw [vaAt, BitVec.toNat_add, BitVec.toNat_ofNat, Nat.add_mod_mod, Nat.mod_mod_of_dvd _ hdvd,
      ← Nat.mod_add_mod, Nat.mod_eq_of_lt (by omega)]
  intro hends
  have hends : ((vaAt x.pa i).toNat + 1) % 2 ^ x.leaf.pageSizeLog2 = 0 := hends
  rw [← Nat.mod_add_mod, hpa, Nat.mod_eq_of_lt (by omega)] at hends
  omega

/-! ## Accesses -/

theorem leafAt_of_access (h : checkedAccessVa ctx m access cpl va n = some (ptr, k)) (hptr : ptr ≠ 0) :
    ∃ leaf pa, leafAt ctx m va = some (leaf, pa) ∧
      ctx.pa2ptr m pa (min n (leaf.remainingOnPage pa)) access cpl = some (ptr, k) := by
  obtain ⟨es, leaf, last, pa, hwalk, hlast, hall, hpage, hpa, hrv⟩ := checkedAccessVa_inv h hptr
  have hleaf := (hall leaf (List.mem_append_right _ (List.mem_singleton_self leaf))).1
  exact ⟨leaf, pa, leafAt_eq_some.2 ⟨es, last, hwalk, ⟨hlast, hleaf⟩, hpa⟩, hrv⟩

/-- The pointer of an access is the translation, and the size stays within each page. -/
theorem EmhfCtx.hops_of_access (h : checkedAccessVa (c.super r) m access cpl va n = some (ptr, k))
    (hptr : ptr ≠ 0) : ∃ xs, c.hops r m va = some xs ∧ lastPtr r xs = some ptr ∧ k ≤ n ∧
      ∀ x ∈ xs, k ≤ x.leaf.remainingOnPage x.pa := by
  have hhost : ∀ (h : HostCtx) {va n}, checkedAccessVa (h.super r) m access cpl va n = some (ptr, k) →
      ∃ leaf pa, leafAt (h.super r) m va = some (leaf, pa) ∧ spa2hva1 r pa.toNat = ptr ∧
        k = min n (leaf.remainingOnPage pa) := by
    intro h va n hrv
    obtain ⟨leaf, pa, hleaf, hrv⟩ := leafAt_of_access hrv hptr
    obtain ⟨hp, hk⟩ := Prod.mk.inj (Option.some.inj hrv)
    exact ⟨leaf, pa, hleaf, hp, hk.symm⟩
  cases c with
  | host c =>
    obtain ⟨leaf, pa, hleaf, rfl, rfl⟩ := hhost c h
    refine ⟨[⟨leaf, va, pa⟩], by simp [hops, hleaf], rfl, Nat.min_le_left .., ?_⟩
    simp
  | guest g =>
    obtain ⟨leaf, gpa, hleaf, hrv⟩ := leafAt_of_access h hptr
    have hleaf : leafAt (g.super r) m va = some (leaf, gpa) := hleaf
    obtain ⟨leaf', pa, hleaf', rfl, rfl⟩ := hhost g.hostCtx hrv
    refine ⟨[⟨leaf, va, gpa⟩, ⟨leaf', gpa, pa⟩], by simp [hops, hleaf, hleaf'], rfl, by omega, ?_⟩
    intro x hx
    simp only [List.mem_cons, List.not_mem_nil, or_false] at hx
    rcases hx with rfl | rfl
    · show _ ≤ leaf.remainingOnPage gpa
      omega
    · exact Nat.min_le_right ..

end Xmhf.Hpt
