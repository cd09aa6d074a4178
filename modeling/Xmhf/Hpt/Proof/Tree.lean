import Xmhf.Hpt.Proof.Checked
import Xmhf.Hpt.Proof.Pme
import Xmhf.Lib.Radix

/-!
# The host's page maps as a tree

`mapAt` is the page map that a walk reaches after some levels, and `TreeOfMaps` says that the page maps
are a tree of distinct pages. `walkResult` is the leaf of an address and what the walk grants there.

For the host's contexts of type NORM, PAE and EPT the walker is the lookup in a radix tree
(`treeShape`): `mapAt_eq` for the page maps and `walkResult_eq` for the results.
-/

namespace Xmhf.Hpt

open Xmhf.Memory Xmhf.Bitfield Xmhf.Paging

/-- The page map that the walk of `va` reaches after `d` levels. -/
def mapAt (ctx : Ctx) (m : Mem) (va : Va) : Nat → Option Pmo
  | 0 => (getRoot ctx m).join
  | d + 1 => (mapAt ctx m va d).bind fun pmo =>
    (nextLvl ctx m va pmo).bind fun q => if q.1 then some q.2 else none

/-- The bytes of two page maps are apart. -/
def Pmo.Apart (pmo pmo' : Pmo) : Prop :=
  pmo.pm + pmSizes pmo.t pmo.lvl ≤ pmo'.pm ∨ pmo'.pm + pmSizes pmo'.t pmo'.lvl ≤ pmo.pm

/-- The page maps form a tree of distinct pages: walks that reach a page map along different indices
reach different ones. -/
def TreeOfMaps (ctx : Ctx) (m : Mem) : Prop :=
  ∀ va va' d d' pmo pmo', mapAt ctx m va d = some pmo → mapAt ctx m va' d' = some pmo' →
    (d = d' ∧ ∀ k < d, getPmIdx ctx.t (typeMaxLvl ctx.t - k) va =
      getPmIdx ctx.t (typeMaxLvl ctx.t - k) va') ∨ pmo.Apart pmo'

/-- Where `va` is mapped: the present leaf of its walk and the effective protections. -/
def walkResult (ctx : Ctx) (m : Mem) (va : Va) : Option (Pmeo × Prot × Option Bool) := do
  let (es, last) ← walk ctx m va
  let leaf ← es.getLast?
  let (prots, user) ← getEffectiveProts ctx m va
  if last.t ≠ .invalid ∧ leaf.isPresent = some true then some (leaf, prots, user) else none

variable {r : Rpb} {h : HostCtx} {m : Mem} {va : Va} {lvl d p q n : Nat} {e : Pme}

/-! ## One level -/

/-- The page map that an entry links. -/
def childOf (r : Rpb) (t : HptType) (lvl : Nat) (e : Pme) : Option Nat :=
  if pmeIsPresent t lvl e = some true ∧ pmeIsPage t lvl e = some false then
    (pmeGetAddress t lvl e).bind fun pa =>
      if spa2hva1 r pa.toNat = 0 then none else some (spa2hva1 r pa.toNat)
  else none

/-- The entry is a present page. -/
def leafOf (t : HptType) (lvl : Nat) (e : Pme) : Bool :=
  pmeIsPresent t lvl e == some true && pmeIsPage t lvl e == some true

theorem getPmeoByVa_eq (hl : OnLvl h.t lvl) (m : Mem) (p : Nat) (va : Va) :
    (⟨p, h.t, lvl⟩ : Pmo).getPmeoByVa m va = some ⟨entryAt h.t m p (idxOf h.t lvl va), h.t, lvl⟩ := by
  rw [Pmo.getPmeoByVa, pmGetPmeByVa_eq hl, Option.map_some]

theorem exists_isPage (hl : OnLvl h.t lvl) (e : Pme) : ∃ b, pmeIsPage h.t lvl e = some b :=
  ⟨_, pmeIsPage_eq hl e⟩

theorem childOf_two_le (hl : OnLvl h.t lvl) (hc : childOf r h.t lvl e = some q) : 2 ≤ lvl := by
  obtain ⟨⟨-, hpage⟩, -⟩ := Option.ite_none_right_eq_some.1 hc
  exact hl.two_le hpage

theorem childOf_ne_zero (hc : childOf r h.t lvl e = some q) : q ≠ 0 := by
  obtain ⟨-, hc⟩ := Option.ite_none_right_eq_some.1 hc
  obtain ⟨pa, -, hc⟩ := Option.bind_eq_some_iff.1 hc
  obtain ⟨h0, hc⟩ := Option.ite_none_left_eq_some.1 hc
  rwa [← Option.some.inj hc]

theorem childOf_of_address {pa : Pa} (hpresent : pmeIsPresent h.t lvl e = some true)
    (hpage : pmeIsPage h.t lvl e = some false) (hpa : pmeGetAddress h.t lvl e = some pa)
    (hq : spa2hva1 r pa.toNat = q) (h0 : q ≠ 0) : childOf r h.t lvl e = some q := by
  subst hq
  rw [childOf, if_pos ⟨hpresent, hpage⟩, hpa, Option.bind_some, if_neg h0]

theorem step_of_child (hl : OnLvl h.t lvl) (hc : childOf r h.t lvl e = some q) :
    Step (h.super r) m ⟨p, h.t, lvl⟩ ⟨e, h.t, lvl⟩ true ⟨q, h.t, lvl - 1⟩ := by
  have h0 := childOf_ne_zero hc
  have hsz := pmSize_eq (hl.pred (childOf_two_le hl hc))
  obtain ⟨⟨hpresent, hpage⟩, hc⟩ := Option.ite_none_right_eq_some.1 hc
  obtain ⟨pa, hpa, hc⟩ := Option.bind_eq_some_iff.1 hc
  obtain ⟨-, hc⟩ := Option.ite_none_left_eq_some.1 hc
  have hq := Option.some.inj hc
  subst hq
  exact .down hpresent hpage hsz hpa rfl h0

/-- Where there is no page map to go down to, the walk stops, at a present page or at nothing. -/
theorem step_of_no_child (hl : OnLvl h.t lvl) (hc : childOf r h.t lvl e = none) :
    ∃ last, Step (h.super r) m ⟨p, h.t, lvl⟩ ⟨e, h.t, lvl⟩ false last ∧
      ((last.t ≠ .invalid ∧ pmeIsPresent h.t lvl e = some true) ↔ leafOf h.t lvl e = true) := by
  have hvalid : h.t ≠ .invalid := by
    rcases hl.walked with ht | ht | ht <;> simp [ht]
  obtain ⟨page, hpage⟩ := exists_isPage hl e
  have hpresent := pmeIsPresent_eq hl e
  cases hb : e.getLsbD 0 with
  | false =>
    rw [hb] at hpresent
    exact ⟨_, .absent hpresent, by simp [leafOf, hpresent]⟩
  | true =>
    rw [hb] at hpresent
    cases page with
    | true => exact ⟨_, .page hpresent hpage, by simp [leafOf, hpresent, hpage, hvalid]⟩
    | false =>
      have hpa := getAddress_map hl hpage
      have hsz := pmSize_eq (hl.pred (hl.two_le hpage))
      rw [childOf, if_pos ⟨hpresent, hpage⟩, hpa, Option.bind_some] at hc
      by_cases h0 : spa2hva1 r (copyBits 0 e (addrHi h.t) 12 0).toNat = 0
      · have hptr : (h.super r).pa2ptr m (copyBits 0 e (addrHi h.t) 12 0) (pmSizes h.t (lvl - 1)) protsR
            .cpl0 = some (0, pmSizes h.t (lvl - 1)) := by
          show some (spa2hva1 r _, _) = _
          rw [h0]
        exact ⟨_, .lost hpresent hpage hsz hpa hptr, by simp [leafOf, hpage]⟩
      · rw [if_neg h0] at hc
        cases hc

/-! ## The tree -/

/-- The host's tables as a radix tree. -/
def treeShape (r : Rpb) (h : HostCtx) : Radix.Shape Va Nat Nat Pme where
  idx va d := idxOf h.t (typeMaxLvl h.t - d) va
  next d e := childOf r h.t (typeMaxLvl h.t - d) e
  leaf d e := leafOf h.t (typeMaxLvl h.t - d) e
  root := spa2hva1 r h.rootPa.toNat

theorem typeMaxLvl_pos {t : HptType} (h : t.Walked) : 1 ≤ typeMaxLvl t := by
  rcases h with rfl | rfl | rfl <;> decide

theorem onLvl_of_lt (hw : h.t.Walked) (hd : d < typeMaxLvl h.t) : OnLvl h.t (typeMaxLvl h.t - d) :=
  ⟨hw, by omega, by omega⟩

theorem getRoot_eq (hw : h.t.Walked) (h0 : spa2hva1 r h.rootPa.toNat ≠ 0) :
    getRoot (h.super r) m =
      some (some ⟨spa2hva1 r h.rootPa.toNat, h.t, typeMaxLvl h.t⟩) := by
  have hsz := pmSize_eq ⟨hw, typeMaxLvl_pos hw, Nat.le_refl _⟩
  simp [getRoot, HostCtx.super, hsz, h0]

/-- A map that the tree reaches is not NULL, and above the last level. -/
theorem lt_of_mapAt (hw : h.t.Walked) (h0 : spa2hva1 r h.rootPa.toNat ≠ 0)
    (hp : Radix.mapAt (treeShape r h) (entryAt h.t m) va d = some p) :
    p ≠ 0 ∧ d < typeMaxLvl h.t := by
  induction d generalizing p with
  | zero =>
    rw [← Option.some.inj hp]
    exact ⟨h0, typeMaxLvl_pos hw⟩
  | succ d ih =>
    obtain ⟨p', hp', hnext⟩ := Radix.mapAt_succ_eq_some.1 hp
    obtain ⟨-, hd⟩ := ih hp'
    have h2 := childOf_two_le (onLvl_of_lt hw hd) hnext
    exact ⟨childOf_ne_zero hnext, by omega⟩

/-- **The page maps of the walker are those of the tree.** -/
theorem mapAt_eq (hw : h.t.Walked) (h0 : spa2hva1 r h.rootPa.toNat ≠ 0) :
    mapAt (h.super r) m va d =
      (Radix.mapAt (treeShape r h) (entryAt h.t m) va d).map fun p => ⟨p, h.t, typeMaxLvl h.t - d⟩ := by
  induction d with
  | zero =>
    rw [mapAt, getRoot_eq hw h0]
    rfl
  | succ d ih =>
    rw [mapAt, ih, Radix.mapAt]
    cases hp : Radix.mapAt (treeShape r h) (entryAt h.t m) va d with
    | none => rfl
    | some p =>
      obtain ⟨hp0, hd⟩ := lt_of_mapAt hw h0 hp
      have hl := onLvl_of_lt hw hd
      simp only [Option.map_some, Option.bind_some]
      cases hc : (treeShape r h).next d (entryAt h.t m p ((treeShape r h).idx va d)) with
      | none =>
        obtain ⟨last, hstep, -⟩ := step_of_no_child (m := m) (p := p) hl hc
        rw [nextLvl_iff.2 ⟨hp0, _, getPmeoByVa_eq hl m p va, hstep⟩]
        rfl
      | some q =>
        rw [nextLvl_iff.2 ⟨hp0, _, getPmeoByVa_eq hl m p va, step_of_child hl hc⟩]
        rfl

/-! ## Walk results -/

/-- Entries with their levels, from `lvl` down. -/
def pmeos (t : HptType) : Nat → List Pme → List Pmeo
  | _, [] => []
  | lvl, e :: es => ⟨e, t, lvl⟩ :: pmeos t (lvl - 1) es

/-- The result of a walk to a leaf by its entries. -/
def resultOf (es : List Pmeo) : Option (Pmeo × Prot × Option Bool) :=
  es.getLast?.map fun leaf => (leaf, (protsOf es protsRWX true).1, some (protsOf es protsRWX true).2)

/-- The walk ends in a present leaf. -/
def Mapped (last : Pmo) (leaf : Pmeo) : Prop := last.t ≠ .invalid ∧ leaf.isPresent = some true

instance (last : Pmo) (leaf : Pmeo) : Decidable (Mapped last leaf) :=
  inferInstanceAs (Decidable (_ ∧ _))

theorem walks_of_lookupFrom (hw : h.t.Walked) (hn : typeMaxLvl h.t - d = n) (hpos : 1 ≤ n)
    (hp : p ≠ 0) : ∃ es last leaf, Walks (h.super r) m va ⟨p, h.t, n⟩ es last ∧ es.length ≤ n ∧
      es.getLast? = some leaf ∧
      (∀ es', Radix.lookupFrom (treeShape r h) (entryAt h.t m) va n d p = some es' →
        es = pmeos h.t n es' ∧ Mapped last leaf) ∧
      (Radix.lookupFrom (treeShape r h) (entryAt h.t m) va n d p = none → ¬ Mapped last leaf) := by
  induction n generalizing d p with
  | zero => omega
  | succ n ih =>
    have hl : OnLvl h.t (n + 1) := hn ▸ onLvl_of_lt hw (by omega)
    have hidx : (treeShape r h).idx va d = idxOf h.t (n + 1) va := by
      rw [← hn]
      rfl
    have hget := getPmeoByVa_eq hl m p va
    simp only [Radix.lookupFrom, hidx]
    generalize entryAt h.t m p (idxOf h.t (n + 1) va) = e at hget ⊢
    have hnext : (treeShape r h).next d e = childOf r h.t (n + 1) e := by
      rw [← hn]
      rfl
    have hleaf : (treeShape r h).leaf d e = leafOf h.t (n + 1) e := by
      rw [← hn]
      rfl
    rw [hnext, hleaf]
    cases hc : childOf r h.t (n + 1) e with
    | none =>
      obtain ⟨last, hstep, hiff⟩ := step_of_no_child (m := m) (p := p) hl hc
      refine ⟨_, last, _, .stop hp hget hstep, by simp, rfl, ?_, ?_⟩
      · intro es' hes
        obtain ⟨hlf, hes⟩ := Option.ite_none_right_eq_some.1 hes
        rw [← Option.some.inj hes]
        exact ⟨rfl, hiff.2 hlf⟩
      · intro hnone hmapped
        rw [if_pos (hiff.1 hmapped)] at hnone
        cases hnone
    | some q =>
      have h2 := childOf_two_le hl hc
      obtain ⟨es, last, leaf, hwalk, hlen, hlast, hsome, hnone⟩ :=
        ih (d := d + 1) (p := q) (by omega) (by omega) (childOf_ne_zero hc)
      refine ⟨_, last, leaf, .down hp hget (step_of_child hl hc) hwalk, by simpa using hlen, ?_, ?_, ?_⟩
      · rw [List.getLast?_cons, hlast]
        rfl
      · intro es' hes
        obtain ⟨es'', hlook, rfl⟩ := Option.map_eq_some_iff.1 hes
        obtain ⟨rfl, hmapped⟩ := hsome es'' hlook
        exact ⟨rfl, hmapped⟩
      · exact fun hmap => hnone (Option.map_eq_none_iff.1 hmap)

/-- **The walk result is the lookup in the tree**, with the levels and protections of its entries. -/
theorem walkResult_eq (hw : h.t.Walked) (h0 : spa2hva1 r h.rootPa.toNat ≠ 0) :
    walkResult (h.super r) m va =
      (Radix.lookup (treeShape r h) (entryAt h.t m) (typeMaxLvl h.t) va).bind fun es =>
        resultOf (pmeos h.t (typeMaxLvl h.t) es) := by
  obtain ⟨es, last, leaf, hwalk, hlen, hleaf, hsome, hnone⟩ :=
    walks_of_lookupFrom (r := r) (m := m) (d := 0) hw rfl (typeMaxLvl_pos hw) h0
  have hwalk' : walk (h.super r) m va = some (es, last) :=
    walk_iff.2 ⟨_, getRoot_eq hw h0, hwalk, hlen⟩
  cases hlook : Radix.lookup (treeShape r h) (entryAt h.t m) (typeMaxLvl h.t) va with
  | none =>
    have hno : ¬ (last.t ≠ .invalid ∧ leaf.isPresent = some true) := hnone hlook
    simp only [walkResult, hwalk', hleaf, Option.bind_eq_bind, Option.bind_some, Option.bind_none,
      if_neg hno]
    cases getEffectiveProts (h.super r) m va <;> rfl
  | some es' =>
    obtain ⟨rfl, hlast, hpresent⟩ := hsome es' hlook
    have heff := getEffectiveProts_of_walk hwalk' hlast
    simp only [walkResult, hwalk', hleaf, heff, Option.bind_eq_bind, Option.bind_some, resultOf]
    rw [Nat.sub_zero] at hleaf ⊢
    rw [hleaf, if_pos ⟨hlast, hpresent⟩, Option.map_some]

end Xmhf.Hpt
