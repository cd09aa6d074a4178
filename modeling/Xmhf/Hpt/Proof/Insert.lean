import Xmhf.Hpt.Proof.Tree

/-!
# Insertion with allocation

`hptw_insert_pmeo_alloc` on the host's tree of page maps. The invariant `Inv` is kept by each page map
that the loop links (`Inv.link`), which shows in no walk result; the last write shows to the addresses
of the inserted entry only.

* `insertPmeoAlloc_spec`: on success the entry is there and all other walk results are as before; on an
  error all of them are.
-/

namespace Xmhf.Hpt

open Xmhf.Memory Xmhf.Bitfield Xmhf.Paging

variable {σ : Type}

/-! ## The supply and the tree -/

/-- `gzp` returns the pages of the supply, each zeroed, one after the other, or NULL. -/
def Supplies (gzp : Nat → Nat → σ → Mem → Option (Nat × σ × Mem)) (pages : σ → List Nat) : Prop :=
  ∀ alignment sz s m p s' m', gzp alignment sz s m = some (p, s', m') →
    (p = 0 ∧ m' = m) ∨ (p ≠ 0 ∧ pages s = p :: pages s' ∧ m' = zeroPage m p)

/-- Different pages that no page map of the tree uses. -/
structure FreshPages (ctx : Ctx) (m : Mem) (ps : List Nat) : Prop where
  page : ∀ p ∈ ps, p % pageSize4K = 0 ∧ p + pageSize4K ≤ 2 ^ 32
  nodup : ps.Nodup
  unused : ∀ p ∈ ps, ∀ va d pmo, mapAt ctx m va d = some pmo →
    pmo.pm + pmSizes pmo.t pmo.lvl ≤ p ∨ p + pageSize4K ≤ pmo.pm

variable {r : Rpb} {h : HostCtx} {m m' m₁ : Mem} {va va' va₀ : Va} {ps : List Nat}
  {lvl d d₀ p p₀ q n : Nat} {e : Pme}

/-- The bytes of a page map at a depth. -/
def sizeAt (h : HostCtx) (d : Nat) : Nat := pmSizes h.t (typeMaxLvl h.t - d)

/-- The page map that the tree reaches. -/
abbrev treeAt (r : Rpb) (h : HostCtx) (m : Mem) (va : Va) (d : Nat) : Option Nat :=
  Radix.mapAt (treeShape r h) (entryAt h.t m) va d

/-- A tree of page maps apart from each other, and pages apart from it. -/
structure Inv (r : Rpb) (h : HostCtx) (m : Mem) (ps : List Nat) : Prop where
  walked : h.t.Walked
  root : spa2hva1 r h.rootPa.toNat ≠ 0
  tree : Radix.IsTree (treeShape r h) (entryAt h.t m)
  apart : ∀ va va' d d' p p', treeAt r h m va d = some p → treeAt r h m va' d' = some p' → p ≠ p' →
    p + sizeAt h d ≤ p' ∨ p' + sizeAt h d' ≤ p
  page : ∀ q ∈ ps, q % pageSize4K = 0 ∧ q + pageSize4K ≤ 2 ^ 32
  nodup : ps.Nodup
  unused : ∀ q ∈ ps, ∀ va d p, treeAt r h m va d = some p →
    p + sizeAt h d ≤ q ∨ q + pageSize4K ≤ p

theorem sizeAt_bounds (hw : h.t.Walked) (hd : d < typeMaxLvl h.t) :
    0 < sizeAt h d ∧ sizeAt h d ≤ pageSize4K := by
  rw [sizeAt]
  rcases (onLvl_of_lt hw hd).cases with ⟨ht, hl | hl⟩ | ⟨ht, hl | hl | hl⟩ | ⟨ht, hl | hl | hl | hl⟩ <;>
    rw [hl, ht] <;> decide

theorem Inv.of_tree (hw : h.t.Walked) (h0 : spa2hva1 r h.rootPa.toNat ≠ 0)
    (htree : TreeOfMaps (h.super r) m) (hfresh : FreshPages (h.super r) m ps) : Inv r h m ps := by
  have hmap : ∀ va d p, treeAt r h m va d = some p →
      mapAt (h.super r) m va d = some ⟨p, h.t, typeMaxLvl h.t - d⟩ := by
    intro va d p hp
    have hp' : Radix.mapAt (treeShape r h) (entryAt h.t m) va d = some p := hp
    rw [mapAt_eq hw h0, hp', Option.map_some]
  refine ⟨hw, h0, ?_, ?_, hfresh.page, hfresh.nodup, ?_⟩
  · intro va va' d d' p hp hp'
    rcases htree _ _ _ _ _ _ (hmap _ _ _ hp) (hmap _ _ _ hp') with ⟨hd, hidx⟩ | hapart
    · exact ⟨hd, fun k hk => congrArg (Option.getD · 0) (hidx k hk)⟩
    · -- a page map is not apart from itself
      have h1 := (sizeAt_bounds hw (lt_of_mapAt hw h0 hp).2).1
      have h2 := (sizeAt_bounds hw (lt_of_mapAt hw h0 hp').2).1
      have hself : p + sizeAt h d ≤ p ∨ p + sizeAt h d' ≤ p := hapart
      omega
  · intro va va' d d' p p' hp hp' hne
    rcases htree _ _ _ _ _ _ (hmap _ _ _ hp) (hmap _ _ _ hp') with ⟨rfl, hidx⟩ | hapart
    · have ha : Radix.Agree (treeShape r h) d va va' :=
        fun k hk => congrArg (Option.getD · 0) (hidx k hk)
      rw [treeAt, ha.mapAt_eq] at hp
      exact absurd (Option.some.inj (hp.symm.trans hp')) hne
    · exact hapart
  · exact fun q hq va d p hp => hfresh.unused q hq va d _ (hmap _ _ _ hp)

/-! ## Writes to the tree -/

namespace Inv

variable (inv : Inv r h m ps)
include inv

/-- A write to the entry of `va₀` in its page map, in a memory that has the tree as before. -/
theorem writes (hp : treeAt r h m va₀ d₀ = some p₀) (he : Fits h.t e)
    (hm : ∀ va d p, treeAt r h m va d = some p → ∀ x, p ≤ x → x < p + sizeAt h d → m₁ x = m x) :
    Radix.Writes (treeShape r h) (entryAt h.t m)
      (entryAt h.t (writeLE m₁ (p₀ + widthOf h.t * (treeShape r h).idx va₀ d₀) (widthOf h.t) e.toNat))
      va₀ d₀ p₀ e where
  tree := inv.tree
  map := hp
  entry := entryAt_write inv.walked he ..
  other va d p hp' hne := by
    have hl := onLvl_of_lt inv.walked (lt_of_mapAt inv.walked inv.root hp').2
    have hl₀ := onLvl_of_lt inv.walked (lt_of_mapAt inv.walked inv.root hp).2
    have hin : widthOf h.t * (treeShape r h).idx va d + widthOf h.t ≤ sizeAt h d :=
      (getPmIdx_eq hl va).2
    have hin₀ : widthOf h.t * (treeShape r h).idx va₀ d₀ + widthOf h.t ≤ sizeAt h d₀ :=
      (getPmIdx_eq hl₀ va₀).2
    refine (entryAt_congr inv.walked fun x h1 h2 => ?_).symm
    rw [← hm va d p hp' x (by omega) (by omega)]
    symm
    apply writeLE_apply_of_disjoint
    by_cases hpp : p = p₀
    · -- another entry of the same page map
      subst hpp
      have hdiff := entry_apart (w := widthOf h.t) p (hne rfl)
      omega
    · have hap := inv.apart _ _ _ _ _ _ hp' hp hpp
      omega

end Inv

/-- The tree has its bytes also after a page of the supply is zeroed. -/
theorem zeroPage_eq (inv : Inv r h m (q :: ps)) :
    ∀ va d p, treeAt r h m va d = some p → ∀ x, p ≤ x → x < p + sizeAt h d →
      zeroPage m q x = m x := by
  intro va d p hp x h1 h2
  have hun := inv.unused q List.mem_cons_self va d p hp
  exact if_neg (by omega)

/-- `m` with the page `q` zeroed and the entry of `va₀` set to `e`. -/
def linked (r : Rpb) (h : HostCtx) (m : Mem) (va₀ : Va) (d₀ p₀ q : Nat) (e : Pme) : Mem :=
  writeLE (zeroPage m q) (p₀ + widthOf h.t * (treeShape r h).idx va₀ d₀) (widthOf h.t) e.toNat

/-- The new page map has zero entries. -/
theorem entryAt_linked (inv : Inv r h m (q :: ps)) (hp : treeAt r h m va₀ d₀ = some p₀)
    (hl : OnLvl h.t lvl) (hsz : pmSizes h.t lvl ≤ pageSize4K) (va : Va) :
    entryAt h.t (linked r h m va₀ d₀ p₀ q e) q (idxOf h.t lvl va) = 0 := by
  have hin := (getPmIdx_eq hl va).2
  have hl₀ := onLvl_of_lt inv.walked (lt_of_mapAt inv.walked inv.root hp).2
  have hin₀ : widthOf h.t * (treeShape r h).idx va₀ d₀ + widthOf h.t ≤ sizeAt h d₀ :=
    (getPmIdx_eq hl₀ va₀).2
  have hun := inv.unused q List.mem_cons_self _ _ _ hp
  refine entryAt_zero inv.walked fun x h1 h2 => ?_
  rw [linked, writeLE_apply_of_disjoint (by omega), zeroPage, if_pos (by omega)]

/-- **One page map linked**: no page map of the tree is in the new page, and in the place of an entry
that is not present it makes a tree again. -/
theorem Inv.link (inv : Inv r h m (q :: ps)) (hp : treeAt r h m va₀ d₀ = some p₀)
    (hpresent : pmeIsPresent h.t (typeMaxLvl h.t - d₀)
      (entryAt h.t m p₀ ((treeShape r h).idx va₀ d₀)) = some false)
    (he : Fits h.t e) (hlink : childOf r h.t (typeMaxLvl h.t - d₀) e = some q) :
    Radix.Links (treeShape r h) (entryAt h.t m) (entryAt h.t (linked r h m va₀ d₀ p₀ q e)) va₀ d₀ p₀ e q ∧
      Inv r h (linked r h m va₀ d₀ p₀ q e) ps := by
  have hd₀ := (lt_of_mapAt inv.walked inv.root hp).2
  have hl₀ := onLvl_of_lt inv.walked hd₀
  have h2 := childOf_two_le hl₀ hlink
  have hnothing : ∀ {lvl : Nat} {e : Pme}, pmeIsPresent h.t lvl e = some false →
      childOf r h.t lvl e = none ∧ leafOf h.t lvl e = false := by
    intro lvl e hpr
    simp [childOf, leafOf, hpr]
  have hlinks : Radix.Links (treeShape r h) (entryAt h.t m)
      (entryAt h.t (linked r h m va₀ d₀ p₀ q e)) va₀ d₀ p₀ e q := by
    refine ⟨inv.writes hp he (zeroPage_eq inv), hnothing hpresent, hlink, ?_, ?_⟩
    · -- a page map in the new page would not be apart from it
      intro va d hq
      have hun := inv.unused q List.mem_cons_self va d q hq
      have hsz := (sizeAt_bounds inv.walked (lt_of_mapAt inv.walked inv.root hq).2).1
      have hpage : 0 < pageSize4K := by decide
      omega
    · intro va
      have hd₁ : d₀ + 1 < typeMaxLvl h.t := by omega
      have hl₁ := onLvl_of_lt inv.walked hd₁
      have hzero : entryAt h.t (linked r h m va₀ d₀ p₀ q e) q ((treeShape r h).idx va (d₀ + 1)) = 0 :=
        entryAt_linked inv hp hl₁ (sizeAt_bounds inv.walked hd₁).2 va
      rw [hzero]
      exact hnothing (by rw [pmeIsPresent_eq hl₁]; rfl)
  have hcases : ∀ {va d p}, treeAt r h (linked r h m va₀ d₀ p₀ q e) va d = some p →
      treeAt r h m va d = some p ∨ p = q ∧ sizeAt h d ≤ pageSize4K := by
    intro va d p hnew
    rcases hlinks.mapAt_cases hnew with hold | ⟨rfl, rfl, -⟩
    · exact Or.inl hold
    · exact Or.inr ⟨rfl, (sizeAt_bounds inv.walked (by omega)).2⟩
  refine ⟨hlinks, inv.walked, inv.root, hlinks.isTree, ?_, ?_, ?_, ?_⟩
  · intro va va' d d' p p' hm hm' hne
    rcases hcases hm with hold | ⟨rfl, hsz⟩ <;> rcases hcases hm' with hold' | ⟨rfl, hsz'⟩
    · exact inv.apart _ _ _ _ _ _ hold hold' hne
    · have hun := inv.unused p' List.mem_cons_self va d p hold
      omega
    · have hun := inv.unused p List.mem_cons_self va' d' p' hold'
      omega
    · exact absurd rfl hne
  · exact fun p hp => inv.page p (List.mem_cons_of_mem _ hp)
  · exact (List.nodup_cons.1 inv.nodup).2
  · intro p hps va d p' hm
    rcases hcases hm with hold | ⟨rfl, hsz⟩
    · exact inv.unused p (List.mem_cons_of_mem _ hps) va d p' hold
    · -- different pages of the supply
      have hne : p ≠ p' := fun heq => (List.nodup_cons.1 inv.nodup).1 (heq ▸ hps)
      have h1 := (inv.page p (List.mem_cons_of_mem _ hps)).1
      have h2 := (inv.page p' List.mem_cons_self).1
      unfold pageSize4K at *
      omega

/-! ## The loop -/

/-- No walk result has changed. -/
def SameResults (r : Rpb) (h : HostCtx) (m m' : Mem) : Prop :=
  ∀ va, Radix.lookup (treeShape r h) (entryAt h.t m') (typeMaxLvl h.t) va =
    Radix.lookup (treeShape r h) (entryAt h.t m) (typeMaxLvl h.t) va

/-- The host's `ptr2pa` and `pa2ptr` are inverse, and keep pages. -/
theorem ptr2pa_spec {ctx : AllocCtx σ} (hctx : ctx.toCtx = h.super r) (hq : q % pageSize4K = 0)
    (hlt : q + pageSize4K ≤ 2 ^ 32) :
    (ctx.ptr2pa q).toNat % 2 ^ 12 = 0 ∧ (ctx.ptr2pa q).toNat < 2 ^ 32 ∧
      spa2hva1 r (ctx.ptr2pa q).toNat = q := by
  have hpa : (ctx.ptr2pa q).toNat = hva2spa1 r q := by
    rw [hctx]
    show (BitVec.ofNat 64 (hva2spa1 r q)).toNat = hva2spa1 r q
    rw [BitVec.toNat_ofNat]
    unfold hva2spa1 Word.sub32
    omega
  have h1 := r.offset
  have h2 := r.phys_lt
  have h3 := r.virt_le
  rw [hpa]
  unfold hva2spa1 spa2hva1 Word.sub32 Word.add32
  unfold pageSize4K at *
  omega

variable {ctx : AllocCtx σ} {pages : σ → List Nat} {s s' : σ} {endLvl : Nat} {b : Bool}

theorem allocLvl_spec (hctx : ctx.toCtx = h.super r) (hg : Supplies ctx.gzp pages)
    (inv : Inv r h m (pages s)) (hp : treeAt r h m va d = some p)
    (hrun : allocLvl ctx va ⟨p, h.t, typeMaxLvl h.t - d⟩ s m = some (b, s', m')) :
    SameResults r h m m' ∧ (b = true → Inv r h m' (pages s') ∧ treeAt r h m' va d = some p) := by
  have hl := onLvl_of_lt inv.walked (lt_of_mapAt inv.walked inv.root hp).2
  have hrefl : SameResults r h m m := fun _ => rfl
  simp only [allocLvl, getPmeoByVa_eq hl, Option.bind_eq_bind, Option.bind_some] at hrun
  obtain ⟨page, hpage, hrun⟩ := Option.bind_eq_some_iff.1 hrun
  cases page with
  | true =>
    cases hrun
    exact ⟨hrefl, nofun⟩
  | false =>
    simp only [Bool.false_eq_true, if_false] at hrun
    obtain ⟨present, hpresent, hrun⟩ := Option.bind_eq_some_iff.1 hrun
    cases present with
    | true =>
      cases hrun
      exact ⟨hrefl, fun _ => ⟨inv, hp⟩⟩
    | false =>
      simp only [Bool.false_eq_true, if_false] at hrun
      obtain ⟨sz, -, hrun⟩ := Option.bind_eq_some_iff.1 hrun
      obtain ⟨⟨q, s₁, m₁⟩, hgzp, hrun⟩ := Option.bind_eq_some_iff.1 hrun
      dsimp only at hrun
      rcases hg _ _ _ _ _ _ _ hgzp with ⟨rfl, rfl⟩ | ⟨hq0, hpages, rfl⟩
      · rw [if_pos rfl] at hrun
        cases hrun
        exact ⟨hrefl, nofun⟩
      · rw [if_neg hq0] at hrun
        rw [hpages] at inv
        obtain ⟨hqa, hqlt⟩ := inv.page q List.mem_cons_self
        obtain ⟨h1, h2, h3⟩ := ptr2pa_spec hctx hqa hqlt
        obtain ⟨e, hlink, hpres, hpg, haddr, hfit⟩ :=
          link_spec hl (entryAt_fits inv.walked ..) hpage h1 h2
        rw [hlink, Option.bind_some, Pmo.setPmeByVa, pmSetPmeByVa_eq hl, Option.bind_some] at hrun
        cases hrun
        obtain ⟨hlinks, hinv⟩ :=
          inv.link hp hpresent hfit (childOf_of_address hpres hpg haddr h3 hq0)
        refine ⟨fun va => hlinks.lookup_eq, fun _ => ⟨hinv, ?_⟩⟩
        exact (hlinks.mapAt_eq_of_le (Nat.le_refl d)).trans hp

theorem treeAt_of_nextLvl (inv : Inv r h m ps) (hp : treeAt r h m va d = some p) {pmo' : Pmo}
    (hnext : nextLvl (h.super r) m va ⟨p, h.t, typeMaxLvl h.t - d⟩ = some (true, pmo')) :
    ∃ q, pmo' = ⟨q, h.t, typeMaxLvl h.t - (d + 1)⟩ ∧ treeAt r h m va (d + 1) = some q := by
  have hp' : Radix.mapAt (treeShape r h) (entryAt h.t m) va d = some p := hp
  have hmap : mapAt (h.super r) m va (d + 1) = some pmo' := by
    rw [mapAt, mapAt_eq inv.walked inv.root, hp', Option.map_some, Option.bind_some, hnext]
    rfl
  rw [mapAt_eq inv.walked inv.root] at hmap
  obtain ⟨q, hq, rfl⟩ := Option.map_eq_some_iff.1 hmap
  exact ⟨q, rfl, hq⟩

/-- **The loop** keeps every walk result and the tree, and gets down the page maps of `va`. -/
theorem getPmoAllocLoop_spec (hctx : ctx.toCtx = h.super r) (hg : Supplies ctx.gzp pages)
    (inv : Inv r h m (pages s)) (hp : treeAt r h m va d = some p) {found : Option Pmo}
    (hrun : getPmoAllocLoop ctx endLvl va n ⟨p, h.t, typeMaxLvl h.t - d⟩ s m = some (found, s', m')) :
    SameResults r h m m' ∧ ∀ pmo, found = some pmo → ∃ d' p', Inv r h m' (pages s') ∧
      treeAt r h m' va d' = some p' ∧ pmo = ⟨p', h.t, typeMaxLvl h.t - d'⟩ := by
  have hhere : ∀ {d p s m}, Inv r h m (pages s) → treeAt r h m va d = some p →
      ∀ pmo, some (⟨p, h.t, typeMaxLvl h.t - d⟩ : Pmo) = some pmo →
        ∃ d' p', Inv r h m (pages s) ∧ treeAt r h m va d' = some p' ∧
          pmo = ⟨p', h.t, typeMaxLvl h.t - d'⟩ :=
    fun inv hp _ hpmo => ⟨_, _, inv, hp, (Option.some.inj hpmo).symm⟩
  induction n generalizing d p s m with
  | zero =>
    cases hrun
    exact ⟨fun _ => rfl, hhere inv hp⟩
  | succ n ih =>
    rw [getPmoAllocLoop] at hrun
    by_cases hend : endLvl < typeMaxLvl h.t - d
    · simp only [if_pos hend, Option.bind_eq_bind] at hrun
      obtain ⟨⟨linked, s₁, m₁⟩, halloc, hrun⟩ := Option.bind_eq_some_iff.1 hrun
      obtain ⟨hsame, hlinked⟩ := allocLvl_spec hctx hg inv hp halloc
      cases linked with
      | false =>
        cases hrun
        exact ⟨hsame, nofun⟩
      | true =>
        simp only [if_true, hctx] at hrun
        obtain ⟨⟨down, pmo'⟩, hnext, hrun⟩ := Option.bind_eq_some_iff.1 hrun
        obtain ⟨u, hdown, hrun⟩ := Option.bind_eq_some_iff.1 hrun
        obtain rfl : down = true := (Option.guard_eq_some' _).1 hdown
        obtain ⟨inv₁, hp₁⟩ := hlinked rfl
        obtain ⟨q, rfl, hq⟩ := treeAt_of_nextLvl inv₁ hp₁ hnext
        obtain ⟨hsame', hfound⟩ := ih inv₁ hq hrun
        exact ⟨fun va => (hsame' va).trans (hsame va), hfound⟩
    · rw [if_neg hend] at hrun
      cases hrun
      exact ⟨fun _ => rfl, hhere inv hp⟩

/-! ## The insertion -/

theorem nextLvl_of_treeAt (hw : h.t.Walked) (h0 : spa2hva1 r h.rootPa.toNat ≠ 0)
    (hp : treeAt r h m va d = some p) (hq : treeAt r h m va (d + 1) = some q) :
    nextLvl (h.super r) m va ⟨p, h.t, typeMaxLvl h.t - d⟩ =
      some (true, ⟨q, h.t, typeMaxLvl h.t - (d + 1)⟩) := by
  obtain ⟨hp0, hd⟩ := lt_of_mapAt hw h0 hp
  have hl := onLvl_of_lt hw hd
  obtain ⟨p', hp', hc⟩ := Radix.mapAt_succ_eq_some.1 hq
  obtain rfl : p = p' := Option.some.inj (hp.symm.trans hp')
  exact nextLvl_iff.2 ⟨hp0, _, getPmeoByVa_eq hl m p va, step_of_child hl hc⟩

/-- `hptw_get_pmo` gets to a page map of the tree. -/
theorem getPmo_of_treeAt (hw : h.t.Walked) (h0 : spa2hva1 r h.rootPa.toNat ≠ 0)
    (hp : treeAt r h m va d = some p) :
    getPmo (h.super r) m (typeMaxLvl h.t - d) va = some ⟨p, h.t, typeMaxLvl h.t - d⟩ := by
  have hd := (lt_of_mapAt hw h0 hp).2
  have hloop : ∀ n k pk, d = k + n → treeAt r h m va k = some pk →
      getPmoLoop (h.super r) m (typeMaxLvl h.t - d) va (typeMaxLvl h.t - k)
        ⟨pk, h.t, typeMaxLvl h.t - k⟩ = some ⟨p, h.t, typeMaxLvl h.t - d⟩ := by
    intro n k
    -- on the levels that are left
    obtain ⟨f, hf⟩ : ∃ f, typeMaxLvl h.t - k = f := ⟨_, rfl⟩
    induction n generalizing k f with
    | zero =>
      intro pk hk hpk
      obtain rfl : k = d := hk.symm
      obtain rfl : p = pk := Option.some.inj (hp.symm.trans hpk)
      obtain ⟨f, rfl⟩ : ∃ f', f = f' + 1 := ⟨f - 1, by omega⟩
      rw [hf, getPmoLoop, if_neg (Nat.lt_irrefl _)]
    | succ n ih =>
      intro pk hk hpk
      obtain ⟨q, hq⟩ := Radix.exists_mapAt_of_le hp (show k + 1 ≤ d by omega)
      have hnext := nextLvl_of_treeAt hw h0 hpk hq
      have hrest := ih (k + 1) _ rfl q (by omega) hq
      obtain ⟨f, rfl⟩ : ∃ f', f = f' + 1 := ⟨f - 1, by omega⟩
      have hf' : typeMaxLvl h.t - (k + 1) = f := by omega
      have hlt : typeMaxLvl h.t - d < f + 1 := by omega
      rw [hf, hf'] at hnext
      rw [hf'] at hrest
      rw [hf, getPmoLoop]
      simp only [if_pos hlt, hnext, Option.bind_eq_bind, Option.bind_some, if_true]
      exact hrest
  have hroot := hloop d 0 _ (Nat.zero_add d).symm rfl
  simp only [getPmo, getRoot_eq hw h0, Option.bind_eq_bind, Option.bind_some]
  exact hroot

/-- The addresses that use the same entry at `lvl`: those with the same index there and above. -/
def SameSpan (t : HptType) (lvl : Nat) (va va' : Va) : Prop :=
  ∀ l, lvl ≤ l → l ≤ typeMaxLvl t → getPmIdx t l va = getPmIdx t l va'

theorem sameSpan_of_agree (hw : h.t.Walked) (hd : d < typeMaxLvl h.t)
    (ha : Radix.Agree (treeShape r h) (d + 1) va' va) :
    SameSpan h.t (typeMaxLvl h.t - d) va va' := by
  intro l h1 h2
  have hidx : idxOf h.t (typeMaxLvl h.t - (typeMaxLvl h.t - l)) va' =
      idxOf h.t (typeMaxLvl h.t - (typeMaxLvl h.t - l)) va := ha (typeMaxLvl h.t - l) (by omega)
  have hl : OnLvl h.t l := ⟨hw, by omega, h2⟩
  rw [show typeMaxLvl h.t - (typeMaxLvl h.t - l) = l by omega] at hidx
  rw [(getPmIdx_eq hl va).1, (getPmIdx_eq hl va').1, hidx]

theorem SameResults.walkResult_eq (hw : h.t.Walked) (h0 : spa2hva1 r h.rootPa.toNat ≠ 0)
    (hsame : SameResults r h m m') (va : Va) :
    walkResult (h.super r) m' va = walkResult (h.super r) m va := by
  rw [Hpt.walkResult_eq hw h0, Hpt.walkResult_eq hw h0, hsame va]

/-- **Insertion with allocation.** For a host context of type NORM, PAE or EPT whose page maps form a
tree, with a supply of fresh zeroed pages: on success `hptw_get_pmeo` finds the entry, and every address
outside its span has the walk result from before; on an error every address has. -/
theorem insertPmeoAlloc_spec {gzp : Nat → Nat → σ → Mem → Option (Nat × σ × Mem)} {pmeo : Pmeo}
    {err : Nat} (hw : h.t.Walked) (hg : Supplies gzp pages) (htree : TreeOfMaps (h.super r) m)
    (hfresh : FreshPages (h.super r) m (pages s)) (ht : pmeo.t = h.t) (hfit : Fits h.t pmeo.pme)
    (hrun : insertPmeoAlloc (h.withPages r gzp) pmeo va s m = some (err, s', m')) :
    (err = 0 → getPmeo (h.super r) m' pmeo.lvl va = some pmeo ∧
      ∀ va', ¬ SameSpan h.t pmeo.lvl va va' →
        walkResult (h.super r) m' va' = walkResult (h.super r) m va') ∧
    (err ≠ 0 → ∀ va', walkResult (h.super r) m' va' = walkResult (h.super r) m va') := by
  have hctx : (h.withPages r gzp).toCtx = h.super r := rfl
  simp only [insertPmeoAlloc, Option.bind_eq_bind] at hrun
  obtain ⟨⟨found, s₁, m₁⟩, halloc, hrun⟩ := Option.bind_eq_some_iff.1 hrun
  simp only [getPmoAlloc, hctx, Option.bind_eq_bind] at halloc
  by_cases h0 : spa2hva1 r h.rootPa.toNat = 0
  · -- the root is NULL
    have hroot : getRoot (h.super r) m = some none := by
      have hsz := pmSize_eq ⟨hw, typeMaxLvl_pos hw, Nat.le_refl _⟩
      simp [getRoot, HostCtx.super, hsz, h0]
    rw [hroot, Option.bind_some] at halloc
    cases halloc
    cases hrun
    exact ⟨fun herr => absurd herr (by decide), fun _ _ => rfl⟩
  · rw [getRoot_eq hw h0, Option.bind_some] at halloc
    have inv := Inv.of_tree hw h0 htree hfresh
    have hroot : treeAt r h m va 0 = some (spa2hva1 r h.rootPa.toNat) := rfl
    obtain ⟨hsame, hfound⟩ := getPmoAllocLoop_spec hctx hg inv hroot halloc
    have hres := hsame.walkResult_eq hw h0
    cases found with
    | none =>
      cases hrun
      exact ⟨fun herr => absurd herr (by decide), fun _ => hres⟩
    | some pmo =>
      obtain ⟨d, p, inv₁, hp, rfl⟩ := hfound pmo rfl
      by_cases hlvl : p ≠ 0 ∧ typeMaxLvl h.t - d = pmeo.lvl
      · have hd := (lt_of_mapAt hw h0 hp).2
        have hl := onLvl_of_lt hw hd
        simp only [if_pos hlvl, Pmo.setPmeByVa, pmSetPmeByVa_eq hl, Option.bind_some] at hrun
        cases hrun
        have hwr : Radix.Writes (treeShape r h) (entryAt h.t m₁) (entryAt h.t (writeLE m₁
            (p + widthOf h.t * idxOf h.t (typeMaxLvl h.t - d) va) (widthOf h.t) pmeo.pme.toNat))
            va d p pmeo.pme := inv₁.writes hp hfit fun _ _ _ _ _ _ _ => rfl
        generalize writeLE m₁ (p + widthOf h.t * idxOf h.t (typeMaxLvl h.t - d) va) (widthOf h.t)
          pmeo.pme.toNat = m₂ at hwr ⊢
        refine ⟨fun _ => ⟨?_, ?_⟩, fun herr => absurd rfl herr⟩
        · have hp₂ : treeAt r h m₂ va d = some p := (hwr.mapAt_eq_of_le (Nat.le_refl d)).trans hp
          have hpmo := getPmo_of_treeAt hw h0 hp₂
          have hentry : entryAt h.t m₂ p (idxOf h.t (typeMaxLvl h.t - d) va) = pmeo.pme := hwr.entry
          rw [hlvl.2] at hpmo hl hentry
          simp only [getPmeo, hpmo, Option.bind_eq_bind, Option.bind_some, getPmeoByVa_eq hl, hentry]
          rw [← ht]
        · intro va' hspan
          rw [← hres va', walkResult_eq hw h0, walkResult_eq hw h0, hwr.lookup_eq]
          intro ha
          rw [← hlvl.2] at hspan
          exact hspan (sameSpan_of_agree hw hd ha)
      · simp only [if_neg hlvl] at hrun
        cases hrun
        exact ⟨fun herr => absurd herr (by decide), fun _ => hres⟩

/-! ## The supply of the hypapp -/

/-- The pages that a page list still has. -/
def Pagelist.remaining (pl : Pagelist) : List Nat :=
  (List.range' pl.numUsed (pl.numAllocd - pl.numUsed)).map fun k => pl.pageBase + k * pageSize4K

/-- The page list hands out its pages one after the other. -/
theorem supplies_pagelist : Supplies hostCtxGzp Pagelist.remaining := by
  intro alignment sz pl m p pl' m' hrun
  simp only [hostCtxGzp, pagelistGetZeroedpage, Option.bind_eq_bind, Option.bind_eq_some_iff,
    Option.guard_eq_some', Option.pure_def, Option.some.injEq, Prod.mk.injEq] at hrun
  obtain ⟨-, -, -, -, -, hused, rfl, rfl, rfl⟩ := hrun
  refine Or.inr ⟨?_, ?_, rfl⟩
  · have := pl.pageBase_ne
    omega
  · obtain ⟨k, hk⟩ : ∃ k, pl.numAllocd - pl.numUsed = k + 1 := ⟨pl.numAllocd - pl.numUsed - 1, by omega⟩
    have hk' : pl.numAllocd - (pl.numUsed + 1) = k := by omega
    simp only [Pagelist.remaining, hk, hk', List.range'_succ, List.map_cons]

theorem mapAt_zero (hw : h.t.Walked) (h0 : spa2hva1 r h.rootPa.toNat ≠ 0) (va : Va) (d : Nat) :
    mapAt (h.super r) (fun _ => 0) va (d + 1) = none := by
  rw [mapAt_eq hw h0, Option.map_eq_none_iff, Option.eq_none_iff_forall_ne_some]
  intro q hq
  obtain ⟨p, hp, hc⟩ := Radix.mapAt_succ_eq_some.1 hq
  have hl := onLvl_of_lt hw (lt_of_mapAt hw h0 hp).2
  have hzero : entryAt h.t (fun _ => 0) p ((treeShape r h).idx va d) = 0 :=
    entryAt_zero hw fun _ _ _ => rfl
  rw [hzero] at hc
  obtain ⟨⟨hpresent, -⟩, -⟩ := Option.ite_none_right_eq_some.1 hc
  rw [pmeIsPresent_eq hl] at hpresent
  cases hpresent

theorem treeOfMaps_zero (hw : h.t.Walked) (h0 : spa2hva1 r h.rootPa.toNat ≠ 0) :
    TreeOfMaps (h.super r) (fun _ => 0) := by
  intro va va' d d' pmo pmo' hp hp'
  cases d with
  | succ d => rw [mapAt_zero hw h0] at hp; cases hp
  | zero =>
    cases d' with
    | succ d' => rw [mapAt_zero hw h0] at hp'; cases hp'
    | zero => exact Or.inl ⟨rfl, fun _ hk => absurd hk (Nat.not_lt_zero _)⟩

/-- A NORM context with its page directory at the runtime's page 0xC0300000. -/
def emptyHost : HostCtx := ⟨0x10300000, .norm⟩

/-- Two pages after it. -/
def twoPages : Pagelist := ⟨0xC0301000, 2, 0, by decide⟩

theorem insertPmeoAlloc_spec_empty : ∃ pl m',
    insertPmeoAlloc (emptyHost.withPages relocated hostCtxGzp) ⟨0x5007, .norm, 1⟩ 0x401000 twoPages
      (fun _ => 0) = some (0, pl, m') ∧
    getPmeo (emptyHost.super relocated) m' 1 0x401000 = some ⟨0x5007, .norm, 1⟩ ∧
    ∀ va', ¬ SameSpan .norm 1 0x401000 va' → walkResult (emptyHost.super relocated) m' va' =
      walkResult (emptyHost.super relocated) (fun _ => 0) va' := by
  have hw : emptyHost.t.Walked := Or.inl rfl
  have h0 : spa2hva1 relocated emptyHost.rootPa.toNat ≠ 0 := by decide
  have hret : (insertPmeoAlloc (emptyHost.withPages relocated hostCtxGzp) ⟨0x5007, .norm, 1⟩ 0x401000
      twoPages (fun _ => 0)).map Prod.fst = some 0 := by decide +kernel
  obtain ⟨⟨err, pl, m'⟩, hrun, rfl⟩ := Option.map_eq_some_iff.1 hret
  have hfresh : FreshPages (emptyHost.super relocated) (fun _ => 0) twoPages.remaining := by
    refine ⟨by decide, by decide, fun p hp va d pmo hpmo => ?_⟩
    cases d with
    | succ d => rw [mapAt_zero hw h0] at hpmo; cases hpmo
    | zero =>
      rw [mapAt, getRoot_eq hw h0] at hpmo
      cases hpmo
      revert p
      decide
  exact ⟨pl, m', hrun, (insertPmeoAlloc_spec hw supplies_pagelist (treeOfMaps_zero hw h0) hfresh rfl
    (show _ < _ by decide) hrun).1 rfl⟩

end Xmhf.Hpt
