import Xmhf.Hpt.Proof.Total

/-!
# Which walks return

`hptw_get_effective_prots` and `hptw_checked_access_va` for all four types that `hpt_type_t` declares. Of
NORM, PAE and EPT every walk returns. `hpt_pme_is_page` has an assertion that the root level of LONG does
not pass, and `hptw_next_lvl` calls it for each entry that is present: so of LONG the walks return that
stop at the root (`EmhfCtx.walkers_return_iff`).
-/

namespace Xmhf.Hpt

open Xmhf.Memory Xmhf.Bitfield Xmhf.Paging

variable {ctx : Ctx} {m : Mem} {va : Va} {pmo root : Pmo} {e : Pmeo} {access : Prot} {cpl : Cpl}
  {n requested : Nat}

/-- The entry of `va` in the root page map. -/
def RootEntry (ctx : Ctx) (m : Mem) (va : Va) (e : Pmeo) : Prop :=
  ∃ root, getRoot ctx m = some (some root) ∧ root.getPmeoByVa m va = some e

/-! ## NORM, PAE and EPT -/

theorem effectiveLoop_total (hctx : ctx.Serves) (h : OnLvl pmo.t pmo.lvl) (hpm : pmo.pm ≠ 0)
    (hn : pmo.lvl ≤ n) (p : Prot) (u : Bool) : ∃ q, effectiveLoop ctx m va n pmo p u = some q := by
  induction n generalizing pmo p u with
  | zero => exact absurd h.pos (by omega)
  | succ n ih =>
    obtain ⟨e, he, hl⟩ := h.getPmeoByVa m va
    obtain ⟨present, hpresent⟩ := hl.isPresent
    obtain ⟨prot, user, hprot, huser⟩ := e.fields_of_isPresent hpresent
    obtain ⟨⟨down, pmo'⟩, hnext⟩ : ∃ q, nextLvl ctx m va pmo = some q := nextLvl_total hctx h hpm
    cases down with
    | false => exact ⟨_, by simp [effectiveLoop, he, hprot, huser, hnext]; rfl⟩
    | true =>
      obtain ⟨-, e', -, hstep⟩ := nextLvl_iff.1 hnext
      obtain ⟨-, hl'⟩ := hstep.onLvl h.walked
      cases hstep with
      | down _ _ _ _ _ hpm' =>
        obtain ⟨q, hq⟩ := ih hl' hpm' (Nat.sub_le_of_le_add hn) (p &&& prot) (u && user)
        exact ⟨q, by simp [effectiveLoop, he, hprot, huser, hnext, hq]⟩

theorem getEffectiveProts_total (hctx : ctx.Serves) (ht : ctx.t.Walked) :
    ∃ q, getEffectiveProts ctx m va = some q := by
  obtain ⟨root, hroot⟩ := getRoot_total (m := m) hctx ht
  cases root with
  | none => exact ⟨_, by simp [getEffectiveProts, hroot]; rfl⟩
  | some root =>
    obtain ⟨-, hl⟩ := getRoot_onLvl ht hroot
    obtain ⟨⟨prots, user, last⟩, hloop⟩ : ∃ q, effectiveLoop ctx m va root.lvl root protsRWX true = some q :=
      effectiveLoop_total hctx hl (getRoot_pm hroot) (Nat.le_refl _) protsRWX true
    by_cases hlast : last.t = .invalid
    · exact ⟨_, by simp [getEffectiveProts, hroot, hloop, hlast]; rfl⟩
    · exact ⟨_, by simp [getEffectiveProts, hroot, hloop, hlast]; rfl⟩

/-! ## LONG -/

/-- A root of type LONG is at level 4. -/
theorem getRoot_long (ht : ctx.t = .long) (h : getRoot ctx m = some (some root)) :
    root.t = .long ∧ root.lvl = 4 := by
  simp only [getRoot, ht, Option.bind_eq_bind, Option.bind_eq_some_iff] at h
  obtain ⟨sz, -, ⟨pm, avail⟩, -, h⟩ := h
  obtain ⟨-, h⟩ := Option.ite_none_right_eq_some.1 (Option.some.inj h)
  obtain rfl := Option.some.inj h
  exact ⟨rfl, rfl⟩

theorem getRoot_long_total (hctx : ctx.Serves) (ht : ctx.t = .long) : ∃ q, getRoot ctx m = some q := by
  obtain ⟨q, hq⟩ := hctx.total m ctx.rootPa hptPmSize protsRW .cpl0
  have hsz : pmSize .long (typeMaxLvl .long) = some hptPmSize := rfl
  exact ⟨_, by simp [getRoot, ht, hsz, hq]; rfl⟩

/-- Every entry of the root can be read and checked. -/
theorem getPmeoByVa_long (h : pmo.t = .long ∧ pmo.lvl = 4) (m : Mem) (va : Va) :
    ∃ e b prot user, pmo.getPmeoByVa m va = some e ∧ e.isPresent = some b ∧ e.getprot = some prot ∧
      e.getuser = some user := by
  obtain ⟨pm, t, lvl⟩ := pmo
  obtain ⟨rfl, rfl⟩ := h
  exact ⟨_, _, _, _, rfl, rfl, rfl, rfl⟩

/-- What a root of type LONG has for `va`. -/
structure LongRoot (m : Mem) (va : Va) (root : Pmo) (e : Pmeo) (b : Bool) (prot : Prot) (user : Bool) :
    Prop where
  type : root.t = .long ∧ root.lvl = 4
  pm : root.pm ≠ 0
  entry : root.getPmeoByVa m va = some e
  present : e.isPresent = some b
  prot : e.getprot = some prot
  user : e.getuser = some user

theorem exists_longRoot (ht : ctx.t = .long) (hroot : getRoot ctx m = some (some root)) (va : Va) :
    ∃ e b prot user, LongRoot m va root e b prot user := by
  have hlong := getRoot_long ht hroot
  obtain ⟨e, b, prot, user, he, hpresent, hprot, huser⟩ := getPmeoByVa_long hlong m va
  exact ⟨e, b, prot, user, hlong, getRoot_pm hroot, he, hpresent, hprot, huser⟩

namespace LongRoot

variable {b : Bool} {prot : Prot} {user : Bool} (h : LongRoot m va root e b prot user)
include h

/-- `hptw_next_lvl` at the root stops at an entry that is not present, and aborts at any other. -/
theorem nextLvl_eq : nextLvl ctx m va root = if b then none else some (false, root) := by
  have hpage : e.isPage = none := by
    obtain ⟨ht, hlvl⟩ := getPmeoByVa_fields h.entry
    rw [Pmeo.isPage, ht, hlvl, h.type.1, h.type.2]
    rfl
  cases b with
  | false => simp [nextLvl, h.entry, h.pm, h.present]
  | true => simp [nextLvl, h.entry, h.pm, h.present, hpage]

theorem effectiveLoop_eq (p : Prot) (u : Bool) : effectiveLoop ctx m va root.lvl root p u =
    if b then none else some (p &&& prot, u && user, root) := by
  rw [h.type.2, effectiveLoop]
  simp only [h.entry, h.prot, h.user, h.nextLvl_eq, Option.bind_eq_bind, Option.bind_some]
  cases b <;> rfl

theorem checkedLoop_eq : checkedLoop ctx m access cpl va root.lvl root =
    if grants access cpl prot user then (if b then none else some (some (e, root))) else some none := by
  rw [h.type.2, checkedLoop]
  simp only [h.entry, h.prot, h.user, h.nextLvl_eq, Option.bind_eq_bind, Option.bind_some]
  cases b <;> rfl

theorem rootEntry_iff {e' : Pmeo} (hroot : getRoot ctx m = some (some root)) :
    RootEntry ctx m va e' ↔ e' = e := by
  constructor
  · rintro ⟨root', hroot', he'⟩
    obtain rfl := Option.some.inj (Option.some.inj (hroot.symm.trans hroot'))
    exact Option.some.inj (he'.symm.trans h.entry)
  · rintro rfl
    exact ⟨root, hroot, h.entry⟩

end LongRoot

theorem not_rootEntry (hroot : getRoot ctx m = some none) : ¬ RootEntry ctx m va e := by
  rintro ⟨root, hroot', -⟩
  cases hroot.symm.trans hroot'

theorem getEffectiveProts_long (hctx : ctx.Serves) (ht : ctx.t = .long) :
    (∃ q, getEffectiveProts ctx m va = some q) ↔
      ∀ e, RootEntry ctx m va e → e.isPresent ≠ some true := by
  obtain ⟨root, hroot⟩ := getRoot_long_total (m := m) hctx ht
  cases root with
  | none =>
    exact iff_of_true ⟨_, by simp [getEffectiveProts, hroot]; rfl⟩
      fun _ he => absurd he (not_rootEntry hroot)
  | some root =>
    obtain ⟨e, b, prot, user, h⟩ := exists_longRoot ht hroot va
    have hvalid : root.t ≠ .invalid := by simp [h.type.1]
    simp only [h.rootEntry_iff hroot, forall_eq, h.present, ne_eq, Option.some.injEq]
    cases b with
    | false =>
      exact iff_of_true ⟨_, by simp [getEffectiveProts, hroot, h.effectiveLoop_eq, hvalid]; rfl⟩
        Bool.false_ne_true
    | true =>
      refine iff_of_false ?_ (not_not_intro rfl)
      rintro ⟨q, hq⟩
      simp [getEffectiveProts, hroot, h.effectiveLoop_eq] at hq

theorem checkedAccessVa_long (hctx : ctx.Serves) (ht : ctx.t = .long) :
    (∃ q, checkedAccessVa ctx m access cpl va requested = some q) ↔
      ∀ e, RootEntry ctx m va e → e.isPresent = some true → ¬ e.Grants access cpl := by
  obtain ⟨root, hroot⟩ := getRoot_long_total (m := m) hctx ht
  cases root with
  | none =>
    exact iff_of_true ⟨_, by simp [checkedAccessVa, hroot]; rfl⟩
      fun _ he => absurd he (not_rootEntry hroot)
  | some root =>
    obtain ⟨e, b, prot, user, h⟩ := exists_longRoot ht hroot va
    have hvalid : root.t ≠ .invalid := by simp [h.type.1]
    simp only [h.rootEntry_iff hroot, forall_eq, h.present, Option.some.injEq,
      Pmeo.grants_iff h.prot h.user]
    by_cases hg : grants access cpl prot user
    · cases b with
      | false =>
        exact iff_of_true ⟨_, by
          simp [checkedAccessVa, hroot, h.checkedLoop_eq, hg, hvalid, h.present]; rfl⟩
          fun hpresent => absurd hpresent Bool.false_ne_true
      | true =>
        refine iff_of_false ?_ fun hno => hno rfl hg
        rintro ⟨q, hq⟩
        simp [checkedAccessVa, hroot, h.checkedLoop_eq, hg] at hq
    · exact iff_of_true ⟨_, by simp [checkedAccessVa, hroot, h.checkedLoop_eq, hg]; rfl⟩ fun _ => hg

/-! ## The contexts of the hypapp -/

/-- A context of a type that `hpt_type_t` declares; a guest's is over an EPT. -/
def EmhfCtx.Declared : EmhfCtx → Prop
  | host h => typeIsValid h.t
  | guest g => typeIsValid g.t ∧ g.hostCtx.t = .ept

theorem walked_or_long {t : HptType} (h : typeIsValid t) : t.Walked ∨ t = .long := by
  cases t with
  | norm => exact Or.inl (Or.inl rfl)
  | pae => exact Or.inl (Or.inr (Or.inl rfl))
  | ept => exact Or.inl (Or.inr (Or.inr rfl))
  | long => exact Or.inr rfl
  | invalid => exact absurd rfl h

theorem HptType.Walked.ne_long {t : HptType} (h : t.Walked) : t ≠ .long := by
  rcases h with rfl | rfl | rfl
  all_goals decide

theorem EmhfCtx.Declared.serves {c : EmhfCtx} (hc : c.Declared) (r : Rpb) :
    (c.super r).Serves ∧ typeIsValid (c.super r).t := by
  cases c with
  | host h => exact ⟨h.serves r, hc⟩
  | guest g => exact ⟨g.serves r (hc.2 ▸ Or.inr (Or.inr rfl)), hc.1⟩

/-- **Which walks return**, whatever the tables are: all of NORM, PAE and EPT, and of LONG those with a
root entry that is not present or does not grant the access that is checked. -/
theorem EmhfCtx.walkers_return_iff (r : Rpb) {c : EmhfCtx} (hc : c.Declared) (m : Mem) (va : Va) :
    ((∃ q, getEffectiveProts (c.super r) m va = some q) ↔
        ((c.super r).t = .long → ∀ e, RootEntry (c.super r) m va e → e.isPresent ≠ some true)) ∧
      ∀ access cpl requested,
        (∃ q, checkedAccessVa (c.super r) m access cpl va requested = some q) ↔
          ((c.super r).t = .long → ∀ e, RootEntry (c.super r) m va e → e.isPresent = some true →
            ¬ e.Grants access cpl) := by
  obtain ⟨hserves, hvalid⟩ := hc.serves r
  rcases walked_or_long hvalid with hw | hlong
  · refine ⟨iff_of_true (getEffectiveProts_total hserves hw) fun h => absurd h hw.ne_long, ?_⟩
    intro access cpl requested
    exact iff_of_true (Hpt.checkedAccessVa_total hserves hw) fun h => absurd h hw.ne_long
  · constructor
    · rw [getEffectiveProts_long hserves hlong, iff_true_intro hlong, true_imp_iff]
    · intro access cpl requested
      rw [checkedAccessVa_long hserves hlong, iff_true_intro hlong, true_imp_iff]

theorem EmhfCtx.walkers_return_iff_nested :
    (∃ q, getEffectiveProts ((EmhfCtx.guest nestedGuest).super relocated) nestedMem 0x5000 = some q) ∧
      ∀ access cpl requested, ∃ q, checkedAccessVa ((EmhfCtx.guest nestedGuest).super relocated) nestedMem
        access cpl 0x5000 requested = some q := by
  have hdeclared : EmhfCtx.Declared (.guest nestedGuest) := ⟨by decide, rfl⟩
  have hnorm : ((EmhfCtx.guest nestedGuest).super relocated).t ≠ .long := by decide
  have hiff := EmhfCtx.walkers_return_iff relocated hdeclared nestedMem 0x5000
  exact ⟨hiff.1.2 fun h => absurd h hnorm, fun access cpl requested =>
    (hiff.2 access cpl requested).2 fun h => absurd h hnorm⟩

/-- A table of type LONG at 0x1000 whose first entry links a table at 0x2000, seen by the runtime's
pointers. -/
def longMem : Mem := ofWords fun i => if i = 0xB0001000 / 8 then 0x2007 else 0

/-- Through its first entry both walkers abort. -/
theorem longRoot_aborts :
    EmhfCtx.Declared (.host ⟨0x1000, .long⟩) ∧
      (∃ root, getRoot ((EmhfCtx.host ⟨0x1000, .long⟩).super relocated) longMem = some (some root)) ∧
      getEffectiveProts ((EmhfCtx.host ⟨0x1000, .long⟩).super relocated) longMem 0 = none ∧
      checkedAccessVa ((EmhfCtx.host ⟨0x1000, .long⟩).super relocated) longMem protsR .cpl0 0 1 = none := by
  have hdeclared : EmhfCtx.Declared (.host ⟨0x1000, .long⟩) := show typeIsValid .long by decide
  exact ⟨hdeclared, ⟨⟨0xB0001000, .long, 4⟩, by decide +kernel⟩, by decide +kernel, by decide +kernel⟩

end Xmhf.Hpt
