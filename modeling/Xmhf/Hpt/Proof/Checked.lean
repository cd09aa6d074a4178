import Xmhf.Hpt.Proof.Walk

/-!
# Checked accesses

`hptw_checked_access_va` against the walk of its address.

* `checkedLoop_some`: the loop ends at the last entry of the walk, and every entry on it has passed the
  check.
* `checkedAccess_sound`: a pointer is only returned after a walk of present entries that all grant the
  access, in both tables for a guest.
* `effectiveProts_agree_iff`: `hptw_get_effective_prots` grants the same, unless the walk ends in an
  entry that is not present and grants the access by its other bits.
-/

namespace Xmhf.Hpt

open Xmhf.Memory Xmhf.Bitfield Xmhf.Paging

variable {ctx : Ctx} {m : Mem} {access : Prot} {cpl : Cpl} {va : Va} {pmo last : Pmo} {e leaf : Pmeo}
  {es : List Pmeo} {n requested ptr avail : Nat} {pa : Pa}

/-- The entry passes the check of the walk. -/
def Pmeo.Grants (access : Prot) (cpl : Cpl) (e : Pmeo) : Prop :=
  ∃ prot user, e.getprot = some prot ∧ e.getuser = some user ∧ grants access cpl prot user

/-! ## The loop -/

/-- Above its last entry a walk has present entries only. -/
theorem Walks.present (h : Walks ctx m va pmo es last) : ∀ x ∈ es.dropLast, x.isPresent = some true := by
  induction h with
  | stop => simp
  | down hpm he hstep hw ih =>
    intro x hx
    rw [List.dropLast_cons_of_ne_nil hw.ne_nil] at hx
    rcases List.mem_cons.1 hx with rfl | hx
    · cases hstep with
      | down hpresent => exact hpresent
    · exact ih x hx

/-- The loop ends at the last entry of the walk, having checked each. -/
theorem checkedLoop_some (h : checkedLoop ctx m access cpl va n pmo = some (some (leaf, last))) :
    ∃ es, Walks ctx m va pmo (es ++ [leaf]) last ∧ (es ++ [leaf]).length ≤ n ∧
      ∀ x ∈ es ++ [leaf], x.Grants access cpl := by
  induction n generalizing pmo with
  | zero => cases h
  | succ n ih =>
    simp only [checkedLoop, Option.bind_eq_bind, Option.bind_eq_some_iff] at h
    obtain ⟨e, he, prot, hprot, user, huser, h⟩ := h
    by_cases hg : grants access cpl prot user
    · rw [if_pos hg] at h
      obtain ⟨⟨b, pmo'⟩, hnext, h⟩ := Option.bind_eq_some_iff.1 h
      obtain ⟨hpm, e', he', hstep⟩ := nextLvl_iff.1 hnext
      obtain rfl : e = e' := Option.some.inj (he.symm.trans he')
      have hgrants : e.Grants access cpl := ⟨prot, user, hprot, huser, hg⟩
      cases b with
      | false =>
        simp only [Bool.false_eq_true, if_false, Option.some.injEq, Prod.mk.injEq] at h
        obtain ⟨rfl, rfl⟩ := h
        exact ⟨[], .stop hpm he hstep, by simp, by simpa using hgrants⟩
      | true =>
        obtain ⟨es, hw, hlen, hall⟩ := ih h
        refine ⟨e :: es, .down hpm he hstep hw, by simpa using hlen, ?_⟩
        intro x hx
        rcases List.mem_cons.1 hx with rfl | hx
        · exact hgrants
        · exact hall x hx
    · rw [if_neg hg] at h
      cases h

/-- On a walk whose entries all pass, the loop gets to its end. -/
theorem Walks.checkedLoop_eq (h : Walks ctx m va pmo es last) (hlen : es.length ≤ n)
    (hall : ∀ x ∈ es, x.Grants access cpl) :
    checkedLoop ctx m access cpl va n pmo = some (some (es.getLast h.ne_nil, last)) := by
  induction h generalizing n with
  | stop hpm he hstep =>
    obtain ⟨n, rfl⟩ : ∃ k, n = k + 1 := ⟨n - 1, by simp at hlen; omega⟩
    obtain ⟨prot, user, hprot, huser, hg⟩ := hall _ List.mem_cons_self
    simp [checkedLoop, he, hprot, huser, hg, nextLvl_iff.2 ⟨hpm, _, he, hstep⟩]
  | down hpm he hstep hw ih =>
    obtain ⟨n, rfl⟩ : ∃ k, n = k + 1 := ⟨n - 1, by simp at hlen; omega⟩
    obtain ⟨prot, user, hprot, huser, hg⟩ := hall _ List.mem_cons_self
    have hrest := ih (n := n) (by simpa using hlen) fun x hx => hall x (List.mem_cons_of_mem _ hx)
    simp [checkedLoop, he, hprot, huser, hg, nextLvl_iff.2 ⟨hpm, _, he, hstep⟩, hrest,
      List.getLast_cons hw.ne_nil]

/-! ## The access -/

theorem walk_iff : walk ctx m va = some (es, last) ↔
    ∃ root, getRoot ctx m = some (some root) ∧ Walks ctx m va root es last ∧
      es.length ≤ root.lvl := by
  constructor
  · intro h
    simp only [walk, Option.bind_eq_bind, Option.bind_eq_some_iff] at h
    obtain ⟨root, hroot, h⟩ := h
    cases root with
    | none => cases h
    | some root => exact ⟨root, hroot, walkFrom_iff.1 h⟩
  · rintro ⟨root, hroot, hw⟩
    simp [walk, hroot, walkFrom_iff.2 hw]

/-- **A pointer is the result of a whole walk** whose entries are present and pass the check. -/
theorem checkedAccessVa_inv
    (h : checkedAccessVa ctx m access cpl va requested = some (ptr, avail)) (hptr : ptr ≠ 0) :
    ∃ es leaf last pa, walk ctx m va = some (es ++ [leaf], last) ∧ last.t ≠ .invalid ∧
      (∀ x ∈ es ++ [leaf], x.isPresent = some true ∧ x.Grants access cpl) ∧
      leaf.isPage = some true ∧ leaf.vaToPa va = some pa ∧
      ctx.pa2ptr m pa (min requested (leaf.remainingOnPage pa)) access cpl = some (ptr, avail) := by
  -- an error return has the pointer 0
  have hnull : (some (0, 0) : Option (Nat × Nat)) ≠ some (ptr, avail) := by
    intro h0
    cases h0
    exact hptr rfl
  simp only [checkedAccessVa, Option.bind_eq_bind, Option.bind_eq_some_iff] at h
  obtain ⟨root, hroot, h⟩ := h
  cases root with
  | none => exact absurd h hnull
  | some root =>
    obtain ⟨found, hloop, h⟩ := Option.bind_eq_some_iff.1 h
    cases found with
    | none => exact absurd h hnull
    | some found =>
      obtain ⟨leaf, last⟩ := found
      obtain ⟨es, hw, hlen, hall⟩ := checkedLoop_some hloop
      dsimp only at h
      by_cases ht : last.t = .invalid
      · rw [if_pos ht] at h
        exact absurd h hnull
      · rw [if_neg ht] at h
        obtain ⟨present, hpresent, h⟩ := Option.bind_eq_some_iff.1 h
        cases present with
        | false => exact absurd h hnull
        | true =>
          simp only [if_true, Option.bind_eq_some_iff, Option.guard_eq_some'] at h
          obtain ⟨page, hpage, -, rfl, pa, hpa, h⟩ := h
          refine ⟨es, leaf, last, pa, walk_iff.2 ⟨root, hroot, hw, hlen⟩, ht, ?_, hpage, hpa, h⟩
          intro x hx
          refine ⟨?_, hall x hx⟩
          rcases List.mem_append.1 hx with hx' | hx'
          · exact hw.present x (by simpa using hx')
          · rw [List.mem_singleton.1 hx']
            exact hpresent

theorem checkedAccessVa_of_walk (hwalk : walk ctx m va = some (es ++ [leaf], last))
    (hlast : last.t ≠ .invalid) (hall : ∀ x ∈ es ++ [leaf], x.Grants access cpl)
    (hpresent : leaf.isPresent = some true) (hpage : leaf.isPage = some true)
    (hpa : leaf.vaToPa va = some pa) : checkedAccessVa ctx m access cpl va requested =
      ctx.pa2ptr m pa (min requested (leaf.remainingOnPage pa)) access cpl := by
  obtain ⟨root, hroot, hw, hlen⟩ := walk_iff.1 hwalk
  simp [checkedAccessVa, hroot, hw.checkedLoop_eq hlen hall, hlast, hpresent, hpage, hpa]

/-! ## Soundness -/

/-- What a checked access has found: the walk of `va` with its last entry `leaf`, the address `pa` there
and the pointer. -/
structure CheckedWalk (ctx : Ctx) (m : Mem) (access : Prot) (cpl : Cpl) (va : Va) (requested : Nat)
    (leaf : Pmeo) (pa : Pa) (ptr avail : Nat) : Prop where
  walked : ∃ es last, walk ctx m va = some (es ++ [leaf], last) ∧
    ∀ e ∈ es ++ [leaf], e.isPresent = some true ∧ e.Grants access cpl
  page : leaf.isPage = some true
  address : leaf.vaToPa va = some pa
  pointer : ctx.pa2ptr m pa (min requested (leaf.remainingOnPage pa)) access cpl = some (ptr, avail)
  bytes : 1 ≤ avail ∧ avail ≤ requested

/-- `pa2ptr` makes available some of what it is asked for. -/
def Ctx.AvailOk (ctx : Ctx) : Prop :=
  ∀ m pa sz access cpl ptr avail, ctx.pa2ptr m pa sz access cpl = some (ptr, avail) → ptr ≠ 0 →
    1 ≤ sz → 1 ≤ avail ∧ avail ≤ sz

theorem Pmeo.remainingOnPage_eq (e : Pmeo) (pa : Pa) :
    e.remainingOnPage pa = 2 ^ e.pageSizeLog2 - pa.toNat % 2 ^ e.pageSizeLog2 := by
  have hidx : vaIdxHi e.t (e.lvl - 1) < 64 := by
    unfold vaIdxHi
    split <;> decide
  rw [remainingOnPage, pageSizeLog2, Nat.add_sub_cancel, toNat_and_maskRange64 pa hidx]

theorem Pmeo.remainingOnPage_pos (e : Pmeo) (pa : Pa) : 1 ≤ e.remainingOnPage pa := by
  have hlt := Nat.mod_lt pa.toNat (Nat.two_pow_pos e.pageSizeLog2)
  rw [remainingOnPage_eq]
  omega

theorem checkedWalk_of_some (hctx : ctx.AvailOk) (hreq : 1 ≤ requested)
    (h : checkedAccessVa ctx m access cpl va requested = some (ptr, avail)) (hptr : ptr ≠ 0) :
    ∃ leaf pa, CheckedWalk ctx m access cpl va requested leaf pa ptr avail := by
  obtain ⟨es, leaf, last, pa, hwalk, -, hall, hpage, hpa, hrv⟩ := checkedAccessVa_inv h hptr
  have hsz : 1 ≤ min requested (leaf.remainingOnPage pa) := by
    have := leaf.remainingOnPage_pos pa
    omega
  obtain ⟨h1, h2⟩ := hctx _ _ _ _ _ _ _ hrv hptr hsz
  exact ⟨leaf, pa, ⟨es, last, hwalk, hall⟩, hpage, hpa, hrv, h1, by omega⟩

theorem HostCtx.availOk (r : Rpb) (h : HostCtx) : (h.super r).AvailOk := by
  intro m pa sz access cpl ptr avail hrv _ hsz
  obtain ⟨-, rfl⟩ := Prod.mk.inj (Option.some.inj hrv)
  exact ⟨hsz, Nat.le_refl _⟩

theorem GuestCtx.availOk (r : Rpb) (g : GuestCtx) : (g.super r).AvailOk := by
  intro m pa sz access cpl ptr avail hrv hptr hsz
  obtain ⟨leaf, pa', hw⟩ := checkedWalk_of_some (g.hostCtx.availOk r) hsz hrv hptr
  exact hw.bytes

theorem EmhfCtx.availOk (r : Rpb) (c : EmhfCtx) : (c.super r).AvailOk := by
  cases c with
  | host h => exact h.availOk r
  | guest g => exact g.availOk r

/-- **Checked accesses are sound.** A pointer is returned only for an address whose walk has present
entries that all grant the access and ends in a page; it is the pointer of the address there, with at
least one byte and at most the requested ones. For a guest the same holds of the host's walk of the
guest-physical address. -/
theorem checkedAccess_sound (r : Rpb) (c : EmhfCtx) (hreq : 1 ≤ requested)
    (h : checkedAccessVa (c.super r) m access cpl va requested = some (ptr, avail)) (hptr : ptr ≠ 0) :
    ∃ leaf pa, CheckedWalk (c.super r) m access cpl va requested leaf pa ptr avail ∧
      ∀ g, c = .guest g → ∃ leaf' pa', CheckedWalk (g.hostCtx.super r) m access cpl pa
        (min requested (leaf.remainingOnPage pa)) leaf' pa' ptr avail := by
  obtain ⟨leaf, pa, hw⟩ := checkedWalk_of_some (c.availOk r) hreq h hptr
  refine ⟨leaf, pa, hw, ?_⟩
  rintro g rfl
  have hsz : 1 ≤ min requested (leaf.remainingOnPage pa) := by
    have := leaf.remainingOnPage_pos pa
    omega
  have hrv : checkedAccessVa (g.hostCtx.super r) m access cpl pa
      (min requested (leaf.remainingOnPage pa)) = some (ptr, avail) := hw.pointer
  exact checkedWalk_of_some (g.hostCtx.availOk r) hsz hrv hptr

/-- An EPT whose first gigabyte is one page, with tables at 0x1000 and 0x2000, and in it a NORM page
directory at 0x3000 whose first 4 MB are one page; seen by the runtime's pointers. -/
def nestedMem : Mem := ofWords fun i =>
  if i = 0xB0001000 / 8 then 0x2007
  else if i = 0xB0002000 / 8 then 0x87
  else if i = 0xB0003000 / 8 then 0x87
  else 0

/-- The guest of `nestedMem`. -/
def nestedGuest : GuestCtx := ⟨0x3000, .norm, ⟨0x1000, .ept⟩⟩

theorem checkedAccess_sound_nested : ∃ leaf pa,
    CheckedWalk (EmhfCtx.super relocated (.guest nestedGuest)) nestedMem protsW .cpl3 0x5000 16 leaf pa
      0xB0005000 16 ∧
      ∀ g, EmhfCtx.guest nestedGuest = .guest g → ∃ leaf' pa',
        CheckedWalk (g.hostCtx.super relocated) nestedMem protsW .cpl3 pa
          (min 16 (leaf.remainingOnPage pa)) leaf' pa' 0xB0005000 16 :=
  checkedAccess_sound relocated (.guest nestedGuest) (by decide) (by decide +kernel) (by decide)

/-! ## Effective protections -/

theorem Pmeo.fields_of_isPresent {b : Bool} (h : e.isPresent = some b) :
    ∃ prot user, e.getprot = some prot ∧ e.getuser = some user := by
  obtain ⟨prot, hprot, -⟩ := Option.map_eq_some_iff.1 h
  refine ⟨prot, ?_⟩
  obtain ⟨pme, t, lvl⟩ := e
  cases t with
  | pae =>
    refine ⟨if lvl = 3 then true else getBit pme 2, hprot, ?_⟩
    by_cases hlvl : lvl = 3 <;> simp [getuser, pmeGetuser, hlvl]
  | invalid => simp [pmeGetprot] at hprot
  | _ => simp [getuser, pmeGetuser, getprot, hprot]

theorem Step.fields {b : Bool} (h : Step ctx m pmo e b last) :
    ∃ prot user, e.getprot = some prot ∧ e.getuser = some user := by
  cases h with
  | absent hpresent => exact e.fields_of_isPresent hpresent
  | page hpresent => exact e.fields_of_isPresent hpresent
  | lost hpresent => exact e.fields_of_isPresent hpresent
  | down hpresent => exact e.fields_of_isPresent hpresent

theorem Pmeo.grants_iff {prot : Prot} {user : Bool} (hprot : e.getprot = some prot)
    (huser : e.getuser = some user) : e.Grants access cpl ↔ grants access cpl prot user := by
  constructor
  · rintro ⟨prot', user', hprot', huser', hg⟩
    obtain rfl := Option.some.inj (hprot.symm.trans hprot')
    obtain rfl := Option.some.inj (huser.symm.trans huser')
    exact hg
  · exact fun hg => ⟨prot, user, hprot, huser, hg⟩

/-- An entry has no flags but read, write and execute. -/
theorem Pmeo.getprot_and_protsRWX {prot : Prot} (h : e.getprot = some prot) :
    prot &&& protsRWX = prot := by
  have hflags : ∀ r w x, protOf r w x &&& protsRWX = protOf r w x := by decide
  obtain ⟨pme, t, lvl⟩ := e
  simp only [getprot, pmeGetprot, Option.ite_none_right_eq_some] at h
  obtain ⟨-, h⟩ := h
  cases t with
  | pae =>
    by_cases hlvl : lvl = 2 ∨ lvl = 1
    · simp only [if_pos hlvl] at h
      rw [← Option.some.inj h, hflags]
    · simp only [if_neg hlvl] at h
      rw [← Option.some.inj h, hflags]
  | invalid => cases h
  | _ => rw [← Option.some.inj h, hflags]

theorem and_and_eq_iff (a p q : Prot) : a &&& (p &&& q) = a ↔ a &&& p = a ∧ a &&& q = a := by
  have hsub : ∀ x y z : Prot, x &&& (y &&& z) = x → x &&& y = x := by
    intro x y z h
    calc x &&& y = x &&& (y &&& z) &&& y := by rw [h]
      _ = x &&& (y &&& z) := by
        rw [BitVec.and_assoc, BitVec.and_comm (y &&& z) y, ← BitVec.and_assoc y y z, BitVec.and_self]
      _ = x := h
  constructor
  · intro h
    exact ⟨hsub a p q h, hsub a q p (by rwa [BitVec.and_comm q p])⟩
  · rintro ⟨hp, hq⟩
    rw [← BitVec.and_assoc, hp, hq]

theorem grants_and_iff {p q : Prot} {u v : Bool} : grants access cpl (p &&& q) (u && v) ↔
    grants access cpl p u ∧ grants access cpl q v := by
  rw [grants, grants, grants, and_and_eq_iff, Bool.and_eq_true]
  tauto

/-- What `p` and `u` leave after the protections of each entry. -/
def protsOf : List Pmeo → Prot → Bool → Prot × Bool
  | [], p, u => (p, u)
  | e :: es, p, u => protsOf es (p &&& e.getprot.getD protsNone) (u && e.getuser.getD false)

/-- The loop takes the protections of each entry of the walk. -/
theorem Walks.effectiveLoop_eq (h : Walks ctx m va pmo es last) (hlen : es.length ≤ n) (p : Prot)
    (u : Bool) :
    effectiveLoop ctx m va n pmo p u = some ((protsOf es p u).1, (protsOf es p u).2, last) := by
  induction h generalizing n p u with
  | stop hpm he hstep =>
    obtain ⟨n, rfl⟩ : ∃ k, n = k + 1 := ⟨n - 1, by simp at hlen; omega⟩
    obtain ⟨prot, user, hprot, huser⟩ := hstep.fields
    simp [effectiveLoop, protsOf, he, hprot, huser, nextLvl_iff.2 ⟨hpm, _, he, hstep⟩]
  | down hpm he hstep hw ih =>
    obtain ⟨n, rfl⟩ : ∃ k, n = k + 1 := ⟨n - 1, by simp at hlen; omega⟩
    obtain ⟨prot, user, hprot, huser⟩ := hstep.fields
    have hrest := ih (n := n) (by simpa using hlen) (p &&& prot) (u && user)
    simp [effectiveLoop, protsOf, he, hprot, huser, nextLvl_iff.2 ⟨hpm, _, he, hstep⟩, hrest]

/-- They grant what it starts with and every entry grants. -/
theorem Walks.grants_protsOf (h : Walks ctx m va pmo es last) (p : Prot) (u : Bool) :
    grants access cpl (protsOf es p u).1 (protsOf es p u).2 ↔
      grants access cpl p u ∧ ∀ x ∈ es, x.Grants access cpl := by
  induction h generalizing p u with
  | stop hpm he hstep =>
    obtain ⟨prot, user, hprot, huser⟩ := hstep.fields
    rw [protsOf, protsOf, hprot, huser, Option.getD_some, Option.getD_some, grants_and_iff,
      List.forall_mem_singleton, Pmeo.grants_iff hprot huser]
  | down hpm he hstep hw ih =>
    obtain ⟨prot, user, hprot, huser⟩ := hstep.fields
    rw [protsOf, hprot, huser, Option.getD_some, Option.getD_some, ih, grants_and_iff,
      List.forall_mem_cons, Pmeo.grants_iff hprot huser, and_assoc]

theorem getEffectiveProts_of_walk (hwalk : walk ctx m va = some (es, last))
    (hlast : last.t ≠ .invalid) : getEffectiveProts ctx m va =
      some ((protsOf es protsRWX true).1, some (protsOf es protsRWX true).2) := by
  obtain ⟨root, hroot, hw, hlen⟩ := walk_iff.1 hwalk
  simp [getEffectiveProts, hroot, hw.effectiveLoop_eq hlen, hlast]

/-- **Effective protections** grant what every entry of the walk grants. -/
theorem grants_effective_iff (hwalk : walk ctx m va = some (es, last)) :
    grants access cpl (protsOf es protsRWX true).1 (protsOf es protsRWX true).2 ↔
      ∀ x ∈ es, x.Grants access cpl := by
  obtain ⟨root, -, hw, -⟩ := walk_iff.1 hwalk
  rw [hw.grants_protsOf]
  refine ⟨And.right, fun hall => ⟨?_, hall⟩⟩
  -- the first entry has no other flags either
  obtain ⟨x, hx⟩ := List.exists_mem_of_ne_nil es hw.ne_nil
  obtain ⟨prot, user', hprot, -, hacc, -⟩ := hall x hx
  refine ⟨?_, Or.inr rfl⟩
  rw [← Pmeo.getprot_and_protsRWX hprot] at hacc
  exact ((and_and_eq_iff ..).1 hacc).2

/-! ## The two paths -/

theorem Walks.stops (h : Walks ctx m va pmo es last) :
    ∃ pmo', pmo'.getPmeoByVa m va = some (es.getLast h.ne_nil) ∧
      Step ctx m pmo' (es.getLast h.ne_nil) false last := by
  induction h with
  | stop hpm he hstep => exact ⟨_, he, hstep⟩
  | down hpm he hstep hw ih => simpa only [List.getLast_cons hw.ne_nil] using ih

theorem Pmeo.getAddress_of_isPage {b : Bool} (h : e.isPage = some b) :
    ∃ pa, e.getAddress = some pa := by
  obtain ⟨pme, t, lvl⟩ := e
  have hp : pmeIsPage t lvl pme = some b := h
  unfold getAddress pmeGetAddress
  cases t with
  | norm =>
    obtain ⟨hlvl, -⟩ := Option.ite_none_right_eq_some.1 hp
    by_cases h2 : lvl = 2
    · simp only [if_pos hlvl, if_pos h2, hp, Option.map_some]
      exact ⟨_, rfl⟩
    · simp only [if_pos hlvl, if_neg h2]
      exact ⟨_, rfl⟩
  | pae =>
    obtain ⟨hlvl, hb⟩ := Option.ite_none_right_eq_some.1 hp
    simp only [if_pos hlvl, hp, Option.bind_some]
    cases b with
    | false => exact ⟨_, rfl⟩
    | true =>
      have h12 : lvl = 1 ∨ lvl = 2 := by
        simp only [Option.some.injEq, Bool.or_eq_true, Bool.and_eq_true, beq_iff_eq] at hb
        tauto
      rcases h12 with rfl | rfl
      · exact ⟨_, rfl⟩
      · exact ⟨_, rfl⟩
  | long =>
    obtain ⟨hlvl, -⟩ := Option.ite_none_right_eq_some.1 hp
    simp only [if_pos (show lvl ≤ 4 by omega), hp, Option.map_some]
    exact ⟨_, rfl⟩
  | ept =>
    obtain ⟨hlvl, -⟩ := Option.ite_none_right_eq_some.1 hp
    simp only [if_pos hlvl]
    exact ⟨_, rfl⟩
  | invalid => cases hp

theorem Pmeo.vaToPa_of_isPage (h : e.isPage = some true) (va : Va) :
    ∃ pa, e.vaToPa va = some pa := by
  obtain ⟨base, hbase⟩ := e.getAddress_of_isPage h
  simp [vaToPa, h, hbase]

/-- **The two permission paths agree** on an access if and only if the walk ends in an entry that is
present, or some entry on it does not grant the access. -/
theorem effectiveProts_agree_iff (hwalk : walk ctx m va = some (es ++ [leaf], last))
    (hlast : last.t ≠ .invalid)
    (hfinal : ∀ pa, leaf.vaToPa va = some pa → ∃ ptr avail, ptr ≠ 0 ∧
      ctx.pa2ptr m pa (min requested (leaf.remainingOnPage pa)) access cpl = some (ptr, avail)) :
    ((∃ ptr avail, checkedAccessVa ctx m access cpl va requested = some (ptr, avail) ∧ ptr ≠ 0) ↔
      ∃ prots user, getEffectiveProts ctx m va = some (prots, some user) ∧
        grants access cpl prots user) ↔
    leaf.isPresent = some true ∨ ∃ e ∈ es ++ [leaf], ¬ e.Grants access cpl := by
  have heff := getEffectiveProts_of_walk hwalk hlast
  have heffective : (∃ prots user, getEffectiveProts ctx m va = some (prots, some user) ∧
      grants access cpl prots user) ↔ ∀ x ∈ es ++ [leaf], x.Grants access cpl := by
    rw [← grants_effective_iff hwalk]
    constructor
    · rintro ⟨prots, user, heff', hgr⟩
      rw [heff] at heff'
      cases heff'
      exact hgr
    · exact fun hgr => ⟨_, _, heff, hgr⟩
  have hchecked : (∃ ptr avail, checkedAccessVa ctx m access cpl va requested = some (ptr, avail) ∧
      ptr ≠ 0) ↔ leaf.isPresent = some true ∧ ∀ x ∈ es ++ [leaf], x.Grants access cpl := by
    constructor
    · rintro ⟨ptr, avail, h, hptr⟩
      obtain ⟨es', leaf', last', pa, hwalk', -, hall, -⟩ := checkedAccessVa_inv h hptr
      rw [hwalk] at hwalk'
      obtain ⟨hes, -⟩ := Prod.mk.inj (Option.some.inj hwalk')
      rw [← hes] at hall
      refine ⟨?_, fun x hx => (hall x hx).2⟩
      exact (hall leaf (List.mem_append_right _ (List.mem_singleton_self leaf))).1
    · rintro ⟨hpresent, hall⟩
      obtain ⟨root, -, hw, -⟩ := walk_iff.1 hwalk
      obtain ⟨pmo, -, hstep⟩ := hw.stops
      have hpage : leaf.isPage = some true := by
        rw [List.getLast_append_singleton] at hstep
        cases hstep with
        | absent habsent => rw [hpresent] at habsent; cases habsent
        | page _ hpage => exact hpage
        | lost => exact absurd rfl hlast
      obtain ⟨pa, hpa⟩ := leaf.vaToPa_of_isPage hpage va
      obtain ⟨ptr, avail, hptr, hrv⟩ := hfinal pa hpa
      refine ⟨ptr, avail, ?_, hptr⟩
      rw [checkedAccessVa_of_walk hwalk hlast hall hpresent hpage hpa, hrv]
  rw [heffective, hchecked]
  constructor
  · intro h
    by_cases hall : ∀ x ∈ es ++ [leaf], x.Grants access cpl
    · exact Or.inl (h.2 hall).1
    · exact Or.inr (by simpa using hall)
  · rintro (hpresent | ⟨x, hx, hno⟩)
    · exact ⟨And.right, fun hall => ⟨hpresent, hall⟩⟩
    · exact ⟨And.right, fun hall => absurd (hall x hx) hno⟩

theorem effectiveProts_agree_nested :
    ((∃ ptr avail, checkedAccessVa (nestedGuest.hostCtx.super relocated) nestedMem protsW .cpl3 0x5000 16 =
        some (ptr, avail) ∧ ptr ≠ 0) ↔
      ∃ prots user, getEffectiveProts (nestedGuest.hostCtx.super relocated) nestedMem 0x5000 =
        some (prots, some user) ∧ grants protsW .cpl3 prots user) ↔
    (⟨0x87, .ept, 3⟩ : Pmeo).isPresent = some true ∨
      ∃ e ∈ [⟨0x2007, .ept, 4⟩] ++ [⟨0x87, .ept, 3⟩], ¬ Pmeo.Grants protsW .cpl3 e := by
  have hwalk : walk (nestedGuest.hostCtx.super relocated) nestedMem 0x5000 =
      some ([⟨0x2007, .ept, 4⟩] ++ [⟨0x87, .ept, 3⟩], ⟨0xB0002000, .ept, 3⟩) := by decide +kernel
  have hpa : (⟨0x87, .ept, 3⟩ : Pmeo).vaToPa 0x5000 = some 0x5000 := by decide +kernel
  refine effectiveProts_agree_iff hwalk (by decide) fun pa h => ?_
  obtain rfl := Option.some.inj (hpa.symm.trans h)
  exact ⟨0xB0005000, 16, by decide, by decide +kernel⟩

/-- A NORM page directory at 0x1000 whose first entry is writable but not present. -/
def absentMem : Mem := ofWords fun i => if i = 0xB0001000 / 8 then 0x2 else 0

/-- Its entry grants a write, and there is nothing to write to. -/
theorem absentEntry_disagrees :
    ∃ es leaf last, walk (HostCtx.super relocated ⟨0x1000, .norm⟩) absentMem 0 =
        some (es ++ [leaf], last) ∧ last.t ≠ .invalid ∧ leaf.vaToPa 0 = none ∧
      ¬ ((∃ ptr avail, checkedAccessVa (HostCtx.super relocated ⟨0x1000, .norm⟩) absentMem protsW .cpl0
            0 1 = some (ptr, avail) ∧ ptr ≠ 0) ↔
          ∃ prots user, getEffectiveProts (HostCtx.super relocated ⟨0x1000, .norm⟩) absentMem 0 =
            some (prots, some user) ∧ grants protsW .cpl0 prots user) := by
  have hwalk : walk (HostCtx.super relocated ⟨0x1000, .norm⟩) absentMem 0 =
      some ([] ++ [⟨0x2, .norm, 2⟩], ⟨0xB0001000, .norm, 2⟩) := by decide +kernel
  have heff : getEffectiveProts (HostCtx.super relocated ⟨0x1000, .norm⟩) absentMem 0 =
      some (protsW, some false) := by decide +kernel
  have hnull : checkedAccessVa (HostCtx.super relocated ⟨0x1000, .norm⟩) absentMem protsW .cpl0 0 1 =
      some (0, 0) := by decide +kernel
  refine ⟨_, _, _, hwalk, by decide, by decide +kernel, fun hiff => ?_⟩
  obtain ⟨ptr, avail, h, hptr⟩ := hiff.2 ⟨_, _, heff, by decide⟩
  rw [hnull] at h
  cases h
  exact hptr rfl

end Xmhf.Hpt
