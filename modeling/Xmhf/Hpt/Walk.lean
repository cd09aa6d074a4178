import Xmhf.Hpt.Pme
import Xmhf.Platform.Paging

/-!
# The page table walker

`hptw.c` over a context that says how physical addresses become pointers, and the two contexts of
`hptw_emhf.c`: the host's, where a physical address is at its runtime address, and the checked guest's,
where a guest-physical address is looked up in the host's tables by the walker itself.

* Memory is what the runtime's pointers show; NULL is 0. `none` is an abort: an assertion or
  `EU_VERIFY` that fails. An error return is a value.
* Each loop is over the levels that are left: `nextLvl` takes the walk one level down.
* `walk` lists the entries that `nextLvl` passes.
-/

namespace Xmhf.Hpt

open Xmhf.Memory Xmhf.Bitfield Xmhf.Paging

/-- `hptw_cpl_t` -/
inductive Cpl
  | cpl0
  | cpl1
  | cpl2
  | cpl3
  deriving DecidableEq, Repr

/-- `hpt_pmo_t` -/
structure Pmo where
  pm : Nat
  t : HptType
  lvl : Nat
  deriving DecidableEq, Repr

/-- `hpt_pmeo_t` -/
structure Pmeo where
  pme : Pme
  t : HptType
  lvl : Nat
  deriving DecidableEq, Repr

/-! ## Entries with their format and level -/

namespace Pmeo

/-- `hpt_pmeo_get_address` -/
def getAddress (e : Pmeo) : Option Pa := pmeGetAddress e.t e.lvl e.pme

/-- `hpt_pmeo_set_address` -/
def setAddress (e : Pmeo) (addr : Pa) : Option Pmeo :=
  (pmeSetAddress e.t e.lvl e.pme addr).map fun pme => { e with pme }

/-- `hpt_pmeo_is_present` -/
def isPresent (e : Pmeo) : Option Bool := pmeIsPresent e.t e.lvl e.pme

/-- `hpt_pmeo_is_page` -/
def isPage (e : Pmeo) : Option Bool := pmeIsPage e.t e.lvl e.pme

/-- `hpt_pmeo_setprot` -/
def setprot (e : Pmeo) (perms : Prot) : Option Pmeo :=
  (pmeSetprot e.t e.lvl e.pme perms).map fun pme => { e with pme }

/-- `hpt_pmeo_getprot` -/
def getprot (e : Pmeo) : Option Prot := pmeGetprot e.t e.lvl e.pme

/-- `hpt_pmeo_getuser` -/
def getuser (e : Pmeo) : Option Bool := pmeGetuser e.t e.lvl e.pme

/-- `hpt_pmeo_setuser` -/
def setuser (e : Pmeo) (user : Bool) : Option Pmeo :=
  (pmeSetuser e.t e.lvl e.pme user).map fun pme => { e with pme }

/-- `hpt_pmeo_va_to_pa` -/
def vaToPa (e : Pmeo) (va : Va) : Option Pa := do
  guard ((← e.isPage) = true)
  let base ← e.getAddress
  return base + (va &&& maskRange64 (vaIdxHi e.t (e.lvl - 1)) 0)

/-- `hpt_pmeo_page_size_log_2` -/
def pageSizeLog2 (e : Pmeo) : Nat := vaIdxHi e.t (e.lvl - 1) + 1

/-- `hpt_remaining_on_page` -/
def remainingOnPage (e : Pmeo) (va : Va) : Nat :=
  2 ^ e.pageSizeLog2 - (va &&& maskRange64 (e.pageSizeLog2 - 1) 0).toNat

end Pmeo

/-- `hpt_pm_get_pmeo_by_va` -/
def Pmo.getPmeoByVa (m : Mem) (pmo : Pmo) (va : Va) : Option Pmeo :=
  (pmGetPmeByVa pmo.t pmo.lvl m pmo.pm va).map fun pme => ⟨pme, pmo.t, pmo.lvl⟩

/-- `hpt_pmo_set_pme_by_va` -/
def Pmo.setPmeByVa (m : Mem) (pmo : Pmo) (pmeo : Pmeo) (va : Va) : Option Mem :=
  pmSetPmeByVa pmo.t pmo.lvl m pmo.pm va pmeo.pme

/-! ## The walker -/

/-- `hptw_ctx_t`. `pa2ptr` returns the pointer and what is available there. -/
structure Ctx where
  pa2ptr : Mem → Pa → Nat → Prot → Cpl → Option (Nat × Nat)
  ptr2pa : Nat → Pa
  rootPa : Pa
  t : HptType

variable (ctx : Ctx) (m : Mem)

/-- `hptw_get_root`; `some none` is the error. -/
def getRoot : Option (Option Pmo) := do
  let lvl := typeMaxLvl ctx.t
  let pmSz ← pmSize ctx.t lvl
  let (pm, avail) ← ctx.pa2ptr m ctx.rootPa pmSz protsRW .cpl0
  return if pm ≠ 0 ∧ avail = pmSz then some ⟨pm, ctx.t, lvl⟩ else none

/-- `hptw_next_lvl`: whether the walk went down, and where it is. A page map that cannot be reached
leaves the type INVALID. -/
def nextLvl (va : Va) (pmo : Pmo) : Option (Bool × Pmo) := do
  let pmeo ← pmo.getPmeoByVa m va
  guard (pmo.pm ≠ 0)
  let present ← pmeo.isPresent
  if present then
    let page ← pmeo.isPage
    if page then return (false, pmo)
    else
      let pmSz ← pmSize pmo.t (pmo.lvl - 1)
      let pa ← pmeo.getAddress
      let (pm, avail) ← ctx.pa2ptr m pa pmSz protsR .cpl0
      if pm = 0 then return (false, ⟨0, .invalid, 0⟩)
      else
        guard (avail = pmSz)
        return (true, ⟨pm, pmo.t, pmo.lvl - 1⟩)
  else return (false, pmo)

/-- The loop of `hptw_get_pmo`. -/
def getPmoLoop (endLvl : Nat) (va : Va) : Nat → Pmo → Option Pmo
  | 0, pmo => some pmo
  | n + 1, pmo =>
    if endLvl < pmo.lvl then do
      let (down, pmo') ← nextLvl ctx m va pmo
      if down then getPmoLoop endLvl va n pmo' else some pmo'
    else some pmo

/-- `hptw_get_pmo` -/
def getPmo (endLvl : Nat) (va : Va) : Option Pmo := do
  match ← getRoot ctx m with
  | none => none
  | some pmo => getPmoLoop ctx m endLvl va pmo.lvl pmo

/-- `hptw_get_pmeo` -/
def getPmeo (endLvl : Nat) (va : Va) : Option Pmeo := do
  let endPmo ← getPmo ctx m endLvl va
  endPmo.getPmeoByVa m va

/-- The loop of `hptw_get_effective_prots`. -/
def effectiveLoop (va : Va) : Nat → Pmo → Prot → Bool → Option (Prot × Bool × Pmo)
  | 0, _, _, _ => none
  | n + 1, pmo, prots, user => do
    let pmeo ← pmo.getPmeoByVa m va
    let prot ← pmeo.getprot
    let u ← pmeo.getuser
    let (down, pmo') ← nextLvl ctx m va pmo
    if down then effectiveLoop va n pmo' (prots &&& prot) (user && u)
    else some (prots &&& prot, user && u, pmo')

/-- `hptw_get_effective_prots`: the protections, and `*user_accessible` if it is set. -/
def getEffectiveProts (va : Va) : Option (Prot × Option Bool) := do
  match ← getRoot ctx m with
  | none => some (protsNone, none)
  | some pmo =>
    let (prots, user, pmo') ← effectiveLoop ctx m va pmo.lvl pmo protsRWX true
    if pmo'.t = .invalid then some (protsNone, none) else some (prots, some user)

/-- `hptw_set_prot` -/
def setProt (va : Va) (prot : Prot) : Option Mem := do
  let pmo ← getPmo ctx m 1 va
  guard (pmo.pm ≠ 0)
  guard (pmo.lvl = 1)
  let pmeo ← pmo.getPmeoByVa m va
  let pmeo ← pmeo.setprot prot
  pmo.setPmeByVa m pmeo va

/-- `hptw_va_to_pa` -/
def vaToPa (va : Va) : Option Pa := do
  let pmeo ← getPmeo ctx m 1 va
  pmeo.vaToPa va

/-- The check of an entry on the walk: every bit of the access, and user access except for CPL 0. -/
def grants (access : Prot) (cpl : Cpl) (prot : Prot) (user : Bool) : Prop :=
  access &&& prot = access ∧ (cpl = .cpl0 ∨ user = true)

instance (access : Prot) (cpl : Cpl) (prot : Prot) (user : Bool) :
    Decidable (grants access cpl prot user) := inferInstanceAs (Decidable (_ ∧ _))

/-- The loop of `hptw_checked_access_va`; `some none` is a check that fails. -/
def checkedLoop (access : Prot) (cpl : Cpl) (va : Va) : Nat → Pmo → Option (Option (Pmeo × Pmo))
  | 0, _ => none
  | n + 1, pmo => do
    let pmeo ← pmo.getPmeoByVa m va
    let prot ← pmeo.getprot
    let user ← pmeo.getuser
    if grants access cpl prot user then
      let (down, pmo') ← nextLvl ctx m va pmo
      if down then checkedLoop access cpl va n pmo' else some (some (pmeo, pmo'))
    else some none

/-- `hptw_checked_access_va`: the pointer and `*avail_sz`. -/
def checkedAccessVa (access : Prot) (cpl : Cpl) (va : Va) (requested : Nat) :
    Option (Nat × Nat) := do
  match ← getRoot ctx m with
  | none => some (0, 0)
  | some root =>
    match ← checkedLoop ctx m access cpl va root.lvl root with
    | none => some (0, 0)
    | some (pmeo, pmo) =>
      if pmo.t = .invalid then some (0, 0)
      else
        let present ← pmeo.isPresent
        if present then
          let page ← pmeo.isPage
          guard (page = true)
          let pa ← pmeo.vaToPa va
          ctx.pa2ptr m pa (min requested (pmeo.remainingOnPage pa)) access cpl
        else some (0, 0)

/-- The entries from `pmo` down, and where the walk ends. -/
def walkFrom (va : Va) : Nat → Pmo → Option (List Pmeo × Pmo)
  | 0, _ => none
  | n + 1, pmo => do
    let pmeo ← pmo.getPmeoByVa m va
    let (down, pmo') ← nextLvl ctx m va pmo
    if down then
      let (es, last) ← walkFrom va n pmo'
      return (pmeo :: es, last)
    else return ([pmeo], pmo')

/-- The entries on the walk of `va`, from the root on, and where it ends. -/
def walk (va : Va) : Option (List Pmeo × Pmo) := do
  match ← getRoot ctx m with
  | none => none
  | some root => walkFrom ctx m va root.lvl root

/-! ## The contexts of the hypapp -/

/-- `hptw_emhf_host_ctx_t` -/
structure HostCtx where
  rootPa : Pa
  t : HptType

/-- `hptw_emhf_checked_guest_ctx_t` -/
structure GuestCtx where
  rootPa : Pa
  t : HptType
  hostCtx : HostCtx

/-- `hptw_emhf_host_ctx_init`: `pa2ptr` and `ptr2pa` are the runtime's own linear map. -/
def HostCtx.super (r : Rpb) (h : HostCtx) : Ctx where
  pa2ptr _ spa sz _ _ := some (spa2hva1 r spa.toNat, sz)
  ptr2pa ptr := BitVec.ofNat 64 (hva2spa1 r ptr)
  rootPa := h.rootPa
  t := h.t

/-- `hptw_emhf_checked_guest_ctx_init`: `pa2ptr` is a checked access in the host's tables. -/
def GuestCtx.super (r : Rpb) (g : GuestCtx) : Ctx where
  pa2ptr m gpa sz access cpl := checkedAccessVa (g.hostCtx.super r) m access cpl gpa sz
  ptr2pa ptr := BitVec.ofNat 64 (hva2spa ptr)
  rootPa := g.rootPa
  t := g.t

/-- A context of the hypapp. -/
inductive EmhfCtx
  | host (h : HostCtx)
  | guest (g : GuestCtx)

/-- The walker's part of the context. -/
def EmhfCtx.super (r : Rpb) : EmhfCtx → Ctx
  | host h => h.super r
  | guest g => g.super r

end Xmhf.Hpt
