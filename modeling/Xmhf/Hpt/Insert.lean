import Xmhf.Hpt.Walk

/-!
# Insertion with allocation

`hptw_get_pmo_alloc` and `hptw_insert_pmeo_alloc`, for a context with a supply of zeroed pages: the
missing page maps on the way to a level are allocated and linked one by one. The supply has its own
state `σ`; a page of 0 is NULL.
-/

namespace Xmhf.Hpt

open Xmhf.Memory Xmhf.Paging

/-- `hptw_ctx_t` with `gzp`, which takes an alignment and a size. -/
structure AllocCtx (σ : Type) extends Ctx where
  gzp : Nat → Nat → σ → Mem → Option (Nat × σ × Mem)

variable {σ : Type} (ctx : AllocCtx σ)

/-- A page map entry made to link the page map at `pm`. -/
def Pmeo.link (pmeo : Pmeo) (pm : Nat) : Option Pmeo := do
  let pmeo ← pmeo.setAddress (ctx.ptr2pa pm)
  let pmeo ← pmeo.setprot protsRWX
  pmeo.setuser true

/-- The part of the loop of `hptw_get_pmo_alloc` before `hptw_next_lvl`: a page is in the way, or there
is no page for a page map (`false`), or there is a page map to go down to. -/
def allocLvl (va : Va) (pmo : Pmo) (s : σ) (m : Mem) : Option (Bool × σ × Mem) := do
  let pmeo ← pmo.getPmeoByVa m va
  let page ← pmeo.isPage
  if page then return (false, s, m)
  else
    let present ← pmeo.isPresent
    if present then return (true, s, m)
    else
      let sz ← pmSize pmo.t (pmo.lvl - 1)
      let (pm, s', m') ← ctx.gzp hptPmSize sz s m
      if pm = 0 then return (false, s', m')
      else
        let pmeo' ← pmeo.link ctx pm
        let m'' ← pmo.setPmeByVa m' pmeo' va
        return (true, s', m'')

/-- The loop of `hptw_get_pmo_alloc`; no page map is the error. -/
def getPmoAllocLoop (endLvl : Nat) (va : Va) : Nat → Pmo → σ → Mem → Option (Option Pmo × σ × Mem)
  | 0, pmo, s, m => some (some pmo, s, m)
  | n + 1, pmo, s, m =>
    if endLvl < pmo.lvl then do
      let (linked, s', m') ← allocLvl ctx va pmo s m
      if linked then
        let (down, pmo') ← nextLvl ctx.toCtx m' va pmo
        guard (down = true)
        getPmoAllocLoop endLvl va n pmo' s' m'
      else some (none, s', m')
    else some (some pmo, s, m)

/-- `hptw_get_pmo_alloc` -/
def getPmoAlloc (endLvl : Nat) (va : Va) (s : σ) (m : Mem) : Option (Option Pmo × σ × Mem) := do
  match ← getRoot ctx.toCtx m with
  | none => some (none, s, m)
  | some root => getPmoAllocLoop ctx endLvl va root.lvl root s m

/-- `hptw_insert_pmeo_alloc`: 0, or the error 1. -/
def insertPmeoAlloc (pmeo : Pmeo) (va : Va) (s : σ) (m : Mem) : Option (Nat × σ × Mem) := do
  let (found, s', m') ← getPmoAlloc ctx pmeo.lvl va s m
  match found with
  | none => some (1, s', m')
  | some pmo =>
    if pmo.pm ≠ 0 ∧ pmo.lvl = pmeo.lvl then
      let m'' ← pmo.setPmeByVa m' pmeo va
      return (0, s', m'')
    else some (1, s', m')

/-- The host's context with a supply of pages. -/
def HostCtx.withPages (r : Rpb) (h : HostCtx)
    (gzp : Nat → Nat → σ → Mem → Option (Nat × σ × Mem)) : AllocCtx σ :=
  { h.super r with gzp }

/-! ## The supply of the hypapp -/

/-- `pagelist_t`; `pagelist_init` has checked that the buffer is not NULL. -/
structure Pagelist where
  pageBase : Nat
  numAllocd : Nat
  numUsed : Nat
  pageBase_ne : pageBase ≠ 0

/-- `memset(page, 0, PAGE_SIZE_4K)` -/
def zeroPage (m : Mem) (p : Nat) : Mem := fun x => if p ≤ x ∧ x < p + pageSize4K then 0 else m x

/-- `pagelist_get_zeroedpage` -/
def pagelistGetZeroedpage (pl : Pagelist) (m : Mem) : Option (Nat × Pagelist × Mem) := do
  guard (pl.numUsed < pl.numAllocd)
  let page := pl.pageBase + pl.numUsed * pageSize4K
  return (page, { pl with numUsed := pl.numUsed + 1 }, zeroPage m page)

/-- `hptw_emhf_host_ctx_gzp` -/
def hostCtxGzp (alignment sz : Nat) (pl : Pagelist) (m : Mem) : Option (Nat × Pagelist × Mem) := do
  guard (pageSize4K % alignment = 0)
  guard (sz ≤ pageSize4K)
  pagelistGetZeroedpage pl m

end Xmhf.Hpt
