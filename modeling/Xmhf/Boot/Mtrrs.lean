import Mathlib.Logic.Function.Basic
import Mathlib.Data.List.Basic
import Xmhf.Lib.Bitfield
import Xmhf.Memprot.Mtrr

/-!
# The MTRRs around the measured launch

`bplt-x86vmx-mtrrs.c`: the boot loader saves the MTRRs and sets them for the AC module, and the secure loader
and the runtime check what was saved and restore it.

* `Core` has the MSRs of a core, with its CR0, CR4 and EFLAGS. `none` is a halt, a #GP, a read past the
  arrays that were saved, or a variable-range MTRR changed while the MTRRs are enabled, which the architecture
  leaves undefined.
* `Core.pageType` is the memory type that the MTRRs give a page. As the source does, it takes a physical
  address to have 36 bits, so a page number has 24.
-/

namespace Xmhf.Mtrrs

open Xmhf.Bitfield Xmhf.Memprot

/-- `MSR_MTRRcap` -/
def msrMTRRcap : Nat := 0x0fe
/-- `MSR_MTRRdefType` -/
def msrMTRRdefType : Nat := 0x2ff
/-- `MTRR_PHYS_BASE0_MSR` -/
def mtrrPhysBase0Msr : Nat := 0x200
/-- `MTRR_PHYS_MASK0_MSR` -/
def mtrrPhysMask0Msr : Nat := 0x201
/-- `MAX_VARIABLE_MTRRS` -/
def maxVariableMtrrs : Nat := 16

/-- `MTRR_TYPE_UNCACHABLE` -/
def typeUncachable : BitVec 8 := 0
/-- `MTRR_TYPE_WRTHROUGH` -/
def typeWrthrough : BitVec 8 := 4
/-- `MTRR_TYPE_WRBACK` -/
def typeWrback : BitVec 8 := 6

/-- A core, as far as this code changes it. -/
structure Core where
  msrs : Nat → Option (BitVec 64)
  cr0 : BitVec 32
  cr4 : BitVec 32
  eflags : BitVec 32

/-! ## The fields of the registers -/

/-- A store to a bit-field. -/
def storeField (raw : BitVec 64) (hi lo : Nat) (v : BitVec 64) : BitVec 64 := copyBits raw v (hi - lo) 0 lo

/-- `mtrr_cap_t.vcnt` -/
def vcntOf (raw : BitVec 64) : Nat := (getHL raw 7 0).toNat

/-- `mtrr_def_type_t.e` -/
def isEnabled (raw : BitVec 64) : Bool := raw.getLsbD 11

/-- `mtrr_def_type_t.fe` -/
def isFixedEnabled (raw : BitVec 64) : Bool := raw.getLsbD 10

/-- A variable-range MTRR: `mtrr_physbase_t` and `mtrr_physmask_t`. -/
structure VarMtrr where
  physbase : BitVec 64
  physmask : BitVec 64
  deriving DecidableEq

namespace VarMtrr

/-- `mtrr_physbase_t.type` -/
def type (r : VarMtrr) : BitVec 8 := r.physbase.extractLsb' 0 8

/-- `mtrr_physbase_t.base` -/
def base (r : VarMtrr) : BitVec 24 := r.physbase.extractLsb' 12 24

/-- `mtrr_physmask_t.v` -/
def v (r : VarMtrr) : Bool := r.physmask.getLsbD 11

/-- `mtrr_physmask_t.mask` -/
def mask (r : VarMtrr) : BitVec 24 := r.physmask.extractLsb' 12 24

/-- The range has the page. -/
def covers (r : VarMtrr) (page : BitVec 24) : Bool := page &&& r.mask == r.base &&& r.mask

end VarMtrr

/-! ## The processor -/

/-- `rdmsr64` -/
def Core.rdmsr64 (c : Core) (msr : Nat) : Option (BitVec 64) := c.msrs msr

/-- The MTRRs are enabled. -/
def Core.enabled (c : Core) : Bool := (c.msrs msrMTRRdefType).any isEnabled

/-- The MSR is one of a variable-range MTRR. -/
def isVariable (msr : Nat) : Bool := decide (mtrrPhysBase0Msr ≤ msr ∧ msr < 0x250)

/-- `wrmsr64` -/
def Core.wrmsr64 (c : Core) (msr : Nat) (val : BitVec 64) : Option Core :=
  if (c.msrs msr).isNone || (isVariable msr && c.enabled) then none
  else some { c with msrs := Function.update c.msrs msr (some val) }

/-- The `i`-th variable-range MTRR of a core. -/
def Core.var (c : Core) (i : Nat) : Option VarMtrr := do
  let physbase ← c.msrs (mtrrPhysBase0Msr + i * 2)
  let physmask ← c.msrs (mtrrPhysMask0Msr + i * 2)
  return ⟨physbase, physmask⟩

/-- The type of a page that ranges of the types `types` have in common. There is none where the architecture
leaves it undefined. -/
def combine (dflt : BitVec 8) : List (BitVec 8) → Option (BitVec 8)
  | [] => some dflt
  | t :: ts =>
    if typeUncachable ∈ t :: ts then some typeUncachable
    else if ∀ u ∈ ts, u = t then some t
    else if ∀ u ∈ t :: ts, u = typeWrthrough ∨ u = typeWrback then some typeWrthrough
    else none

/-- The types of the variable ranges that have the page. -/
def Core.typesAt (c : Core) (vcnt : Nat) (page : BitVec 24) : List (BitVec 8) :=
  ((List.range vcnt).filterMap c.var |>.filter fun r => r.v && r.covers page).map VarMtrr.type

/-- The type in the fixed ranges, of a page below 1 MB. -/
def Core.fixedType (c : Core) (page : BitVec 24) : Option (BitVec 8) := do
  let r ← fixedMtrrs.find? fun r => r.base ≤ page.toNat * 4096 ∧ page.toNat * 4096 < r.base + 8 * r.size
  let raw ← c.msrs r.msr
  return raw.extractLsb' (8 * ((page.toNat * 4096 - r.base) / r.size)) 8

/-- The memory type of a page. -/
def Core.pageType (c : Core) (page : BitVec 24) : Option (BitVec 8) := do
  let cap ← c.msrs msrMTRRcap
  let defType ← c.msrs msrMTRRdefType
  if !isEnabled defType then return typeUncachable
  else if isFixedEnabled defType && decide (page.toNat < 256) then c.fixedType page
  else combine (defType.extractLsb' 0 8) (c.typesAt (vcntOf cap) page)

/-! ## Setting the MTRRs for the AC module -/

/-- `set_all_mtrrs` -/
def setAllMtrrs (c : Core) (enable : Bool) : Option Core := do
  let mtrrDefType ← c.rdmsr64 msrMTRRdefType
  c.wrmsr64 msrMTRRdefType (setBit mtrrDefType 11 enable)

/-- `fls` -/
def fls (mask : Nat) : Nat := if mask = 0 then 0 else mask.log2 + 1

/-- `mtrr_physmask.v = 0` of the `ndx`-th variable range. -/
def disableRange (c : Core) (ndx : Nat) : Option Core := do
  let mtrrPhysmask ← c.rdmsr64 (mtrrPhysMask0Msr + ndx * 2)
  c.wrmsr64 (mtrrPhysMask0Msr + ndx * 2) (setBit mtrrPhysmask 11 false)

/-- One round of the second loop of `set_mem_type`: the `ndx`-th variable range gets the pages from `base` on. -/
def setRange (c : Core) (memType base pagesInRange : BitVec 32) (ndx : Nat) : Option Core := do
  let physbase ← c.rdmsr64 (mtrrPhysBase0Msr + ndx * 2)
  let physbase := storeField physbase 35 12 ((base >>> 12).setWidth 64)
  let physbase := storeField physbase 7 0 (memType.setWidth 64)
  let physbase := storeField physbase 63 36 0
  let c ← c.wrmsr64 (mtrrPhysBase0Msr + ndx * 2) physbase
  let physmask ← c.rdmsr64 (mtrrPhysMask0Msr + ndx * 2)
  let physmask := storeField physmask 35 12 ((~~~(pagesInRange - 1)).setWidth 64)
  let physmask := setBit physmask 11 true
  let physmask := storeField physmask 63 36 0
  c.wrmsr64 (mtrrPhysMask0Msr + ndx * 2) physmask

/-- The second loop of `set_mem_type`. -/
def setRanges (memType : BitVec 32) (vcnt : Nat) (base : BitVec 32) (numPages ndx : Nat) (c : Core) :
    Option (Bool × Core) :=
  if h : numPages = 0 then some (true, c)
  else do
    let pagesInRange := 2 ^ (fls numPages - 1)
    let c ← setRange c memType base (BitVec.ofNat 32 pagesInRange) ndx
    if ndx + 1 = vcnt then return (false, c)
    else setRanges memType vcnt (base + BitVec.ofNat 32 (pagesInRange * 4096)) (numPages - pagesInRange) (ndx + 1) c
termination_by numPages
decreasing_by exact Nat.sub_lt (Nat.pos_of_ne_zero h) (Nat.two_pow_pos _)

/-- `num_pages` of `set_mem_type` -/
def numPagesOf (size : BitVec 32) : Nat := ((size + 4096 - 1) >>> 12).toNat

/-- `set_mem_type` -/
def setMemType (c : Core) (base size memType : BitVec 32) : Option (Bool × Core) := do
  let mtrrDefType ← c.rdmsr64 msrMTRRdefType
  let mtrrDefType := setBit mtrrDefType 10 false
  let mtrrDefType := storeField mtrrDefType 7 0 (typeUncachable.setWidth 64)
  let c ← c.wrmsr64 msrMTRRdefType mtrrDefType
  let mtrrCap ← c.rdmsr64 msrMTRRcap
  let c ← (List.range (vcntOf mtrrCap)).foldlM disableRange c
  setRanges memType (vcntOf mtrrCap) base (numPagesOf size) 0 c

/-- `CR0_NW` -/
def cr0NW : BitVec 32 := 0x20000000
/-- `CR0_CD` -/
def cr0CD : BitVec 32 := 0x40000000
/-- `CR4_PGE` -/
def cr4PGE : BitVec 32 := 0x80
/-- EFLAGS.IF, which `disable_intr` clears. -/
def eflagsIF : BitVec 32 := 0x200

/-- `set_mtrrs_for_acmod`, of a module at `hdr` whose size is `size` units of four bytes. -/
def setMtrrsForAcmod (c : Core) (hdr size : BitVec 32) : Option (Bool × Core) := do
  let eflags := c.eflags
  let c := { c with eflags := c.eflags &&& ~~~eflagsIF }
  let cr0 := c.cr0
  let c := { c with cr0 := (cr0 &&& ~~~cr0NW) ||| cr0CD }
  let cr4 := c.cr4
  let c := { c with cr4 := cr4 &&& ~~~cr4PGE }
  let c ← setAllMtrrs c false
  let (ok, c) ← setMemType c hdr (size * 4) 6
  if !ok then return (false, c)
  let c ← setAllMtrrs c true
  return (true, { c with cr0 := cr0, cr4 := cr4, eflags := eflags })

/-! ## Saving, checking and restoring -/

/-- `mtrr_state_t` -/
structure MtrrState where
  mtrrDefType : BitVec 64
  numVarMtrrs : Int
  mtrrPhysbases : Vector (BitVec 64) 16
  mtrrPhysmasks : Vector (BitVec 64) 16

/-- The `ndx`-th range that is saved. -/
def MtrrState.var (s : MtrrState) (ndx : Nat) : Option VarMtrr := do
  let physbase ← s.mtrrPhysbases[ndx]?
  let physmask ← s.mtrrPhysmasks[ndx]?
  return ⟨physbase, physmask⟩

/-- The `ndx`-th range is saved. -/
def saveRange (c : Core) (saved : MtrrState) (ndx : Nat) : Option MtrrState := do
  let physmask ← c.rdmsr64 (mtrrPhysMask0Msr + ndx * 2)
  let physbase ← c.rdmsr64 (mtrrPhysBase0Msr + ndx * 2)
  return { saved with
    mtrrPhysmasks := saved.mtrrPhysmasks.setIfInBounds ndx physmask
    mtrrPhysbases := saved.mtrrPhysbases.setIfInBounds ndx physbase }

/-- `save_mtrrs` -/
def saveMtrrs (c : Core) (saved : MtrrState) : Option MtrrState := do
  let mtrrDefType ← c.rdmsr64 msrMTRRdefType
  let mtrrCap ← c.rdmsr64 msrMTRRcap
  let num := if maxVariableMtrrs < vcntOf mtrrCap then maxVariableMtrrs else vcntOf mtrrCap
  (List.range num).foldlM (saveRange c) { saved with mtrrDefType := mtrrDefType, numVarMtrrs := num }

/-- `for ( ; tb != 0x1000000; tb = tb << 1 )` until the bit `tb` of the mask is `stop`; `tb` is `1 << i`. -/
def scanBits (mask : BitVec 24) (stop : Bool) (i : Nat) : Nat :=
  if h : i < 24 then if mask.getLsbD i = stop then i else scanBits mask stop (i + 1) else i
termination_by 24 - i

/-- The ones of the mask are its highest bits. -/
def contiguous (mask : BitVec 24) : Bool := scanBits mask false (scanBits mask true 0) == 24

/-- Two ranges may overlap with their types, one by one. -/
def typesMix (a b : BitVec 8) : Bool :=
  a == b || (a == typeUncachable || b == typeUncachable) || (a == typeWrthrough && b == typeWrback) ||
    (a == typeWrback && b == typeWrthrough)

/-- The first range begins in the second one: `(base_a & mask_a & mask_b) == (base_b & mask_b)`. -/
def VarMtrr.startsIn (a b : VarMtrr) : Bool := a.base &&& a.mask &&& b.mask == b.base &&& b.mask

/-- The first range lies in the second one. -/
def VarMtrr.liesIn (a b : VarMtrr) : Bool := a.startsIn b && (b.mask &&& ~~~a.mask == 0)

/-- Two ranges that overlap with types that do not mix, with no uncachable range around one of them. -/
def conflictFree (saved : MtrrState) (num ndx i : Nat) : Option Bool := do
  let a ← saved.var ndx
  let b ← saved.var i
  if !b.v then return true
  if !a.startsIn b && !b.startsIn a then return true
  if typesMix a.type b.type then return true
  (List.range num).anyM fun j => do
    let u ← saved.var j
    return u.v && u.type == typeUncachable && (a.liesIn u || b.liesIn u)

/-- `validate_mtrrs` -/
def validateMtrrs (c : Core) (saved : MtrrState) : Option Bool := do
  if !isEnabled saved.mtrrDefType then return true
  let mtrrCap ← c.rdmsr64 msrMTRRcap
  if (vcntOf mtrrCap : Int) < saved.numVarMtrrs then return false
  let num := saved.numVarMtrrs.toNat
  let regular ← (List.range num).allM fun ndx => do
    let r ← saved.var ndx
    return !r.v || contiguous r.mask
  if !regular then return false
  (List.range num).allM fun ndx => do
    let r ← saved.var ndx
    if !r.v then return true
    (List.range' (ndx + 1) (num - (ndx + 1))).allM (conflictFree saved num ndx)

/-- The `ndx`-th range is restored. -/
def restoreRange (saved : MtrrState) (c : Core) (ndx : Nat) : Option Core := do
  let physmask ← saved.mtrrPhysmasks[ndx]?
  let c ← c.wrmsr64 (mtrrPhysMask0Msr + ndx * 2) physmask
  let physbase ← saved.mtrrPhysbases[ndx]?
  c.wrmsr64 (mtrrPhysBase0Msr + ndx * 2) physbase

/-- `restore_mtrrs`. A null pointer halts, so that `g_saved_mtrrs` is never taken in its place. -/
def restoreMtrrs (c : Core) : Option MtrrState → Option Core
  | none => none
  | some saved => do
    let c ← setAllMtrrs c false
    let c ← (List.range saved.numVarMtrrs.toNat).foldlM (restoreRange saved) c
    c.wrmsr64 msrMTRRdefType saved.mtrrDefType

end Xmhf.Mtrrs
