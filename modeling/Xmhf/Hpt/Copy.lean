import Xmhf.Hpt.Walk
import Xmhf.Lib.Chunk

/-!
# Checked copies

`hptw_checked_copy_from_va`, `hptw_checked_copy_to_va`, `hptw_checked_copy_va_to_va` and
`hptw_checked_memset_va`: each round of the loop makes a checked access to what is left and moves the
bytes that are available there.
-/

namespace Xmhf.Hpt

open Xmhf.Memory Xmhf.Word Xmhf.Chunk

/-- The return value of a copy: 0, or 1 if an access fails. -/
def copyRv (res : Bool × Mem) : Nat × Mem := (if res.1 then 0 else 1, res.2)

/-- `va + copied` -/
def vaAt (base : Va) (copied : Nat) : Va := base + BitVec.ofNat 64 copied

/-- A round of `hptw_checked_copy_from_va`. -/
def copyFromChunk (ctx : Ctx) (cpl : Cpl) (dst : Nat) (srcVaBase : Va) (len : Nat) (m : Mem)
    (copied : Nat) : Option (Option (Mem × Nat)) := do
  let (src, toCopy) ← checkedAccessVa ctx m protsR cpl (vaAt srcVaBase copied) (len - copied)
  if src = 0 then return none
  else return some (memcpy m (add32 dst copied) src toCopy, toCopy)

/-- `hptw_checked_copy_from_va` -/
def checkedCopyFromVa (ctx : Ctx) (cpl : Cpl) (dst : Nat) (srcVaBase : Va) (len : Nat) (m : Mem) :
    Option (Nat × Mem) :=
  (chunkLoop (copyFromChunk ctx cpl dst srcVaBase len) len len 0 m).map copyRv

/-- A round of `hptw_checked_copy_to_va`. -/
def copyToChunk (ctx : Ctx) (cpl : Cpl) (dstVaBase : Va) (src : Nat) (len : Nat) (m : Mem)
    (copied : Nat) : Option (Option (Mem × Nat)) := do
  let (dst, toCopy) ← checkedAccessVa ctx m protsW cpl (vaAt dstVaBase copied) (len - copied)
  if dst = 0 then return none
  else return some (memcpy m dst (add32 src copied) toCopy, toCopy)

/-- `hptw_checked_copy_to_va` -/
def checkedCopyToVa (ctx : Ctx) (cpl : Cpl) (dstVaBase : Va) (src : Nat) (len : Nat) (m : Mem) :
    Option (Nat × Mem) :=
  (chunkLoop (copyToChunk ctx cpl dstVaBase src len) len len 0 m).map copyRv

/-- A round of `hptw_checked_copy_va_to_va`. -/
def copyVaToVaChunk (dstCtx : Ctx) (dstCpl : Cpl) (dstVaBase : Va) (srcCtx : Ctx) (srcCpl : Cpl)
    (srcVaBase : Va) (len : Nat) (m : Mem) (copied : Nat) : Option (Option (Mem × Nat)) := do
  let (dst, avail) ← checkedAccessVa dstCtx m protsW dstCpl (vaAt dstVaBase copied) (len - copied)
  if dst = 0 then return none
  else
    let (src, toCopy) ← checkedAccessVa srcCtx m protsR srcCpl (vaAt srcVaBase copied) avail
    if src = 0 then return none
    else return some (memcpy m dst src toCopy, toCopy)

/-- `hptw_checked_copy_va_to_va` -/
def checkedCopyVaToVa (dstCtx : Ctx) (dstCpl : Cpl) (dstVaBase : Va) (srcCtx : Ctx) (srcCpl : Cpl)
    (srcVaBase : Va) (len : Nat) (m : Mem) : Option (Nat × Mem) :=
  (chunkLoop (copyVaToVaChunk dstCtx dstCpl dstVaBase srcCtx srcCpl srcVaBase len) len len 0 m).map
    copyRv

/-- A round of `hptw_checked_memset_va`. -/
def memsetChunk (ctx : Ctx) (cpl : Cpl) (dstVaBase : Va) (c : BitVec 32) (len : Nat) (m : Mem)
    (set : Nat) : Option (Option (Mem × Nat)) := do
  let (dst, toSet) ← checkedAccessVa ctx m protsW cpl (vaAt dstVaBase set) (len - set)
  if dst = 0 then return none
  else return some (memset m dst (c.setWidth 8) toSet, toSet)

/-- `hptw_checked_memset_va` -/
def checkedMemsetVa (ctx : Ctx) (cpl : Cpl) (dstVaBase : Va) (c : BitVec 32) (len : Nat) (m : Mem) :
    Option (Nat × Mem) :=
  (chunkLoop (memsetChunk ctx cpl dstVaBase c len) len len 0 m).map copyRv

end Xmhf.Hpt
