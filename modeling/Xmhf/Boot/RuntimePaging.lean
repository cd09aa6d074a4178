import Xmhf.Platform.Paging

/-!
# The runtime's page table

`xmhf_sl_arch_x86_setup_runtime_paging` builds the page table that the runtime starts on: pages of 2MB, one
to one below the runtime, then the runtime at its physical base, and two pages of devices.

* The two loops share `i`. The first leaves it at the index of the runtime's first page, which it has
  mapped one to one, and the second writes this entry again.
* The secure loader's data segment starts 2MB below the runtime in physical memory, so a store to `sla` is
  to the physical address `sla2spa sla`.
-/

namespace Xmhf.Boot

open Xmhf.Memory Xmhf.Word Xmhf.Paging

/-- The fields of `RPB` that are used, all `u32`. -/
structure PagingRpb where
  /-- `XtVmmRuntimePhysBase` -/
  runtimePhysBase : Nat
  /-- `XtVmmRuntimeVirtBase` -/
  runtimeVirtBase : Nat
  /-- `XtVmmPdptBase` -/
  pdptBase : Nat
  /-- `XtVmmPdtsBase` -/
  pdtsBase : Nat

/-- `hva2sla` -/
def PagingRpb.hva2sla (rpb : PagingRpb) (hva : Nat) : Nat :=
  add32 (sub32 hva rpb.runtimeVirtBase) pageSize2M

/-- `sla2spa` -/
def PagingRpb.sla2spa (rpb : PagingRpb) (sla : Nat) : Nat :=
  add32 sla (sub32 rpb.runtimePhysBase pageSize2M)

/-- `hva2spa1` -/
def PagingRpb.hva2spa1 (rpb : PagingRpb) (hva : Nat) : Nat :=
  sub32 (add32 hva rpb.runtimePhysBase) rpb.runtimeVirtBase

/-- `_PAGE_PRESENT | _PAGE_RW | _PAGE_PSE | _PAGE_USER` -/
def defaultFlags : BitVec 64 := pagePresent ||| pageRW ||| pagePSE ||| pageUser

/-- "init pdts with unity mappings": what is written from `i` on, in at most `n` rounds, and `i` after
it. -/
def unityLoop (runtimeSva : Nat) : Nat → Nat → Nat → List (Nat × BitVec 64) × Nat
  | 0, i, _ => ([], i)
  | n + 1, i, hva =>
    let entry := paeMakePdeBig (hva2spa hva) defaultFlags
    if hva = runtimeSva then ([(i, entry)], i)
    else
      let rest := unityLoop runtimeSva n (i + 1) (add32 hva pageSize2M)
      ((i, entry) :: rest.1, rest.2)

/-- The loop over the `n` pages of the runtime from `hva` on; `none` where it halts. -/
def runtimeLoop (rpb : PagingRpb) : Nat → Nat → Nat → Option (List (Nat × BitVec 64))
  | 0, _, _ => some []
  | n + 1, i, hva => do
    let spa := rpb.hva2spa1 hva
    let flags ←
      if spa = 0xFEE00000 ∨ spa = 0xFEC00000 then
        -- "expecting these to be unity-mapped"
        if hva = spa then some (defaultFlags ||| pagePCD) else none
      else some defaultFlags
    let rest ← runtimeLoop rpb n (i + 1) (add32 hva pageSize2M)
    some ((i, paeMakePdeBig spa flags) :: rest)

/-- What is written to the two arrays, by index and in order, and the address of the root. -/
structure RuntimePaging where
  xpdpt : List (Nat × BitVec 64)
  xpdt : List (Nat × BitVec 64)
  root : Nat

/-- `xmhf_sl_arch_x86_setup_runtime_paging` -/
def setupRuntimePaging (rpb : PagingRpb) (runtimeSva totalsize : Nat) : Option RuntimePaging := do
  let xpdpt := rpb.hva2sla rpb.pdptBase
  let xpdt := rpb.hva2sla rpb.pdtsBase
  let pdpt := (List.range 4).map fun i =>
    (i, paeMakePte (rpb.sla2spa xpdt + i * 2 ^ 12) pagePresent)
  let endIdx := totalsize / pageSize2M
  let unity := unityLoop runtimeSva 2048 0 0
  let runtime ← runtimeLoop rpb endIdx unity.2 runtimeSva
  let flag1 := defaultFlags ||| pagePCD
  let devices := [(0x7F7, paeMakePdeBig 0xFEE00000 flag1), (0x7F6, paeMakePdeBig 0xFEC00000 flag1)]
  some ⟨pdpt, unity.1 ++ runtime ++ devices, rpb.sla2spa xpdpt⟩

/-- The stores to an array of entries at `base`, an address of the secure loader. -/
def PagingRpb.stores (rpb : PagingRpb) (base : Nat) (writes : List (Nat × BitVec 64)) :
    List (Nat × BitVec 64) :=
  writes.map fun w => (rpb.sla2spa (add32 base (8 * w.1)), w.2)

/-- Memory after the function. -/
def RuntimePaging.mem (t : RuntimePaging) (rpb : PagingRpb) (m : Mem) : Mem :=
  Memory.stores (rpb.stores (rpb.hva2sla rpb.pdptBase) t.xpdpt ++
    rpb.stores (rpb.hva2sla rpb.pdtsBase) t.xpdt) m

/-- The PCD bit of the entry that maps `va`. -/
def paePcd (m : Mem) (cr3 va : Nat) : Bool :=
  let pdpte := load64 m (cr3 / 32 * 32 + 8 * (va / 2 ^ 30 % 4))
  let pde := load64 m (entryAddr pdpte + 8 * (va / 2 ^ 21 % 512))
  if pde.getLsbD 7 then pde.getLsbD 4
  else (load64 m (entryAddr pde + 8 * (va / 2 ^ 12 % 512))).getLsbD 4

end Xmhf.Boot
