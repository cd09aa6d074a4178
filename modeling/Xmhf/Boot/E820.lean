import Xmhf.Lib.Memory
import Xmhf.Lib.Word

/-!
# The memory map

`dealwithE820` of the boot loader grabs the multiboot memory map and revises it: the entry that has secure
loader and runtime is split. Addresses and sizes of the runtime are `u32`; an entry's are 64 bits in two
words.
-/

namespace Xmhf.Boot

open Xmhf.Memory Xmhf.Word

/-- `GRUBE820` -/
structure GrubE820 where
  baseaddrLow : BitVec 32
  baseaddrHigh : BitVec 32
  lengthLow : BitVec 32
  lengthHigh : BitVec 32
  type : BitVec 32
  deriving DecidableEq, Repr

/-- The fields, as they are in memory. -/
def GrubE820.words (e : GrubE820) : List (BitVec 32) :=
  [e.baseaddrLow, e.baseaddrHigh, e.lengthLow, e.lengthHigh, e.type]

/-- `MAX_E820_ENTRIES` -/
def maxE820Entries : Nat := 64

/-- `__TARGET_BASE_SL` -/
def targetBaseSL : BitVec 32 := 0x10000000

/-- `MBI_MEMMAP` -/
def mbiMemmap : BitVec 32 := 0x06

/-- `multiboot_info_t`, as far as it is used. -/
structure MultibootInfo where
  flags : BitVec 32
  mmapLength : BitVec 32
  mmapAddr : BitVec 32
  deriving DecidableEq, Repr

/-- The loop that grabs the list: the `memory_map_t` entries from `mmap` on, each with its size before it.
`none`: it goes on for more than `fuel` entries. -/
def grabE820 (m : Mem) (stop : Nat) : Nat → Nat → Option (List GrubE820)
  | 0, mmap => if mmap < stop then none else some []
  | fuel + 1, mmap =>
    if mmap < stop then do
      let size := (load32 m mmap).toNat
      let rest ← grabE820 m stop fuel (add32 mmap (add32 size 4))
      return ⟨load32 m (add32 mmap 4), load32 m (add32 mmap 8), load32 m (add32 mmap 12),
        load32 m (add32 mmap 16), load32 m (add32 mmap 20)⟩ :: rest
    else some []

/-- The indices of `grube820list` that the loop writes in its first `fuel` rounds; `n` is
`grube820list_numentries`. -/
def grabWrites (m : Mem) (stop : Nat) : Nat → Nat → Nat → List Nat
  | 0, _, _ => []
  | fuel + 1, mmap, n =>
    if mmap < stop then n :: grabWrites m stop fuel (add32 mmap (add32 (load32 m mmap).toNat 4)) (inc32 n)
    else []

/-- The search for the free entry that has room for secure loader and runtime, from index `i` on: `none`
is the halt at a 64-bit length, `some none` no such entry. -/
def findEntry (slruntimephysicalbase runtimesize : BitVec 32) : List GrubE820 → Nat → Option (Option Nat)
  | [], _ => some none
  | e :: es, i =>
    if e.type = 1 then
      if e.baseaddrHigh ≠ 0 then findEntry slruntimephysicalbase runtimesize es (i + 1)
      else if e.lengthHigh ≠ 0 then none
      else if e.baseaddrLow ≤ slruntimephysicalbase ∧
          slruntimephysicalbase + runtimesize < e.baseaddrLow + e.lengthLow then
        some (some i)
      else findEntry slruntimephysicalbase runtimesize es (i + 1)
    else findEntry slruntimephysicalbase runtimesize es (i + 1)

/-- The entries that entry `e` is split into. -/
def splitEntry (slruntimephysicalbase runtimesize : BitVec 32) (e : GrubE820) : List GrubE820 :=
  if slruntimephysicalbase = e.baseaddrLow ∧
      slruntimephysicalbase + runtimesize = e.baseaddrLow + e.lengthLow then
    -- exact match, no split
    [⟨e.baseaddrLow, 0, e.lengthLow, 0, e.type⟩]
  else if slruntimephysicalbase = e.baseaddrLow ∧ runtimesize < e.lengthLow then
    -- left aligned, split into 2
    [⟨e.baseaddrLow, 0, runtimesize, 0, 2⟩,
      ⟨e.baseaddrLow + runtimesize, 0, e.lengthLow - runtimesize, 0, 1⟩]
  else if slruntimephysicalbase + runtimesize = e.baseaddrLow + e.lengthLow ∧
      e.baseaddrLow < slruntimephysicalbase then
    -- right aligned, split into 2
    [⟨e.baseaddrLow, 0, slruntimephysicalbase - e.baseaddrLow, 0, 1⟩,
      ⟨slruntimephysicalbase, 0, runtimesize, 0, 1⟩]
  else
    -- range in the middle, split into 3
    [⟨e.baseaddrLow, 0, slruntimephysicalbase - e.baseaddrLow, 0, 1⟩,
      ⟨slruntimephysicalbase, 0, runtimesize, 0, 2⟩,
      ⟨slruntimephysicalbase + runtimesize, 0,
        e.lengthLow - runtimesize - (slruntimephysicalbase - e.baseaddrLow), 0, 1⟩]

/-- The revision of the grabbed list; `none` is a halt. -/
def reviseE820 (slruntimephysicalbase runtimesize : BitVec 32) (grube820list : List GrubE820) :
    Option (List GrubE820) := do
  match ← findEntry slruntimephysicalbase runtimesize grube820list 0 with
  | none => none
  | some i =>
    guard (grube820list.length + 2 < maxE820Entries)
    let e ← grube820list[i]?
    return grube820list.take i ++ splitEntry slruntimephysicalbase runtimesize e ++
      grube820list.drop (i + 1)

/-- The indices of `te820` that the revision writes: the copied entries before the one found, and after the
check the entries it is split into and the rest. -/
def te820Writes (slruntimephysicalbase runtimesize : BitVec 32) (grube820list : List GrubE820) : List Nat :=
  match findEntry slruntimephysicalbase runtimesize grube820list 0 with
  | some (some i) =>
    List.range i ++
      if grube820list.length + 2 < maxE820Entries then
        match grube820list[i]? with
        | some e => List.range' i ((splitEntry slruntimephysicalbase runtimesize e).length +
            (grube820list.length - (i + 1)))
        | none => []
      else []
  | _ => []

/-- `dealwithE820`: the base of secure loader and runtime, and the revised `grube820list`. -/
def dealwithE820 (fuel : Nat) (m : Mem) (mbi : MultibootInfo) (runtimesize : BitVec 32) :
    Option (BitVec 32 × List GrubE820) := do
  guard (mbi.flags &&& mbiMemmap ≠ 0)
  let list ← grabE820 m (mbi.mmapAddr + mbi.mmapLength).toNat fuel mbi.mmapAddr.toNat
  let revised ← reviseE820 targetBaseSL runtimesize list
  return (targetBaseSL, revised)

end Xmhf.Boot
