import Mathlib.Algebra.GroupWithZero.Nat
import Mathlib.Logic.Function.Basic
import Xmhf.Lib.Bytes
import Xmhf.Lib.Records

/-!
# The cores of the system

`smp_getinfo` of the boot loader looks for processors in the ACPI MADT, and then in the MP configuration
table.

* A pointer of the boot loader is a `u32`, and the tables are where the firmware has left them in memory.
* The loop over the MADT's records has no bound of its own, so it runs with fuel; the others are bounded by a
  count that the code reads first.
-/

namespace Xmhf.Boot

open Xmhf.Memory Xmhf.Word Xmhf.Bytes Xmhf.Records

/-- `MAX_PCPU_ENTRIES` -/
def maxPcpuEntries : Nat := 8
/-- `ACPI_RSDP_SIGNATURE` -/
def acpiRsdpSignature : Nat := 0x2052545020445352
/-- `ACPI_MADT_SIGNATURE` -/
def acpiMadtSignature : Nat := 0x43495041
/-- `MPFP_SIGNATURE` -/
def mpfpSignature : Nat := 0x5F504D5F
/-- `MPCONFTABLE_SIGNATURE` -/
def mpconftableSignature : Nat := 0x504D4350
/-- `sizeof(ACPI_RSDT)` -/
def sizeofAcpiRsdt : Nat := 36
/-- `sizeof(ACPI_MADT)` -/
def sizeofAcpiMadt : Nat := 44
/-- `sizeof(MPCONFTABLE)` -/
def sizeofMpconftable : Nat := 44
/-- `sizeof(MPENTRYCPU)` -/
def sizeofMpentrycpu : Nat := 20

/-- `PCPU` -/
structure Pcpu where
  lapicId : Nat
  lapicVer : Nat
  lapicBase : Nat
  isbsp : Nat

/-- `*num_pcpus` and the array `pcpus`. -/
structure Pcpus where
  num : Nat
  entry : Nat → Pcpu

/-- `pcpus[i] = p`, and `*num_pcpus` counts it. -/
def Pcpus.put (c : Pcpus) (i : Nat) (p : Pcpu) : Pcpus := ⟨c.num + 1, Function.update c.entry i p⟩

/-- A field of `n` bytes of the structure at `a`. -/
def field (m : Mem) (a offset n : Nat) : Nat := readLE m (add32 a offset) n

/-- The sum of `n` bytes. -/
def byteSum (m : Mem) (a n : Nat) : Nat := ((bytesAt m a n).map BitVec.toNat).sum

/-- The values of `i` in `for(i = lo; i < hi; i += step)`. -/
def stepsFrom (lo hi step : Nat) : List Nat :=
  (List.range ((hi - lo + (step - 1)) / step)).map fun k => lo + step * k

/-! ## ACPI -/

/-- `mp_getebda` -/
def mpGetebda (m : Mem) : Nat := readLE m 0x40E 2 * 16

/-- `_ACPIGetRSDPComputeChecksum`: the sum is a `char`, which is signed. -/
def acpiGetRSDPComputeChecksum (m : Mem) (spaddr size : Nat) : BitVec 32 :=
  (BitVec.ofNat 8 (byteSum m spaddr size)).signExtend 32

/-- What `ACPIGetRSDP` looks for. -/
def isRsdp (m : Mem) (rsdp : Nat) : Bool :=
  readLE m rsdp 8 == acpiRsdpSignature && acpiGetRSDPComputeChecksum m rsdp 20 == 0

/-- `ACPIGetRSDP`: "search first 1KB of ebda", then "within BIOS areas 0xE0000 to 0xFFFFF". -/
def acpiGetRSDP (m : Mem) : Option Nat :=
  (((stepsFrom 0 (1024 - 8) 16).map (mpGetebda m + ·)).find? (isRsdp m)).or
    ((stepsFrom 0xE0000 (0xFFFFF - 8) 16).find? (isRsdp m))

/-- The tables of the RSDT. -/
def rsdtentrylist (m : Mem) (rsdt : Nat) : List Nat :=
  (List.range (sub32 (field m rsdt 4 4) sizeofAcpiRsdt / 4)).map fun i =>
    field m (add32 rsdt sizeofAcpiRsdt) (4 * i) 4

/-- The first table of the RSDT that is an MADT. -/
@[irreducible] def findMadt (m : Mem) : Option Nat :=
  (acpiGetRSDP m).bind fun rsdp =>
    (rsdtentrylist m (field m rsdp 16 4)).find? fun madt => readLE m madt 4 == acpiMadtSignature

/-- `madtrecordlength` -/
def madtrecordlength (m : Mem) (madt : Nat) : Nat := sub32 (field m madt 4 4) sizeofAcpiMadt

/-- `apicrecord` -/
def apicrecord (madt offset : Nat) : Nat := add32 (add32 madt sizeofAcpiMadt) offset

/-- `apicrecord->length` -/
def apicLength (m : Mem) (madt offset : Nat) : Nat := field m (apicrecord madt offset) 1 1

/-- "processor record": `apicrecord->type == 0x0 && (apicrecord->flags & 0x1)` -/
def madtEnabled (m : Mem) (madt offset : Nat) : Bool :=
  readLE m (apicrecord madt offset) 1 == 0 && field m (apicrecord madt offset) 4 4 &&& 1 != 0

/-- The addresses of a field of `n` bytes. -/
def fieldAddrs (a offset n : Nat) : List Nat := (List.range n).map (add32 a offset + ·)

/-- The addresses read of a record: `type`, `length`, `flags` and `lapicid`, which are also printed. -/
def apicReads (madt offset : Nat) : List Nat :=
  fieldAddrs (apicrecord madt offset) 0 1 ++ fieldAddrs (apicrecord madt offset) 1 1 ++
    fieldAddrs (apicrecord madt offset) 4 4 ++ fieldAddrs (apicrecord madt offset) 3 1

/-- One record: `pcpus` and `foundcores` after it, or a halt. -/
def madtRecord (m : Mem) (madt : Nat) (s : Pcpus × Bool) (offset : Nat) : Option (Pcpus × Bool) :=
  if madtEnabled m madt offset then
    if s.1.num < maxPcpuEntries then
      some (s.1.put s.1.num
        { lapicId := field m (apicrecord madt offset) 3 1
          lapicVer := 0
          lapicBase := field m madt 36 4
          isbsp := if s.1.num = 0 then 1 else 0 }, true)
    else none
  else some s

/-! ## The MP table -/

/-- `mp_checksum` -/
def mpChecksum (m : Mem) (mp len : Nat) : Nat := byteSum m mp len &&& 0xFF

/-- What `mp_scan_config` looks for. -/
def isMpfp (m : Mem) (bp : Nat) : Bool :=
  readLE m bp 4 == mpfpSignature && field m bp 8 1 == 1 && mpChecksum m bp 16 == 0 &&
    (field m bp 9 1 == 1 || field m bp 9 1 == 4)

/-- `mp_scan_config`, for a `length` that is a multiple of 16. -/
def mpScanConfig (m : Mem) (base length : Nat) : Option Nat :=
  (stepsFrom base (base + length) 16).find? (isMpfp m)

/-- `mpfp` after the four scans. -/
@[irreducible] def findMpfp (m : Mem) : Option Nat :=
  (mpScanConfig m 0 0x400).or ((mpScanConfig m (639 * 0x400) 0x400).or
    ((mpScanConfig m (mpGetebda m) 0x400).or (mpScanConfig m 0xF0000 0x10000)))

/-- `cpu->entrytype != 0` ends the loop. -/
def isCpuEntry (m : Mem) (cpu : Nat) : Bool := readLE m cpu 1 == 0

/-- `cpu->cpuflags & 0x1` -/
def cpuEnabled (m : Mem) (cpu : Nat) : Bool := field m cpu 3 1 &&& 1 != 0

/-- The entry of `pcpus` for a CPU entry of the MP table. -/
def mpPcpu (m : Mem) (mpctable cpu : Nat) : Pcpu where
  lapicId := field m cpu 1 1
  lapicVer := field m cpu 2 1
  lapicBase := field m mpctable 36 4
  isbsp := field m cpu 3 1 &&& 2

/-- The loop over the CPU entries, for `n` more entries; `none` is a halt. -/
def mpLoop (m : Mem) (mpctable : Nat) : Nat → Nat → Nat → Pcpus → Option Pcpus
  | 0, _, _, c => some c
  | n + 1, i, addrofnextentry, c =>
    if isCpuEntry m addrofnextentry then
      if cpuEnabled m addrofnextentry then
        if c.num < maxPcpuEntries then
          mpLoop m mpctable n (i + 1) (add32 addrofnextentry sizeofMpentrycpu)
            (c.put i (mpPcpu m mpctable addrofnextentry))
        else none
      else mpLoop m mpctable n (i + 1) (add32 addrofnextentry sizeofMpentrycpu) c
    else some c

/-! ## Both -/

/-- How `smp_getinfo` ends: it halts, or it returns with what `num_pcpus` and `pcpus` then hold. -/
inductive SmpOutcome
  | halt
  | ret (r : Nat) (c : Pcpus)

/-- `smp_getinfo` from `fallthrough` on. -/
def smpFallthrough (m : Mem) (c : Pcpus) : SmpOutcome :=
  match findMpfp m with
  | none => .ret 1 c
  | some mpfp =>
    let mpctable := field m mpfp 4 4
    if mpctable = 0 then .halt
    else if readLE m mpctable 4 ≠ mpconftableSignature then .halt
    else
      match mpLoop m mpctable (field m mpctable 34 2) 0 (add32 mpctable sizeofMpconftable)
        { c with num := 0 } with
      | none => .halt
      | some c' => .ret 1 c'

/-- `smp_getinfo` after the scan of the MADT. -/
def smpFoundcores (m : Mem) : Option (Pcpus × Bool) → SmpOutcome
  | none => .halt
  | some (c, foundcores) => if foundcores then .ret 1 c else smpFallthrough m c

/-- `smp_getinfo`, with `fuel` rounds for the records of the MADT. -/
def smpGetinfo (m : Mem) (fuel : Nat) (c : Pcpus) : Option SmpOutcome :=
  match findMadt m with
  | none => some (smpFallthrough m c)
  | some madt =>
    (recordLoop (apicLength m madt) (madtrecordlength m madt) (madtRecord m madt) fuel 0
      ({ c with num := 0 }, false)).map (smpFoundcores m)

end Xmhf.Boot
