import Xmhf.Lib.Bytes
import Xmhf.Lib.Word

/-!
# The DMAR scan

The part of `vmx_eap_initialize` that looks for the DMAR table among the tables of the RSDT and copies
its hardware units into `vtd_drhd`.

* The scan starts with the values its uninitialized locals happen to have (`DmarLocals`).
* `DrhdScan` also keeps the addresses the scan has read in physical memory, and the offsets in `vtd_drhd`
  it has written.
-/

namespace Xmhf.Dmaprot

open Xmhf.Memory Xmhf.Word Xmhf.Bytes

/-- `ACPI_MAX_RSDT_ENTRIES` -/
def acpiMaxRsdtEntries : Nat := 256
/-- `sizeof(ACPI_RSDT)` -/
def sizeofAcpiRsdt : Nat := 36
/-- `sizeof(VTD_DMAR)` -/
def sizeofVtdDmar : Nat := 48
/-- `sizeof(VTD_DRHD)` -/
def sizeofVtdDrhd : Nat := 16
/-- `VTD_MAX_DRHD` -/
def vtdMaxDrhd : Nat := 8
/-- `VTD_DMAR_SIGNATURE` -/
def vtdDmarSignature : Nat := 0x52414D44

/-- The addresses `xmhf_baseplatform_arch_flat_copy` reads. -/
def flatAddrs (src size : Nat) : List Nat := (List.range size).map (add32 src)

/-- The bytes `xmhf_baseplatform_arch_flat_copy` copies. -/
def flatCopy (m : Mem) (src size : Nat) : Octets := (flatAddrs src size).map m

/-- An integer of `size` bytes, copied. -/
def flatInt (m : Mem) (src size : Nat) : Nat := ofLeBytes (flatCopy m src size)

/-! ## The RSDT -/

/-- `num_rsdtentries` -/
def numRsdtentries (m : Mem) (rsdtaddress : Nat) : Nat :=
  sub32 (flatInt m (add32 rsdtaddress 4) 4) sizeofAcpiRsdt / 4

/-- An entry of the list after the RSDT. -/
def rsdtEntry (m : Mem) (rsdtaddress i : Nat) : Nat :=
  flatInt m (add32 (add32 rsdtaddress sizeofAcpiRsdt) (4 * i)) 4

/-- `dmar.signature` of the table at an address. -/
def dmarSignature (m : Mem) (table : Nat) : Nat := flatInt m table 4

/-- `dmar.length` of the table at an address. -/
def dmarLength (m : Mem) (table : Nat) : Nat := flatInt m (add32 table 4) 4

/-- What the locals of `vmx_eap_initialize` hold at its start. -/
structure DmarLocals where
  dmarfound : Nat
  rsdtentries : Nat → Nat
  dmarLength : Nat

/-- The loop that looks for the DMAR table, over `n` more entries: `i`, `dmarfound` and `dmar.length`
after it. -/
def findDmar (m : Mem) (rsdtaddress : Nat) : Nat → Nat → Nat × Nat → Nat × Nat × Nat
  | 0, i, (dmarfound, len) => (i, dmarfound, len)
  | n + 1, i, (dmarfound, _) =>
    let table := rsdtEntry m rsdtaddress i
    if dmarSignature m table = vtdDmarSignature then (i, 1, dmarLength m table)
    else findDmar m rsdtaddress n (i + 1) (dmarfound, dmarLength m table)

/-! ## The remapping structures -/

/-- `i`, `vtd_num_drhd` and the bytes from `vtd_drhd` on, with the accesses so far. -/
structure DrhdScan where
  i : Nat
  num : Nat
  drhd : Mem
  reads : List Nat
  writes : List Nat

/-- How the scan ends: it halts as the RSDT has too many entries, the function returns 0, it halts at a
unit that `vtd_drhd` has no slot for, or it goes on with the units. -/
inductive DmarOutcome
  | unsupported
  | bail
  | halt (s : DrhdScan)
  | scanned (s : DrhdScan)

/-- `type` of the structure at offset `i`. -/
def dmarType (m : Mem) (remapping i : Nat) : Nat := flatInt m (add32 remapping i) 2

/-- `length` of the structure at offset `i`. -/
def dmarLen (m : Mem) (remapping i : Nat) : Nat := flatInt m (add32 (add32 remapping i) 2) 2

/-- The addresses of the header of a structure. -/
def headerAddrs (remapping i : Nat) : List Nat :=
  flatAddrs (add32 remapping i) 2 ++ flatAddrs (add32 (add32 remapping i) 2) 2

/-- `type` and `length` have been read. -/
def DrhdScan.header (s : DrhdScan) (remapping : Nat) : DrhdScan :=
  { s with reads := s.reads ++ headerAddrs remapping s.i }

/-- `case 0`: the structure is copied to `vtd_drhd[vtd_num_drhd]`, all `length` bytes of it. -/
def DrhdScan.unit (s : DrhdScan) (m : Mem) (remapping : Nat) : DrhdScan where
  i := add32 s.i (dmarLen m remapping s.i)
  num := s.num + 1
  drhd := putBytes s.drhd (sizeofVtdDrhd * s.num)
    (flatCopy m (add32 remapping s.i) (dmarLen m remapping s.i))
  reads := (s.header remapping).reads ++ flatAddrs (add32 remapping s.i) (dmarLen m remapping s.i)
  writes := s.writes ++ (List.range (dmarLen m remapping s.i)).map (sizeofVtdDrhd * s.num + ·)

/-- `default`: "unknown type, we skip this". -/
def DrhdScan.skip (s : DrhdScan) (m : Mem) (remapping : Nat) : DrhdScan :=
  { s.header remapping with i := add32 s.i (dmarLen m remapping s.i) }

/-- The `while` loop over the structures, in `fuel` rounds at most. -/
def drhdLoop (m : Mem) (remapping limit : Nat) : Nat → DrhdScan → Option DmarOutcome
  | 0, _ => none
  | fuel + 1, s =>
    if s.i < limit then
      if dmarType m remapping s.i = 0 then
        if s.num < vtdMaxDrhd then drhdLoop m remapping limit fuel (s.unit m remapping)
        else some (.halt (s.header remapping))
      else drhdLoop m remapping limit fuel (s.skip m remapping)
    else some (.scanned s)

/-- What the loop over the structures starts from, after the copy of the table's header. -/
def scanFrom (dmaraddrphys : Nat) (drhd : Mem) : DrhdScan :=
  ⟨0, 0, drhd, flatAddrs dmaraddrphys sizeofVtdDmar, []⟩

/-- The scan with what the search for the table gives: `i`, `dmarfound` and `dmar.length`. -/
def dmarScanFound (m : Mem) (rsdtaddress num : Nat) (locals : DmarLocals) (drhd : Mem) (fuel : Nat)
    (found : Nat × Nat × Nat) : Option DmarOutcome :=
  if found.2.1 = 0 then some .bail
  else
    let dmaraddrphys := if found.1 < num then rsdtEntry m rsdtaddress found.1
      else locals.rsdtentries found.1
    drhdLoop m (add32 dmaraddrphys sizeofVtdDmar) (sub32 found.2.2 sizeofVtdDmar) fuel
      (scanFrom dmaraddrphys drhd)

/-- The scan, for the RSDT at `rsdtaddress`. -/
def dmarScan (m : Mem) (rsdtaddress : Nat) (locals : DmarLocals) (drhd : Mem) (fuel : Nat) :
    Option DmarOutcome :=
  if numRsdtentries m rsdtaddress < acpiMaxRsdtEntries then
    dmarScanFound m rsdtaddress (numRsdtentries m rsdtaddress) locals drhd fuel
      (findDmar m rsdtaddress (numRsdtentries m rsdtaddress) 0 (locals.dmarfound, locals.dmarLength))
  else some .unsupported

end Xmhf.Dmaprot
