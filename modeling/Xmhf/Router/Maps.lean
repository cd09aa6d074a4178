import Xmhf.Lib.CString
import Xmhf.Lib.Lines

/-!
# The router's memory map

`parse_proc_map` of the test router: a list of the ranges in `/proc/self/maps`, the last one first. The memory for the
list is there, and so is the file, whose text has no NUL.
-/

namespace Xmhf.Router

open CString Lines

/-- `proc_map_t`, without the link to the next one -/
structure ProcMap where
  startAddr : Nat
  endAddr : Nat
  isHugePage : Nat
  deriving DecidableEq, Repr

/-- The local variables that live on from line to line -/
@[ext]
structure Addresses where
  startAddress : Nat
  endAddress : Nat
  deriving DecidableEq, Repr

/-- `sscanf(line, "%08lx-%08lx\n", &start_address, &end_address)`, for a `ulong` of `bits` bits -/
def scanAddresses (bits : Nat) (line : CStr) (v : Addresses) : Addresses :=
  match scanHex bits 8 line with
  | none => v
  | some (startAddress, rest) =>
    if rest.head? = some '-' then
      match scanHex bits 8 rest.tail with
      | none => { v with startAddress }
      | some (endAddress, _) => { startAddress, endAddress }
    else { v with startAddress }

/-- `strstr(line, "rtemap_") != NULL` -/
def hasRtemap (line : CStr) : Bool := "rtemap_".toList <:+: line

/-- The loop of `parse_proc_map`, with `head` pushed to by `proc_maps_push` -/
def parseLoop (bits : Nat) (v : Addresses) (head : List ProcMap) : List CStr → List ProcMap
  | [] => head
  | line :: rest =>
    let isHugePage := if hasRtemap line then 1 else 0
    let v := scanAddresses bits line v
    parseLoop bits v ({ startAddr := v.startAddress, endAddr := v.endAddress, isHugePage } :: head) rest

/-- `parse_proc_map` of the text; the variables are not initialised. -/
def parseProcMap (bits : Nat) (uninit : Addresses) (text : CStr) : List ProcMap :=
  parseLoop bits uninit [] (fgetsAll 256 text)

end Xmhf.Router
