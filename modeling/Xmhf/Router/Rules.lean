import Xmhf.Lib.CString
import Xmhf.Lib.Lines
import Xmhf.Router.Runtime

/-!
# The router's rules

`add_table_entries` of the test router: the entries that it adds to the table for a rules file, one for each line
that starts with `R`. The file is there, and its text has no NUL.

`written` is what a line says: the members of a route in the notation of C constants.
-/

namespace Xmhf.Router

open CString Lines

/-! ## Entries -/

/-- What `rte_pipeline_table_entry_add` is called with: the field values of the rule, its priority, and the output
port of the action, which is `RTE_PIPELINE_ACTION_PORT` always. -/
structure RouteEntry where
  srcAddr : BitVec 32
  srcMask : BitVec 32
  dstAddr : BitVec 32
  dstMask : BitVec 32
  srcPortLo : BitVec 16
  srcPortHi : BitVec 16
  dstPortLo : BitVec 16
  dstPortHi : BitVec 16
  proto : BitVec 8
  protoMask : BitVec 8
  priority : Nat
  portId : BitVec 32
  deriving DecidableEq, Repr

/-- `ROUTE_ENTRY_PRIORITY` -/
def routeEntryPriority : Nat := 1

/-- `LINE_MAX` -/
def lineMax : Nat := 2048

/-! ## Members -/

/-- `GET_CB_FIELD`: the value, and `in` after it; `none` for `return -EINVAL`. The delimiter `none` is the NUL. -/
def getCbField (bits : Nat) (s : CStr) (lim : Nat) (dlm : Option Char) : Option (Nat × CStr) :=
  let scanned := strtoul bits 0 s
  if scanned.erange ∨ scanned.rest.head? ≠ dlm ∨ lim < scanned.val then none
  else some (scanned.val, scanned.rest.tail)

/-- `parse_ipv4_net`: the address and the length of the mask -/
def parseIpv4Net (bits : Nat) (s : CStr) : Option (BitVec 32 × BitVec 32) := do
  let (a, s) ← getCbField bits s 255 '.'
  let (b, s) ← getCbField bits s 255 '.'
  let (c, s) ← getCbField bits s 255 '.'
  let (d, s) ← getCbField bits s 255 '/'
  let (m, _) ← getCbField bits s 32 none
  return (ipv4 (BitVec.ofNat 8 a) (BitVec.ofNat 8 b) (BitVec.ofNat 8 c) (BitVec.ofNat 8 d), BitVec.ofNat 32 m)

/-- `parse_range` -/
def parseRange (bits : Nat) (s : CStr) (splitter : Char) : Option (BitVec 32 × BitVec 32) := do
  let (a, s) ← getCbField bits s (2 ^ 32 - 1) splitter
  let (b, _) ← getCbField bits s (2 ^ 32 - 1) none
  return (BitVec.ofNat 32 a, BitVec.ofNat 32 b)

/-- `is_bypass_line` -/
def isBypassLine (buff : CStr) : Bool := buff.head? = some '#' || buff.all isSpace

/-- The delimiters of `parse_rule_members` -/
def isDelimiter (c : Char) : Bool := c = ' ' || c = '\t' || c = '\n'

/-! ## The file -/

/-- The local variables of `add_route_rule` -/
structure RuleVars where
  addr : BitVec 32
  mask : BitVec 32
  lo : BitVec 32
  hi : BitVec 32
  deriving DecidableEq, Repr

/-- The entry of `add_route_rule`, with its variables before they are set. A member that is not parsed leaves them as
they are. `none`: with less than seven members, `atoi` reads a string that is not there. -/
def addRouteRule (bits : Nat) (vars : RuleVars) (buff : CStr) : Option RouteEntry :=
  match tokens isDelimiter buff with
  | _ :: in1 :: in2 :: in3 :: in4 :: in5 :: in6 :: _ => do
    let portId ← atoi in6
    let src := (parseIpv4Net bits in1).getD (vars.addr, vars.mask)
    let dst := (parseIpv4Net bits in2).getD src
    let srcPort := (parseRange bits in3 ':').getD (vars.lo, vars.hi)
    let dstPort := (parseRange bits in4 ':').getD srcPort
    let proto := (parseRange bits in5 '/').getD dstPort
    return {
      srcAddr := src.1
      srcMask := src.2
      dstAddr := dst.1
      dstMask := dst.2
      srcPortLo := srcPort.1.setWidth 16
      srcPortHi := srcPort.2.setWidth 16
      dstPortLo := dstPort.1.setWidth 16
      dstPortHi := dstPort.2.setWidth 16
      proto := proto.1.setWidth 8
      protoMask := proto.2.setWidth 8
      priority := routeEntryPriority
      portId := BitVec.ofInt 32 portId }
  | _ => none

/-- What ends `add_table_entries` early: `rte_exit` for an illegal line, `rte_panic` when the table does not take an
entry, or a string that is not there. -/
inductive RulesStop
  | exit (line : Nat)
  | rtePanic
  | undefined
  deriving DecidableEq, Repr

/-- The loop of `add_table_entries` from line `i` on. `vars i` is what the variables of `add_route_rule` hold when it
is called for line `i`, and `entryAdd` says whether the table takes an entry after others. -/
def addTableLoop (bits : Nat) (vars : Nat → RuleVars) (entryAdd : List RouteEntry → RouteEntry → Bool) (i : Nat)
    (table : List RouteEntry) : List CStr → Except RulesStop (List RouteEntry)
  | [] => .ok table
  | buff :: rest =>
    if isBypassLine buff then addTableLoop bits vars entryAdd (i + 1) table rest
    else if buff.head? = some 'R' then
      match addRouteRule bits (vars i) buff with
      | none => .error .undefined
      | some entry =>
        if entryAdd table entry then addTableLoop bits vars entryAdd (i + 1) (table ++ [entry]) rest
        else .error .rtePanic
    else if buff.head? = some '@' then addTableLoop bits vars entryAdd (i + 1) table rest
    else .error (.exit i)

/-- `add_table_entries`: the entries that were added, the first one first -/
def addTableEntries (bits : Nat) (vars : Nat → RuleVars) (entryAdd : List RouteEntry → RouteEntry → Bool)
    (text : CStr) : Except RulesStop (List RouteEntry) :=
  addTableLoop bits vars entryAdd 1 [] (fgetsAll lineMax text)

/-! ## What is written -/

/-- A number up to `lim`, and what follows the character after it, or the number at the end. -/
def writtenField (s : CStr) (lim : Nat) : Option Char → Option (Nat × CStr)
  | some dlm => do
    guard (dlm ∈ s)
    let v ← number (s.takeWhile (· ≠ dlm))
    guard (v ≤ lim)
    return (v, (s.dropWhile (· ≠ dlm)).tail)
  | none => do
    let v ← number s
    guard (v ≤ lim)
    return (v, [])

/-- A network, `a.b.c.d/m` -/
def writtenNet (s : CStr) : Option (BitVec 32 × BitVec 32) := do
  let (a, s) ← writtenField s 255 '.'
  let (b, s) ← writtenField s 255 '.'
  let (c, s) ← writtenField s 255 '.'
  let (d, s) ← writtenField s 255 '/'
  let (m, _) ← writtenField s 32 none
  return (BitVec.ofNat 32 (a * 2 ^ 24 + b * 2 ^ 16 + c * 2 ^ 8 + d), BitVec.ofNat 32 m)

/-- Two numbers up to `lim` -/
def writtenPair (s : CStr) (lim : Nat) (splitter : Char) : Option (Nat × Nat) := do
  let (a, s) ← writtenField s lim splitter
  let (b, _) ← writtenField s lim none
  return (a, b)

/-- An output port, in decimal -/
def writtenPort (s : CStr) : Option Nat := (allDigits 10 s).filter (· < 2 ^ 31)

/-- The entry that the members of a route line say; `none` if one of them is malformed. -/
def writtenEntry (src dst srcPort dstPort proto port : CStr) : Option RouteEntry := do
  let src ← writtenNet src
  let dst ← writtenNet dst
  let srcPort ← writtenPair srcPort 65535 ':'
  let dstPort ← writtenPair dstPort 65535 ':'
  let proto ← writtenPair proto 255 '/'
  let port ← writtenPort port
  return {
    srcAddr := src.1
    srcMask := src.2
    dstAddr := dst.1
    dstMask := dst.2
    srcPortLo := BitVec.ofNat 16 srcPort.1
    srcPortHi := BitVec.ofNat 16 srcPort.2
    dstPortLo := BitVec.ofNat 16 dstPort.1
    dstPortHi := BitVec.ofNat 16 dstPort.2
    proto := BitVec.ofNat 8 proto.1
    protoMask := BitVec.ofNat 8 proto.2
    priority := routeEntryPriority
    portId := BitVec.ofNat 32 port }

/-- The entry that a route line says; `none` if a member is missing or malformed. -/
def writtenRoute (line : CStr) : Option RouteEntry :=
  match tokens isDelimiter line with
  | _ :: src :: dst :: srcPort :: dstPort :: proto :: port :: _ => writtenEntry src dst srcPort dstPort proto port
  | _ => none

/-- The line is about a route. -/
def IsRoute (line : CStr) : Prop := line.head? = some 'R'

instance (line : CStr) : Decidable (IsRoute line) := inferInstanceAs (Decidable (_ = _))

/-- The entry that a line says -/
def written (line : CStr) : Option RouteEntry := if IsRoute line then writtenRoute line else none

/-- The entries that a rules file says -/
def writtenRules (text : CStr) : List RouteEntry := (lines text).filterMap written

/-- The loop ignores the buffer: it is blank, a comment, or a rule of another kind. -/
def Inert (buff : CStr) : Prop := isBypassLine buff = true ∨ buff.head? = some '@'

instance (buff : CStr) : Decidable (Inert buff) := inferInstanceAs (Decidable (_ ∨ _))

/-- The line is a route without a malformed member, which the first buffer of the line says too, or it is ignored,
and so are its other buffers. -/
def Faithful (line : CStr) : Prop :=
  if IsRoute line then
    (writtenRoute line).isSome = true ∧ ∃ buff rest, fgetsAll lineMax line = buff :: rest ∧
      writtenRoute buff = writtenRoute line ∧ ∀ b ∈ rest, Inert b
  else
    ∀ b ∈ fgetsAll lineMax line, Inert b

/-- The table takes the entries, one after the other. -/
def Takes (entryAdd : List RouteEntry → RouteEntry → Bool) (table : List RouteEntry) : List RouteEntry → Prop
  | [] => True
  | entry :: rest => entryAdd table entry = true ∧ Takes entryAdd (table ++ [entry]) rest

end Xmhf.Router
