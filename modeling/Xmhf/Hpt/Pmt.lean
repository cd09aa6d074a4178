import Xmhf.Hpt.Pme

/-!
# Memory types

The memory type of an entry: a field of EPT page entries, and the bits PAT, PCD and PWT of the other formats,
"assumes PAT register has default values". A failed assertion is `none`.

`hpt_pmt_t` is an enumeration, of 32 bits in memory, and `hpt_pme_set_pmt` is declared to return it.
-/

namespace Xmhf.Hpt

open Xmhf.Bitfield

/-- `hpt_pmt_t` -/
abbrev Pmt := BitVec 32

/-- `HPT_PMT_UC` -/
def pmtUC : Pmt := 0
/-- `HPT_PMT_WC` -/
def pmtWC : Pmt := 1
/-- `HPT_PMT_WT` -/
def pmtWT : Pmt := 4
/-- `HPT_PMT_WP` -/
def pmtWP : Pmt := 5
/-- `HPT_PMT_WB` -/
def pmtWB : Pmt := 6

/-- `hpt_pme_set_pat` -/
def pmeSetPat (t : HptType) (lvl : Nat) (pme : Pme) (pat : Bool) : Option Pme :=
  match t with
  | .norm | .pae =>
    (pmeIsPage t lvl pme).bind fun (page : Bool) =>
      if page ∧ lvl = 1 then some (setBit pme 7 pat)
      else if page ∧ lvl = 2 then some (setBit pme 12 pat)
      else if pat then none else some pme
  | .long =>
    (pmeIsPage t lvl pme).bind fun (page : Bool) =>
      if page ∧ lvl = 1 then some (setBit pme 7 pat)
      else if page ∧ (lvl = 2 ∨ lvl = 3) then some (setBit pme 12 pat)
      else if pat then none else some pme
  | .ept | .invalid => none

/-- `hpt_pme_get_pat` -/
def pmeGetPat (t : HptType) (lvl : Nat) (pme : Pme) : Option Bool :=
  match t with
  | .norm | .pae =>
    (pmeIsPage t lvl pme).map fun (page : Bool) =>
      if page ∧ lvl = 1 then getBit pme 7
      else if page ∧ lvl = 2 then getBit pme 12
      else false
  | .long =>
    (pmeIsPage t lvl pme).map fun (page : Bool) =>
      if page ∧ lvl = 1 then getBit pme 7
      else if page ∧ (lvl = 2 ∨ lvl = 3) then getBit pme 12
      else false
  | .ept | .invalid => none

/-- A bit that the entries of NORM, PAE and LONG have at every level. -/
def pmeGetBit (pos : Nat) (t : HptType) (pme : Pme) : Option Bool :=
  match t with
  | .norm | .pae | .long => some (getBit pme pos)
  | .ept | .invalid => none

/-- An entry with another value of such a bit. -/
def pmeSetBit (pos : Nat) (t : HptType) (pme : Pme) (val : Bool) : Option Pme :=
  match t with
  | .norm | .pae | .long => some (setBit pme pos val)
  | .ept | .invalid => none

/-- `hpt_pme_get_pcd` -/
def pmeGetPcd : HptType → Pme → Option Bool := pmeGetBit 4

/-- `hpt_pme_set_pcd` -/
def pmeSetPcd : HptType → Pme → Bool → Option Pme := pmeSetBit 4

/-- `hpt_pme_get_pwt` -/
def pmeGetPwt : HptType → Pme → Option Bool := pmeGetBit 3

/-- `hpt_pme_set_pwt` -/
def pmeSetPwt : HptType → Pme → Bool → Option Pme := pmeSetBit 3

/-- The memory type of the bits PCD and PWT; WC is "really UC- unless overriden by mtrr". -/
def pmtOf (pcd pwt : Bool) : Pmt :=
  if !pcd && !pwt then pmtWB
  else if !pcd && pwt then pmtWT
  else if pcd && !pwt then pmtWC
  else pmtUC

/-- `hpt_pme_get_pmt` -/
def pmeGetPmt (t : HptType) (lvl : Nat) (pme : Pme) : Option Pmt :=
  match t with
  | .ept =>
    if lvl ≤ 3 ∧ pmeIsPage t lvl pme = some true then some ((getHL pme 5 3).setWidth 32) else none
  | .pae | .long | .norm => do
    let pcd ← pmeGetPcd t pme
    let pwt ← pmeGetPwt t pme
    return pmtOf pcd pwt
  | .invalid => none

/-- The bits PCD and PWT for a memory type; WP needs the PAT register. -/
def pcdPwt (pmt : Pmt) : Option (Bool × Bool) :=
  if pmt = pmtUC then some (true, true)
  else if pmt = pmtWC then some (true, false)
  else if pmt = pmtWT then some (false, true)
  else if pmt = pmtWP then none
  else if pmt = pmtWB then some (false, false)
  else none

/-- The entry that `hpt_pme_set_pmt` makes; it "always clears PAT bit when applicable". -/
def pmePutPmt (t : HptType) (lvl : Nat) (pme : Pme) (pmt : Pmt) : Option Pme :=
  match t with
  | .ept =>
    if lvl ≤ 3 ∧ pmeIsPage t lvl pme = some true then setHL pme 5 3 (pmt.setWidth 64) else none
  | .norm | .pae | .long => do
    let (pcd, pwt) ← pcdPwt pmt
    let rv ← pmeSetPat t lvl pme false
    let rv ← pmeSetPcd t rv pcd
    pmeSetPwt t rv pwt
  | .invalid => none

/-- `hpt_pme_set_pmt`: the entry, cut to the type of the result -/
def pmeSetPmt (t : HptType) (lvl : Nat) (pme : Pme) (pmt : Pmt) : Option Pmt :=
  (pmePutPmt t lvl pme pmt).map fun rv => rv.setWidth 32

end Xmhf.Hpt
