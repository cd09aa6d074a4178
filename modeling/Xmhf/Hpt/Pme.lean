import Xmhf.Lib.Bitfield
import Xmhf.Lib.Memory

/-!
# Page map entries

The page table formats of `hpt.c`: sizes and index bits of the page maps, and the fields of an entry by
format and level. A failed assertion is `none`.

* Entries of NORM page maps take 4 bytes in memory, those of the others 8; in registers an entry is a
  `u64` (`Pme`).
* An entry is present iff read access is enabled (`pmeIsPresent`).
-/

namespace Xmhf.Hpt

open Xmhf.Memory Xmhf.Bitfield

/-- `hpt_type_t` -/
inductive HptType
  | norm
  | pae
  | long
  | ept
  | invalid
  deriving DecidableEq, Repr

/-- `hpt_pme_t` -/
abbrev Pme := BitVec 64

/-- `hpt_prot_t` -/
abbrev Prot := BitVec 64

/-- `hpt_va_t` -/
abbrev Va := BitVec 64

/-- `hpt_pa_t` -/
abbrev Pa := BitVec 64

/-- `HPT_PROTS_NONE` -/
def protsNone : Prot := 0
/-- `HPT_PROTS_R` -/
def protsR : Prot := 1
/-- `HPT_PROTS_W` -/
def protsW : Prot := 2
/-- `HPT_PROTS_RW` -/
def protsRW : Prot := 3
/-- `HPT_PROTS_RX` -/
def protsRX : Prot := 5
/-- `HPT_PROTS_RWX` -/
def protsRWX : Prot := 7

/-! ## Page maps -/

/-- `HPT_PM_SIZE` -/
def hptPmSize : Nat := 4096

/-- `hpt_pm_sizes`, in bytes; "zero index is invalid". -/
def pmSizes : HptType → Nat → Nat
  | .norm, 1 | .norm, 2 => hptPmSize
  | .pae, 1 | .pae, 2 => hptPmSize
  | .pae, 3 => 4 * 8
  | .long, 1 | .long, 2 | .long, 3 | .long, 4 => hptPmSize
  | .ept, 1 | .ept, 2 | .ept, 3 | .ept, 4 => hptPmSize
  | _, _ => 0

/-- `hpt_va_idx_hi`: the high bit of the address that indexes the page map of a level. -/
def vaIdxHi : HptType → Nat → Nat
  | .norm, 0 => 11
  | .norm, 1 => 21
  | .norm, 2 => 31
  | .pae, 0 => 11
  | .pae, 1 => 20
  | .pae, 2 => 29
  | .pae, 3 => 31
  | .long, 0 | .ept, 0 => 11
  | .long, 1 | .ept, 1 => 20
  | .long, 2 | .ept, 2 => 29
  | .long, 3 | .ept, 3 => 38
  | .long, 4 | .ept, 4 => 47
  | _, _ => 0

/-- `hpt_type_max_lvl` -/
def typeMaxLvl : HptType → Nat
  | .norm => 2
  | .pae => 3
  | .long => 4
  | .ept => 4
  | .invalid => 0

/-- `hpt_pm_size` -/
def pmSize (t : HptType) (lvl : Nat) : Option Nat :=
  if lvl ≤ 4 ∧ pmSizes t lvl ≠ 0 then some (pmSizes t lvl) else none

/-- `hpt_lvl_is_valid` -/
def lvlIsValid (t : HptType) (lvl : Nat) : Prop := lvl ≤ typeMaxLvl t

instance (t : HptType) (lvl : Nat) : Decidable (lvlIsValid t lvl) :=
  inferInstanceAs (Decidable (_ ≤ _))

/-- `hpt_type_is_valid` -/
def typeIsValid (t : HptType) : Prop := t ≠ .invalid

instance (t : HptType) : Decidable (typeIsValid t) := inferInstanceAs (Decidable (_ ≠ _))

/-- `hpt_prot_is_valid` -/
def protIsValid (t : HptType) (lvl : Nat) (perms : Prot) : Prop :=
  match t with
  | .norm => perms = protsNone ∨ perms = protsRX ∨ perms = protsRWX
  | .pae => perms = protsNone ∨ perms = protsRWX ∨
      ((lvl ≠ 3 ∧ perms = protsR) ∨ perms = protsRX ∨ perms = protsRW)
  | .long => perms = protsNone ∨ perms = protsR ∨ perms = protsRX ∨ perms = protsRW ∨
      perms = protsRWX
  | .ept => True
  | .invalid => False

instance (t : HptType) (lvl : Nat) (perms : Prot) : Decidable (protIsValid t lvl perms) :=
  match t with
  | .norm => inferInstanceAs (Decidable (_ ∨ _))
  | .pae => inferInstanceAs (Decidable (_ ∨ _))
  | .long => inferInstanceAs (Decidable (_ ∨ _))
  | .ept => isTrue trivial
  | .invalid => isFalse id

/-! ## The fields of an entry -/

/-- `hpt_pme_setuser` -/
def pmeSetuser (t : HptType) (lvl : Nat) (entry : Pme) (user : Bool) : Option Pme :=
  match t with
  | .norm => some (setBit entry 2 user)
  | .pae => if lvl = 3 then (if user then some entry else none) else some (setBit entry 2 user)
  | .long => some (setBit entry 2 user)
  | .ept => if user then some entry else none
  | .invalid => none

/-- `hpt_pme_getuser` -/
def pmeGetuser (t : HptType) (lvl : Nat) (entry : Pme) : Option Bool :=
  match t with
  | .norm => some (getBit entry 2)
  | .pae => if lvl = 3 then some true else some (getBit entry 2)
  | .long => some (getBit entry 2)
  | .ept => some true
  | .invalid => none

/-- `hpt_pme_setprot` -/
def pmeSetprot (t : HptType) (lvl : Nat) (entry : Pme) (perms : Prot) : Option Pme :=
  if lvlIsValid t lvl ∧ protIsValid t lvl perms then
    match t with
    | .norm => some (setBit (setBit entry 0 (perms.getLsbD 0)) 1 (perms.getLsbD 1))
    | .pae =>
      let rv := setBit entry 0 (perms.getLsbD 0)
      if lvl = 2 ∨ lvl = 1 then
        some (setBit (setBit rv 1 (perms.getLsbD 1)) 63 (!perms.getLsbD 2))
      else some rv
    | .long =>
      some (setBit (setBit (setBit entry 0 (perms.getLsbD 0)) 1 (perms.getLsbD 1)) 63
        (!perms.getLsbD 2))
    | .ept => setHL entry 2 0 perms
    | .invalid => none
  else none

/-- `HPT_PROT_READ_MASK`, `HPT_PROT_WRITE_MASK` and `HPT_PROT_EXEC_MASK`, each if its flag is set. -/
def protOf (r w x : Bool) : Prot :=
  protsNone ||| (if r then 1 else 0) ||| (if w then 2 else 0) ||| (if x then 4 else 0)

/-- `hpt_pme_getprot` -/
def pmeGetprot (t : HptType) (lvl : Nat) (entry : Pme) : Option Prot :=
  if lvlIsValid t lvl then
    match t with
    | .norm =>
      let r := entry.getLsbD 0
      some (protOf r (entry.getLsbD 1) r)
    | .pae =>
      let r := entry.getLsbD 0
      if lvl = 2 ∨ lvl = 1 then some (protOf r (entry.getLsbD 1) (!entry.getLsbD 63))
      else some (protOf r r r)
    | .long => some (protOf (entry.getLsbD 0) (entry.getLsbD 1) (!entry.getLsbD 63))
    | .ept => some (protOf (entry.getLsbD 0) (entry.getLsbD 1) (entry.getLsbD 2))
    | .invalid => none
  else none

/-- `hpt_pme_setunused`. Bits 11:9 are the unused ones; a negative `hi` makes a shift count of 64 or more, which
C does not define. -/
def pmeSetunused (t : HptType) (_lvl : Nat) (entry : Pme) (hi lo : Int) (val : Pme) : Option Pme :=
  if lo < hi ∧ t ≠ .invalid ∧ hi ≤ 2 ∧ 0 ≤ hi then
    some (copyBits entry val (min 2 hi).toNat (max 0 lo).toNat 9)
  else none

/-- `hpt_pme_getunused`. The value of its `BR64_COPY_BITS_HL` is not used. -/
def pmeGetunused (t : HptType) (_lvl : Nat) (entry : Pme) (hi lo : Int) : Option Pme :=
  if lo < hi ∧ t ≠ .invalid ∧ hi ≤ 2 ∧ 0 ≤ hi then
    some (getHL entry ((min 2 hi).toNat + 9) ((max 0 lo).toNat + 9))
  else none

/-- `hpt_pme_is_present`: "a valid entry is present iff read access is enabled". -/
def pmeIsPresent (t : HptType) (lvl : Nat) (entry : Pme) : Option Bool :=
  (pmeGetprot t lvl entry).map fun prot => prot.getLsbD 0

/-- `hpt_pme_is_page` -/
def pmeIsPage (t : HptType) (lvl : Nat) (entry : Pme) : Option Bool :=
  match t with
  | .norm => if lvl ≤ 2 then some (lvl == 1 || (lvl == 2 && getBit entry 7)) else none
  | .pae => if lvl ≤ 3 then some (lvl == 1 || (lvl == 2 && getBit entry 7)) else none
  -- level 4 does not pass the assertion
  | .long => if lvl ≤ 3 then some (lvl == 1 || ((lvl == 2 || lvl == 3) && getBit entry 7)) else none
  | .ept => if lvl ≤ 4 then some (lvl == 1 || ((lvl == 2 || lvl == 3) && getBit entry 7)) else none
  | .invalid => none

/-- `hpt_pme_get_address` -/
def pmeGetAddress (t : HptType) (lvl : Nat) (entry : Pme) : Option Pa :=
  match t with
  | .norm =>
    if lvl ≤ 2 then
      if lvl = 2 then
        (pmeIsPage t lvl entry).map fun page =>
          -- a 4 MB page: bits 39:32 and 31:22 of the address
          if page then copyBits (copyBits 0 entry 39 32 (32 - 13)) entry 31 22 (22 - 22)
          else copyBits 0 entry 31 12 0
      else some (copyBits 0 entry 31 12 0)
    else none
  | .pae =>
    if lvl ≤ 3 then
      (pmeIsPage t lvl entry).bind fun page =>
        if page then
          if lvl = 1 then some (copyBits 0 entry 51 12 0)
          else if lvl = 2 then some (copyBits 0 entry 51 13 0)
          else none
        else some (copyBits 0 entry 51 12 0)
    else none
  | .long =>
    if lvl ≤ 4 then
      (pmeIsPage t lvl entry).map fun page =>
        if page then
          if lvl = 1 then copyBits 0 entry 51 12 0 else copyBits 0 entry 51 13 0
        else copyBits 0 entry 51 12 0
    else none
  | .ept => if lvl ≤ 4 then some (copyBits 0 entry 51 12 0) else none
  | .invalid => none

/-- `hpt_pme_set_address` -/
def pmeSetAddress (t : HptType) (lvl : Nat) (entry : Pme) (addr : Pa) : Option Pme :=
  match t with
  | .norm =>
    if lvl ≤ 2 then
      if lvl = 2 then
        (pmeIsPage t lvl entry).map fun page =>
          -- for a 4 MB page the copy of bits 39:32 is overwritten by that of bits 31:22, which
          -- starts from `entry` again
          if page then copyBits entry addr 31 22 (22 - 22)
          else copyBits entry addr 31 12 0
      else some (copyBits entry addr 31 12 0)
    else none
  | .pae =>
    if lvl ≤ 3 then
      (pmeIsPage t lvl entry).bind fun page =>
        if page then
          if lvl = 1 then some (copyBits entry addr 51 12 0)
          else if lvl = 2 then some (copyBits entry addr 51 13 0)
          else none
        else some (copyBits entry addr 51 12 0)
    else none
  | .long =>
    if lvl ≤ 4 then
      (pmeIsPage t lvl entry).map fun page =>
        if page then
          if lvl = 1 then copyBits entry addr 51 12 0 else copyBits entry addr 51 13 0
        else copyBits entry addr 51 12 0
    else none
  | .ept => if lvl ≤ 4 then some (copyBits entry addr 51 12 0) else none
  | .invalid => none

/-! ## Entries in memory -/

/-- `hpt_get_pm_idx` -/
def getPmIdx (t : HptType) (lvl : Nat) (va : Va) : Option Nat :=
  if typeIsValid t ∧ lvlIsValid t lvl then
    some (getHL va (vaIdxHi t lvl) (vaIdxHi t (lvl - 1) + 1)).toNat
  else none

/-- The bytes an entry takes in memory. -/
def pmeWidth : HptType → Option Nat
  | .ept | .pae | .long => some 8
  | .norm => some 4
  | .invalid => none

/-- `hpt_pm_get_pme_by_idx` -/
def pmGetPmeByIdx (t : HptType) (m : Mem) (pm idx : Nat) : Option Pme :=
  (pmeWidth t).map fun w => BitVec.ofNat 64 (readLE m (pm + w * idx) w)

/-- `hpt_pm_set_pme_by_idx` -/
def pmSetPmeByIdx (t : HptType) (m : Mem) (pm idx : Nat) (pme : Pme) : Option Mem :=
  (pmeWidth t).map fun w => writeLE m (pm + w * idx) w pme.toNat

/-- `hpt_pm_get_pme_by_va` -/
def pmGetPmeByVa (t : HptType) (lvl : Nat) (m : Mem) (pm : Nat) (va : Va) : Option Pme :=
  (getPmIdx t lvl va).bind fun idx => pmGetPmeByIdx t m pm idx

/-- `hpt_pm_set_pme_by_va` -/
def pmSetPmeByVa (t : HptType) (lvl : Nat) (m : Mem) (pm : Nat) (va : Va) (pme : Pme) : Option Mem :=
  (getPmIdx t lvl va).bind fun idx => pmSetPmeByIdx t m pm idx pme

end Xmhf.Hpt
