import Xmhf.Lib.Bytes
import Mathlib.Data.List.FinRange

/-!
# Platform configuration registers

The PCR bank of the micro-TPM, selections of PCRs, and the composite that summarises the selected ones.
-/

namespace Xmhf.Utpm

open Xmhf.Memory Xmhf.Bytes

/-- `TPM_PCR_NUM` -/
def tpmPcrNum : Nat := 8

/-- `TPM_HASH_SIZE` -/
def tpmHashSize : Nat := 20

/-- `TPM_DIGEST` -/
structure TpmDigest where
  value : Octets
  length_value : value.length = tpmHashSize
  deriving DecidableEq

/-- `memset(value, 0, TPM_HASH_SIZE)` -/
def zeroDigest : TpmDigest := ⟨List.replicate tpmHashSize 0, List.length_replicate⟩

/-- `pcr_bank` -/
abbrev PcrBank := Fin tpmPcrNum → TpmDigest

/-- `TPM_PCR_SELECTION`. `pcrSelect` are the bytes in memory from the field on; the field itself has
`TPM_PCR_NUM/8` of them. -/
structure PcrSelection where
  sizeOfSelect : BitVec 16
  pcrSelect : Nat → BitVec 8

/-- `utpm_pcr_select_i` -/
def pcrSelectI (tpmsel : PcrSelection) (i : Nat) : PcrSelection :=
  if tpmPcrNum ≤ i then tpmsel
  else
    { sizeOfSelect :=
        if tpmsel.sizeOfSelect.toNat < i / 8 + 1 then BitVec.ofNat 16 (i / 8 + 1) else tpmsel.sizeOfSelect
      pcrSelect := Function.update tpmsel.pcrSelect (i / 8)
        (tpmsel.pcrSelect (i / 8) ||| BitVec.ofNat 8 (1 <<< (i % 8))) }

/-- `utpm_pcr_is_selected` -/
def pcrIsSelected (tpmsel : PcrSelection) (i : Nat) : Bool :=
  if tpmPcrNum ≤ i then false
  else if tpmsel.sizeOfSelect.toNat ≤ i / 8 then false
  else (tpmsel.pcrSelect (i / 8)).getLsbD (i % 8)

/-! ## The composite -/

/-- The bytes of a selection: its size, and as many bytes from `pcrSelect` on. -/
def PcrSelection.bytes (tpmsel : PcrSelection) : Octets :=
  leBytes 2 tpmsel.sizeOfSelect.toNat ++ (List.range tpmsel.sizeOfSelect.toNat).map tpmsel.pcrSelect

/-- The loop that counts the selected PCRs. -/
def numPcrsToInclude (tpmsel : PcrSelection) : Nat :=
  (List.finRange tpmPcrNum).countP fun i : Fin tpmPcrNum => pcrIsSelected tpmsel i

/-- `*space_needed_for_composite` -/
def spaceNeededForComposite (tpmsel : PcrSelection) : Nat :=
  2 + tpmsel.sizeOfSelect.toNat + 4 + numPcrsToInclude tpmsel * tpmHashSize

/-- The loop that copies the selected PCRs. -/
def pcrValues (bank : PcrBank) (tpmsel : PcrSelection) : Octets :=
  (List.finRange tpmPcrNum).flatMap fun i : Fin tpmPcrNum =>
    if pcrIsSelected tpmsel i then (bank i).value else []

/-- `TPM_PCR_COMPOSITE` -/
def tpmPcrComposite (bank : PcrBank) (tpmsel : PcrSelection) : Octets :=
  tpmsel.bytes ++ beBytes 4 (numPcrsToInclude tpmsel * tpmHashSize) ++ pcrValues bank tpmsel

/-- `utpm_internal_allocate_and_populate_current_TpmPcrComposite`. `malloc` says whether there is room for
so many bytes; `none` is an error. -/
def allocateAndPopulateCurrentTpmPcrComposite (malloc : Nat → Bool) (bank : PcrBank)
    (tpmsel : PcrSelection) : Option Octets :=
  if malloc (spaceNeededForComposite tpmsel) then
    if (tpmPcrComposite bank tpmsel).length ≠ spaceNeededForComposite tpmsel then none
    else some (tpmPcrComposite bank tpmsel)
  else none

end Xmhf.Utpm
