import Xmhf.Utpm.Pcr
import Xmhf.Crypto.Sha1

/-!
# The PCR bank in use

`utpm_init_instance`, `utpm_pcrread` and `utpm_extend`, and an instance that gets such requests one after another.
A null pointer to a measurement or to the place for a value is `none`.
-/

namespace Xmhf.Utpm

open Xmhf.Memory Xmhf.Bytes Xmhf.Crypto

/-- `UTPM_SUCCESS` -/
def utpmSuccess : Nat := 0

/-- `UTPM_ERR_BAD_PARAM` -/
def utpmErrBadParam : Nat := 1

/-- `UTPM_ERR_PCR_OUT_OF_RANGE` -/
def utpmErrPcrOutOfRange : Nat := 2

/-- `utpm_init_instance` -/
def utpmInitInstance : PcrBank := fun _ => zeroDigest

/-- `utpm_pcrread`: the result's code, and `*pcr_value` after it. -/
def utpmPcrread (pcrValue : Option TpmDigest) (utpm : PcrBank) (pcrNum : Nat) : Nat × Option TpmDigest :=
  if pcrValue.isNone then (utpmErrBadParam, pcrValue)
  else if h : pcrNum < tpmPcrNum then (utpmSuccess, some (utpm ⟨pcrNum, h⟩))
  else (utpmErrPcrOutOfRange, pcrValue)

/-- The digest that `hash_memory_multi` stores over a `TPM_DIGEST`. `none`: an error, on which the caller aborts. -/
def storedDigest (rv : Except CryptErr Octets) : Option TpmDigest :=
  rv.toOption.bind fun digest => if h : digest.length = tpmHashSize then some ⟨digest, h⟩ else none

/-- `utpm_extend`: the result's code and the bank after it. `none`: `abort`. `malloc` says whether there is memory
for the hash's state, and `buf` is what is in it before. -/
def utpmExtend (malloc : Bool) (buf : Mem) (measurement : Option TpmDigest) (utpm : PcrBank) (pcrNum : Nat) :
    Option (Nat × PcrBank) :=
  match measurement with
  | none => some (utpmErrBadParam, utpm)
  | some measurement =>
    if h : pcrNum < tpmPcrNum then
      let pcr := utpm ⟨pcrNum, h⟩
      (storedDigest (hashMemoryMulti (sha1Desc buf) malloc tpmHashSize [pcr.value, measurement.value])).map
        fun digest => (utpmSuccess, Function.update utpm ⟨pcrNum, h⟩ digest)
    else some (utpmErrPcrOutOfRange, utpm)

/-! ## Requests -/

/-- A call to one of the three functions. -/
inductive Request
  | init
  | pcrread (pcrValue : Option TpmDigest) (pcrNum : Nat)
  | extend (malloc : Bool) (buf : Mem) (measurement : Option TpmDigest) (pcrNum : Nat)

/-- What the caller sees: the result's code and the value that was read, if any. -/
abbrev Answer := Nat × Option TpmDigest

/-- The answer to a request, and the bank after it. -/
def Request.serve (utpm : PcrBank) : Request → Option (Answer × PcrBank)
  | .init => some ((utpmSuccess, none), utpmInitInstance)
  | .pcrread pcrValue pcrNum => some (utpmPcrread pcrValue utpm pcrNum, utpm)
  | .extend malloc buf measurement pcrNum =>
    (utpmExtend malloc buf measurement utpm pcrNum).map fun res => ((res.1, none), res.2)

/-- The requests in order. -/
def serveAll (utpm : PcrBank) : List Request → Option (List Answer × PcrBank)
  | [] => some ([], utpm)
  | r :: rs =>
    (r.serve utpm).bind fun res => (serveAll res.2 rs).map fun rest => (res.1 :: rest.1, rest.2)

end Xmhf.Utpm
