import Xmhf.Utpm.Pcr
import Xmhf.Lib.Word

/-!
# Seal and unseal

`utpm_seal` and `utpm_unseal`. Sealed data are "IV || AES-CBC(TPM_PCR_INFO (or 0x0000 if none selected) ||
input_len || input || PADDING) || HMAC( entire ciphertext including IV )".

The ciphers and hashes are those of a `Crypto`; `malloc` says whether there is room for so many bytes.
-/

namespace Xmhf.Utpm

open Xmhf.Memory Xmhf.Word Xmhf.Bytes

/-- `TPM_AES_KEY_LEN_BYTES` -/
def tpmAesKeyLenBytes : Nat := 16

/-- The library functions under the keys `g_aeskey` and `g_hmackey`: `cbc_encrypt` and `cbc_decrypt` after a
`cbc_start` with an IV, `HMAC_SHA1` and `sha1_buffer`. -/
structure Crypto where
  cbcEncrypt : Octets → Octets → Octets
  cbcDecrypt : Octets → Octets → Octets
  hmacSha1 : Octets → TpmDigest
  sha1 : Octets → TpmDigest
  length_cbcEncrypt : ∀ iv x, (cbcEncrypt iv x).length = x.length
  length_cbcDecrypt : ∀ iv x, (cbcDecrypt iv x).length = x.length
  cbcDecrypt_cbcEncrypt : ∀ iv x, x.length % tpmAesKeyLenBytes = 0 →
    cbcDecrypt iv (cbcEncrypt iv x) = x

/-- `TPM_PCR_INFO` -/
structure PcrInfo where
  pcrSelection : PcrSelection
  digestAtRelease : TpmDigest
  digestAtCreation : TpmDigest

/-- `utpm_internal_memcpy_TPM_PCR_INFO`: the bytes that are copied. -/
def memcpyTpmPcrInfo (pcrInfo : PcrInfo) : Octets :=
  pcrInfo.pcrSelection.bytes ++
    if 0 < pcrInfo.pcrSelection.sizeOfSelect.toNat then
      pcrInfo.digestAtRelease.value ++ pcrInfo.digestAtCreation.value
    else []

/-- `sizeof(TPM_PCR_INFO)` -/
def sizeofTpmPcrInfo : Nat := 43

/-- `utpm_internal_digest_current_TpmPcrComposite` -/
def digestCurrentTpmPcrComposite (c : Crypto) (malloc : Nat → Bool) (bank : PcrBank)
    (pcrSelection : PcrSelection) : Option TpmDigest :=
  if pcrSelection.sizeOfSelect.toNat < 1 then none
  else (allocateAndPopulateCurrentTpmPcrComposite malloc bank pcrSelection).map c.sha1

/-- `tpmPcrInfo_internal`, with `digestAtCreation` filled in if a PCR is selected. -/
def internalPcrInfo (c : Crypto) (malloc : Nat → Bool) (bank : PcrBank) (tpmPcrInfo : PcrInfo) :
    Option PcrInfo :=
  if tpmPcrInfo.pcrSelection.sizeOfSelect.toNat ≠ 0 then
    if (memcpyTpmPcrInfo tpmPcrInfo).length ≠ sizeofTpmPcrInfo then none
    else (digestCurrentTpmPcrComposite c malloc bank tpmPcrInfo.pcrSelection).map fun digest =>
      { tpmPcrInfo with digestAtCreation := digest }
  else some tpmPcrInfo

/-- `*outlen` with padding: a multiple of the key's length. -/
def paddedLen (outlenBeforepad : Nat) : Nat :=
  if outlenBeforepad % 16 ≠ 0 then (outlenBeforepad + tpmAesKeyLenBytes) / 16 * 16 else outlenBeforepad

/-- The plaintext after the IV. -/
def sealPlaintext (tpmPcrInfoInternal : PcrInfo) (input : Octets) : Octets :=
  let filled := memcpyTpmPcrInfo tpmPcrInfoInternal ++ leBytes 4 input.length ++ input
  let outlenBeforepad := tpmAesKeyLenBytes + filled.length
  filled ++ List.replicate (paddedLen outlenBeforepad - outlenBeforepad) 0

/-- `utpm_seal`, where `rand_bytes` delivers `rand` for the IV: the code of the error, or the sealed data. -/
def utpmSeal (c : Crypto) (malloc : Nat → Bool) (rand : Octets) (bank : PcrBank) (tpmPcrInfo : PcrInfo)
    (input : Octets) : Except Nat Octets :=
  match internalPcrInfo c malloc bank tpmPcrInfo with
  | none => .error 1
  | some info =>
    if malloc (add32 input.length 100) then
      if rand.length ≠ tpmAesKeyLenBytes then .error 3
      else
        let sealed := rand ++ c.cbcEncrypt rand (sealPlaintext info input)
        .ok (sealed ++ (c.hmacSha1 sealed).value)
    else .error 1

/-! ## Unseal -/

/-- What `utpm_unseal` writes to: the output buffer, `*outlen` and `*digestAtCreation`. -/
structure UnsealOut where
  output : Mem
  outlen : Nat
  digestAtCreation : TpmDigest

/-- A digest in memory. -/
def digestAt (m : Mem) (a : Nat) : TpmDigest := ⟨bytesAt m a tpmHashSize, length_bytesAt ..⟩

/-- The `TPM_PCR_INFO` in memory at `a`. -/
def pcrInfoAt (m : Mem) (a : Nat) : PcrInfo where
  pcrSelection := ⟨BitVec.ofNat 16 (readLE m a 2), fun i => m (a + 2 + i)⟩
  digestAtRelease := digestAt m (a + 3)
  digestAtCreation := digestAt m (a + 23)

/-- The end of `utpm_unseal`: the length and the data at `p` are moved to the start of the buffer. -/
def reshuffle (out : UnsealOut) (p : Nat) : UnsealOut :=
  let outlen := readLE out.output p 4
  { out with outlen := outlen, output := memcpy out.output 0 (p + 4) outlen }

/-- `utpm_unseal` once the data is decrypted. `none`: the copy of the `TPM_PCR_INFO` is larger than the
variable. -/
def checkPcrs (c : Crypto) (malloc : Nat → Bool) (bank : PcrBank) (out : UnsealOut) :
    Option (Nat × UnsealOut) :=
  let info := pcrInfoAt out.output 0
  let bytesConsumedByPcrInfo := (memcpyTpmPcrInfo info).length
  if sizeofTpmPcrInfo < bytesConsumedByPcrInfo then none
  else if bytesConsumedByPcrInfo ≤ 2 then
    some (0, reshuffle { out with digestAtCreation := zeroDigest } bytesConsumedByPcrInfo)
  else
    match allocateAndPopulateCurrentTpmPcrComposite malloc bank info.pcrSelection with
    | none => some (1, out)
    | some currentPcrComposite =>
      if c.sha1 currentPcrComposite ≠ info.digestAtRelease then some (1, out)
      else some (0, reshuffle { out with digestAtCreation := info.digestAtCreation } bytesConsumedByPcrInfo)

/-- `utpm_unseal`: the result's code, and what is written. `none`: it reads before or past the input. -/
def utpmUnseal (c : Crypto) (malloc : Nat → Bool) (bank : PcrBank) (input : Octets) (out : UnsealOut) :
    Option (Nat × UnsealOut) :=
  if sub32 input.length tpmHashSize % tpmAesKeyLenBytes ≠ 0 then some (1, out)
  else if input.length < tpmHashSize then none
  else
    let ciphertext := input.take (input.length - tpmHashSize)
    if (c.hmacSha1 ciphertext).value ≠ input.drop (input.length - tpmHashSize) then some (1, out)
    else if input.length < tpmAesKeyLenBytes + tpmHashSize then none
    else
      let plaintext := c.cbcDecrypt (ciphertext.take tpmAesKeyLenBytes) (ciphertext.drop tpmAesKeyLenBytes)
      checkPcrs c malloc bank
        { out with output := putBytes out.output 0 plaintext, outlen := plaintext.length }

end Xmhf.Utpm
