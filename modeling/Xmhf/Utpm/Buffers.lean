import Xmhf.Utpm.Seal

/-!
# Seal and unseal within their buffers

`utpm_seal` and `utpm_unseal` again, with every access to a buffer checked: `utpmSealBounded` fills the
working buffer and the output piece by piece, and `utpmUnsealBounded` has input and output buffers of `inlen`
bytes. `none` is an access to a byte outside.

`utpm_seal_output_size` is the header's own computation of the size of sealed data.
-/

namespace Xmhf.Utpm

open Xmhf.Memory Xmhf.Word Xmhf.Bytes

/-! ## Sizes -/

/-- `ALIGN_UP` -/
def alignUp (n boundary : BitVec 32) : BitVec 32 := (n + (boundary - 1)) &&& ~~~(boundary - 1)

/-- `utpm_seal_output_size` -/
def utpmSealOutputSize (inlen : BitVec 32) (usingPcrs : Bool) : BitVec 32 :=
  let size : BitVec 32 := 0
  let size := size + BitVec.ofNat 32 tpmAesKeyLenBytes
  let size := size + if usingPcrs then BitVec.ofNat 32 sizeofTpmPcrInfo else 2
  let size := size + 4
  let size := size + inlen
  let pad := alignUp size (BitVec.ofNat 32 tpmAesKeyLenBytes) - size
  let size := size + pad
  size + BitVec.ofNat 32 tpmHashSize

/-! ## Seal -/

/-- A buffer with `size` bytes, and the place in it where the next ones go. -/
structure WorkBuffer where
  size : Nat
  bytes : Mem
  p : Nat

/-- `bs` copied to `p`, and `p` moved on; `none` when they do not fit. -/
def WorkBuffer.put (w : WorkBuffer) (bs : Octets) : Option WorkBuffer :=
  if w.p + bs.length ≤ w.size then
    some { w with bytes := putBytes w.bytes w.p bs, p := w.p + bs.length }
  else none

/-- `*outlen` with padding -/
def paddedOutlen (outlenBeforepad : BitVec 32) : BitVec 32 :=
  if outlenBeforepad &&& 0xF ≠ 0 then (outlenBeforepad + BitVec.ofNat 32 tpmAesKeyLenBytes) &&& ~~~0xF
  else outlenBeforepad

/-- Part 2 of `utpm_seal`, from the working buffer `w` on: the output and `*outlen`. -/
def sealInto (c : Crypto) (rand : Octets) (info : PcrInfo) (input : Octets) (w : WorkBuffer) (output : Mem) :
    Option (Mem × BitVec 32) := do
  let w ← w.put rand
  let iv := bytesAt w.bytes 0 tpmAesKeyLenBytes
  let output := putBytes output 0 iv
  let w ← w.put
    (if info.pcrSelection.sizeOfSelect.toNat = 0 then leBytes 2 info.pcrSelection.sizeOfSelect.toNat
    else memcpyTpmPcrInfo info)
  let w ← w.put (leBytes 4 input.length)
  let w ← w.put input
  let outlenBeforepad := BitVec.ofNat 32 w.p
  let outlen := paddedOutlen outlenBeforepad
  let w ← w.put (List.replicate (outlen - outlenBeforepad).toNat 0)
  let cipherLen := (outlen - BitVec.ofNat 32 tpmAesKeyLenBytes).toNat
  -- `cbc_encrypt` reads its plaintext in the working buffer
  guard (tpmAesKeyLenBytes + cipherLen ≤ w.size)
  let output := putBytes output tpmAesKeyLenBytes
    (c.cbcEncrypt iv (bytesAt w.bytes tpmAesKeyLenBytes cipherLen))
  let hmac := c.hmacSha1 (bytesAt output 0 outlen.toNat)
  return (putBytes output outlen.toNat hmac.value, outlen + BitVec.ofNat 32 tpmHashSize)

/-- `utpm_seal`, with `plaintext` for what `malloc` returns: the code of the error, or the output and
`*outlen`. `none`: it overruns the working buffer. -/
def utpmSealBounded (c : Crypto) (malloc : Nat → Bool) (rand : Octets) (bank : PcrBank)
    (tpmPcrInfo : PcrInfo) (input : Octets) (plaintext output : Mem) :
    Option (Except Nat (Mem × BitVec 32)) :=
  match internalPcrInfo c malloc bank tpmPcrInfo with
  | none => some (.error 1)
  | some info =>
    if malloc (add32 input.length 100) then
      if rand.length ≠ tpmAesKeyLenBytes then some (.error 3)
      else (sealInto c rand info input ⟨add32 input.length 100, plaintext, 0⟩ output).map .ok
    else some (.error 1)

/-! ## Unseal -/

/-- The `len` bytes from `off` on are in a buffer of `size` bytes. -/
def Inside (size off len : Nat) : Prop := off + len ≤ size

instance (size off len : Nat) : Decidable (Inside size off len) := inferInstanceAs (Decidable (_ ≤ _))

/-- `reshuffle` in an output buffer of `size` bytes -/
def reshuffleBounded (size : Nat) (out : UnsealOut) (p : Nat) : Option UnsealOut :=
  let outlen := readLE out.output p 4
  if Inside size p 4 ∧ Inside size (p + 4) outlen ∧ Inside size 0 outlen then some (reshuffle out p)
  else none

/-- `checkPcrs` in an output buffer of `size` bytes. The header is read where its fields are. -/
def checkPcrsBounded (c : Crypto) (malloc : Nat → Bool) (bank : PcrBank) (size : Nat) (out : UnsealOut) :
    Option (Nat × UnsealOut) :=
  let info := pcrInfoAt out.output 0
  let sizeOfSelect := info.pcrSelection.sizeOfSelect.toNat
  let bytesConsumedByPcrInfo := (memcpyTpmPcrInfo info).length
  if ¬ (Inside size 0 2 ∧ Inside size 0 (2 + sizeOfSelect)) then none
  else if 0 < sizeOfSelect ∧ ¬ (Inside size 3 tpmHashSize ∧ Inside size 23 tpmHashSize) then none
  else if sizeofTpmPcrInfo < bytesConsumedByPcrInfo then none
  else if bytesConsumedByPcrInfo ≤ 2 then
    (reshuffleBounded size { out with digestAtCreation := zeroDigest } bytesConsumedByPcrInfo).map (0, ·)
  else
    match allocateAndPopulateCurrentTpmPcrComposite malloc bank info.pcrSelection with
    | none => some (1, out)
    | some currentPcrComposite =>
      if c.sha1 currentPcrComposite ≠ info.digestAtRelease then some (1, out)
      else
        (reshuffleBounded size { out with digestAtCreation := info.digestAtCreation }
          bytesConsumedByPcrInfo).map (0, ·)

/-- `utpm_unseal` with buffers of `inlen` bytes. `none`: it accesses a byte outside of one, or the copy of
the `TPM_PCR_INFO` is larger than the variable. -/
def utpmUnsealBounded (c : Crypto) (malloc : Nat → Bool) (bank : PcrBank) (input : Octets)
    (out : UnsealOut) : Option (Nat × UnsealOut) :=
  let inlen := input.length
  let macOffset := sub32 inlen tpmHashSize
  if macOffset % tpmAesKeyLenBytes ≠ 0 then some (1, out)
  else if ¬ (Inside inlen 0 macOffset ∧ Inside inlen macOffset tpmHashSize) then none
  else
    if (c.hmacSha1 (input.take macOffset)).value ≠ (input.drop macOffset).take tpmHashSize then some (1, out)
    else
      let outlen := sub32 (sub32 inlen tpmAesKeyLenBytes) tpmHashSize
      if ¬ (Inside inlen 0 tpmAesKeyLenBytes ∧ Inside inlen tpmAesKeyLenBytes outlen ∧
          Inside inlen 0 outlen) then none
      else
        let plaintext :=
          c.cbcDecrypt (input.take tpmAesKeyLenBytes) ((input.drop tpmAesKeyLenBytes).take outlen)
        checkPcrsBounded c malloc bank inlen
          { out with output := putBytes out.output 0 plaintext, outlen := outlen }

end Xmhf.Utpm
