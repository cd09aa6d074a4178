import Xmhf.Utpm.Seal

/-!
# Quote

`utpm_quote`, whose `rv` is set at each of four failures, and which returns 0 at its end.
-/

namespace Xmhf.Utpm

open Xmhf.Memory Xmhf.Bytes

/-- `TPM_RSA_KEY_LEN` -/
def tpmRsaKeyLen : Nat := 256

/-- A signature under `g_rsa_key`. -/
structure Signature where
  value : Octets
  length_value : value.length = tpmRsaKeyLen

/-- What `utpm_quote` is called with: whether no pointer is `NULL`, and what the pointers point to. A nonce
has as many bytes as a digest. -/
structure QuoteArgs where
  nonNull : Bool
  externalnonce : TpmDigest
  tpmsel : PcrSelection
  bank : PcrBank

/-- What `utpm_quote` writes to: `output` and `*outlen`, `pcrComp` and `*pcrCompLen`. -/
structure QuoteOut where
  output : Mem
  outlen : Nat
  pcrComp : Mem
  pcrCompLen : Nat

/-- The code returned, what is written, how many bytes are copied from the composite on, and the digest that
is signed. -/
structure QuoteResult where
  rv : Nat
  out : QuoteOut
  copied : Option Nat
  signed : Option TpmDigest

/-- `TPM_QUOTE_INFO` -/
def tpmQuoteInfo (digestValue externalData : TpmDigest) : Octets :=
  leBytes 4 0x00000101 ++ leBytes 4 0x544f5551 ++ digestValue.value ++ externalData.value

/-- The first `n` bytes from the composite on: behind it is other memory, `heap`. -/
def readComposite (tpmPcrComposite : Octets) (heap : Nat → BitVec 8) (n : Nat) : Octets :=
  (List.range n).map fun i => (tpmPcrComposite[i]?).getD (heap i)

/-- `utpm_quote`. `sign` is `rsa_sign_hash_ex`, `none` its failure. -/
def utpmQuote (c : Crypto) (malloc : Nat → Bool) (heap : Nat → BitVec 8)
    (sign : TpmDigest → Option Signature) (args : QuoteArgs) (out : QuoteOut) : QuoteResult :=
  if args.nonNull = false then ⟨0, out, none, none⟩
  else
    match allocateAndPopulateCurrentTpmPcrComposite malloc args.bank args.tpmsel with
    | none => ⟨0, out, none, none⟩
    | some tpmPcrComposite =>
      let spaceNeeded := spaceNeededForComposite args.tpmsel
      if out.pcrCompLen < spaceNeeded then ⟨0, { out with pcrCompLen := spaceNeeded }, none, none⟩
      else
        let pcrComp := putBytes out.pcrComp 0 (readComposite tpmPcrComposite heap out.pcrCompLen)
        let md := c.sha1 (tpmQuoteInfo (c.sha1 tpmPcrComposite) args.externalnonce)
        if out.outlen < tpmRsaKeyLen then
          ⟨0, { out with pcrComp := pcrComp, outlen := tpmRsaKeyLen }, some out.pcrCompLen, none⟩
        else
          match sign md with
          | none => ⟨0, { out with pcrComp := pcrComp, outlen := tpmRsaKeyLen }, some out.pcrCompLen, some md⟩
          | some signature =>
            ⟨0, { out with pcrComp := pcrComp, outlen := tpmRsaKeyLen,
                           output := putBytes out.output 0 signature.value },
              some out.pcrCompLen, some md⟩

end Xmhf.Utpm
