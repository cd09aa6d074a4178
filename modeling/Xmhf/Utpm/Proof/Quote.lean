import Xmhf.Utpm.Quote
import Xmhf.Utpm.Proof.Seal

/-!
# The contract of a quote

The comment on `utpm_quote` has the caller preset each length to the size of its buffer, and the call reset
it "to the size of the true response if the hypercall succeeds", or "to the required size".

* `utpmQuote_of_steps`: what a call leaves whose steps all succeed.
* `utpmQuote_contract_iff`: which calls keep the contract.
-/

namespace Xmhf.Utpm

open Xmhf.Memory Xmhf.Bytes

variable {c : Crypto} {malloc : Nat → Bool} {sign : TpmDigest → Option Signature}
  {args : QuoteArgs} {out : QuoteOut}

/-- The composite that is quoted. -/
def QuoteArgs.composite (args : QuoteArgs) : Octets := tpmPcrComposite args.bank args.tpmsel

/-- The digest to sign: over 1.1.0.0, 'QUOT', the composite's digest and the nonce. -/
def quoteDigest (c : Crypto) (args : QuoteArgs) : TpmDigest :=
  c.sha1 ([1, 1, 0, 0] ++ [0x51, 0x55, 0x4F, 0x54] ++ (c.sha1 args.composite).value ++
    args.externalnonce.value)

/-- Every step of a quote succeeds. -/
structure QuoteSteps (c : Crypto) (malloc : Nat → Bool) (sign : TpmDigest → Option Signature)
    (args : QuoteArgs) (out : QuoteOut) : Prop where
  nonNull : args.nonNull = true
  room : malloc (spaceNeededForComposite args.tpmsel) = true
  pcrComp : args.composite.length ≤ out.pcrCompLen
  output : tpmRsaKeyLen ≤ out.outlen
  signed : (sign (quoteDigest c args)).isSome = true

/-- The contract of a quote. -/
structure QuoteContract (c : Crypto) (malloc : Nat → Bool) (sign : TpmDigest → Option Signature)
    (args : QuoteArgs) (out : QuoteOut) (res : QuoteResult) : Prop where
  rv : res.rv = 0 ↔ QuoteSteps c malloc sign args out
  pcrCompLen : res.rv = 0 → res.out.pcrCompLen = args.composite.length
  pcrComp : res.rv = 0 → bytesAt res.out.pcrComp 0 args.composite.length = args.composite ∧
    ∀ x, out.pcrCompLen ≤ x → res.out.pcrComp x = out.pcrComp x
  copied : res.rv = 0 → ∃ n ≤ args.composite.length, res.copied = some n
  signed : res.rv = 0 → res.signed = some (quoteDigest c args)
  pcrCompSmall : args.nonNull = true → malloc (spaceNeededForComposite args.tpmsel) = true →
    out.pcrCompLen < args.composite.length → res.rv ≠ 0 ∧ res.out.pcrCompLen = args.composite.length
  outputSmall : args.nonNull = true → malloc (spaceNeededForComposite args.tpmsel) = true →
    args.composite.length ≤ out.pcrCompLen → out.outlen < tpmRsaKeyLen →
      res.rv ≠ 0 ∧ res.out.outlen = tpmRsaKeyLen

/-- It returns 0 whatever happens. -/
theorem utpmQuote_rv (c : Crypto) (malloc : Nat → Bool) (heap : Nat → BitVec 8)
    (sign : TpmDigest → Option Signature) (args : QuoteArgs) (out : QuoteOut) :
    (utpmQuote c malloc heap sign args out).rv = 0 := by
  unfold utpmQuote
  split
  · rfl
  · split
    · rfl
    · dsimp only
      split
      · rfl
      · split
        · rfl
        · split <;> rfl

/-- **What a call leaves whose steps all succeed**: `*pcrCompLen` is as it was, and so many bytes are
copied. -/
theorem utpmQuote_of_steps (heap : Nat → BitVec 8) (h : QuoteSteps c malloc sign args out) :
    (utpmQuote c malloc heap sign args out).out.pcrCompLen = out.pcrCompLen ∧
      (utpmQuote c malloc heap sign args out).out.pcrComp =
        putBytes out.pcrComp 0 (readComposite args.composite heap out.pcrCompLen) ∧
      (utpmQuote c malloc heap sign args out).copied = some out.pcrCompLen ∧
      (utpmQuote c malloc heap sign args out).signed = some (quoteDigest c args) := by
  obtain ⟨signature, hsign⟩ := Option.isSome_iff_exists.1 h.signed
  have hlen : args.composite.length = spaceNeededForComposite args.tpmsel := length_tpmPcrComposite ..
  have hcomp := h.pcrComp
  rw [hlen] at hcomp
  have hdigest : c.sha1 (tpmQuoteInfo (c.sha1 (tpmPcrComposite args.bank args.tpmsel)) args.externalnonce) =
      quoteDigest c args := rfl
  unfold utpmQuote
  rw [if_neg (by rw [h.nonNull]; decide), allocateAndPopulate_eq, if_pos h.room]
  dsimp only
  rw [if_neg (Nat.not_lt_of_le hcomp), if_neg (Nat.not_lt_of_le h.output), hdigest, hsign]
  exact ⟨rfl, rfl, rfl, rfl⟩

theorem readComposite_length (comp : Octets) (heap : Nat → BitVec 8) :
    readComposite comp heap comp.length = comp := by
  apply List.ext_getElem?
  intro i
  rw [readComposite, List.getElem?_map]
  by_cases hi : i < comp.length
  · rw [List.getElem?_range hi, Option.map_some, List.getElem?_eq_getElem hi, Option.getD_some]
  · rw [List.getElem?_eq_none (by simpa using hi), List.getElem?_eq_none (by omega), Option.map_none]

/-- **The contract is kept** if and only if every step succeeds and the caller's buffer for the composite has
exactly the composite's size. -/
theorem utpmQuote_contract_iff (c : Crypto) (malloc : Nat → Bool) (heap : Nat → BitVec 8)
    (sign : TpmDigest → Option Signature) (args : QuoteArgs) (out : QuoteOut) :
    QuoteContract c malloc sign args out (utpmQuote c malloc heap sign args out) ↔
      QuoteSteps c malloc sign args out ∧ out.pcrCompLen = args.composite.length := by
  have hrv := utpmQuote_rv c malloc heap sign args out
  refine ⟨fun h => ?_, fun ⟨hsteps, hexact⟩ => ?_⟩
  · have hsteps := h.rv.1 hrv
    obtain ⟨hlen, -⟩ := utpmQuote_of_steps heap hsteps
    exact ⟨hsteps, hlen.symm.trans (h.pcrCompLen hrv)⟩
  · obtain ⟨hlen, hbytes, hcopied, hsigned⟩ := utpmQuote_of_steps heap hsteps
    rw [hexact] at hlen hbytes hcopied
    rw [readComposite_length] at hbytes
    refine ⟨⟨fun _ => hsteps, fun _ => hrv⟩, fun _ => hlen, fun _ => ?_, fun _ => ⟨_, Nat.le_refl _, hcopied⟩,
      fun _ => hsigned, fun _ _ hsmall => ?_, fun _ _ _ hsmall => ?_⟩
    · rw [hbytes]
      refine ⟨bytesAt_putBytes .., fun x hx => ?_⟩
      rw [putBytes, if_neg (Nat.not_lt_zero x), Nat.sub_zero,
        List.getElem?_eq_none (by omega), Option.getD_none]
    · exact absurd hsteps.pcrComp (Nat.not_le_of_lt hsmall)
    · exact absurd hsteps.output (Nat.not_le_of_lt hsmall)

/-- A quote of PCR 3 of a bank that was just initialised. -/
def toyArgs : QuoteArgs := ⟨true, zeroDigest, ⟨1, fun _ => 0x08⟩, fun _ => zeroDigest⟩

/-- Every digest is signed. -/
def toySign (_ : TpmDigest) : Option Signature :=
  some ⟨List.replicate tpmRsaKeyLen 0, List.length_replicate⟩

/-- **A larger buffer** for the composite keeps its length, and with a smaller one the call returns 0. -/
theorem quote_goes_wrong :
    (¬QuoteContract toyCrypto (fun _ => true) toySign toyArgs ⟨fun _ => 0, 256, fun _ => 0, 100⟩
      (utpmQuote toyCrypto (fun _ => true) (fun _ => 0) toySign toyArgs ⟨fun _ => 0, 256, fun _ => 0, 100⟩)) ∧
    ¬QuoteContract toyCrypto (fun _ => true) toySign toyArgs ⟨fun _ => 0, 256, fun _ => 0, 10⟩
      (utpmQuote toyCrypto (fun _ => true) (fun _ => 0) toySign toyArgs ⟨fun _ => 0, 256, fun _ => 0, 10⟩) :=
  ⟨fun h => absurd (h.pcrCompLen rfl) (by decide), fun h => (h.pcrCompSmall rfl rfl (by decide)).1 rfl⟩

end Xmhf.Utpm
