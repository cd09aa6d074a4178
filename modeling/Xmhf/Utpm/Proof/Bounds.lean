import Xmhf.Utpm.Buffers
import Xmhf.Utpm.Proof.Seal

/-!
# The buffers of an unseal

* `checkPcrsBounded_iff`: the header and the data length that have to be in the decrypted output.
* `utpmUnseal_inside_iff`: `utpm_unseal` stays inside its buffers just when the input is long enough for what
  it claims to be, and its plaintext has such a header.
* `utpmUnseal_of_bounded`: then it does what `utpmUnseal` says.
-/

namespace Xmhf.Utpm

open Xmhf.Memory Xmhf.Word Xmhf.Bytes

variable {c : Crypto} {malloc : Nat → Bool} {bank : PcrBank} {input : Octets} {out : UnsealOut}
  {r : Nat × UnsealOut} {size p : Nat}

/-! ## The condition -/

/-- The decrypted output has a header for no PCR or for one byte of them, and a data length that fits after
it. The length is not looked at when the PCRs are refused. -/
def HeaderFits (c : Crypto) (malloc : Nat → Bool) (bank : PcrBank) (size : Nat) (out : UnsealOut) : Prop :=
  let info := pcrInfoAt out.output 0
  info.pcrSelection.sizeOfSelect.toNat = 0 ∧ 6 + readLE out.output 2 4 ≤ size ∨
    info.pcrSelection.sizeOfSelect.toNat = 1 ∧ sizeofTpmPcrInfo ≤ size ∧
      ∀ composite, allocateAndPopulateCurrentTpmPcrComposite malloc bank info.pcrSelection = some composite →
        c.sha1 composite = info.digestAtRelease → 47 + readLE out.output 43 4 ≤ size

/-- The output with the plaintext of the blob `input`. -/
def decryptedBlob (c : Crypto) (input : Octets) (out : UnsealOut) : UnsealOut :=
  decrypted out (c.cbcDecrypt (input.take tpmAesKeyLenBytes)
    ((input.drop tpmAesKeyLenBytes).take (input.length - 36)))

/-- The length is not that of a blob; or there is room for an HMAC, which is wrong; or there is room for the
IV too, and the plaintext has a header that fits. -/
def UnsealFits (c : Crypto) (malloc : Nat → Bool) (bank : PcrBank) (input : Octets) (out : UnsealOut) : Prop :=
  input.length % 16 ≠ 4 ∨
    (tpmHashSize ≤ input.length ∧ (c.hmacSha1 (input.take (input.length - tpmHashSize))).value ≠
      input.drop (input.length - tpmHashSize)) ∨
    (tpmAesKeyLenBytes + tpmHashSize ≤ input.length ∧
      HeaderFits c malloc bank input.length (decryptedBlob c input out))

/-! ## The header -/

theorem reshuffleBounded_eq_some {out' : UnsealOut} : reshuffleBounded size out p = some out' ↔
    p + 4 + readLE out.output p 4 ≤ size ∧ reshuffle out p = out' := by
  rw [reshuffleBounded, Option.ite_none_right_eq_some, Option.some.injEq]
  refine and_congr_left fun _ => ?_
  simp only [Inside]
  omega

theorem exists_map_reshuffleBounded {rv : Nat} :
    (∃ r, (reshuffleBounded size out p).map (rv, ·) = some r) ↔ p + 4 + readLE out.output p 4 ≤ size := by
  constructor
  · rintro ⟨r, h⟩
    obtain ⟨out', hout, -⟩ := Option.map_eq_some_iff.1 h
    exact (reshuffleBounded_eq_some.1 hout).1
  · intro h
    exact ⟨_, Option.map_eq_some_iff.2 ⟨_, reshuffleBounded_eq_some.2 ⟨h, rfl⟩, rfl⟩⟩

/-- **The header**: the PCR check stays in an output of at least 36 bytes just when the header fits. -/
theorem checkPcrsBounded_iff (hsize : 36 ≤ size) :
    (∃ r, checkPcrsBounded c malloc bank size out = some r) ↔ HeaderFits c malloc bank size out := by
  have hlen := length_memcpyTpmPcrInfo (pcrInfoAt out.output 0)
  unfold checkPcrsBounded HeaderFits
  dsimp only
  obtain h0 | h1 | h2 : (pcrInfoAt out.output 0).pcrSelection.sizeOfSelect.toNat = 0 ∨
      (pcrInfoAt out.output 0).pcrSelection.sizeOfSelect.toNat = 1 ∨
      2 ≤ (pcrInfoAt out.output 0).pcrSelection.sizeOfSelect.toNat := by omega
  · rw [if_pos h0] at hlen
    rw [hlen, h0, if_neg (by simp only [Inside]; omega), if_neg (by omega), if_neg (by decide),
      if_pos (Nat.le_refl 2), exists_map_reshuffleBounded]
    simp
  · rw [h1, if_neg (by omega)] at hlen
    by_cases h43 : sizeofTpmPcrInfo ≤ size
    · have hin : sizeofTpmPcrInfo = 43 := rfl
      rw [hlen, h1, if_neg (by simp only [Inside]; omega),
        if_neg (by simp only [Inside, tpmHashSize]; omega), if_neg (by decide), if_neg (by decide)]
      cases halloc : allocateAndPopulateCurrentTpmPcrComposite malloc bank
          (pcrInfoAt out.output 0).pcrSelection with
      | none => simp [h43]
      | some composite =>
        by_cases hmatch : c.sha1 composite = (pcrInfoAt out.output 0).digestAtRelease
        · simp only [hmatch, ne_eq, not_true_eq_false, if_false]
          rw [exists_map_reshuffleBounded]
          simp [h43, hmatch]
        · simp [h43, hmatch]
    · have hin : sizeofTpmPcrInfo = 43 := rfl
      rw [h1, if_neg (by simp only [Inside]; omega), if_pos (by simp only [Inside, tpmHashSize]; omega)]
      simp [h43]
  · rw [if_neg (by omega)] at hlen
    rw [hlen]
    constructor
    · rintro ⟨r, h⟩
      have hover : sizeofTpmPcrInfo < 42 + (pcrInfoAt out.output 0).pcrSelection.sizeOfSelect.toNat := by
        rw [sizeofTpmPcrInfo]
        omega
      simp [hover] at h
    · omega

/-! ## The call -/

/-- The length check, which does not tell short inputs from long ones. -/
theorem macOffset_mod : sub32 input.length tpmHashSize % tpmAesKeyLenBytes ≠ 0 ↔ input.length % 16 ≠ 4 := by
  simp only [sub32, tpmHashSize, tpmAesKeyLenBytes]
  omega

/-- Without room for an HMAC, its place is taken to be 2^32 bytes further on. -/
theorem utpmUnsealBounded_short (h4 : input.length % 16 = 4) (hshort : input.length < tpmHashSize) :
    utpmUnsealBounded c malloc bank input out = none := by
  have hout : ¬(Inside input.length 0 (sub32 input.length tpmHashSize) ∧
      Inside input.length (sub32 input.length tpmHashSize) tpmHashSize) := by
    simp only [Inside, sub32, tpmHashSize] at *
    omega
  unfold utpmUnsealBounded
  dsimp only
  rw [if_neg fun h => macOffset_mod.1 h h4, if_pos hout]

theorem utpmUnsealBounded_eq (hlen : input.length < 2 ^ 32) (h4 : input.length % 16 = 4)
    (h20 : tpmHashSize ≤ input.length) : utpmUnsealBounded c malloc bank input out =
      if (c.hmacSha1 (input.take (input.length - tpmHashSize))).value ≠
        input.drop (input.length - tpmHashSize) then some (1, out)
      else if tpmAesKeyLenBytes + tpmHashSize ≤ input.length then
        checkPcrsBounded c malloc bank input.length (decryptedBlob c input out)
      else none := by
  have hin : ¬¬(Inside input.length 0 (input.length - tpmHashSize) ∧
      Inside input.length (input.length - tpmHashSize) tpmHashSize) := by
    simp only [Inside]
    omega
  have hmac : (input.drop (input.length - tpmHashSize)).take tpmHashSize =
      input.drop (input.length - tpmHashSize) := by
    rw [List.take_of_length_le]
    rw [List.length_drop]
    omega
  unfold utpmUnsealBounded
  dsimp only
  rw [if_neg fun h => macOffset_mod.1 h h4, sub32_of_le h20 hlen, if_neg hin, hmac]
  refine if_congr Iff.rfl rfl ?_
  by_cases h36 : tpmAesKeyLenBytes + tpmHashSize ≤ input.length
  · have hout : sub32 (sub32 input.length tpmAesKeyLenBytes) tpmHashSize = input.length - 36 := by
      simp only [sub32, tpmHashSize, tpmAesKeyLenBytes] at h36 ⊢
      omega
    have hdata : (c.cbcDecrypt (input.take tpmAesKeyLenBytes)
        ((input.drop tpmAesKeyLenBytes).take (input.length - 36))).length = input.length - 36 := by
      rw [c.length_cbcDecrypt, List.length_take, List.length_drop]
      simp only [tpmAesKeyLenBytes]
      omega
    have hcipher : ¬¬(Inside input.length 0 tpmAesKeyLenBytes ∧
        Inside input.length tpmAesKeyLenBytes (input.length - 36) ∧
        Inside input.length 0 (input.length - 36)) := by
      simp only [Inside, tpmHashSize, tpmAesKeyLenBytes] at h36 ⊢
      omega
    rw [hout, if_neg hcipher, if_pos h36, decryptedBlob, decrypted, hdata]
  · have hcipher : ¬(Inside input.length 0 tpmAesKeyLenBytes ∧
        Inside input.length tpmAesKeyLenBytes (sub32 (sub32 input.length tpmAesKeyLenBytes) tpmHashSize) ∧
        Inside input.length 0 (sub32 (sub32 input.length tpmAesKeyLenBytes) tpmHashSize)) := by
      simp only [Inside, sub32, tpmHashSize, tpmAesKeyLenBytes] at h36 ⊢
      omega
    rw [if_pos hcipher, if_neg h36]

/-- **`utpm_unseal` stays inside its buffers** if and only if the input and its plaintext fit. -/
theorem utpmUnseal_inside_iff (c : Crypto) (malloc : Nat → Bool) (bank : PcrBank) (input : Octets)
    (out : UnsealOut) (hlen : input.length < 2 ^ 32) :
    (∃ r, utpmUnsealBounded c malloc bank input out = some r) ↔ UnsealFits c malloc bank input out := by
  unfold UnsealFits
  by_cases h4 : input.length % 16 = 4
  · rcases Nat.lt_or_ge input.length tpmHashSize with hshort | h20
    · have h36 : ¬ tpmAesKeyLenBytes + tpmHashSize ≤ input.length := by omega
      rw [utpmUnsealBounded_short h4 hshort]
      simp [h4, Nat.not_le.2 hshort, h36]
    · rw [utpmUnsealBounded_eq hlen h4 h20]
      by_cases hbad : (c.hmacSha1 (input.take (input.length - tpmHashSize))).value ≠
          input.drop (input.length - tpmHashSize)
      · simp [hbad, h20]
      · rw [if_neg hbad]
        by_cases h36 : tpmAesKeyLenBytes + tpmHashSize ≤ input.length
        · rw [if_pos h36, checkPcrsBounded_iff h36]
          simp [h4, hbad, h36]
        · simp [h4, hbad, h36]
  · unfold utpmUnsealBounded
    dsimp only
    rw [if_pos (macOffset_mod.2 h4)]
    simp [h4]

/-- What a call inside its buffers does. -/
theorem checkPcrs_of_bounded (h : checkPcrsBounded c malloc bank size out = some r) :
    checkPcrs c malloc bank out = some r := by
  have hmap : ∀ {out : UnsealOut} {p : Nat}, (reshuffleBounded size out p).map (0, ·) = some r →
      some (0, reshuffle out p) = some r := by
    intro out p h
    obtain ⟨out', hout, rfl⟩ := Option.map_eq_some_iff.1 h
    rw [(reshuffleBounded_eq_some.1 hout).2]
  unfold checkPcrsBounded at h
  unfold checkPcrs
  dsimp only at h ⊢
  obtain ⟨-, h⟩ := Option.ite_none_left_eq_some.1 h
  obtain ⟨-, h⟩ := Option.ite_none_left_eq_some.1 h
  obtain ⟨hcopy, h⟩ := Option.ite_none_left_eq_some.1 h
  rw [if_neg hcopy]
  split at h
  · rename_i hnone
    rw [if_pos hnone]
    exact hmap h
  · rename_i hsome
    rw [if_neg hsome]
    cases halloc : allocateAndPopulateCurrentTpmPcrComposite malloc bank
        (pcrInfoAt out.output 0).pcrSelection with
    | none =>
      rw [halloc] at h
      exact h
    | some composite =>
      rw [halloc] at h
      dsimp only at h ⊢
      split at h
      · rename_i hrefused
        rwa [if_pos hrefused]
      · rename_i hmatch
        rw [if_neg hmatch]
        exact hmap h

/-- **Inside its buffers the call is that of `utpmUnseal`.** -/
theorem utpmUnseal_of_bounded (hlen : input.length < 2 ^ 32)
    (h : utpmUnsealBounded c malloc bank input out = some r) :
    utpmUnseal c malloc bank input out = some r := by
  by_cases h4 : input.length % 16 = 4
  · rcases Nat.lt_or_ge input.length tpmHashSize with hshort | h20
    · rw [utpmUnsealBounded_short h4 hshort] at h
      cases h
    · rw [utpmUnsealBounded_eq hlen h4 h20] at h
      unfold utpmUnseal
      dsimp only
      rw [if_neg fun h => macOffset_mod.1 h h4, if_neg (Nat.not_lt.2 h20)]
      split at h
      · rename_i hbad
        rwa [if_pos hbad]
      · rename_i hbad
        rw [if_neg hbad]
        obtain ⟨h36, h⟩ := Option.ite_none_right_eq_some.1 h
        have htake : (input.take (input.length - tpmHashSize)).take tpmAesKeyLenBytes =
            input.take tpmAesKeyLenBytes := by
          rw [List.take_take, Nat.min_eq_left (by omega)]
        have hdrop : (input.take (input.length - tpmHashSize)).drop tpmAesKeyLenBytes =
            (input.drop tpmAesKeyLenBytes).take (input.length - 36) := by
          rw [List.drop_take]
          congr 1
        rw [if_neg (Nat.not_lt.2 h36), htake, hdrop]
        exact checkPcrs_of_bounded h
  · unfold utpmUnsealBounded at h
    unfold utpmUnseal
    dsimp only at h ⊢
    rw [if_pos (macOffset_mod.2 h4)] at h ⊢
    exact h

/-! ## Examples -/

/-- The blob of three bytes that are sealed to PCR 3. -/
def sealedBlob : Octets :=
  (utpmSeal toyCrypto (fun _ => true) (List.replicate 16 7) (fun _ => zeroDigest) toyInfo [1, 2, 3]).toOption.getD []

theorem utpmUnseal_inside_toy :
    utpmSeal toyCrypto (fun _ => true) (List.replicate 16 7) (fun _ => zeroDigest) toyInfo [1, 2, 3] =
        .ok sealedBlob ∧
      ∃ r, utpmUnsealBounded toyCrypto (fun _ => true) (fun _ => zeroDigest) sealedBlob toyOut = some r := by
  have hlen : sealedBlob.length = 100 := by decide +kernel
  have hsize : (pcrInfoAt (decryptedBlob toyCrypto sealedBlob toyOut).output 0).pcrSelection.sizeOfSelect.toNat =
      1 := by decide +kernel
  have hdata : 47 + readLE (decryptedBlob toyCrypto sealedBlob toyOut).output 43 4 ≤ sealedBlob.length := by
    decide +kernel
  have hroom : tpmAesKeyLenBytes + tpmHashSize ≤ sealedBlob.length ∧ sizeofTpmPcrInfo ≤ sealedBlob.length := by
    rw [hlen]
    decide
  refine ⟨rfl, (utpmUnseal_inside_iff _ _ _ _ _ (by rw [hlen]; decide)).2 (Or.inr (Or.inr ⟨hroom.1, ?_⟩))⟩
  exact Or.inr ⟨hsize, hroom.2, fun _ _ _ => hdata⟩

/-- A plaintext of one block, for no PCR, that claims to have 2^32 - 1 bytes of data. -/
def forgedPlaintext : Octets := [0, 0, 0xFF, 0xFF, 0xFF, 0xFF] ++ List.replicate 10 0

/-- Its blob. -/
def forgedBlob : Octets :=
  let ciphertext := List.replicate 16 7 ++ toyCrypto.cbcEncrypt (List.replicate 16 7) forgedPlaintext
  ciphertext ++ (toyCrypto.hmacSha1 ciphertext).value

/-- **Accesses outside the buffers**: 4 bytes are taken to be a ciphertext of 2^32 - 16 bytes with its HMAC;
the HMAC of nothing is taken to have a ciphertext of 2^32 - 16 bytes before it; and the length in the
plaintext is not compared with anything. -/
theorem utpmUnseal_outside :
    utpmUnsealBounded toyCrypto (fun _ => true) (fun _ => zeroDigest) [0, 0, 0, 0] toyOut = none ∧
      utpmUnsealBounded toyCrypto (fun _ => true) (fun _ => zeroDigest) (toyCrypto.hmacSha1 []).value
        toyOut = none ∧
      utpmUnsealBounded toyCrypto (fun _ => true) (fun _ => zeroDigest) forgedBlob toyOut = none := by
  refine ⟨?_, ?_, ?_⟩ <;> decide +kernel

end Xmhf.Utpm
