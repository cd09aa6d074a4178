import Xmhf.Utpm.Proof.Seal

/-!
# A refused unseal

With other PCRs than those of `digestAtRelease`, `utpm_unseal` returns an error, and leaves the decrypted
data in the output.

* `utpmUnseal_refused`: what it leaves.
* `refused_same_iff`: two inputs leave the same only if they are the same.
-/

namespace Xmhf.Utpm

open Xmhf.Memory Xmhf.Bytes

variable {c : Crypto} {malloc malloc' : Nat → Bool} {bank bank' : PcrBank}

/-- **What a refused unseal leaves**: the decrypted data. -/
theorem utpmUnseal_refused {rand input sealed : Octets} {tpmPcrInfo : PcrInfo}
    (hlen : input.length + 100 < 2 ^ 32)
    (hseal : utpmSeal c malloc rand bank tpmPcrInfo input = .ok sealed)
    (hsize : tpmPcrInfo.pcrSelection.sizeOfSelect = 1) (malloc' : Nat → Bool)
    (hpcrs : c.sha1 (tpmPcrComposite bank' tpmPcrInfo.pcrSelection) ≠ tpmPcrInfo.digestAtRelease)
    (out : UnsealOut) :
    ∃ info, internalPcrInfo c malloc bank tpmPcrInfo = some info ∧
      utpmUnseal c malloc' bank' sealed out = some (1, decrypted out (sealPlaintext info input)) := by
  obtain ⟨info, hinfo, hunseal⟩ := utpmUnseal_of_utpmSeal hlen hseal malloc' bank' out
  obtain ⟨hle, hsel, hrel, -⟩ := internalPcrInfo_spec hinfo
  refine ⟨info, hinfo, ?_⟩
  rw [hunseal, checkPcrs_sealed (hsel ▸ hle), hsel, hsize, hrel, if_neg (by decide),
    if_neg fun h => hpcrs h.2]

theorem sealPlaintext_inj {info : PcrInfo} {x y : Octets} (hlen : x.length = y.length) :
    sealPlaintext info x = sealPlaintext info y ↔ x = y := by
  refine ⟨fun h => ?_, fun h => h ▸ rfl⟩
  have hdata := List.append_inj_left h (by simp [hlen])
  exact List.append_inj_right hdata (by simp)

theorem decrypted_inj {out : UnsealOut} {p q : Octets} : decrypted out p = decrypted out q ↔ p = q := by
  refine ⟨fun h => ?_, fun h => h ▸ rfl⟩
  have houtput : putBytes out.output 0 p = putBytes out.output 0 q := congrArg UnsealOut.output h
  have hlen : p.length = q.length := congrArg UnsealOut.outlen h
  rw [← bytesAt_putBytes out.output 0 p, houtput, hlen, bytesAt_putBytes]

/-- **Two refused unseals leave the same** if and only if the inputs that were sealed are the same. -/
theorem refused_same_iff {rand x y sealedX sealedY : Octets} {tpmPcrInfo : PcrInfo}
    (hxy : x.length = y.length) (hlen : x.length + 100 < 2 ^ 32)
    (hx : utpmSeal c malloc rand bank tpmPcrInfo x = .ok sealedX)
    (hy : utpmSeal c malloc rand bank tpmPcrInfo y = .ok sealedY)
    (hsize : tpmPcrInfo.pcrSelection.sizeOfSelect = 1)
    (hpcrs : c.sha1 (tpmPcrComposite bank' tpmPcrInfo.pcrSelection) ≠ tpmPcrInfo.digestAtRelease)
    (out : UnsealOut) :
    (∃ rvX rvY left, rvX ≠ 0 ∧ rvY ≠ 0 ∧
        utpmUnseal c malloc' bank' sealedX out = some (rvX, left) ∧
        utpmUnseal c malloc' bank' sealedY out = some (rvY, left)) ↔ x = y := by
  obtain ⟨info, hinfo, hunsealX⟩ := utpmUnseal_refused hlen hx hsize malloc' hpcrs out
  obtain ⟨info', hinfo', hunsealY⟩ := utpmUnseal_refused (hxy ▸ hlen) hy hsize malloc' hpcrs out
  obtain rfl : info = info' := Option.some.inj (hinfo.symm.trans hinfo')
  rw [hunsealX, hunsealY]
  refine ⟨fun ⟨rvX, rvY, left, _, _, h1, h2⟩ => ?_, fun h => ?_⟩
  · have hleft : decrypted out (sealPlaintext info x) = decrypted out (sealPlaintext info y) :=
      (congrArg Prod.snd (Option.some.inj h1)).trans (congrArg Prod.snd (Option.some.inj h2)).symm
    exact (sealPlaintext_inj hxy).1 (decrypted_inj.1 hleft)
  · subst h
    exact ⟨1, 1, _, Nat.one_ne_zero, Nat.one_ne_zero, rfl, rfl⟩

/-- A bank with ones in PCR 3. -/
def otherBank : PcrBank := fun i =>
  if i.val = 3 then ⟨List.replicate tpmHashSize 1, List.length_replicate⟩ else zeroDigest

/-- Data sealed for the initialised bank. -/
def toySeal (input : Octets) : Except Nat Octets :=
  utpmSeal toyCrypto (fun _ => true) (List.replicate 16 7) (fun _ => zeroDigest) toyInfo input

theorem otherBank_differs : toyCrypto.sha1 (tpmPcrComposite otherBank toyInfo.pcrSelection) ≠
    toyInfo.digestAtRelease := by
  decide +kernel

theorem refused_same_iff_toy : ∃ sealedX sealedY, toySeal [1] = .ok sealedX ∧ toySeal [2] = .ok sealedY ∧
    ¬∃ rvX rvY left, rvX ≠ 0 ∧ rvY ≠ 0 ∧
      utpmUnseal toyCrypto (fun _ => true) otherBank sealedX toyOut = some (rvX, left) ∧
      utpmUnseal toyCrypto (fun _ => true) otherBank sealedY toyOut = some (rvY, left) := by
  obtain ⟨sealedX, hx⟩ : ∃ sealedX, toySeal [1] = .ok sealedX := ⟨_, rfl⟩
  obtain ⟨sealedY, hy⟩ : ∃ sealedY, toySeal [2] = .ok sealedY := ⟨_, rfl⟩
  have hlen : ([1] : Octets).length = ([2] : Octets).length := rfl
  exact ⟨sealedX, sealedY, hx, hy, fun h =>
    absurd ((refused_same_iff hlen (by decide) hx hy rfl otherBank_differs toyOut).1 h) (by decide)⟩

/-- What is left in the output after a refused unseal of one byte. -/
theorem toy_refused {b : BitVec 8} {sealed : Octets} (h : toySeal [b] = .ok sealed) :
    ∃ left, utpmUnseal toyCrypto (fun _ => true) otherBank sealed toyOut = some (1, left) ∧
      left.output 47 = b := by
  obtain ⟨info, hinfo, hleft⟩ :=
    utpmUnseal_refused (by simp) h rfl (fun _ => true) otherBank_differs toyOut
  refine ⟨_, hleft, ?_⟩
  obtain ⟨_, hsel, -, -⟩ := internalPcrInfo_spec hinfo
  have hhead : (memcpyTpmPcrInfo info).length = 43 := by
    rw [length_memcpyTpmPcrInfo, hsel]
    rfl
  have hdata : bytesAt (decrypted toyOut (sealPlaintext info [b])).output 47 1 = [b] :=
    bytesAt_putBytes_of_prefix (List.prefix_append _ _) (by simp [hhead]) rfl
  exact List.head_eq_of_cons_eq hdata

/-- **The refused data are in the output**: one byte and another. -/
theorem refused_tells_input : ∃ sealedX sealedY leftX leftY,
    toySeal [1] = .ok sealedX ∧ toySeal [2] = .ok sealedY ∧
      utpmUnseal toyCrypto (fun _ => true) otherBank sealedX toyOut = some (1, leftX) ∧
      utpmUnseal toyCrypto (fun _ => true) otherBank sealedY toyOut = some (1, leftY) ∧
      leftX.output 47 = 1 ∧ leftY.output 47 = 2 := by
  obtain ⟨sealedX, hx⟩ : ∃ sealedX, toySeal [1] = .ok sealedX := ⟨_, rfl⟩
  obtain ⟨sealedY, hy⟩ : ∃ sealedY, toySeal [2] = .ok sealedY := ⟨_, rfl⟩
  obtain ⟨leftX, hleftX, h1⟩ := toy_refused hx
  obtain ⟨leftY, hleftY, h2⟩ := toy_refused hy
  exact ⟨sealedX, sealedY, leftX, leftY, hx, hy, hleftX, hleftY, h1, h2⟩

end Xmhf.Utpm
