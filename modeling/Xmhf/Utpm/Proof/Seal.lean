import Xmhf.Utpm.Seal
import Xmhf.Utpm.Proof.Pcr

/-!
# Sealed data

* `utpmSeal_spec`: what a seal that succeeds has put together.
* `utpmUnseal_sealed`: unsealing sealed data comes to the PCR check with the plaintext in the output.
* `pcrInfoAt_sealed`: the header that is read there is the one that was sealed.
* `utpmUnseal_utpmSeal`: the round trip.
-/

namespace Xmhf.Utpm

open Xmhf.Memory Xmhf.Word Xmhf.Bytes

variable {c : Crypto} {malloc : Nat → Bool} {bank : PcrBank}

/-! ## Seal -/

theorem length_memcpyTpmPcrInfo (info : PcrInfo) : (memcpyTpmPcrInfo info).length =
    if info.pcrSelection.sizeOfSelect.toNat = 0 then 2
    else 42 + info.pcrSelection.sizeOfSelect.toNat := by
  rw [memcpyTpmPcrInfo, List.length_append, PcrSelection.length_bytes]
  by_cases h : info.pcrSelection.sizeOfSelect.toNat = 0
  · rw [if_pos h, if_neg (by omega), h]
    rfl
  · rw [if_neg h, if_pos (Nat.pos_of_ne_zero h), List.length_append, info.digestAtRelease.length_value,
      info.digestAtCreation.length_value, tpmHashSize]
    omega

/-- The `TPM_PCR_INFO` that is sealed is the caller's, with the digest of the current PCRs. -/
structure Internal (c : Crypto) (bank : PcrBank) (tpmPcrInfo info : PcrInfo) : Prop where
  size : tpmPcrInfo.pcrSelection.sizeOfSelect.toNat ≤ 1
  selection : info.pcrSelection = tpmPcrInfo.pcrSelection
  release : info.digestAtRelease = tpmPcrInfo.digestAtRelease
  creation : tpmPcrInfo.pcrSelection.sizeOfSelect.toNat = 1 →
    info.digestAtCreation = c.sha1 (tpmPcrComposite bank tpmPcrInfo.pcrSelection)

theorem internalPcrInfo_spec {tpmPcrInfo info : PcrInfo}
    (h : internalPcrInfo c malloc bank tpmPcrInfo = some info) : Internal c bank tpmPcrInfo info := by
  unfold internalPcrInfo at h
  split at h
  · rename_i hsize
    split at h
    · cases h
    · rename_i hlen
      rw [not_not, length_memcpyTpmPcrInfo, if_neg hsize, sizeofTpmPcrInfo] at hlen
      obtain ⟨digest, hdigest, rfl⟩ := Option.map_eq_some_iff.1 h
      unfold digestCurrentTpmPcrComposite at hdigest
      rw [if_neg (by omega), allocateAndPopulate_eq] at hdigest
      obtain ⟨buf, hbuf, rfl⟩ := Option.map_eq_some_iff.1 hdigest
      split at hbuf
      · obtain rfl := Option.some.inj hbuf
        exact ⟨by omega, rfl, rfl, fun _ => rfl⟩
      · cases hbuf
  · rename_i hsize
    obtain rfl := Option.some.inj h
    exact ⟨by omega, rfl, rfl, fun h1 => by omega⟩

/-- **A seal that succeeds.** -/
theorem utpmSeal_spec {rand input sealed : Octets} {tpmPcrInfo : PcrInfo}
    (h : utpmSeal c malloc rand bank tpmPcrInfo input = .ok sealed) :
    rand.length = tpmAesKeyLenBytes ∧ ∃ info, internalPcrInfo c malloc bank tpmPcrInfo = some info ∧
      sealed = rand ++ c.cbcEncrypt rand (sealPlaintext info input) ++
        (c.hmacSha1 (rand ++ c.cbcEncrypt rand (sealPlaintext info input))).value := by
  unfold utpmSeal at h
  split at h
  · cases h
  · rename_i info hinfo
    split at h
    · split at h
      · cases h
      · rename_i hrand
        exact ⟨not_not.1 hrand, info, hinfo, (Except.ok.inj h).symm⟩
    · cases h

theorem length_sealPlaintext (info : PcrInfo) (input : Octets) :
    (sealPlaintext info input).length % 16 = 0 ∧
      (sealPlaintext info input).length ≤ (memcpyTpmPcrInfo info).length + input.length + 19 := by
  have hlen : (sealPlaintext info input).length =
      (memcpyTpmPcrInfo info).length + 4 + input.length +
        (paddedLen (16 + ((memcpyTpmPcrInfo info).length + 4 + input.length)) -
          (16 + ((memcpyTpmPcrInfo info).length + 4 + input.length))) := by
    simp [sealPlaintext, tpmAesKeyLenBytes, Nat.add_assoc]
  rw [hlen]
  generalize (memcpyTpmPcrInfo info).length = n
  unfold paddedLen tpmAesKeyLenBytes
  split <;> omega

/-! ## Unseal -/

/-- What `utpm_unseal` has written when it comes to the PCRs. -/
def decrypted (out : UnsealOut) (plaintext : Octets) : UnsealOut :=
  { out with output := putBytes out.output 0 plaintext, outlen := plaintext.length }

/-- **Sealed data are decrypted to what was sealed.** -/
theorem utpmUnseal_sealed {malloc' : Nat → Bool} {bank' : PcrBank} {rand plaintext : Octets}
    (hrand : rand.length = tpmAesKeyLenBytes) (hblocks : plaintext.length % 16 = 0)
    (hlt : plaintext.length + 36 < 2 ^ 32) (out : UnsealOut) :
    utpmUnseal c malloc' bank' (rand ++ c.cbcEncrypt rand plaintext ++
        (c.hmacSha1 (rand ++ c.cbcEncrypt rand plaintext)).value) out =
      checkPcrs c malloc' bank' (decrypted out plaintext) := by
  have hcipher : (rand ++ c.cbcEncrypt rand plaintext).length = 16 + plaintext.length := by
    rw [List.length_append, hrand, c.length_cbcEncrypt, tpmAesKeyLenBytes]
  have hmac := (c.hmacSha1 (rand ++ c.cbcEncrypt rand plaintext)).length_value
  generalize hct : rand ++ c.cbcEncrypt rand plaintext = ciphertext at hcipher hmac ⊢
  have hlen : (ciphertext ++ (c.hmacSha1 ciphertext).value).length = 16 + plaintext.length + 20 := by
    rw [List.length_append, hcipher, hmac, tpmHashSize]
  have hsub : sub32 (16 + plaintext.length + 20) tpmHashSize = 16 + plaintext.length := by
    rw [tpmHashSize, sub32_of_le (by omega) (by omega), Nat.add_sub_cancel]
  have htake : (ciphertext ++ (c.hmacSha1 ciphertext).value).take (16 + plaintext.length) = ciphertext :=
    List.take_left' hcipher
  have hdrop : (ciphertext ++ (c.hmacSha1 ciphertext).value).drop (16 + plaintext.length) =
      (c.hmacSha1 ciphertext).value := List.drop_left' hcipher
  have hiv : ciphertext.take tpmAesKeyLenBytes = rand := hct ▸ List.take_left' hrand
  have hbody : ciphertext.drop tpmAesKeyLenBytes = c.cbcEncrypt rand plaintext :=
    hct ▸ List.drop_left' hrand
  have hcut : 16 + plaintext.length + 20 - tpmHashSize = 16 + plaintext.length := Nat.add_sub_cancel ..
  unfold utpmUnseal
  rw [hlen, hsub, hcut, htake, hdrop, if_neg (by rw [tpmAesKeyLenBytes]; omega),
    if_neg (by rw [tpmHashSize]; omega)]
  dsimp only
  rw [if_neg (not_not.2 rfl), if_neg (by rw [tpmAesKeyLenBytes, tpmHashSize]; omega), hiv, hbody,
    c.cbcDecrypt_cbcEncrypt _ _ hblocks]
  rfl

/-! ## The header -/

/-- The header that is read in the output is the one that was sealed. -/
structure SameHeader (read info : PcrInfo) : Prop where
  size : read.pcrSelection.sizeOfSelect = info.pcrSelection.sizeOfSelect
  bytes : read.pcrSelection.bytes = info.pcrSelection.bytes
  release : info.pcrSelection.sizeOfSelect.toNat = 1 → read.digestAtRelease = info.digestAtRelease
  creation : info.pcrSelection.sizeOfSelect.toNat = 1 → read.digestAtCreation = info.digestAtCreation

theorem memcpyTpmPcrInfo_of_one {info : PcrInfo} (h : info.pcrSelection.sizeOfSelect.toNat = 1) :
    memcpyTpmPcrInfo info = leBytes 2 1 ++ [info.pcrSelection.pcrSelect 0] ++
      (info.digestAtRelease.value ++ info.digestAtCreation.value) := by
  rw [memcpyTpmPcrInfo, PcrSelection.bytes, h]
  rfl

theorem tpmDigest_eq_of_bytesAt {m : Mem} {a : Nat} {d : TpmDigest}
    (h : bytesAt m a tpmHashSize = d.value) : digestAt m a = d := tpmDigest_ext.1 h

/-- **The header is read back.** -/
theorem pcrInfoAt_sealed {m : Mem} {info : PcrInfo} {rest : Octets}
    (hsize : info.pcrSelection.sizeOfSelect.toNat ≤ 1) :
    SameHeader (pcrInfoAt (putBytes m 0 (memcpyTpmPcrInfo info ++ rest)) 0) info := by
  have hlow : bytesAt (putBytes m 0 (memcpyTpmPcrInfo info ++ rest)) 0 2 =
      leBytes 2 info.pcrSelection.sizeOfSelect.toNat := by
    have hpre : [] ++ leBytes 2 info.pcrSelection.sizeOfSelect.toNat <+: memcpyTpmPcrInfo info ++ rest :=
      ((List.prefix_append _ _).trans (List.prefix_append _ _)).trans (List.prefix_append _ _)
    exact bytesAt_putBytes_of_prefix hpre rfl (length_leBytes ..)
  have hread : (pcrInfoAt (putBytes m 0 (memcpyTpmPcrInfo info ++ rest)) 0).pcrSelection.sizeOfSelect =
      info.pcrSelection.sizeOfSelect := by
    show BitVec.ofNat 16 (readLE _ 0 2) = _
    have hlt : info.pcrSelection.sizeOfSelect.toNat < 256 ^ 2 := info.pcrSelection.sizeOfSelect.isLt
    rw [readLE_eq_ofLeBytes, hlow, ofLeBytes_leBytes, Nat.mod_eq_of_lt hlt, BitVec.ofNat_toNat,
      BitVec.setWidth_eq]
  obtain h0 | h1 : info.pcrSelection.sizeOfSelect.toNat = 0 ∨ info.pcrSelection.sizeOfSelect.toNat = 1 := by
    omega
  · refine ⟨hread, ?_, fun h => by omega, fun h => by omega⟩
    rw [PcrSelection.bytes, PcrSelection.bytes, hread, h0]
    rfl
  · have hhead := memcpyTpmPcrInfo_of_one h1
    have hrel := info.digestAtRelease.length_value
    have hbyte : bytesAt (putBytes m 0 (memcpyTpmPcrInfo info ++ rest)) 2 1 =
        [info.pcrSelection.pcrSelect 0] := by
      rw [hhead]
      exact bytesAt_putBytes_of_prefix ((List.prefix_append _ _).trans (List.prefix_append _ _)) rfl rfl
    refine ⟨hread, ?_, fun _ => tpmDigest_eq_of_bytesAt ?_, fun _ => tpmDigest_eq_of_bytesAt ?_⟩
    · rw [PcrSelection.bytes, PcrSelection.bytes, hread, h1]
      exact congrArg (leBytes 2 1 ++ ·) hbyte
    · rw [hhead, ← List.append_assoc]
      exact bytesAt_putBytes_of_prefix ((List.prefix_append _ _).trans (List.prefix_append _ _)) rfl hrel
    · rw [hhead, ← List.append_assoc]
      exact bytesAt_putBytes_of_prefix (List.prefix_append _ _) (by simp [hrel, tpmHashSize])
        info.digestAtCreation.length_value

/-! ## The data -/

theorem reshuffle_sealed (m : Mem) (outlen : Nat) (digest : TpmDigest) (info : PcrInfo) {input : Octets}
    (hlt : input.length < 2 ^ 32) :
    (reshuffle ⟨putBytes m 0 (sealPlaintext info input), outlen, digest⟩
        (memcpyTpmPcrInfo info).length).outlen = input.length ∧
      bytesAt (reshuffle ⟨putBytes m 0 (sealPlaintext info input), outlen, digest⟩
        (memcpyTpmPcrInfo info).length).output 0 input.length = input := by
  have hlen : readLE (putBytes m 0 (sealPlaintext info input)) (memcpyTpmPcrInfo info).length 4 =
      input.length := by
    have hpart : bytesAt (putBytes m 0 (sealPlaintext info input)) (memcpyTpmPcrInfo info).length 4 =
        leBytes 4 input.length :=
      bytesAt_putBytes_of_prefix ((List.prefix_append _ _).trans (List.prefix_append _ _)) rfl
        (length_leBytes ..)
    have hlt' : input.length < 256 ^ 4 := hlt
    rw [readLE_eq_ofLeBytes, hpart, ofLeBytes_leBytes, Nat.mod_eq_of_lt hlt']
  refine ⟨hlen, ?_⟩
  show bytesAt (memcpy _ 0 _ (readLE _ _ 4)) 0 input.length = input
  dsimp only
  rw [hlen, bytesAt_memcpy (Nat.zero_le _)]
  exact bytesAt_putBytes_of_prefix (List.prefix_append _ _) (by simp) rfl

/-! ## The PCR check -/

theorem tpmPcrComposite_of_bytes {s s' : PcrSelection} (h : s.sizeOfSelect.toNat ≤ 1)
    (heq : s.bytes = s'.bytes) : tpmPcrComposite bank s = tpmPcrComposite bank s' := by
  obtain ⟨hsize, hall⟩ := (bytes_eq_iff h).1 heq
  exact (tpmPcrComposite_inj h).2 ⟨hsize, hall, fun _ _ => rfl⟩

/-- What is left of the output's length and the data when unsealing succeeds. -/
def unsealed (out : UnsealOut) (info : PcrInfo) (input : Octets) (digest : TpmDigest) : UnsealOut :=
  reshuffle { decrypted out (sealPlaintext info input) with digestAtCreation := digest }
    (memcpyTpmPcrInfo info).length

/-- **The PCR check on sealed data.** -/
theorem checkPcrs_sealed {info : PcrInfo} (hsize : info.pcrSelection.sizeOfSelect.toNat ≤ 1)
    (out : UnsealOut) (input : Octets) :
    checkPcrs c malloc bank (decrypted out (sealPlaintext info input)) =
      if info.pcrSelection.sizeOfSelect.toNat = 0 then some (0, unsealed out info input zeroDigest)
      else if malloc (spaceNeededForComposite info.pcrSelection) = true ∧
          c.sha1 (tpmPcrComposite bank info.pcrSelection) = info.digestAtRelease then
        some (0, unsealed out info input info.digestAtCreation)
      else some (1, decrypted out (sealPlaintext info input)) := by
  obtain ⟨rest, hrest⟩ : memcpyTpmPcrInfo info <+: sealPlaintext info input :=
    ((List.prefix_append _ _).trans (List.prefix_append _ _)).trans (List.prefix_append _ _)
  have hhead : SameHeader (pcrInfoAt (decrypted out (sealPlaintext info input)).output 0) info := by
    show SameHeader (pcrInfoAt (putBytes out.output 0 (sealPlaintext info input)) 0) info
    rw [← hrest]
    exact pcrInfoAt_sealed hsize
  have hlen : (memcpyTpmPcrInfo (pcrInfoAt (decrypted out (sealPlaintext info input)).output 0)).length =
      (memcpyTpmPcrInfo info).length := by
    rw [length_memcpyTpmPcrInfo, length_memcpyTpmPcrInfo, hhead.size]
  have hcomp : tpmPcrComposite bank
      (pcrInfoAt (decrypted out (sealPlaintext info input)).output 0).pcrSelection =
        tpmPcrComposite bank info.pcrSelection :=
    tpmPcrComposite_of_bytes (hhead.size ▸ hsize) hhead.bytes
  have hspace : spaceNeededForComposite
      (pcrInfoAt (decrypted out (sealPlaintext info input)).output 0).pcrSelection =
        spaceNeededForComposite info.pcrSelection := by
    rw [← length_tpmPcrComposite bank, hcomp, length_tpmPcrComposite]
  have hinfoLen := length_memcpyTpmPcrInfo info
  unfold checkPcrs
  dsimp only
  rw [hlen, if_neg (by rw [hinfoLen, sizeofTpmPcrInfo]; split <;> omega)]
  by_cases h0 : info.pcrSelection.sizeOfSelect.toNat = 0
  · rw [if_pos (by rw [hinfoLen, if_pos h0]), if_pos h0]
    rfl
  · have h1 : info.pcrSelection.sizeOfSelect.toNat = 1 := by omega
    rw [if_neg (by rw [hinfoLen, if_neg h0]; omega), if_neg h0, allocateAndPopulate_eq, hspace, hcomp]
    by_cases hroom : malloc (spaceNeededForComposite info.pcrSelection) = true
    · rw [if_pos hroom]
      dsimp only
      rw [hhead.release h1, hhead.creation h1]
      by_cases hmatch : c.sha1 (tpmPcrComposite bank info.pcrSelection) = info.digestAtRelease
      · rw [if_neg (not_not.2 hmatch), if_pos ⟨hroom, hmatch⟩]
        rfl
      · rw [if_pos hmatch, if_neg fun h => hmatch h.2]
    · rw [if_neg hroom, if_neg fun h => hroom h.1]

/-- Unsealing sealed data comes to the PCR check. -/
theorem utpmUnseal_of_utpmSeal {rand input sealed : Octets} {tpmPcrInfo : PcrInfo}
    (hlen : input.length + 100 < 2 ^ 32)
    (hseal : utpmSeal c malloc rand bank tpmPcrInfo input = .ok sealed) (malloc' : Nat → Bool)
    (bank' : PcrBank) (out : UnsealOut) :
    ∃ info, internalPcrInfo c malloc bank tpmPcrInfo = some info ∧
      utpmUnseal c malloc' bank' sealed out =
        checkPcrs c malloc' bank' (decrypted out (sealPlaintext info input)) := by
  obtain ⟨hrand, info, hinfo, rfl⟩ := utpmSeal_spec hseal
  obtain ⟨hblocks, hle⟩ := length_sealPlaintext info input
  have hhead := length_memcpyTpmPcrInfo info
  have hint := internalPcrInfo_spec hinfo
  have hsize := hint.size
  rw [← hint.selection] at hsize
  refine ⟨info, hinfo, utpmUnseal_sealed hrand hblocks ?_ out⟩
  split at hhead <;> omega

/-- **The round trip**: what was sealed is unsealed with the PCRs that `digestAtRelease` stands for. -/
theorem utpmUnseal_utpmSeal {malloc' : Nat → Bool} {bank' : PcrBank} {rand input sealed : Octets}
    {tpmPcrInfo : PcrInfo} (hlen : input.length + 100 < 2 ^ 32)
    (hseal : utpmSeal c malloc rand bank tpmPcrInfo input = .ok sealed)
    (hroom : tpmPcrInfo.pcrSelection.sizeOfSelect ≠ 0 →
      malloc' (spaceNeededForComposite tpmPcrInfo.pcrSelection) = true)
    (hpcrs : tpmPcrInfo.pcrSelection.sizeOfSelect ≠ 0 →
      c.sha1 (tpmPcrComposite bank' tpmPcrInfo.pcrSelection) = tpmPcrInfo.digestAtRelease)
    (out : UnsealOut) :
    ∃ out', utpmUnseal c malloc' bank' sealed out = some (0, out') ∧
      bytesAt out'.output 0 input.length = input ∧ out'.outlen = input.length ∧
      out'.digestAtCreation =
        if tpmPcrInfo.pcrSelection.sizeOfSelect = 0 then zeroDigest
        else c.sha1 (tpmPcrComposite bank tpmPcrInfo.pcrSelection) := by
  obtain ⟨info, hinfo, hunseal⟩ := utpmUnseal_of_utpmSeal hlen hseal malloc' bank' out
  obtain ⟨hsize, hsel, hrel, hcre⟩ := internalPcrInfo_spec hinfo
  have hzero : tpmPcrInfo.pcrSelection.sizeOfSelect = 0 ↔
      tpmPcrInfo.pcrSelection.sizeOfSelect.toNat = 0 := BitVec.toNat_inj.symm
  have hlt : input.length < 2 ^ 32 := by omega
  rw [hunseal, checkPcrs_sealed (hsel ▸ hsize), hsel]
  by_cases h0 : tpmPcrInfo.pcrSelection.sizeOfSelect.toNat = 0
  · rw [if_pos h0, if_pos (hzero.2 h0)]
    obtain ⟨hout, hbytes⟩ := reshuffle_sealed out.output (sealPlaintext info input).length zeroDigest info hlt
    exact ⟨_, rfl, hbytes, hout, rfl⟩
  · have hne := mt hzero.1 h0
    rw [if_neg h0, if_neg hne, if_pos ⟨hroom hne, (hpcrs hne).trans hrel.symm⟩]
    obtain ⟨hout, hbytes⟩ :=
      reshuffle_sealed out.output (sealPlaintext info input).length info.digestAtCreation info hlt
    exact ⟨_, rfl, hbytes, hout, hcre (by omega)⟩

/-! ## A toy library -/

/-- The last 20 bytes. -/
def toyDigest (x : Octets) : TpmDigest :=
  ⟨(x.reverse ++ List.replicate tpmHashSize 0).take tpmHashSize, by simp⟩

/-- Bytes are inverted, and hashes are the last 20 bytes. -/
def toyCrypto : Crypto where
  cbcEncrypt _ x := x.map (~~~·)
  cbcDecrypt _ x := x.map (~~~·)
  hmacSha1 := toyDigest
  sha1 := toyDigest
  length_cbcEncrypt _ _ := List.length_map _
  length_cbcDecrypt _ _ := List.length_map _
  cbcDecrypt_cbcEncrypt _ x _ := by simp [Function.comp_def]

/-- PCR 3, released to a bank that was just initialised. -/
def toyInfo : PcrInfo where
  pcrSelection := ⟨1, fun _ => 0x08⟩
  digestAtRelease := toyCrypto.sha1 (tpmPcrComposite (fun _ => zeroDigest) ⟨1, fun _ => 0x08⟩)
  digestAtCreation := zeroDigest

/-- An output buffer with nothing in it. -/
def toyOut : UnsealOut := ⟨fun _ => 0, 0, zeroDigest⟩

theorem utpmUnseal_utpmSeal_toy : ∃ sealed out',
    utpmSeal toyCrypto (fun _ => true) (List.replicate 16 7) (fun _ => zeroDigest) toyInfo [1, 2, 3] =
        .ok sealed ∧
      utpmUnseal toyCrypto (fun _ => true) (fun _ => zeroDigest) sealed toyOut = some (0, out') ∧
      bytesAt out'.output 0 3 = [1, 2, 3] ∧ out'.outlen = 3 := by
  obtain ⟨sealed, hseal⟩ : ∃ sealed, utpmSeal toyCrypto (fun _ => true) (List.replicate 16 7)
      (fun _ => zeroDigest) toyInfo [1, 2, 3] = .ok sealed := ⟨_, rfl⟩
  obtain ⟨out', hout, hbytes, hlen, -⟩ := @utpmUnseal_utpmSeal toyCrypto (fun _ => true)
    (fun _ => zeroDigest) (fun _ => true) (fun _ => zeroDigest) _ _ _ _ (by decide) hseal (fun _ => rfl)
    (fun _ => rfl) toyOut
  exact ⟨sealed, out', hseal, hout, hbytes, hlen⟩

/-- **Without room for the composite** nothing is unsealed. -/
theorem utpmUnseal_no_room : ∃ sealed out',
    utpmSeal toyCrypto (fun _ => true) (List.replicate 16 7) (fun _ => zeroDigest) toyInfo [1, 2, 3] =
        .ok sealed ∧
      toyCrypto.sha1 (tpmPcrComposite (fun _ => zeroDigest) toyInfo.pcrSelection) = toyInfo.digestAtRelease ∧
      utpmUnseal toyCrypto (fun _ => false) (fun _ => zeroDigest) sealed toyOut = some (1, out') := by
  obtain ⟨sealed, hseal⟩ : ∃ sealed, utpmSeal toyCrypto (fun _ => true) (List.replicate 16 7)
      (fun _ => zeroDigest) toyInfo [1, 2, 3] = .ok sealed := ⟨_, rfl⟩
  obtain ⟨info, hinfo, hunseal⟩ :=
    utpmUnseal_of_utpmSeal (by decide) hseal (fun _ => false) (fun _ => zeroDigest) toyOut
  obtain ⟨hsize, hsel, -, -⟩ := internalPcrInfo_spec hinfo
  rw [checkPcrs_sealed (hsel ▸ hsize), hsel, if_neg (by decide), if_neg fun h => Bool.noConfusion h.1] at hunseal
  exact ⟨sealed, _, hseal, rfl, hunseal⟩

end Xmhf.Utpm
