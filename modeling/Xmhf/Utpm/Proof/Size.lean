import Xmhf.Utpm.Buffers
import Xmhf.Utpm.Proof.Seal

/-!
# The size of sealed data

* `toNat_paddedOutlen`, `toNat_utpmSealOutputSize`: the two computations of the padding, as numbers.
* `sealInto_eq`: the working buffer holds the IV and the plaintext, and the output the sealed data.
* `utpmSeal_size`: `*outlen` is what the header computes, and the working buffer is not overrun.
-/

namespace Xmhf.Utpm

open Xmhf.Memory Xmhf.Word Xmhf.Bytes

variable {c : Crypto} {malloc : Nat → Bool} {bank : PcrBank} {info : PcrInfo} {rand input : Octets}
  {size n : Nat} {m : Mem} {l bs : Octets} {x : BitVec 32}

/-! ## Padding -/

theorem toNat_and_not_15 (x : BitVec 32) : (x &&& ~~~0xF).toNat = x.toNat / 16 * 16 :=
  toNat_and_not_mask x 4

theorem and_15_ne_zero : x &&& 0xF ≠ 0 ↔ x.toNat % 16 ≠ 0 := by
  have hand : (x &&& 0xF).toNat = x.toNat % 16 := by
    rw [BitVec.toNat_and]
    exact Nat.and_two_pow_sub_one_eq_mod x.toNat 4
  rw [Ne, ← BitVec.toNat_inj, hand]
  rfl

theorem toNat_paddedOutlen (h : x.toNat + tpmAesKeyLenBytes < 2 ^ 32) :
    (paddedOutlen x).toNat = paddedLen x.toNat := by
  have h16 : (BitVec.ofNat 32 tpmAesKeyLenBytes).toNat = tpmAesKeyLenBytes := rfl
  unfold paddedOutlen paddedLen
  by_cases hx : x &&& 0xF ≠ 0
  · rw [if_pos hx, if_pos (and_15_ne_zero.1 hx), toNat_and_not_15, BitVec.toNat_add, h16, Nat.mod_eq_of_lt h]
  · rw [if_neg hx, if_neg (mt and_15_ne_zero.2 hx)]

theorem toNat_alignUp (h : x.toNat + tpmAesKeyLenBytes < 2 ^ 32) :
    (alignUp x (BitVec.ofNat 32 tpmAesKeyLenBytes)).toNat = paddedLen x.toNat := by
  have hmask : BitVec.ofNat 32 tpmAesKeyLenBytes - 1 = 0xF := rfl
  have h15 : (0xF : BitVec 32).toNat = 15 := rfl
  simp only [tpmAesKeyLenBytes] at h
  rw [alignUp, hmask, toNat_and_not_15, BitVec.toNat_add, h15, Nat.mod_eq_of_lt (by omega), paddedLen,
    tpmAesKeyLenBytes]
  split <;> omega

theorem paddedLen_bounds (n : Nat) : n ≤ paddedLen n ∧ paddedLen n ≤ n + 15 ∧ paddedLen n % 16 = 0 := by
  unfold paddedLen tpmAesKeyLenBytes
  split <;> omega

/-- The header's size, for each of the two shapes of the PCR information -/
theorem toNat_utpmSealOutputSize {usingPcrs : Bool} (h : n + 100 < 2 ^ 32) :
    (utpmSealOutputSize (BitVec.ofNat 32 n) usingPcrs).toNat =
      paddedLen (tpmAesKeyLenBytes + ((if usingPcrs then sizeofTpmPcrInfo else 2) + 4 + n)) + tpmHashSize := by
  set unpadded : BitVec 32 := 0 + BitVec.ofNat 32 tpmAesKeyLenBytes +
    (if usingPcrs then BitVec.ofNat 32 sizeofTpmPcrInfo else 2) + 4 + BitVec.ofNat 32 n with hunpadded
  have hsize : unpadded.toNat =
      tpmAesKeyLenBytes + ((if usingPcrs then sizeofTpmPcrInfo else 2) + 4 + n) := by
    cases usingPcrs <;> simp [hunpadded, tpmAesKeyLenBytes, sizeofTpmPcrInfo] <;> omega
  have hle : unpadded.toNat ≤ n + 63 := by
    rw [hsize, tpmAesKeyLenBytes, sizeofTpmPcrInfo]
    split <;> omega
  have hpad := toNat_alignUp (x := unpadded) (by rw [tpmAesKeyLenBytes]; omega)
  have hbounds := paddedLen_bounds unpadded.toNat
  have h20 : (BitVec.ofNat 32 tpmHashSize).toNat = 20 := rfl
  change (unpadded + (alignUp unpadded (BitVec.ofNat 32 tpmAesKeyLenBytes) - unpadded) +
    BitVec.ofNat 32 tpmHashSize).toNat = _
  rw [BitVec.add_comm unpadded, BitVec.sub_add_cancel, BitVec.toNat_add, hpad, h20, ← hsize, tpmHashSize,
    Nat.mod_eq_of_lt (by omega)]

/-! ## The working buffer -/

/-- A buffer of which the first bytes are `l`. -/
def filled (size : Nat) (m : Mem) (l : Octets) : WorkBuffer := ⟨size, putBytes m 0 l, l.length⟩

theorem filled_put (h : l.length + bs.length ≤ size) :
    (filled size m l).put bs = some (filled size m (l ++ bs)) := by
  have hput := putBytes_append m 0 l bs
  rw [Nat.zero_add] at hput
  simp [WorkBuffer.put, filled, h, hput]

theorem bytesAt_filled (l1 l2 l3 : Octets) (hl : l = l1 ++ l2 ++ l3) :
    bytesAt (filled size m l).bytes l1.length l2.length = l2 := by
  subst hl
  exact bytesAt_putBytes_of_prefix (List.prefix_append _ _) rfl rfl

/-- The header is the same in both cases. -/
theorem header_eq (info : PcrInfo) :
    (if info.pcrSelection.sizeOfSelect.toNat = 0 then leBytes 2 info.pcrSelection.sizeOfSelect.toNat
      else memcpyTpmPcrInfo info) = memcpyTpmPcrInfo info := by
  by_cases h : info.pcrSelection.sizeOfSelect.toNat = 0
  · simp [h, memcpyTpmPcrInfo, PcrSelection.bytes]
  · rw [if_neg h]

/-- The IV and the plaintext make up a whole number of blocks. -/
theorem length_sealPlaintext_eq (info : PcrInfo) (input : Octets) :
    tpmAesKeyLenBytes + (sealPlaintext info input).length =
      paddedLen (tpmAesKeyLenBytes + ((memcpyTpmPcrInfo info).length + 4 + input.length)) := by
  have hle := (paddedLen_bounds (tpmAesKeyLenBytes + ((memcpyTpmPcrInfo info).length + 4 + input.length))).1
  simp only [sealPlaintext, List.length_append, length_leBytes, List.length_replicate]
  omega

/-- **What is sealed**: the output has the IV, the ciphertext and the HMAC, and nothing else is written. -/
theorem sealInto_eq (hrand : rand.length = tpmAesKeyLenBytes)
    (hhead : (memcpyTpmPcrInfo info).length ≤ sizeofTpmPcrInfo) (hlen : input.length + 100 < 2 ^ 32)
    (plaintext output : Mem) :
    ∃ outlen, sealInto c rand info input ⟨input.length + 100, plaintext, 0⟩ output =
        some (putBytes output 0 (rand ++ c.cbcEncrypt rand (sealPlaintext info input) ++
          (c.hmacSha1 (rand ++ c.cbcEncrypt rand (sealPlaintext info input))).value), outlen) ∧
      outlen.toNat = tpmAesKeyLenBytes + (sealPlaintext info input).length + tpmHashSize := by
  have hheader := header_eq info
  have hplainLen := length_sealPlaintext_eq info input
  set before := tpmAesKeyLenBytes + ((memcpyTpmPcrInfo info).length + 4 + input.length) with hbefore
  have hsizes : tpmAesKeyLenBytes = 16 ∧ sizeofTpmPcrInfo = 43 ∧ tpmHashSize = 20 := ⟨rfl, rfl, rfl⟩
  obtain ⟨hle, hle', -⟩ := paddedLen_bounds before
  have hplain : sealPlaintext info input = memcpyTpmPcrInfo info ++ leBytes 4 input.length ++ input ++
      List.replicate (paddedLen before - before) 0 := by
    simp [sealPlaintext, hbefore, Nat.add_assoc]
  have hx : (BitVec.ofNat 32 before).toNat = before := by
    rw [BitVec.toNat_ofNat, Nat.mod_eq_of_lt (by omega)]
  have hpadded : (paddedOutlen (BitVec.ofNat 32 before)).toNat = paddedLen before := by
    rw [toNat_paddedOutlen (by omega), hx]
  have hpad : (paddedOutlen (BitVec.ofNat 32 before) - BitVec.ofNat 32 before).toNat =
      paddedLen before - before := by
    rw [BitVec.toNat_sub_of_le (by rw [BitVec.le_def]; omega), hpadded, hx]
  have hcipher : (paddedOutlen (BitVec.ofNat 32 before) - BitVec.ofNat 32 tpmAesKeyLenBytes).toNat =
      (sealPlaintext info input).length := by
    have h16 : (BitVec.ofNat 32 tpmAesKeyLenBytes).toNat = 16 := rfl
    rw [BitVec.toNat_sub_of_le (by rw [BitVec.le_def]; omega), hpadded, h16]
    omega
  set size := input.length + 100 with hsize
  have hstart : (⟨size, plaintext, 0⟩ : WorkBuffer) = filled size plaintext [] := by
    rw [filled, putBytes_nil]
    rfl
  have hput1 : (filled size plaintext []).put rand = some (filled size plaintext rand) :=
    filled_put (by simp; omega)
  have hput2 : (filled size plaintext rand).put (memcpyTpmPcrInfo info) =
      some (filled size plaintext (rand ++ memcpyTpmPcrInfo info)) :=
    filled_put (by omega)
  have hput3 : (filled size plaintext (rand ++ memcpyTpmPcrInfo info)).put (leBytes 4 input.length) =
      some (filled size plaintext (rand ++ memcpyTpmPcrInfo info ++ leBytes 4 input.length)) :=
    filled_put (by simp; omega)
  have hput4 : (filled size plaintext (rand ++ memcpyTpmPcrInfo info ++ leBytes 4 input.length)).put input =
      some (filled size plaintext (rand ++ memcpyTpmPcrInfo info ++ leBytes 4 input.length ++ input)) :=
    filled_put (by simp; omega)
  have hp : (filled size plaintext (rand ++ memcpyTpmPcrInfo info ++ leBytes 4 input.length ++ input)).p =
      before := by
    simp [filled, hbefore, hrand, Nat.add_assoc]
  have hput5 : (filled size plaintext (rand ++ memcpyTpmPcrInfo info ++ leBytes 4 input.length ++ input)).put
      (List.replicate (paddedLen before - before) 0) =
        some (filled size plaintext (rand ++ sealPlaintext info input)) := by
    rw [filled_put (by simp; omega), hplain]
    simp only [List.append_assoc]
  have hiv : bytesAt (filled size plaintext rand).bytes 0 tpmAesKeyLenBytes = rand := by
    rw [← hrand]
    exact bytesAt_filled [] rand [] (by simp)
  have hbody : bytesAt (filled size plaintext (rand ++ sealPlaintext info input)).bytes tpmAesKeyLenBytes
      (sealPlaintext info input).length = sealPlaintext info input := by
    rw [← hrand]
    exact bytesAt_filled rand _ [] (by simp)
  have hguard : (guard (tpmAesKeyLenBytes + (sealPlaintext info input).length ≤
      (filled size plaintext (rand ++ sealPlaintext info input)).size) : Option Unit) = some () := by
    refine if_pos ?_
    change _ ≤ size
    omega
  have houtput : putBytes (putBytes output 0 rand) tpmAesKeyLenBytes
      (c.cbcEncrypt rand (sealPlaintext info input)) =
        putBytes output 0 (rand ++ c.cbcEncrypt rand (sealPlaintext info input)) := by
    rw [← putBytes_append, Nat.zero_add, hrand]
  have hsealed : (rand ++ c.cbcEncrypt rand (sealPlaintext info input)).length = paddedLen before := by
    rw [List.length_append, c.length_cbcEncrypt]
    omega
  have hmac : bytesAt (putBytes output 0 (rand ++ c.cbcEncrypt rand (sealPlaintext info input))) 0
      (paddedLen before) = rand ++ c.cbcEncrypt rand (sealPlaintext info input) := by
    rw [← hsealed]
    exact bytesAt_putBytes ..
  have hlast := putBytes_append output 0 (rand ++ c.cbcEncrypt rand (sealPlaintext info input))
    (c.hmacSha1 (rand ++ c.cbcEncrypt rand (sealPlaintext info input))).value
  rw [Nat.zero_add, hsealed] at hlast
  refine ⟨paddedOutlen (BitVec.ofNat 32 before) + BitVec.ofNat 32 tpmHashSize, ?_, ?_⟩
  · rw [hstart]
    simp only [sealInto, hheader, hput1, hput2, hput3, hput4, hp, hpad, hput5, hcipher, hiv,
      hbody, hguard, houtput, hpadded, hmac, hlast, Option.bind_eq_bind, Option.bind_some,
      Option.pure_def]
  · have h20 : (BitVec.ofNat 32 tpmHashSize).toNat = 20 := rfl
    rw [BitVec.toNat_add, hpadded, h20, Nat.mod_eq_of_lt (by omega), hplainLen]
    rfl

/-! ## The call -/

/-- **The sizes agree.** For a selection of no byte or one, `utpm_seal` does not overrun its working buffer
of `inlen + 100` bytes; when it succeeds, `*outlen` is what `utpm_seal_output_size` says, a whole number of
blocks and an HMAC, and exactly these bytes of the output are written. -/
theorem utpmSeal_size (c : Crypto) (malloc : Nat → Bool) (rand : Octets) (bank : PcrBank)
    (tpmPcrInfo : PcrInfo) (input : Octets) (plaintext output : Mem) (hlen : input.length + 100 < 2 ^ 32)
    (hsel : tpmPcrInfo.pcrSelection.sizeOfSelect = 0 ∨ tpmPcrInfo.pcrSelection.sizeOfSelect = 1) :
    ∃ res, utpmSealBounded c malloc rand bank tpmPcrInfo input plaintext output = some res ∧
      ∀ output' outlen, res = .ok (output', outlen) →
        outlen = utpmSealOutputSize (BitVec.ofNat 32 input.length)
          (decide (tpmPcrInfo.pcrSelection.sizeOfSelect ≠ 0)) ∧
        (outlen.toNat - tpmHashSize) % tpmAesKeyLenBytes = 0 ∧
        ∃ sealed, utpmSeal c malloc rand bank tpmPcrInfo input = .ok sealed ∧
          sealed.length = outlen.toNat ∧ output' = putBytes output 0 sealed := by
  cases hinfo : internalPcrInfo c malloc bank tpmPcrInfo with
  | none => exact ⟨.error 1, by simp [utpmSealBounded, hinfo], fun _ _ he => by cases he⟩
  | some info =>
    by_cases hroom : malloc (add32 input.length 100) = true
    · by_cases hrand : rand.length = tpmAesKeyLenBytes
      · obtain ⟨hsize, hselection, -, -⟩ := internalPcrInfo_spec hinfo
        have hhead := length_memcpyTpmPcrInfo info
        rw [hselection] at hhead
        have hhead' : (memcpyTpmPcrInfo info).length =
            if decide (tpmPcrInfo.pcrSelection.sizeOfSelect ≠ 0) then sizeofTpmPcrInfo else 2 := by
          rcases hsel with h | h <;> rw [h] at hhead ⊢ <;> exact hhead
        obtain ⟨outlen, hinto, houtlen⟩ := sealInto_eq (c := c) hrand
          (by rw [hhead', sizeofTpmPcrInfo]; split <;> omega) hlen plaintext output
        have hsum : add32 input.length 100 = input.length + 100 := add32_of_lt hlen
        have hcall : utpmSealBounded c malloc rand bank tpmPcrInfo input plaintext output =
            some (.ok (putBytes output 0 (rand ++ c.cbcEncrypt rand (sealPlaintext info input) ++
              (c.hmacSha1 (rand ++ c.cbcEncrypt rand (sealPlaintext info input))).value), outlen)) := by
          simp only [utpmSealBounded, hinfo, hroom, if_true, hrand, ne_eq, not_true_eq_false, if_false]
          rw [hsum, hinto]
          rfl
        have hseal : utpmSeal c malloc rand bank tpmPcrInfo input =
            .ok (rand ++ c.cbcEncrypt rand (sealPlaintext info input) ++
              (c.hmacSha1 (rand ++ c.cbcEncrypt rand (sealPlaintext info input))).value) := by
          simp [utpmSeal, hinfo, hroom, hrand]
        refine ⟨_, hcall, ?_⟩
        rintro output' outlen' hres
        obtain ⟨rfl, rfl⟩ := Prod.mk.inj (Except.ok.inj hres)
        refine ⟨?_, ?_, _, hseal, ?_, rfl⟩
        · rw [← BitVec.toNat_inj, houtlen, toNat_utpmSealOutputSize hlen, ← hhead', length_sealPlaintext_eq]
        · have hblocks := (length_sealPlaintext info input).1
          rw [houtlen, tpmAesKeyLenBytes]
          omega
        · rw [houtlen, List.length_append, List.length_append, c.length_cbcEncrypt, hrand,
            (c.hmacSha1 _).length_value]
      · exact ⟨.error 3, by simp [utpmSealBounded, hinfo, hroom, hrand], fun _ _ he => by cases he⟩
    · exact ⟨.error 1, by simp [utpmSealBounded, hinfo, hroom], fun _ _ he => by cases he⟩

theorem utpmSeal_size_toy :
    ∃ res, utpmSealBounded toyCrypto (fun _ => true) (List.replicate 16 7) (fun _ => zeroDigest) toyInfo
        [1, 2, 3] (fun _ => 0) (fun _ => 0) = some res ∧
      ∀ output' outlen, res = .ok (output', outlen) →
        outlen = utpmSealOutputSize 3 true ∧ (outlen.toNat - tpmHashSize) % tpmAesKeyLenBytes = 0 := by
  obtain ⟨res, hcall, hres⟩ := utpmSeal_size toyCrypto (fun _ => true) (List.replicate 16 7)
    (fun _ => zeroDigest) toyInfo [1, 2, 3] (fun _ => 0) (fun _ => 0) (by decide) (Or.inr rfl)
  refine ⟨res, hcall, fun output' outlen h => ?_⟩
  obtain ⟨hout, hblocks, -⟩ := hres output' outlen h
  exact ⟨hout, hblocks⟩

end Xmhf.Utpm
