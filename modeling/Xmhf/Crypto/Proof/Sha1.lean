import Xmhf.Crypto.Standard
import Xmhf.Crypto.Proof.Hash
import Mathlib.Data.List.GetD

/-!
# SHA-1

The code computes the function of the standard, however the message is cut into buffers.

* `fiveRounds_eq`: the unrolled rounds, in which the registers change places, are rounds of the standard.
* `getD_sha1Words`: `W` is the message schedule.
* `sha1Compress_eq`: the compression is the standard's.
* `sha1Done_spec`: the padding, in one block or in two.
* `sha1Process_chunks`: any number of buffers, and then the digest of what they are together.
-/

namespace Xmhf.Crypto

open Xmhf.Memory Xmhf.Bytes Xmhf.Loop Xmhf.Stream Xmhf.Fips180

/-! ## The compression -/

theorem F0_eq (x y z : BitVec 32) : F0 x y z = (x &&& y) ^^^ (~~~x &&& z) := by
  apply BitVec.eq_of_getLsbD_eq
  intro i hi
  simp only [F0, BitVec.getLsbD_xor, BitVec.getLsbD_and, BitVec.getLsbD_not, hi, decide_true, Bool.true_and]
  cases x.getLsbD i <;> cases y.getLsbD i <;> cases z.getLsbD i <;> rfl

theorem F2_eq (x y z : BitVec 32) : F2 x y z = (x &&& y) ^^^ (x &&& z) ^^^ (y &&& z) := by
  apply BitVec.eq_of_getLsbD_eq
  intro i _
  simp only [F2, BitVec.getLsbD_xor, BitVec.getLsbD_and, BitVec.getLsbD_or]
  cases x.getLsbD i <;> cases y.getLsbD i <;> cases z.getLsbD i <;> rfl

variable {F : BitVec 32 → BitVec 32 → BitVec 32 → BitVec 32} {K : BitVec 32} {W : List (BitVec 32)} {i : Nat}

/-- **Five lines** of a loop, in which `F` and `K` are those of the rounds. -/
theorem fiveRounds_eq (hF : ∀ t, i ≤ t → t < i + 5 → F = ft t ∧ K = kt t) (md : Sha1State) :
    fiveRounds F K W i md = forLoop 5 (fun j => roundT (fun t => W.getD t 0) (i + j)) md := by
  obtain ⟨hF0, hK0⟩ := hF i (by omega) (by omega)
  obtain ⟨hF1, hK1⟩ := hF (i + 1) (by omega) (by omega)
  obtain ⟨hF2, hK2⟩ := hF (i + 2) (by omega) (by omega)
  obtain ⟨hF3, hK3⟩ := hF (i + 3) (by omega) (by omega)
  obtain ⟨hF4, hK4⟩ := hF (i + 4) (by omega) (by omega)
  have hff : ∀ a b c d e w, ff F K a b c d e w = a.rotateLeft 5 + F b c d + e + K + w := by
    intros
    simp only [ff]
    ac_rfl
  simp only [forLoop, roundT, ← hF0, ← hF1, ← hF2, ← hF3, ← hF4, ← hK0, ← hK1, ← hK2, ← hK3, ← hK4, fiveRounds, hff,
    Nat.add_zero]

/-- **A loop** of twenty rounds. -/
theorem twentyRounds_eq (hF : ∀ t, i ≤ t → t < i + 20 → F = ft t ∧ K = kt t) (md : Sha1State) :
    twentyRounds F K W i md = forLoop 20 (fun t => roundT (fun t => W.getD t 0) (i + t)) md := by
  rw [show 20 = 4 * 5 from rfl, forLoop_mul, twentyRounds]
  apply forLoop_congr
  intro j s hj
  rw [fiveRounds_eq fun t h1 h2 => hF t (by omega) (by omega)]
  apply forLoop_congr
  intro t s _
  rw [Nat.mul_comm 5 j, Nat.add_assoc]

/-- The constants and functions of the four loops. -/
theorem rounds_eq (W : List (BitVec 32)) (md : Sha1State) :
    twentyRounds F3 0xca62c1d6 W 60 (twentyRounds F2 0x8f1bbcdc W 40
      (twentyRounds F1 0x6ed9eba1 W 20 (twentyRounds F0 0x5a827999 W 0 md))) =
      forLoop 80 (roundT fun t => W.getD t 0) md := by
  have h0 : ∀ t, 0 ≤ t → t < 0 + 20 → F0 = ft t ∧ 0x5a827999 = kt t := fun t _ h =>
    ⟨funext fun x => funext fun y => funext fun z => by rw [F0_eq, ft, if_pos (by omega)],
      by rw [kt, if_pos (by omega)]⟩
  have h1 : ∀ t, 20 ≤ t → t < 20 + 20 → F1 = ft t ∧ 0x6ed9eba1 = kt t := fun t _ h =>
    ⟨funext fun x => funext fun y => funext fun z => by rw [F1, ft, if_neg (by omega), if_pos (by omega)],
      by rw [kt, if_neg (by omega), if_pos (by omega)]⟩
  have h2 : ∀ t, 40 ≤ t → t < 40 + 20 → F2 = ft t ∧ 0x8f1bbcdc = kt t := fun t _ h =>
    ⟨funext fun x => funext fun y => funext fun z => by
      rw [F2_eq, ft, if_neg (by omega), if_neg (by omega), if_pos (by omega)],
      by rw [kt, if_neg (by omega), if_neg (by omega), if_pos (by omega)]⟩
  have h3 : ∀ t, 60 ≤ t → t < 60 + 20 → F3 = ft t ∧ 0xca62c1d6 = kt t := fun t _ h =>
    ⟨funext fun x => funext fun y => funext fun z => by
      rw [F3, ft, if_neg (by omega), if_neg (by omega), if_neg (by omega)],
      by rw [kt, if_neg (by omega), if_neg (by omega), if_neg (by omega)]⟩
  rw [twentyRounds_eq h3, twentyRounds_eq h2, twentyRounds_eq h1, twentyRounds_eq h0,
    show 80 = 20 + 20 + 20 + 20 from rfl, forLoop_add, forLoop_add, forLoop_add]
  simp only [Nat.zero_add]

/-- **The message schedule**: after `k` rounds of the loop there are `16 + k` words. -/
theorem getD_sha1Words (buf : Octets) {t : Nat} (ht : t < 80) :
    (sha1Words buf).getD t 0 = wt (fun t => load32H buf (4 * t)) t := by
  have hinv := forLoop_inv (n := 64) (f := fun _ W => expandWord W)
    (s := (List.range 16).map fun i => load32H buf (4 * i))
    (P := fun k W => W.length = 16 + k ∧ ∀ t < 16 + k, W.getD t 0 = wt (fun t => load32H buf (4 * t)) t) ?_ ?_
  · exact hinv.2 t (by omega)
  · refine ⟨by simp, fun t ht => ?_⟩
    rw [wt, dif_pos (by omega), List.getD_eq_getElem?_getD, List.getElem?_map, List.getElem?_range (by omega)]
    rfl
  · rintro k W - ⟨hlen, hW⟩
    refine ⟨by rw [expandWord, List.length_append, hlen]; rfl, fun t ht => ?_⟩
    rw [expandWord, hlen, hW _ (by omega), hW _ (by omega), hW _ (by omega), hW _ (by omega)]
    rcases Nat.lt_or_ge t (16 + k) with hlt | hge
    · rw [List.getD_append _ _ _ _ (by omega), hW t hlt]
    · obtain rfl : t = 16 + k := by omega
      rw [List.getD_append_right _ _ _ _ (by omega), hlen, Nat.sub_self, wt.eq_def _ (16 + k), dif_neg (by omega)]
      rfl

/-- **The compression** is the one of the standard. -/
theorem sha1Compress_eq : sha1Compress = Fips180.compress := by
  funext md block
  have hround : forLoop 80 (roundT fun t => (sha1Words block).getD t 0) md =
      forLoop 80 (roundT (wt fun t => load32H block (4 * t))) md :=
    forLoop_congr fun t s ht => by simp only [roundT, getD_sha1Words block ht]
  simp only [sha1Compress, Fips180.compress, rounds_eq, hround]

/-! ## The padding -/

variable {md : HashState Sha1State} {msg : Octets}

/-- `buf` with zeros up to `stop`. -/
theorem bytesAt_zeroTo {stop : Nat} (h : md.curlen ≤ stop) :
    bytesAt (md.zeroTo stop).buf 0 stop = bytesAt md.buf 0 md.curlen ++ List.replicate (stop - md.curlen) 0 := by
  have hput := bytesAt_putBytes_append md.buf md.curlen (List.replicate (stop - md.curlen) 0)
  rwa [List.length_replicate, Nat.add_sub_cancel' h] at hput

/-- The last block: what is in the buffer, zeros, and the length. -/
theorem bytesAt_last {md : HashState Sha1State} (h : md.curlen ≤ 56) (len : Nat) :
    bytesAt (putBytes (md.zeroTo 56).buf 56 (beBytes 8 len)) 0 64 =
      bytesAt md.buf 0 md.curlen ++ (List.replicate (56 - md.curlen) 0 ++ beBytes 8 len) := by
  have hput := bytesAt_putBytes_append (md.zeroTo 56).buf 56 (beBytes 8 len)
  rwa [length_beBytes, bytesAt_zeroTo h, List.append_assoc] at hput

/-- **`sha1_done`**: the padding is taken like a further buffer. -/
theorem sha1Done_spec (h : Fed 64 sha1Compress sha1Start md msg) : sha1Done md = .ok (sha1 msg) := by
  obtain ⟨hlt, habs, hbits⟩ := h
  have hcur : msg.length % 64 = md.curlen := by
    have hlen := @length_absorb _ _ 64 sha1Compress (sha1Start, []) msg (by decide)
    rw [habs, length_bytesAt, List.length_nil, Nat.zero_add] at hlen
    exact hlen.symm
  have hlength : (md.length + BitVec.ofNat 64 (md.curlen * 8)).toNat = 8 * msg.length % 2 ^ 64 := by
    rw [Nat.mul_comm, hbits, BitVec.toNat_ofNat]
  have hbe : beBytes 8 (8 * msg.length % 2 ^ 64) = beBytes 8 (8 * msg.length) :=
    congrArg List.reverse (leBytes_mod 8 _)
  have hpad : (absorb 64 sha1Compress (md.state, bytesAt md.buf 0 md.curlen)
      ([0x80] ++ List.replicate ((119 - md.curlen) % 64) 0 ++ beBytes 8 (8 * msg.length))).1 =
      foldBlocks 64 Fips180.compress sha1Start (pad msg) := by
    rw [← habs, ← absorb_append, ← hcur, ← sha1Compress_eq, ← absorb_fst (by decide), pad]
    · simp only [List.append_assoc]
    · simp only [pad, List.length_append, List.length_singleton, List.length_replicate, length_beBytes]
      omega
  have hone : bytesAt md.appendOne.buf 0 md.appendOne.curlen = bytesAt md.buf 0 md.curlen ++ [0x80] :=
    bytesAt_putBytes_append md.buf md.curlen [0x80]
  have hcur₁ : md.appendOne.curlen = md.curlen + 1 := rfl
  rw [sha1, ← hpad, sha1Done, if_neg (by omega)]
  simp only [hlength, hbe]
  by_cases htwo : 56 < md.appendOne.curlen
  · have hsplit : [0x80] ++ List.replicate ((119 - md.curlen) % 64) 0 ++ beBytes 8 (8 * msg.length) =
        [0x80] ++ List.replicate (64 - md.appendOne.curlen) 0 ++
          (List.replicate 56 0 ++ beBytes 8 (8 * msg.length)) := by
      rw [show (119 - md.curlen) % 64 = 64 - md.appendOne.curlen + 56 by omega, ← List.replicate_append_replicate]
      simp only [List.append_assoc]
    have hfirst : absorb 64 sha1Compress (md.state, bytesAt md.buf 0 md.curlen)
        ([0x80] ++ List.replicate (64 - md.appendOne.curlen) 0) =
        (sha1Compress md.state (bytesAt (md.appendOne.zeroTo 64).buf 0 64), []) := by
      rw [bytesAt_zeroTo (by omega), hone, List.append_assoc]
      exact absorb_of_eq (by simp; omega) (by simp)
    have hsecond := @absorb_of_eq _ _ 64 sha1Compress
      (sha1Compress md.state (bytesAt (md.appendOne.zeroTo 64).buf 0 64), [])
      (List.replicate 56 0 ++ beBytes 8 (8 * msg.length)) (by simp) (by simp)
    simp only [if_pos htwo]
    rw [bytesAt_last (Nat.zero_le 56), hsplit, absorb_append, hfirst, hsecond]
    rfl
  · have hzeros : (119 - md.curlen) % 64 = 56 - md.appendOne.curlen := by omega
    have hlast : absorb 64 sha1Compress (md.state, bytesAt md.buf 0 md.curlen)
        ([0x80] ++ (List.replicate (56 - md.appendOne.curlen) 0 ++ beBytes 8 (8 * msg.length))) =
        (sha1Compress md.state (bytesAt md.buf 0 md.curlen ++ ([0x80] ++
          (List.replicate (56 - md.appendOne.curlen) 0 ++ beBytes 8 (8 * msg.length)))), []) :=
      absorb_of_eq (by simp; omega) (by simp)
    simp only [if_neg htwo]
    rw [bytesAt_last (by omega), hone, hzeros, List.append_assoc, List.append_assoc, hlast]
    rfl

/-! ## Messages -/

theorem length_sha1 (msg : Octets) : (sha1 msg).length = 20 := by
  simp [sha1, Sha1State.bytes]

/-- The descriptor `sha1_desc` is one for SHA-1. -/
theorem sha1Desc_computes (buf : Mem) : (sha1Desc buf).Computes sha1 (Fed 64 sha1Compress sha1Start) where
  init := fed_nil (by decide) buf
  process h input := h.hashProcess input
  done h := sha1Done_spec h

/-- **SHA-1 in pieces**: the buffers of `hash_memory_multi` are hashed as one message. -/
theorem hashMemoryMulti_sha1 (buf : Mem) (malloc : Bool) (outlen : Nat) (inputs : List Octets) :
    hashMemoryMulti (sha1Desc buf) malloc outlen inputs =
      if outlen < 20 then .error .bufferOverflow
      else if malloc then .ok (sha1 inputs.flatten) else .error .mem :=
  (sha1Desc_computes buf).hashMemoryMulti_eq malloc outlen inputs

theorem sha1Buffer_eq (buf : Mem) (buffer : Octets) : sha1Buffer buf buffer = .ok (sha1 buffer) := by
  obtain ⟨md, hprocess, hfed⟩ := (sha1Desc_computes buf).process (sha1Desc_computes buf).init buffer
  rw [sha1Buffer]
  exact (congrArg (Except.bind · sha1Done) hprocess).trans (sha1Done_spec hfed)

end Xmhf.Crypto
