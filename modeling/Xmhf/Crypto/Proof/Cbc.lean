import Xmhf.Crypto.Cbc
import Xmhf.Lib.BlockChain

/-!
# CBC

The loops over words in memory do what the mode does on strings, also where a message is encrypted or decrypted at
its own place.

* `xorWords_eq`: word by word is byte by byte.
* `encryptLoop_spec`, `decryptLoop_spec`: the bytes that a call stores, and those it leaves alone.
* `cbcDecrypt_cbcEncrypt`: the round trip.
-/

namespace Xmhf.Crypto

open Xmhf.Memory Xmhf.Bytes Xmhf.Loop Xmhf.BlockChain

/-! ## Words -/

variable {w : Nat}

theorem length_word {x : Octets} {i n : Nat} (hi : i < n) (hx : w * n ≤ x.length) : (word w x i).length = w := by
  have hle : w * (i + 1) ≤ w * n := Nat.mul_le_mul_left w hi
  rw [Nat.mul_succ] at hle
  rw [word, List.length_take, List.length_drop]
  omega

theorem xorWord_eq {a b : Octets} (h : a.length = b.length) : xorWord a b = xor a b := leBytes_xor h

theorem xor_take_succ {iv x : Octets} {i n : Nat} (hi : i < n) (hiv : w * n ≤ iv.length) (hx : w * n ≤ x.length) :
    xor (iv.take (w * (i + 1))) (x.take (w * (i + 1))) =
      xor (iv.take (w * i)) (x.take (w * i)) ++ xorWord (word w iv i) (word w x i) := by
  have hle : w * (i + 1) ≤ w * n := Nat.mul_le_mul_left w hi
  rw [xorWord_eq (by rw [length_word hi hiv, length_word hi hx]), Nat.mul_succ, List.take_add, List.take_add,
    xor_append (by rw [List.length_take, List.length_take]; rw [Nat.mul_succ] at hle; omega)]
  rfl

/-- **Word by word** is byte by byte. -/
theorem xorWords_eq {iv x : Octets} {n : Nat} (hiv : iv.length = w * n) (hx : x.length = w * n) :
    xorWords w n iv x = xor iv x := by
  have hall : ∀ i ≤ n, xorWords w i iv x = xor (iv.take (w * i)) (x.take (w * i)) := by
    intro i
    induction i with
    | zero => exact fun _ => by rw [Nat.mul_zero, List.take_zero, List.take_zero]; rfl
    | succ i ih =>
      intro hi
      rw [xor_take_succ hi (Nat.le_of_eq hiv.symm) (Nat.le_of_eq hx.symm), ← ih (by omega), xorWords, xorWords,
        List.range_succ, List.flatMap_append, List.flatMap_singleton]
  rw [hall n (Nat.le_refl n), List.take_of_length_le (Nat.le_of_eq hiv), List.take_of_length_le (Nat.le_of_eq hx)]

/-! ## The loops -/

variable {cipher : Cipher}

/-- **Encryption**, to the place of the message, to one before it or to one apart from it. -/
theorem encryptLoop_spec {n : Nat} {m : Mem} {pt ct : Nat} {cbc : SymmetricCbc} (hw : cipher.blockLength % w = 0)
    (hlen : cbc.blocklen = cipher.blockLength) (hiv : cbc.iv.length = cipher.blockLength)
    (hct : ct ≤ pt ∨ pt + cipher.blockLength * n ≤ ct) :
    bytesAt (encryptLoop cipher w n m pt ct cbc).1 ct (cipher.blockLength * n) =
      enc cipher.blockLength cipher.ecbEncrypt cbc.iv n (bytesAt m pt (cipher.blockLength * n)) ∧
    ∀ x, x < ct ∨ ct + cipher.blockLength * n ≤ x → (encryptLoop cipher w n m pt ct cbc).1 x = m x := by
  induction n generalizing m pt ct cbc with
  | zero => exact ⟨rfl, fun x _ => rfl⟩
  | succ n ih =>
    have hword : w * (cipher.blockLength / w) = cipher.blockLength := Nat.mul_div_cancel' (Nat.dvd_of_mod_eq_zero hw)
    have hxor : xorWords w (cbc.blocklen / w) cbc.iv (bytesAt m pt cbc.blocklen) =
        xor cbc.iv (bytesAt m pt cipher.blockLength) := by
      rw [hlen, xorWords_eq (by rw [hiv, hword]) (by rw [length_bytesAt, hword])]
    obtain ⟨c, hc⟩ : ∃ c, cipher.ecbEncrypt (xor cbc.iv (bytesAt m pt cipher.blockLength)) = c := ⟨_, rfl⟩
    have hblock : c.length = cipher.blockLength := by
      rw [← hc]
      exact cipher.length_ecbEncrypt _ (by rw [length_xor (by rw [hiv, length_bytesAt]), length_bytesAt])
    have hread : bytesAt (putBytes m ct c) ct cipher.blockLength = c := by
      have hput := bytesAt_putBytes m ct c
      rwa [hblock] at hput
    have hstep : encryptLoop cipher w (n + 1) m pt ct cbc = encryptLoop cipher w n (putBytes m ct c)
        (pt + cipher.blockLength) (ct + cipher.blockLength) ⟨cipher.blockLength, c⟩ := by
      rw [encryptLoop]
      simp only [hxor]
      simp only [hlen, hc, hread]
    rw [Nat.mul_succ, Nat.add_comm (cipher.blockLength * n)] at hct ⊢
    obtain ⟨hrest, hsame⟩ := @ih (putBytes m ct c) (pt + cipher.blockLength) (ct + cipher.blockLength)
      ⟨cipher.blockLength, c⟩ rfl hblock (by omega)
    -- the rest of the message is as it was, and the first block stays
    have hmsg : bytesAt (putBytes m ct c) (pt + cipher.blockLength) (cipher.blockLength * n) =
        bytesAt m (pt + cipher.blockLength) (cipher.blockLength * n) :=
      bytesAt_eq_of fun x h1 h2 => putBytes_elsewhere (by omega)
    have hfirst := bytesAt_eq_of fun x (_ : ct ≤ x) (h2 : x < ct + cipher.blockLength) => hsame x (Or.inl h2)
    rw [hstep]
    refine ⟨?_, fun x hx => ?_⟩
    · rw [bytesAt_append, hfirst, hread, hrest, hmsg, bytesAt_append, enc, List.take_left' (length_bytesAt ..),
        List.drop_left' (length_bytesAt ..), hc]
    · rw [hsame x (by omega), putBytes_elsewhere (by omega)]

/-- The words of a block, before round `i`. -/
theorem decryptWord_loop {m : Mem} {pt ct n : Nat} {iv tmp : Octets} (hiv : iv.length = w * n)
    (htmp : tmp.length = w * n) (hpt : pt ≤ ct ∨ ct + w * n ≤ pt) :
    forLoop n (decryptWord w pt ct tmp) (m, iv) = (putBytes m pt (xor iv tmp), bytesAt m ct (w * n)) := by
  have hinv := forLoop_inv (n := n) (f := decryptWord w pt ct tmp) (s := (m, iv))
    (P := fun i s => s = (putBytes m pt (xor (iv.take (w * i)) (tmp.take (w * i))),
      bytesAt m ct (w * i) ++ iv.drop (w * i))) ?_ ?_
  · rw [hinv, List.take_of_length_le (Nat.le_of_eq hiv), List.take_of_length_le (Nat.le_of_eq htmp),
      List.drop_of_length_le (Nat.le_of_eq hiv), List.append_nil]
  · rw [Nat.mul_zero, List.take_zero, List.take_zero]
    exact congrArg₂ Prod.mk (putBytes_nil m pt).symm rfl
  · rintro i s hi rfl
    have hle : w * (i + 1) ≤ w * n := Nat.mul_le_mul_left w hi
    have hdone : (xor (iv.take (w * i)) (tmp.take (w * i))).length = w * i := by
      rw [Nat.mul_succ] at hle
      rw [length_xor (by rw [List.length_take, List.length_take, hiv, htmp]), List.length_take]
      omega
    have hword : word w (bytesAt m ct (w * i) ++ iv.drop (w * i)) i = word w iv i := by
      rw [word, List.drop_left' (length_bytesAt ..), word]
    have hread : bytesAt (putBytes m pt (xor (iv.take (w * i)) (tmp.take (w * i)))) (ct + w * i) w =
        bytesAt m (ct + w * i) w := by
      rw [Nat.mul_succ] at hle
      exact bytesAt_eq_of fun x h1 h2 => putBytes_elsewhere (by omega)
    have hput := putBytes_append m pt (xor (iv.take (w * i)) (tmp.take (w * i)))
      (xorWord (word w iv i) (word w tmp i))
    rw [hdone, ← xor_take_succ hi (Nat.le_of_eq hiv.symm) (Nat.le_of_eq htmp.symm)] at hput
    simp only [decryptWord, hword, hread, hput]
    rw [List.take_left' (length_bytesAt ..), ← List.drop_drop, List.drop_left' (length_bytesAt ..), List.drop_drop,
      ← bytesAt_append, Nat.mul_succ]

/-- **Decryption**, to the place of the ciphertext, to one before it or to one apart from it. -/
theorem decryptLoop_spec {n : Nat} {m : Mem} {pt ct : Nat} {cbc : SymmetricCbc} (hw : cipher.blockLength % w = 0)
    (hfits : cipher.blockLength ≤ tmpSize) (hlen : cbc.blocklen = cipher.blockLength)
    (hiv : cbc.iv.length = cipher.blockLength) (hpt : pt ≤ ct ∨ ct + cipher.blockLength * n ≤ pt) :
    ∃ m' cbc', decryptLoop cipher w n m ct pt cbc = some (m', cbc') ∧
      bytesAt m' pt (cipher.blockLength * n) =
        dec cipher.blockLength cipher.ecbDecrypt cbc.iv n (bytesAt m ct (cipher.blockLength * n)) ∧
      ∀ x, x < pt ∨ pt + cipher.blockLength * n ≤ x → m' x = m x := by
  induction n generalizing m pt ct cbc with
  | zero => exact ⟨m, cbc, rfl, rfl, fun x _ => rfl⟩
  | succ n ih =>
    have hword : w * (cipher.blockLength / w) = cipher.blockLength := Nat.mul_div_cancel' (Nat.dvd_of_mod_eq_zero hw)
    rw [Nat.mul_succ, Nat.add_comm (cipher.blockLength * n)] at hpt ⊢
    obtain ⟨p, hp⟩ : ∃ p, xor cbc.iv (cipher.ecbDecrypt (bytesAt m ct cipher.blockLength)) = p := ⟨_, rfl⟩
    have htmp : (cipher.ecbDecrypt (bytesAt m ct cipher.blockLength)).length = cipher.blockLength :=
      cipher.length_ecbDecrypt _ (length_bytesAt ..)
    have hblock : p.length = cipher.blockLength := by rw [← hp, length_xor (by rw [hiv, htmp]), htmp]
    have hread : bytesAt (putBytes m pt p) pt cipher.blockLength = p := by
      have hput := bytesAt_putBytes m pt p
      rwa [hblock] at hput
    have hwords := @decryptWord_loop w m pt ct (cipher.blockLength / w) cbc.iv
      (cipher.ecbDecrypt (bytesAt m ct cipher.blockLength)) (by rw [hiv, hword]) (by rw [htmp, hword]) (by omega)
    rw [hword, hp] at hwords
    have hstep : decryptLoop cipher w (n + 1) m ct pt cbc = decryptLoop cipher w n (putBytes m pt p)
        (ct + cipher.blockLength) (pt + cipher.blockLength)
        ⟨cipher.blockLength, bytesAt m ct cipher.blockLength⟩ := by
      rw [decryptLoop, if_neg (Nat.not_lt.2 hfits)]
      simp only [hlen, hwords]
    obtain ⟨m', cbc', hrun, hrest, hsame⟩ := @ih (putBytes m pt p) (pt + cipher.blockLength) (ct + cipher.blockLength)
      ⟨cipher.blockLength, bytesAt m ct cipher.blockLength⟩ rfl (length_bytesAt ..) (by omega)
    have hmsg : bytesAt (putBytes m pt p) (ct + cipher.blockLength) (cipher.blockLength * n) =
        bytesAt m (ct + cipher.blockLength) (cipher.blockLength * n) :=
      bytesAt_eq_of fun x h1 h2 => putBytes_elsewhere (by omega)
    have hfirst := bytesAt_eq_of fun x (_ : pt ≤ x) (h2 : x < pt + cipher.blockLength) => hsame x (Or.inl h2)
    refine ⟨m', cbc', hstep.trans hrun, ?_, fun x hx => ?_⟩
    · rw [bytesAt_append, hfirst, hread, hrest, hmsg, bytesAt_append, dec, List.take_left' (length_bytesAt ..),
        List.drop_left' (length_bytesAt ..), hp]
    · rw [hsame x (by omega), putBytes_elsewhere (by omega)]

/-! ## The calls -/

/-- What the caller has to see to: the cipher's block is a whole number of words and fits in `tmp`, the message is
a whole number of blocks, and there is an IV. -/
structure CbcReady (cipher : Cipher) (w len : Nat) (iv : Octets) : Prop where
  words : cipher.blockLength % w = 0
  fits : cipher.blockLength ≤ tmpSize
  blocks : len % cipher.blockLength = 0
  ivLength : cipher.blockLength ≤ iv.length

variable {m : Mem} {pt ct len : Nat} {iv : Octets}

theorem CbcReady.checked {α : Type} (h : CbcReady cipher w len iv) (res : α) :
    cbcChecked w len (cbcStart cipher iv) res = .ok res := by
  have hpos := cipher.pos
  have hfits : cipher.blockLength ≤ maxblocksize := Nat.le_trans h.fits (by decide)
  have hsize : ¬(cipher.blockLength < 1 ∨ maxblocksize < cipher.blockLength) := by omega
  rw [cbcChecked, cbcStart, if_neg hsize, if_neg (not_not.2 h.blocks), if_neg (not_not.2 h.words)]

theorem CbcReady.length_eq (h : CbcReady cipher w len iv) : cipher.blockLength * (len / cipher.blockLength) = len :=
  Nat.mul_div_cancel' (Nat.dvd_of_mod_eq_zero h.blocks)

/-- **`cbc_encrypt`** on a new chain. -/
theorem CbcReady.cbcEncrypt (h : CbcReady cipher w len iv) (hct : ct ≤ pt ∨ pt + len ≤ ct) :
    ∃ m' cbc', cbcEncrypt cipher w m pt ct len (cbcStart cipher iv) = .ok (m', cbc') ∧
      bytesAt m' ct len = enc cipher.blockLength cipher.ecbEncrypt (iv.take cipher.blockLength)
        (len / cipher.blockLength) (bytesAt m pt len) ∧ ∀ x, x < ct ∨ ct + len ≤ x → m' x = m x := by
  have hspec := @encryptLoop_spec w cipher (len / cipher.blockLength) m pt ct (cbcStart cipher iv) h.words rfl
    (List.length_take_of_le h.ivLength) (by rwa [h.length_eq])
  rw [h.length_eq] at hspec
  exact ⟨_, _, h.checked _, hspec⟩

/-- **`cbc_decrypt`** on a new chain. -/
theorem CbcReady.cbcDecrypt (h : CbcReady cipher w len iv) (hpt : pt ≤ ct ∨ ct + len ≤ pt) :
    ∃ m' cbc', cbcDecrypt cipher w m ct pt len (cbcStart cipher iv) = some (.ok (m', cbc')) ∧
      bytesAt m' pt len = dec cipher.blockLength cipher.ecbDecrypt (iv.take cipher.blockLength)
        (len / cipher.blockLength) (bytesAt m ct len) ∧ ∀ x, x < pt ∨ pt + len ≤ x → m' x = m x := by
  obtain ⟨m', cbc', hrun, hspec⟩ := @decryptLoop_spec w cipher (len / cipher.blockLength) m pt ct
    (cbcStart cipher iv) h.words h.fits rfl (List.length_take_of_le h.ivLength) (by rwa [h.length_eq])
  rw [h.length_eq] at hspec
  refine ⟨m', cbc', ?_, hspec⟩
  rw [Crypto.cbcDecrypt, h.checked ()]
  exact congrArg (Option.map Except.ok) hrun

/-- **Round trip**: what is encrypted and then decrypted is back, wherever the two calls put their results, as long
as neither overtakes what it reads; and nothing else is written. -/
theorem cbcDecrypt_cbcEncrypt {out : Nat} (h : CbcReady cipher w len iv) (hct : ct ≤ pt ∨ pt + len ≤ ct)
    (hout : out ≤ ct ∨ ct + len ≤ out) :
    ∃ m₁ cbc₁ m₂ cbc₂, cbcEncrypt cipher w m pt ct len (cbcStart cipher iv) = .ok (m₁, cbc₁) ∧
      cbcDecrypt cipher w m₁ ct out len (cbcStart cipher iv) = some (.ok (m₂, cbc₂)) ∧
      bytesAt m₂ out len = bytesAt m pt len ∧
      ∀ x, (x < ct ∨ ct + len ≤ x) → (x < out ∨ out + len ≤ x) → m₂ x = m x := by
  obtain ⟨m₁, cbc₁, hencrypt, henc, hsame₁⟩ := @CbcReady.cbcEncrypt w cipher m pt ct len iv h hct
  obtain ⟨m₂, cbc₂, hdecrypt, hdec, hsame₂⟩ := @CbcReady.cbcDecrypt w cipher m₁ out ct len iv h hout
  refine ⟨m₁, cbc₁, m₂, cbc₂, hencrypt, hdecrypt, ?_, fun x h1 h2 => (hsame₂ x h2).trans (hsame₁ x h1)⟩
  rw [hdec, henc, dec_enc cipher.length_ecbEncrypt cipher.ecbDecrypt_ecbEncrypt (List.length_take_of_le h.ivLength)
    (by rw [length_bytesAt, h.length_eq])]

/-- A cipher of 16 bytes a block that inverts them. -/
def toyCipher : Cipher where
  blockLength := 16
  pos := Nat.succ_pos 15
  ecbEncrypt x := x.map (~~~·)
  ecbDecrypt x := x.map (~~~·)
  length_ecbEncrypt _ h := (List.length_map _).trans h
  length_ecbDecrypt _ h := (List.length_map _).trans h
  ecbDecrypt_ecbEncrypt _ _ := by simp [Function.comp_def]

/-- Two blocks, encrypted and decrypted in place, by words of four bytes. -/
theorem cbcDecrypt_cbcEncrypt_toy : ∃ m₁ cbc₁ m₂ cbc₂,
    cbcEncrypt toyCipher 4 (fun _ => 0) 64 64 32 (cbcStart toyCipher (List.replicate 16 7)) = .ok (m₁, cbc₁) ∧
    cbcDecrypt toyCipher 4 m₁ 64 64 32 (cbcStart toyCipher (List.replicate 16 7)) = some (.ok (m₂, cbc₂)) ∧
    bytesAt m₂ 64 32 = bytesAt (fun _ => 0) 64 32 := by
  have hready : CbcReady toyCipher 4 32 (List.replicate 16 7) := ⟨by decide, by decide, by decide, by decide⟩
  obtain ⟨m₁, cbc₁, m₂, cbc₂, hencrypt, hdecrypt, hback, -⟩ :=
    @cbcDecrypt_cbcEncrypt 4 toyCipher (fun _ => 0) 64 64 32 (List.replicate 16 7) 64 hready (by decide) (by decide)
  exact ⟨m₁, cbc₁, m₂, cbc₂, hencrypt, hdecrypt, hback⟩

end Xmhf.Crypto
