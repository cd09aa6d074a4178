import Xmhf.Lib.Bytes
import Xmhf.Lib.Loop
import Xmhf.Crypto.Hash

/-!
# The CBC mode of libtomcrypt

`cbc_start`, `cbc_encrypt` and `cbc_decrypt`, in memory: the plaintext and the ciphertext may be at the same place.
They go through a block by words of `w` bytes, the size of `LTC_FAST_TYPE`; without `LTC_FAST`, `w` is 1.
-/

namespace Xmhf.Crypto

open Xmhf.Memory Xmhf.Bytes Xmhf.Loop

/-- A block cipher under its key: `ecb_encrypt` and `ecb_decrypt` of a descriptor. -/
structure Cipher where
  blockLength : Nat
  pos : 0 < blockLength
  ecbEncrypt : Octets → Octets
  ecbDecrypt : Octets → Octets
  length_ecbEncrypt : ∀ x, x.length = blockLength → (ecbEncrypt x).length = blockLength
  length_ecbDecrypt : ∀ x, x.length = blockLength → (ecbDecrypt x).length = blockLength
  ecbDecrypt_ecbEncrypt : ∀ x, x.length = blockLength → ecbDecrypt (ecbEncrypt x) = x

/-- `MAXBLOCKSIZE` -/
def maxblocksize : Nat := 128

/-- `symmetric_CBC`, without the index of the cipher and its key. -/
structure SymmetricCbc where
  blocklen : Nat
  iv : Octets

/-- `cbc_start` -/
def cbcStart (cipher : Cipher) (iv : Octets) : SymmetricCbc := ⟨cipher.blockLength, iv.take cipher.blockLength⟩

/-- The `i`-th word of `w` bytes. -/
def word (w : Nat) (x : Octets) (i : Nat) : Octets := (x.drop (w * i)).take w

/-- `*((LTC_FAST_TYPE*)a) ^ *((LTC_FAST_TYPE*)b)` -/
def xorWord (a b : Octets) : Octets := leBytes a.length (ofLeBytes a ^^^ ofLeBytes b)

/-- The words of `iv` and `x`, one after another. -/
def xorWords (w n : Nat) (iv x : Octets) : Octets :=
  (List.range n).flatMap fun i => xorWord (word w iv i) (word w x i)

section
variable (cipher : Cipher) (w : Nat)

/-- `while (len)` of `cbc_encrypt`, for so many blocks. -/
def encryptLoop : Nat → Mem → Nat → Nat → SymmetricCbc → Mem × SymmetricCbc
  | 0, m, _, _, cbc => (m, cbc)
  | n + 1, m, pt, ct, cbc =>
    let iv := xorWords w (cbc.blocklen / w) cbc.iv (bytesAt m pt cbc.blocklen)
    let m := putBytes m ct (cipher.ecbEncrypt iv)
    encryptLoop n m (pt + cbc.blocklen) (ct + cbc.blocklen) { cbc with iv := bytesAt m ct cbc.blocklen }

/-- The lines of `cbc_decrypt` for the word `x`: the ciphertext is read before its place is written. -/
def decryptWord (pt ct : Nat) (tmp : Octets) (x : Nat) (s : Mem × Octets) : Mem × Octets :=
  let tmpy := xorWord (word w s.2 x) (word w tmp x)
  let iv := s.2.take (w * x) ++ bytesAt s.1 (ct + w * x) w ++ s.2.drop (w * x + w)
  (putBytes s.1 (pt + w * x) tmpy, iv)

/-- The size of `tmp` in `cbc_decrypt`. -/
def tmpSize : Nat := 16

/-- `while (len)` of `cbc_decrypt`, for so many blocks; `none` when a block overflows `tmp`. -/
def decryptLoop : Nat → Mem → Nat → Nat → SymmetricCbc → Option (Mem × SymmetricCbc)
  | 0, m, _, _, cbc => some (m, cbc)
  | n + 1, m, ct, pt, cbc =>
    if tmpSize < cipher.blockLength then none
    else
      let tmp := cipher.ecbDecrypt (bytesAt m ct cbc.blocklen)
      let s := forLoop (cbc.blocklen / w) (decryptWord w pt ct tmp) (m, cbc.iv)
      decryptLoop n s.1 (ct + cbc.blocklen) (pt + cbc.blocklen) { cbc with iv := s.2 }

/-- The checks that `cbc_encrypt` and `cbc_decrypt` begin with. -/
def cbcChecked {α : Type} (len : Nat) (cbc : SymmetricCbc) (res : α) : Except CryptErr α :=
  if cbc.blocklen < 1 ∨ maxblocksize < cbc.blocklen then .error .invalidArg
  else if len % cbc.blocklen ≠ 0 then .error .invalidArg
  else if cbc.blocklen % w ≠ 0 then .error .invalidArg
  else .ok res

/-- `cbc_encrypt` -/
def cbcEncrypt (m : Mem) (pt ct len : Nat) (cbc : SymmetricCbc) : Except CryptErr (Mem × SymmetricCbc) :=
  cbcChecked w len cbc (encryptLoop cipher w (len / cbc.blocklen) m pt ct cbc)

/-- `cbc_decrypt`; `none` when it overflows `tmp`. -/
def cbcDecrypt (m : Mem) (ct pt len : Nat) (cbc : SymmetricCbc) :
    Option (Except CryptErr (Mem × SymmetricCbc)) :=
  match cbcChecked w len cbc () with
  | .error err => some (.error err)
  | .ok _ => (decryptLoop cipher w (len / cbc.blocklen) m ct pt cbc).map .ok

end

end Xmhf.Crypto
