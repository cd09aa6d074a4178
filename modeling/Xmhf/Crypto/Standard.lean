import Xmhf.Crypto.Sha1
import Xmhf.Lib.Stream

/-!
# SHA-1 and HMAC by their standards

The function of FIPS 180: the message is padded to whole blocks, and the blocks go through the compression one
after another, 80 rounds for each. The function of RFC 2104, for any hash.
-/

namespace Xmhf.Fips180

open Xmhf.Bytes Xmhf.Loop Xmhf.Stream Xmhf.Crypto

/-- `f_t`: Ch, Parity, Maj and Parity. -/
def ft (t : Nat) (x y z : BitVec 32) : BitVec 32 :=
  if t < 20 then (x &&& y) ^^^ (~~~x &&& z)
  else if t < 40 then x ^^^ y ^^^ z
  else if t < 60 then (x &&& y) ^^^ (x &&& z) ^^^ (y &&& z)
  else x ^^^ y ^^^ z

/-- `K_t` -/
def kt (t : Nat) : BitVec 32 :=
  if t < 20 then 0x5a827999 else if t < 40 then 0x6ed9eba1 else if t < 60 then 0x8f1bbcdc else 0xca62c1d6

/-- The message schedule `W_t` of the words `M`. -/
def wt (M : Nat → BitVec 32) (t : Nat) : BitVec 32 :=
  if _h : t < 16 then M t
  else (wt M (t - 3) ^^^ wt M (t - 8) ^^^ wt M (t - 14) ^^^ wt M (t - 16)).rotateLeft 1

/-- The round `t`. -/
def roundT (W : Nat → BitVec 32) (t : Nat) (h : Sha1State) : Sha1State :=
  ⟨h.a.rotateLeft 5 + ft t h.b h.c h.d + h.e + kt t + W t, h.a, h.b.rotateLeft 30, h.c, h.d⟩

/-- The hash value after a block. -/
def compress (h : Sha1State) (block : Octets) : Sha1State :=
  let r := forLoop 80 (roundT (wt fun t => load32H block (4 * t))) h
  ⟨h.a + r.a, h.b + r.b, h.c + r.c, h.d + r.d, h.e + r.e⟩

/-- A one bit, zeros, and the length in bits as the last 64 bits. -/
def pad (msg : Octets) : Octets :=
  msg ++ [0x80] ++ List.replicate ((119 - msg.length % 64) % 64) 0 ++ beBytes 8 (8 * msg.length)

/-- SHA-1 -/
def sha1 (msg : Octets) : Octets := (foldBlocks 64 compress sha1Start (pad msg)).bytes

end Xmhf.Fips180

namespace Xmhf.Rfc2104

open Xmhf.Bytes

/-- The key as a block of `B` bytes, for a hash `H`. -/
def blockKey (H : Octets → Octets) (B : Nat) (K : Octets) : Octets :=
  let K := if B < K.length then H K else K
  K ++ List.replicate (B - K.length) 0

/-- `H(K XOR opad, H(K XOR ipad, text))` -/
def hmac (H : Octets → Octets) (B : Nat) (K text : Octets) : Octets :=
  H ((blockKey H B K).map (· ^^^ 0x5c) ++ H ((blockKey H B K).map (· ^^^ 0x36) ++ text))

end Xmhf.Rfc2104
