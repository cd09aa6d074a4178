import Xmhf.Crypto.Hash

/-!
# HMAC of libtomcrypt

`hmac_init`, `hmac_process`, `hmac_done` and `hmac_memory`, on any hash descriptor. `malloc i` says whether the
`i`-th request for memory in these functions is granted.
-/

namespace Xmhf.Crypto

open Xmhf.Bytes

variable {S : Type} (hash : HashDescriptor S) (malloc : Nat → Bool)

/-- `hmac_state` -/
structure HmacState (S : Type) where
  md : S
  key : Octets

/-- `hmac->key`: a key that is longer than a block is hashed, and zeros fill the block. -/
def hmacKey (key : Octets) : Except CryptErr Octets :=
  if hash.blocksize < key.length then
    (hashMemory hash (malloc 3) hash.blocksize key).map fun digest =>
      digest ++ List.replicate (hash.blocksize - hash.hashsize) 0
  else .ok (key ++ List.replicate (hash.blocksize - key.length) 0)

/-- `hmac_init` -/
def hmacInit (key : Octets) : Except CryptErr (HmacState S) :=
  if key.length = 0 then .error .invalidKeysize
  else if !malloc 1 then .error .mem
  else if !malloc 2 then .error .mem
  else
    (hmacKey hash malloc key).bind fun block =>
      (hash.process hash.init (block.map (· ^^^ 0x36))).map fun md => ⟨md, block⟩

/-- `hmac_process` -/
def hmacProcess (hmac : HmacState S) (input : Octets) : Except CryptErr (HmacState S) :=
  (hash.process hmac.md input).map fun md => { hmac with md }

/-- `hmac_done`: as many bytes of the tag as there is room for. -/
def hmacDone (hmac : HmacState S) (outlen : Nat) : Except CryptErr Octets :=
  if !malloc 4 || !malloc 5 then .error .mem
  else
    (hash.done hmac.md).bind fun isha =>
      (hash.process hash.init (hmac.key.map (· ^^^ 0x5c))).bind fun md =>
        (hash.process md isha).bind fun md => (hash.done md).map fun buf => buf.take (min hash.hashsize outlen)

/-- `hmac_memory` -/
def hmacMemory (key input : Octets) (outlen : Nat) : Except CryptErr Octets :=
  if !malloc 0 then .error .mem
  else
    (hmacInit hash malloc key).bind fun hmac =>
      (hmacProcess hash hmac input).bind fun hmac => hmacDone hash malloc hmac outlen

/-- The requests for memory that a key of this length needs. -/
def hmacRequests (keylen : Nat) : List Nat :=
  if hash.blocksize < keylen then [0, 1, 2, 3, 4, 5] else [0, 1, 2, 4, 5]

/-- `HMAC_SHA1` of the micro-TPM. `none`: `abort`. -/
def hmacSha1 (secret input : Octets) : Option Octets :=
  (hmacMemory hash malloc secret input hash.hashsize).toOption

end Xmhf.Crypto
