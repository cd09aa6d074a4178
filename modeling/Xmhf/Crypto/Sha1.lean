import Xmhf.Crypto.Hash
import Xmhf.Lib.Loop

/-!
# SHA-1

`sha1_init`, `sha1_process` and `sha1_done`, and `sha1_buffer`, which calls them. The rounds are those of the
unrolled code: the registers change their places instead of their values.
-/

namespace Xmhf.Crypto

open Xmhf.Memory Xmhf.Bytes Xmhf.Loop

/-- `md->sha1.state`, and the registers of the compression. -/
structure Sha1State where
  a : BitVec 32
  b : BitVec 32
  c : BitVec 32
  d : BitVec 32
  e : BitVec 32
  deriving DecidableEq, Repr

def F0 (x y z : BitVec 32) : BitVec 32 := z ^^^ (x &&& (y ^^^ z))
def F1 (x y z : BitVec 32) : BitVec 32 := x ^^^ y ^^^ z
def F2 (x y z : BitVec 32) : BitVec 32 := (x &&& y) ||| (z &&& (x ||| y))
def F3 (x y z : BitVec 32) : BitVec 32 := x ^^^ y ^^^ z

/-- `LOAD32H(x, buf + i)` -/
def load32H (buf : Octets) (i : Nat) : BitVec 32 :=
  buf.getD i 0 ++ buf.getD (i + 1) 0 ++ buf.getD (i + 2) 0 ++ buf.getD (i + 3) 0

/-- `W[i] = ROL(W[i-3] ^ W[i-8] ^ W[i-14] ^ W[i-16], 1)`, where `W` has its first `i` words. -/
def expandWord (W : List (BitVec 32)) : List (BitVec 32) :=
  W ++ [(W.getD (W.length - 3) 0 ^^^ W.getD (W.length - 8) 0 ^^^ W.getD (W.length - 14) 0 ^^^
    W.getD (W.length - 16) 0).rotateLeft 1]

/-- `W` -/
def sha1Words (buf : Octets) : List (BitVec 32) :=
  forLoop 64 (fun _ W => expandWord W) ((List.range 16).map fun i => load32H buf (4 * i))

/-- The assignment to `e` in `FF0`, `FF1`, `FF2` and `FF3`. -/
def ff (F : BitVec 32 → BitVec 32 → BitVec 32 → BitVec 32) (K a b c d e w : BitVec 32) : BitVec 32 :=
  a.rotateLeft 5 + F b c d + e + w + K

/-- The five lines of a loop from `W[i]` on. Each assigns to one register and rotates another. -/
def fiveRounds (F : BitVec 32 → BitVec 32 → BitVec 32 → BitVec 32) (K : BitVec 32) (W : List (BitVec 32))
    (i : Nat) (md : Sha1State) : Sha1State :=
  let ⟨a, b, c, d, e⟩ := md
  let e := ff F K a b c d e (W.getD i 0)
  let b := b.rotateLeft 30
  let d := ff F K e a b c d (W.getD (i + 1) 0)
  let a := a.rotateLeft 30
  let c := ff F K d e a b c (W.getD (i + 2) 0)
  let e := e.rotateLeft 30
  let b := ff F K c d e a b (W.getD (i + 3) 0)
  let d := d.rotateLeft 30
  let a := ff F K b c d e a (W.getD (i + 4) 0)
  let c := c.rotateLeft 30
  ⟨a, b, c, d, e⟩

/-- One of the four loops, from `W[i]` on. -/
def twentyRounds (F : BitVec 32 → BitVec 32 → BitVec 32 → BitVec 32) (K : BitVec 32) (W : List (BitVec 32))
    (i : Nat) (md : Sha1State) : Sha1State :=
  forLoop 4 (fun j md => fiveRounds F K W (i + 5 * j) md) md

/-- `sha1_compress` -/
def sha1Compress (md : Sha1State) (buf : Octets) : Sha1State :=
  let W := sha1Words buf
  let r := twentyRounds F0 0x5a827999 W 0 md
  let r := twentyRounds F1 0x6ed9eba1 W 20 r
  let r := twentyRounds F2 0x8f1bbcdc W 40 r
  let r := twentyRounds F3 0xca62c1d6 W 60 r
  ⟨md.a + r.a, md.b + r.b, md.c + r.c, md.d + r.d, md.e + r.e⟩

/-- The chaining value of `sha1_init`. -/
def sha1Start : Sha1State := ⟨0x67452301, 0xefcdab89, 0x98badcfe, 0x10325476, 0xc3d2e1f0⟩

/-- `sha1_init`; `buf` is what it was. -/
def sha1Init (buf : Mem) : HashState Sha1State := ⟨0, sha1Start, 0, buf⟩

/-- `sha1_process` -/
def sha1Process (md : HashState Sha1State) (input : Octets) : Except CryptErr (HashState Sha1State) :=
  hashProcess 64 sha1Compress md input

/-- `buf[curlen++] = 0x80` -/
def HashState.appendOne {σ : Type} (md : HashState σ) : HashState σ :=
  { md with buf := putBytes md.buf md.curlen [0x80], curlen := md.curlen + 1 }

/-- `while (curlen < end) buf[curlen++] = 0` -/
def HashState.zeroTo {σ : Type} (md : HashState σ) (stop : Nat) : HashState σ :=
  { md with
    buf := putBytes md.buf md.curlen (List.replicate (stop - md.curlen) 0), curlen := max md.curlen stop }

/-- The output of `sha1_done`. -/
def Sha1State.bytes (md : Sha1State) : Octets :=
  [md.a, md.b, md.c, md.d, md.e].flatMap fun word => beBytes 4 word.toNat

/-- `sha1_done` -/
def sha1Done (md : HashState Sha1State) : Except CryptErr Octets :=
  if 64 ≤ md.curlen then .error .invalidArg
  else
    let length := md.length + BitVec.ofNat 64 (md.curlen * 8)
    let md := md.appendOne
    -- no room for the length: it goes into a block of its own
    let md := if 56 < md.curlen then
        let md := md.zeroTo 64
        { md with state := sha1Compress md.state (bytesAt md.buf 0 64), curlen := 0 }
      else md
    let md := md.zeroTo 56
    let buf := putBytes md.buf 56 (beBytes 8 length.toNat)
    .ok (sha1Compress md.state (bytesAt buf 0 64)).bytes

/-- `sha1_desc`; `buf` is the memory that a new state has as its `buf`. -/
def sha1Desc (buf : Mem) : HashDescriptor (HashState Sha1State) where
  hashsize := 20
  blocksize := 64
  init := sha1Init buf
  process := sha1Process
  done := sha1Done

/-- `sha1_buffer` -/
def sha1Buffer (buf : Mem) (buffer : Octets) : Except CryptErr Octets :=
  (sha1Process (sha1Init buf) buffer).bind sha1Done

end Xmhf.Crypto
