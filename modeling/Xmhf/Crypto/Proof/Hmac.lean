import Xmhf.Crypto.Hmac
import Xmhf.Crypto.Proof.Sha1

/-!
# HMAC

On a descriptor that computes a hash, the functions compute its HMAC.

* `hmacKey_eq`: the key as a block.
* `hmacInit_eq`, `hmacProcess_eq`, `hmacDone_eq`: each call.
* `hmacMemory_eq`: the tag, or the error; `hmacSha1_eq`: the micro-TPM's use of it.
-/

namespace Xmhf.Crypto

open Xmhf.Memory Xmhf.Bytes Xmhf.Rfc2104

variable {S : Type} {hash : HashDescriptor S} {H : Octets → Octets} {R : S → Octets → Prop} {malloc : Nat → Bool}
  {key : Octets}

theorem hmacKey_eq (hc : hash.Computes H R) (hsize : hash.hashsize ≤ hash.blocksize)
    (hlen : ∀ msg, (H msg).length = hash.hashsize) :
    hmacKey hash malloc key =
      if hash.blocksize < key.length ∧ malloc 3 = false then .error .mem
      else .ok (blockKey H hash.blocksize key) := by
  rw [hmacKey, blockKey]
  by_cases hlong : hash.blocksize < key.length
  · rw [if_pos hlong, if_pos hlong, hc.hashMemory_eq, if_neg (by omega), hlen]
    cases malloc 3 <;> simp [hlong, Except.map]
  · rw [if_neg hlong, if_neg hlong, if_neg fun h => hlong h.1]

/-- **The inner hash** has taken the key block. -/
theorem hmacInit_eq (hc : hash.Computes H R) (hsize : hash.hashsize ≤ hash.blocksize)
    (hlen : ∀ msg, (H msg).length = hash.hashsize) (hkey : key ≠ []) :
    ((malloc 1 && malloc 2 && (malloc 3 || decide (key.length ≤ hash.blocksize))) = true ∧
      ∃ md, hmacInit hash malloc key = .ok ⟨md, blockKey H hash.blocksize key⟩ ∧
        R md ((blockKey H hash.blocksize key).map (· ^^^ 0x36))) ∨
    ((malloc 1 && malloc 2 && (malloc 3 || decide (key.length ≤ hash.blocksize))) = false ∧
      hmacInit hash malloc key = .error .mem) := by
  have hlength : key.length ≠ 0 := fun h => hkey (List.eq_nil_of_length_eq_zero h)
  rw [hmacInit, if_neg hlength, hmacKey_eq hc hsize hlen]
  cases h1 : malloc 1
  · exact Or.inr ⟨rfl, rfl⟩
  cases h2 : malloc 2
  · exact Or.inr ⟨rfl, rfl⟩
  by_cases h3 : hash.blocksize < key.length ∧ malloc 3 = false
  · refine Or.inr ⟨?_, ?_⟩
    · simp [h3.2, h3.1]
    · rw [if_pos h3]
      rfl
  · obtain ⟨md, hprocess, hmd⟩ := hc.process hc.init ((blockKey H hash.blocksize key).map (· ^^^ 0x36))
    refine Or.inl ⟨?_, md, ?_, hmd⟩
    · rw [Bool.and_true, Bool.true_and, Bool.or_eq_true, decide_eq_true_iff]
      rcases Nat.lt_or_ge hash.blocksize key.length with hlt | hge
      · exact Or.inl (by simpa [hlt] using h3)
      · exact Or.inr hge
    · rw [if_neg h3]
      simp only [Bool.not_true, Bool.false_eq_true, if_false, Except.bind, hprocess, Except.map]

/-- **The outer hash**, over the key block and the inner one. -/
theorem hmacDone_eq (hc : hash.Computes H R) (hlen : ∀ msg, (H msg).length = hash.hashsize) {hmac : HmacState S}
    {msg : Octets} (h : R hmac.md msg) (outlen : Nat) :
    hmacDone hash malloc hmac outlen =
      if malloc 4 && malloc 5 then .ok ((H (hmac.key.map (· ^^^ 0x5c) ++ H msg)).take outlen) else .error .mem := by
  obtain ⟨md₁, hfirst, h₁⟩ := hc.process hc.init (hmac.key.map (· ^^^ 0x5c))
  obtain ⟨md₂, hsecond, h₂⟩ := hc.process h₁ (H msg)
  have htake : (H (hmac.key.map (· ^^^ 0x5c) ++ H msg)).take (min hash.hashsize outlen) =
      (H (hmac.key.map (· ^^^ 0x5c) ++ H msg)).take outlen :=
    List.take_eq_take_iff.2 (by rw [hlen]; omega)
  rw [hmacDone]
  cases malloc 4 <;> cases malloc 5 <;> try rfl
  have hdone : hash.done md₂ = .ok (H (hmac.key.map (· ^^^ 0x5c) ++ H msg)) := hc.done h₂
  simp only [Bool.not_true, Bool.or_false, Bool.false_eq_true, if_false, Bool.and_true, if_true, hc.done h,
    Except.bind, hfirst, hsecond, hdone, Except.map, htake]

/-- **HMAC**: the tag of RFC 2104, cut to the room there is, unless there is no key or no memory. -/
theorem hmacMemory_eq (hc : hash.Computes H R) (hsize : hash.hashsize ≤ hash.blocksize)
    (hlen : ∀ msg, (H msg).length = hash.hashsize) (key input : Octets) (outlen : Nat) :
    hmacMemory hash malloc key input outlen =
      if malloc 0 = false then .error .mem
      else if key = [] then .error .invalidKeysize
      else if (hmacRequests hash key.length).all malloc then .ok ((hmac H hash.blocksize key input).take outlen)
      else .error .mem := by
  rw [hmacMemory]
  cases h0 : malloc 0
  · rfl
  by_cases hkey : key = []
  · subst hkey
    rfl
  have hall : (hmacRequests hash key.length).all malloc =
      ((malloc 1 && malloc 2 && (malloc 3 || decide (key.length ≤ hash.blocksize))) && (malloc 4 && malloc 5)) := by
    unfold hmacRequests
    by_cases hlong : hash.blocksize < key.length
    · simp [hlong, h0, Nat.not_le.2 hlong, Bool.and_assoc]
    · simp [hlong, h0, Nat.not_lt.1 hlong, Bool.and_assoc]
  simp only [Bool.not_true, Bool.false_eq_true, if_false, hkey, hall, Bool.true_eq_false]
  rcases @hmacInit_eq _ hash H R malloc key hc hsize hlen hkey with ⟨hgranted, md, hinit, hmd⟩ | ⟨hrefused, hinit⟩
  · obtain ⟨md', hprocess, hmd'⟩ := hc.process hmd input
    simp only [hinit, Except.bind, hmacProcess, hprocess, Except.map, hgranted, Bool.true_and]
    exact hmacDone_eq hc hlen hmd' outlen
  · simp only [hinit, Except.bind, hrefused, Bool.false_and, Bool.false_eq_true, if_false]

/-- **The micro-TPM's wrapper** has the whole tag, or aborts. -/
theorem hmacSha1_eq (hc : hash.Computes H R) (hsize : hash.hashsize ≤ hash.blocksize)
    (hlen : ∀ msg, (H msg).length = hash.hashsize) {secret : Octets} (hkey : secret ≠ []) (input : Octets) :
    hmacSha1 hash malloc secret input =
      if (hmacRequests hash secret.length).all malloc then some (hmac H hash.blocksize secret input) else none := by
  have hwhole : (hmac H hash.blocksize secret input).take hash.hashsize = hmac H hash.blocksize secret input :=
    List.take_of_length_le (Nat.le_of_eq (hlen _))
  rw [hmacSha1, hmacMemory_eq hc hsize hlen, if_neg hkey, hwhole]
  cases h0 : malloc 0
  · have hfirst : (hmacRequests hash secret.length).all malloc = false := by
      unfold hmacRequests
      split <;> simp [h0]
    rw [if_pos rfl, hfirst]
    rfl
  · cases (hmacRequests hash secret.length).all malloc <;> rfl

/-- HMAC-SHA-1 with `sha1_desc`. -/
theorem hmacMemory_sha1 (buf : Mem) (malloc : Nat → Bool) (key input : Octets) (outlen : Nat) :
    hmacMemory (sha1Desc buf) malloc key input outlen =
      if malloc 0 = false then .error .mem
      else if key = [] then .error .invalidKeysize
      else if (hmacRequests (sha1Desc buf) key.length).all malloc then
        .ok ((hmac Fips180.sha1 64 key input).take outlen)
      else .error .mem :=
  hmacMemory_eq (sha1Desc_computes buf) (show 20 ≤ 64 by decide) length_sha1 key input outlen

end Xmhf.Crypto
