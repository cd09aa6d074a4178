import Xmhf.Router.Proof.Runtime
import Xmhf.Lib.OnesComplement

/-!
# The checksum of an echo reply

The reply's checksum is the request's and 8 more, modulo 65535 (`toNat_echoReplyCksum`), so the words of the reply add
up to the same modulo 65535. What is lost is which zero they add up to: a reply of zeros only has the checksum 0,
which does not verify (`echoReply_verifies_iff`).
-/

namespace Xmhf.Router

open Memory Bytes OnesComplement

variable {app : AppParams} {i : BitVec 32} {b : Burst} {m : Mbuf} {ms : List Mbuf} {n : Nat}

/-- One round of `(cksum & 0xffff) + (cksum >> 16)` -/
theorem toNat_fold (x : BitVec 32) : ((x &&& 0xffff) + (x >>> 16)).toNat = x.toNat % 65536 + x.toNat / 65536 := by
  have hand : (x &&& (0xffff : BitVec 32)).toNat = x.toNat % 65536 := by
    rw [BitVec.toNat_and]
    exact Nat.and_two_pow_sub_one_eq_mod x.toNat 16
  have hlt := x.isLt
  change ((x &&& (0xffff : BitVec 32)) + (x >>> 16)).toNat = _
  rw [BitVec.toNat_add, hand, BitVec.toNat_ushiftRight, Nat.shiftRight_eq_div_pow]
  omega

theorem toNat_echoReplyCksum (c : BitVec 16) : (echoReplyCksum c).toNat = (c.toNat + 8) % 65535 := by
  have hc := c.isLt
  have hnot : (~~~(c.setWidth 32) &&& 0xffff : BitVec 32).toNat = 65535 - c.toNat := by
    rw [BitVec.toNat_and]
    refine (Nat.and_two_pow_sub_one_eq_mod _ 16).trans ?_
    rw [BitVec.toNat_not, BitVec.toNat_setWidth]
    omega
  have hrequest : ~~~((swap16 (ipIcmpEchoRequest.setWidth 16 <<< 8)).setWidth 32) &&& 0xffff =
      (0xfff7 : BitVec 32) := by
    decide +kernel
  have hreply : (swap16 (ipIcmpEchoReply.setWidth 16 <<< 8)).setWidth 32 = (0 : BitVec 32) := by decide +kernel
  have hsum : ((~~~(c.setWidth 32) &&& 0xffff : BitVec 32) + 0xfff7 + 0).toNat = 131062 - c.toNat := by
    rw [BitVec.toNat_add, BitVec.toNat_add, hnot]
    change ((65535 - c.toNat + 65527) % 2 ^ 32 + 0) % 2 ^ 32 = _
    omega
  simp only [echoReplyCksum, hrequest, hreply]
  rw [BitVec.toNat_setWidth, BitVec.toNat_not, toNat_fold, toNat_fold, hsum]
  -- the first round carries for checksums up to 0xfff6, the second never
  rcases Nat.lt_or_ge 65526 c.toNat with hlarge | hsmall
  · have hmod : (131062 - c.toNat) % 65536 = 131062 - c.toNat := Nat.mod_eq_of_lt (by omega)
    have hdiv : (131062 - c.toNat) / 65536 = 0 := Nat.div_eq_of_lt (by omega)
    rw [hmod, hdiv, Nat.add_zero, hmod, hdiv]
    omega
  · have hmod : (131062 - c.toNat) % 65536 = 65526 - c.toNat := by omega
    have hdiv : (131062 - c.toNat) / 65536 = 1 := by omega
    have hround : (65526 - c.toNat + 1) / 65536 = 0 := Nat.div_eq_of_lt (by omega)
    rw [hmod, hdiv, hround, Nat.mod_eq_of_lt (show 65526 - c.toNat + 1 < 65536 by omega)]
    omega

/-! ## The reply's message -/

/-- From the ICMP header on, only the type and the checksum are written. -/
theorem echoReply_data (m : Mbuf) : ∃ d : Mem, (∀ x, 34 ≤ x → d x = m.data x) ∧ (echoReply m).data =
    writeLE (Function.update d 34 0) 36 2 (echoReplyCksum (load16 m.data 36)).toNat := by
  obtain ⟨d, hd, hreply⟩ : ∃ d : Mem, (∀ x, 34 ≤ x → d x = m.data x) ∧ (echoReply m).data =
      writeLE (Function.update d 34 0) 36 2 (echoReplyCksum (load16 (Function.update d 34 0) 36)).toNat := by
    refine ⟨_, fun x hx => ?_, rfl⟩
    rw [writeLE_apply_of_disjoint (by omega), writeLE_apply_of_disjoint (by omega),
      writeLE_apply_of_disjoint (by omega), writeLE_apply_of_disjoint (by omega)]
  have hload : load16 (Function.update d 34 0) 36 = load16 m.data 36 := by
    refine congrArg (BitVec.ofNat 16) (readLE_congr fun x h1 h2 => ?_)
    rw [Function.update_of_ne (by omega), hd x (by omega)]
  exact ⟨d, hd, by rw [hreply, hload]⟩

/-- The message of the reply: type, code, checksum, and the rest as it was. -/
theorem bytesAt_echoReply (m : Mbuf) (n : Nat) : bytesAt (echoReply m).data 34 (n + 4) =
    0 :: m.data 35 :: BitVec.ofNat 8 (echoReplyCksum (load16 m.data 36)).toNat ::
      BitVec.ofNat 8 ((echoReplyCksum (load16 m.data 36)).toNat / 256) :: bytesAt m.data 38 n := by
  obtain ⟨d, hd, hreply⟩ := echoReply_data m
  have hout : ∀ x, 34 ≤ x → x ≠ 34 → x < 36 ∨ 38 ≤ x → (echoReply m).data x = m.data x := by
    intro x hx hne h
    rw [hreply, writeLE_apply_of_disjoint h, Function.update_of_ne hne, hd x hx]
  have htype : (echoReply m).data 34 = 0 := by
    rw [hreply, writeLE_apply_of_disjoint (by omega), Function.update_self]
  have hlow : (echoReply m).data 36 = BitVec.ofNat 8 (echoReplyCksum (load16 m.data 36)).toNat := by
    rw [hreply, writeLE, writeLE_apply_of_disjoint (by omega), Function.update_self]
  have hhigh : (echoReply m).data 37 = BitVec.ofNat 8 ((echoReplyCksum (load16 m.data 36)).toNat / 256) := by
    rw [hreply, writeLE, writeLE, writeLE, Function.update_self]
  have hrest : bytesAt (echoReply m).data 38 n = bytesAt m.data 38 n :=
    List.map_congr_left fun k _ => hout _ (by omega) (by omega) (by omega)
  rw [bytesAt_succ, bytesAt_succ, bytesAt_succ, bytesAt_succ, htype, hout 35 (by omega) (by omega) (by omega),
    hlow, hhigh, hrest]

theorem bytesAt_request (m : Mbuf) (n : Nat) : bytesAt m.data 34 (n + 4) =
    m.data 34 :: m.data 35 :: m.data 36 :: m.data 37 :: bytesAt m.data 38 n := by
  rw [bytesAt_succ, bytesAt_succ, bytesAt_succ, bytesAt_succ]

/-- The words of a message with a header of 4 bytes. -/
theorem total_header (t c l h : BitVec 8) (bs : Octets) : total (t :: c :: l :: h :: bs) =
    t.toNat * 256 + c.toNat + (l.toNat * 256 + h.toNat + total bs) := rfl

/-- The checksum and the rest of the reply, in words: swapping the bytes of a word multiplies it by 256, modulo
65535. -/
theorem swapped_sum {l h : BitVec 8} {T : Nat}
    (hmod : (8 * 256 + 0 + (l.toNat * 256 + h.toNat + T)) % 65535 = 0) :
    ((l.toNat + 256 * h.toNat + 8) % 65535 % 256 * 256 + (l.toNat + 256 * h.toNat + 8) % 65535 / 256 % 256 + T) %
        65535 = 0 ∧
      ((l.toNat + 256 * h.toNat + 8) % 65535 % 256 * 256 + (l.toNat + 256 * h.toNat + 8) % 65535 / 256 % 256 + T ≠ 0 ↔
        T ≠ 0) := by
  have hl := l.isLt
  have hh := h.isLt
  obtain ⟨v, hv⟩ : ∃ v, v = (l.toNat + 256 * h.toNat + 8) % 65535 := ⟨_, rfl⟩
  obtain ⟨q, hq⟩ : ∃ q, q = (l.toNat + 256 * h.toNat + 8) / 65535 := ⟨_, rfl⟩
  obtain ⟨d, hd⟩ := Nat.dvd_of_mod_eq_zero hmod
  have hdiv : 65535 * q + v = l.toNat + 256 * h.toNat + 8 := by rw [hv, hq, Nat.div_add_mod]
  have hlt : v < 65535 := hv ▸ Nat.mod_lt _ (by decide)
  rw [← hv]
  obtain ⟨w, hw⟩ : ∃ w, w = v % 256 * 256 + v / 256 % 256 := ⟨_, rfl⟩
  have hswap : w + 65535 * (v / 256) = 256 * v := by omega
  have hsum : w + T + 65535 * (v / 256 + 256 * q) = 65535 * (d + h.toNat) := by omega
  rw [← hw]
  refine ⟨by omega, fun hne hT => hne ?_, by omega⟩
  have hv0 : v = 0 := by omega
  rw [hw, hv0, hT]

/-- The reply to a message that verifies. -/
theorem verifies_reply_iff {l h : BitVec 8} {c : BitVec 16} {bs : Octets} (hc : c.toNat = l.toNat + 256 * h.toNat)
    (hv : Verifies (8 :: 0 :: l :: h :: bs)) :
    Verifies (0 :: 0 :: BitVec.ofNat 8 (echoReplyCksum c).toNat ::
      BitVec.ofNat 8 ((echoReplyCksum c).toNat / 256) :: bs) ↔ total bs ≠ 0 := by
  have h0 : (0 : BitVec 8).toNat = 0 := rfl
  have h8 : (8 : BitVec 8).toNat = 8 := rfl
  rw [verifies_iff, total_header, h0, h8] at hv
  obtain ⟨hsum, hne⟩ := swapped_sum hv.1
  have hpow : (2 : Nat) ^ 8 = 256 := rfl
  rw [verifies_iff, total_header, h0, BitVec.toNat_ofNat, BitVec.toNat_ofNat, toNat_echoReplyCksum, hc, hpow,
    Nat.zero_mul, Nat.zero_add, ← hne]
  exact and_iff_right hsum

theorem rest_eq_zero_iff (d : Mem) (n : Nat) (hn : 4 ≤ n) :
    total (bytesAt d 38 (n - 4)) ≠ 0 ↔ ∃ k, 4 ≤ k ∧ k < n ∧ d (34 + k) ≠ 0 := by
  rw [ne_eq, total_eq_zero_iff]
  simp only [bytesAt, List.mem_map, List.mem_range, forall_exists_index, and_imp, forall_apply_eq_imp_iff₂]
  push Not
  constructor
  · rintro ⟨k, hk, hne⟩
    exact ⟨k + 4, by omega, by omega, by rwa [show 34 + (k + 4) = 38 + k by omega]⟩
  · rintro ⟨k, h4, hk, hne⟩
    exact ⟨k - 4, by omega, by rwa [show 38 + (k - 4) = 34 + k by omega]⟩

theorem rxDispose_echo (hrx : b.rx = m :: ms) (harp : isArp m = false) (hecho : isEchoRequest app i m = some true) :
    rxDispose app i b = some [.tx i (echoReply m) b.sent, .free m] := by
  simp [rxDispose, hrx, harp, hecho]

/-- **The echo reply** to a request of `n` bytes whose checksum verifies: its own verifies if there is anything in the
identifier, the sequence number and the payload but zeros. -/
theorem echoReply_verifies_iff (hrx : b.rx = m :: ms) (harp : isArp m = false)
    (hecho : isEchoRequest app i m = some true) (hn : 8 ≤ n) (hv : Verifies (bytesAt m.data 34 n)) :
    ∃ r, rxDispose app i b = some [.tx i r b.sent, .free m] ∧
      (Verifies (bytesAt r.data 34 n) ↔ ∃ k, 4 ≤ k ∧ k < n ∧ m.data (34 + k) ≠ 0) := by
  have hheader : m.data 34 = 8 ∧ m.data 35 = 0 := by
    unfold isEchoRequest at hecho
    by_cases hcond : m.data 23 = ipprotoIcmp ∧ m.data 34 = ipIcmpEchoRequest ∧ m.data 35 = 0
    · exact ⟨hcond.2.1, hcond.2.2⟩
    · rw [if_neg hcond] at hecho
      cases hecho
  obtain ⟨k, rfl⟩ : ∃ k, n = k + 4 := ⟨n - 4, by omega⟩
  have hload : (load16 m.data 36).toNat = (m.data 36).toNat + 256 * (m.data 37).toNat := by
    have h1 := (m.data 36).isLt
    have h2 := (m.data 37).isLt
    change ((m.data 36).toNat + 256 * ((m.data 37).toNat + 256 * 0)) % 2 ^ 16 = _
    omega
  rw [bytesAt_request, hheader.1, hheader.2] at hv
  refine ⟨echoReply m, rxDispose_echo hrx harp hecho, ?_⟩
  rw [bytesAt_echoReply, hheader.2, verifies_reply_iff hload hv, ← rest_eq_zero_iff _ _ (by omega),
    Nat.add_sub_cancel]

/-! ## Examples -/

/-- An echo request to the first port's address; the checksum is in the bytes `l` and `h`, and `x` is the first byte of
the identifier. -/
def pingFrame (l h x : BitVec 8) : Mem
  | 12 => 0x08
  | 14 => 0x45
  | 23 => 1
  | 30 => 0xC0
  | 31 => 0xA8
  | 32 => 3
  | 33 => 1
  | 34 => 8
  | 36 => l
  | 37 => h
  | 38 => x
  | _ => 0

/-- One frame, and no room on the ring or the wire -/
def oneFrame (m : Mbuf) : Burst := { rx := [m], alloc := none, sent := 0, attempts := [] }

/-- The reply to a request with nothing but zeros after the checksum is all zeros. -/
theorem echoReply_not_verifies :
    ∃ r, rxDispose twoPorts 0 (oneFrame (frameAt 1 (pingFrame 0xF7 0xFF 0))) =
        some [.tx 0 r 0, .free (frameAt 1 (pingFrame 0xF7 0xFF 0))] ∧
      Verifies (bytesAt (pingFrame 0xF7 0xFF 0) 34 8) ∧ ¬ Verifies (bytesAt r.data 34 8) := by
  refine ⟨_, rxDispose_echo rfl (by decide +kernel) (by decide +kernel), by decide +kernel, ?_⟩
  decide +kernel

theorem echoReply_verifies_iff_ping :
    ∃ r, rxDispose twoPorts 0 (oneFrame (frameAt 1 (pingFrame 0xF6 0xFF 1))) =
        some [.tx 0 r 0, .free (frameAt 1 (pingFrame 0xF6 0xFF 1))] ∧
      (Verifies (bytesAt r.data 34 8) ↔ ∃ k, 4 ≤ k ∧ k < 8 ∧ pingFrame 0xF6 0xFF 1 (34 + k) ≠ 0) :=
  echoReply_verifies_iff rfl (by decide +kernel) (by decide +kernel) (by decide) (by decide +kernel)

end Xmhf.Router
