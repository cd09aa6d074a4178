import Xmhf.Lib.Memory

/-!
# Strings of bytes

Numbers as strings of bytes, and strings of bytes in memory.

* `ofLeBytes_leBytes`, `leBytes_inj`: a number of `n` bytes is read back.
* `bytesAt_putBytes`: a string of bytes that is stored is read back, and so is each of its parts.
* `bytesAt_memcpy`: a copy in increasing order of addresses, to an address that is not above the source.
-/

namespace Xmhf.Bytes

open Xmhf.Memory

abbrev Octets := List (BitVec 8)

/-! ## Numbers -/

/-- The low `n` bytes of `v`, least significant first. -/
def leBytes : Nat → Nat → Octets
  | 0, _ => []
  | n + 1, v => BitVec.ofNat 8 v :: leBytes n (v / 256)

/-- The number of a string of bytes, least significant first. -/
def ofLeBytes : Octets → Nat
  | [] => 0
  | b :: bs => b.toNat + 256 * ofLeBytes bs

/-- The low `n` bytes of `v`, most significant first. -/
def beBytes (n v : Nat) : Octets := (leBytes n v).reverse

@[simp] theorem length_leBytes (n v : Nat) : (leBytes n v).length = n := by
  induction n generalizing v with
  | zero => rfl
  | succ n ih => rw [leBytes, List.length_cons, ih]

@[simp] theorem length_beBytes (n v : Nat) : (beBytes n v).length = n := by
  rw [beBytes, List.length_reverse, length_leBytes]

theorem ofLeBytes_leBytes (n v : Nat) : ofLeBytes (leBytes n v) = v % 256 ^ n := by
  induction n generalizing v with
  | zero => simp [leBytes, ofLeBytes, Nat.mod_one]
  | succ n ih =>
    have hpow : 256 ^ (n + 1) = 256 * 256 ^ n := Nat.pow_succ'
    rw [leBytes, ofLeBytes, ih, BitVec.toNat_ofNat, hpow, Nat.mod_mul]

theorem leBytes_mod (n v : Nat) : leBytes n (v % 256 ^ n) = leBytes n v := by
  induction n generalizing v with
  | zero => rfl
  | succ n ih =>
    have hpow : 256 ^ (n + 1) = 256 * 256 ^ n := Nat.pow_succ'
    have hhead : BitVec.ofNat 8 (v % (256 * 256 ^ n)) = BitVec.ofNat 8 v :=
      BitVec.eq_of_toNat_eq (Nat.mod_mod_of_dvd v (Nat.dvd_mul_right 256 _))
    rw [leBytes, leBytes, hpow, hhead, Nat.mod_mul_right_div_self, ih]

theorem leBytes_inj {n v w : Nat} (hv : v < 256 ^ n) (hw : w < 256 ^ n) :
    leBytes n v = leBytes n w ↔ v = w := by
  refine ⟨fun h => ?_, fun h => h ▸ rfl⟩
  have h' := congrArg ofLeBytes h
  rwa [ofLeBytes_leBytes, ofLeBytes_leBytes, Nat.mod_eq_of_lt hv, Nat.mod_eq_of_lt hw] at h'

/-! ## Strings in memory -/

/-- The `n` bytes at `a`. -/
def bytesAt (m : Mem) (a n : Nat) : Octets := (List.range n).map fun i => m (a + i)

/-- `m` with the bytes of `l` at `a`. -/
def putBytes (m : Mem) (a : Nat) (l : Octets) : Mem :=
  fun x => if x < a then m x else (l[x - a]?).getD (m x)

@[simp] theorem length_bytesAt (m : Mem) (a n : Nat) : (bytesAt m a n).length = n := by
  rw [bytesAt, List.length_map, List.length_range]

theorem getElem?_bytesAt {m : Mem} {a n i : Nat} (h : i < n) : (bytesAt m a n)[i]? = some (m (a + i)) := by
  rw [bytesAt, List.getElem?_map, List.getElem?_range h, Option.map_some]

theorem bytesAt_succ (m : Mem) (a n : Nat) : bytesAt m a (n + 1) = m a :: bytesAt m (a + 1) n := by
  rw [bytesAt, bytesAt, List.range_succ_eq_map, List.map_cons, List.map_map]
  congr 1
  exact List.map_congr_left fun i _ => congrArg m (by rw [Nat.succ_eq_add_one]; omega)

theorem putBytes_of_lt {m : Mem} {a i : Nat} {l : Octets} (h : i < l.length) :
    putBytes m a l (a + i) = l[i] := by
  rw [putBytes, if_neg (by omega), Nat.add_sub_cancel_left, List.getElem?_eq_getElem h, Option.getD_some]

/-- A number in memory. -/
theorem readLE_eq_ofLeBytes (m : Mem) (a n : Nat) : readLE m a n = ofLeBytes (bytesAt m a n) := by
  induction n generalizing a with
  | zero => rfl
  | succ n ih =>
    rw [readLE, ih, bytesAt, bytesAt, List.range_succ_eq_map, List.map_cons, List.map_map, ofLeBytes]
    congr 3
    exact List.map_congr_left fun i _ => congrArg m (by simp; omega)

theorem bytesAt_putBytes_part (m : Mem) (a : Nat) (l1 l2 l3 : Octets) :
    bytesAt (putBytes m a (l1 ++ l2 ++ l3)) (a + l1.length) l2.length = l2 := by
  apply List.ext_getElem?
  intro i
  by_cases hi : i < l2.length
  · have hlt : l1.length + i < (l1 ++ l2 ++ l3).length := by simp only [List.length_append]; omega
    rw [getElem?_bytesAt hi, Nat.add_assoc, putBytes_of_lt hlt, List.getElem?_eq_getElem hi]
    congr 1
    rw [List.getElem_append_left (by rw [List.length_append]; omega), List.getElem_append_right (by omega)]
    congr 1
    omega
  · rw [List.getElem?_eq_none (by rw [length_bytesAt]; omega), List.getElem?_eq_none (by omega)]

/-- The part of a stored string from `i` on. -/
theorem bytesAt_putBytes_of_prefix {m : Mem} {l l1 l2 : Octets} {i n : Nat} (h : l1 ++ l2 <+: l)
    (hi : l1.length = i) (hn : l2.length = n) : bytesAt (putBytes m 0 l) i n = l2 := by
  obtain ⟨l3, rfl⟩ := h
  subst hi hn
  simpa using bytesAt_putBytes_part m 0 l1 l2 l3

theorem bytesAt_putBytes (m : Mem) (a : Nat) (l : Octets) : bytesAt (putBytes m a l) a l.length = l := by
  simpa using bytesAt_putBytes_part m a [] l []

theorem putBytes_nil (m : Mem) (a : Nat) : putBytes m a [] = m := by
  funext x
  simp [putBytes]

theorem putBytes_append (m : Mem) (a : Nat) (l1 l2 : Octets) :
    putBytes (putBytes m a l1) (a + l1.length) l2 = putBytes m a (l1 ++ l2) := by
  funext x
  unfold putBytes
  rcases Nat.lt_or_ge x a with hlt | hge
  · rw [if_pos (by omega), if_pos hlt, if_pos hlt]
  · rw [if_neg (Nat.not_lt.2 hge), if_neg (Nat.not_lt.2 hge)]
    rcases Nat.lt_or_ge x (a + l1.length) with hin | hout
    · rw [if_pos hin, List.getElem?_append_left (by omega)]
    · rw [if_neg (Nat.not_lt.2 hout), List.getElem?_append_right (by omega),
        List.getElem?_eq_none (l := l1) (by omega), Nat.sub_sub]
      rfl

theorem bytesAt_append (m : Mem) (a k n : Nat) : bytesAt m a (k + n) = bytesAt m a k ++ bytesAt m (a + k) n := by
  rw [bytesAt, List.range_add, List.map_append, List.map_map]
  congr 1
  exact List.map_congr_left fun i _ => congrArg m (Nat.add_assoc a k i).symm

theorem bytesAt_eq_of {m m' : Mem} {a n : Nat} (h : ∀ x, a ≤ x → x < a + n → m x = m' x) :
    bytesAt m a n = bytesAt m' a n :=
  List.map_congr_left fun i hi => h (a + i) (Nat.le_add_right a i) (Nat.add_lt_add_left (List.mem_range.1 hi) a)

theorem putBytes_elsewhere {m : Mem} {a x : Nat} {l : Octets} (h : x < a ∨ a + l.length ≤ x) :
    putBytes m a l x = m x := by
  unfold putBytes
  split
  · rfl
  · rw [List.getElem?_eq_none (by omega), Option.getD_none]

/-- A string that is stored after another. -/
theorem bytesAt_putBytes_append (m : Mem) (a : Nat) (l : Octets) :
    bytesAt (putBytes m a l) 0 (a + l.length) = bytesAt m 0 a ++ l := by
  apply List.ext_getElem?
  intro i
  rcases Nat.lt_or_ge i a with hlt | hge
  · rw [getElem?_bytesAt (by omega), List.getElem?_append_left (by rw [length_bytesAt]; omega),
      getElem?_bytesAt hlt, Nat.zero_add, putBytes, if_pos hlt]
  · rw [List.getElem?_append_right (by rw [length_bytesAt]; omega), length_bytesAt]
    by_cases hin : i < a + l.length
    · have hput := @putBytes_of_lt m a (i - a) l (by omega)
      rw [Nat.add_sub_cancel' hge] at hput
      rw [getElem?_bytesAt hin, Nat.zero_add, hput, List.getElem?_eq_getElem]
    · rw [List.getElem?_eq_none (by rw [length_bytesAt]; omega), List.getElem?_eq_none (by omega)]

/-! ## Copies -/

/-- `memcpy`, a byte at a time in increasing order of addresses. -/
def memcpy (m : Mem) (dest src : Nat) : Nat → Mem
  | 0 => m
  | n + 1 => memcpy (Function.update m dest (m src)) (dest + 1) (src + 1) n

theorem memcpy_of_disjoint {m : Mem} {dest src n x : Nat} (h : x < dest ∨ dest + n ≤ x) :
    memcpy m dest src n x = m x := by
  induction n generalizing m dest src with
  | zero => rfl
  | succ n ih => rw [memcpy, ih (by omega), Function.update_of_ne (by omega)]

/-- The source is read before it is overwritten. -/
theorem memcpy_of_lt {m : Mem} {dest src n i : Nat} (hle : dest ≤ src) (h : i < n) :
    memcpy m dest src n (dest + i) = m (src + i) := by
  induction n generalizing m dest src i with
  | zero => exact absurd h (Nat.not_lt_zero i)
  | succ n ih =>
    cases i with
    | zero => rw [memcpy, memcpy_of_disjoint (by omega), Nat.add_zero, Function.update_self, Nat.add_zero]
    | succ i =>
      have hi := @ih (Function.update m dest (m src)) (dest + 1) (src + 1) i (by omega) (by omega)
      rw [memcpy, show dest + (i + 1) = dest + 1 + i by omega, hi, Function.update_of_ne (by omega)]
      congr 1
      omega

/-- A copy to a place that does not overlap its source. -/
theorem memcpy_of_apart {m : Mem} {dest src n i : Nat} (h : dest + n ≤ src ∨ src + n ≤ dest) (hi : i < n) :
    memcpy m dest src n (dest + i) = m (src + i) := by
  rcases h with h | h
  · exact memcpy_of_lt (by omega) hi
  · induction n generalizing m dest src i with
    | zero => exact absurd hi (Nat.not_lt_zero i)
    | succ n ih =>
      cases i with
      | zero => rw [memcpy, memcpy_of_disjoint (by omega), Nat.add_zero, Function.update_self, Nat.add_zero]
      | succ i =>
        have hrest := @ih (Function.update m dest (m src)) (dest + 1) (src + 1) i (by omega) (by omega)
        rw [memcpy, show dest + (i + 1) = dest + 1 + i by omega, hrest, Function.update_of_ne (by omega)]
        congr 1
        omega

theorem bytesAt_memcpy {m : Mem} {dest src n : Nat} (hle : dest ≤ src) :
    bytesAt (memcpy m dest src n) dest n = bytesAt m src n :=
  List.map_congr_left fun _ hi => memcpy_of_lt hle (List.mem_range.1 hi)

end Xmhf.Bytes
