import Mathlib.Algebra.Group.Nat.Defs
import Mathlib.Data.Nat.Basic
import Mathlib.Logic.Function.Basic
import Mathlib.Data.List.Basic

/-!
# Byte memory

Physical memory as a function from addresses to bytes, with little-endian words of 4 and 8 bytes.

* `load64_store64`, `load64_store64_of_disjoint`: a word reads back, and a store elsewhere does not
  show.
* `stores` makes a list of 8-byte stores in order; `load64_stores_of_mem` and
  `load64_stores_of_disjoint` read a word after it.
-/

namespace Xmhf.Memory

/-- Physical memory. -/
abbrev Mem := Nat → BitVec 8

/-- The `n` bytes at `a`, least significant first. -/
def readLE (m : Mem) (a : Nat) : Nat → Nat
  | 0 => 0
  | n + 1 => (m a).toNat + 256 * readLE m (a + 1) n

/-- `m` with the low `n` bytes of `v` at `a`. -/
def writeLE (m : Mem) (a : Nat) : Nat → Nat → Mem
  | 0, _ => m
  | n + 1, v => writeLE (Function.update m a (BitVec.ofNat 8 v)) (a + 1) n (v / 256)

theorem writeLE_apply_of_disjoint {m : Mem} {a n v x : Nat} (h : x < a ∨ a + n ≤ x) :
    writeLE m a n v x = m x := by
  induction n generalizing m a v with
  | zero => rfl
  | succ n ih =>
    rw [writeLE, ih (by omega), Function.update_of_ne (by omega)]

theorem readLE_congr {m m' : Mem} {a n : Nat} (h : ∀ x, a ≤ x → x < a + n → m x = m' x) :
    readLE m a n = readLE m' a n := by
  induction n generalizing a with
  | zero => rfl
  | succ n ih =>
    rw [readLE, readLE, h a (by omega) (by omega), ih fun x h1 h2 => h x (by omega) (by omega)]

theorem readLE_writeLE_of_disjoint {m : Mem} {a b k n v : Nat} (h : a + k ≤ b ∨ b + n ≤ a) :
    readLE (writeLE m b n v) a k = readLE m a k :=
  readLE_congr fun _ h1 h2 => writeLE_apply_of_disjoint (by omega)

theorem readLE_writeLE (m : Mem) (a n v : Nat) : readLE (writeLE m a n v) a n = v % 256 ^ n := by
  induction n generalizing m a v with
  | zero => simp [readLE, Nat.mod_one]
  | succ n ih =>
    have hlow : (writeLE (Function.update m a (BitVec.ofNat 8 v)) (a + 1) n (v / 256) a).toNat =
        v % 256 := by
      rw [writeLE_apply_of_disjoint (by omega), Function.update_self, BitVec.toNat_ofNat]
    rw [readLE, writeLE, ih, hlow, Nat.pow_succ', Nat.mod_mul]

theorem readLE_lt (m : Mem) (a n : Nat) : readLE m a n < 256 ^ n := by
  induction n generalizing a with
  | zero => exact Nat.one_pos
  | succ n ih =>
    have h1 := (m a).isLt
    have h2 := ih (a + 1)
    rw [readLE, Nat.pow_succ']
    omega

theorem readLE_add (m : Mem) (a k n : Nat) :
    readLE m a (k + n) = readLE m a k + 256 ^ k * readLE m (a + k) n := by
  induction k generalizing a with
  | zero => simp [readLE]
  | succ k ih =>
    have haddr : a + 1 + k = a + (k + 1) := by omega
    rw [Nat.add_right_comm, readLE, ih, haddr, readLE, Nat.pow_succ', Nat.mul_add, Nat.mul_assoc,
      Nat.add_assoc]

/-! ## Words -/

/-- The 4-byte word at `a`. -/
def load32 (m : Mem) (a : Nat) : BitVec 32 := BitVec.ofNat 32 (readLE m a 4)

/-- A word in the bytes that start before it. -/
theorem ofNat_readLE_div (m : Mem) (a k n : Nat) :
    BitVec.ofNat 32 (readLE m a (k + (4 + n)) / 2 ^ (8 * k)) = load32 m (a + k) := by
  have hdiv : readLE m a (k + (4 + n)) / 2 ^ (8 * k) = readLE m (a + k) (4 + n) := by
    rw [Nat.pow_mul, readLE_add, Nat.add_mul_div_left _ _ (Nat.pow_pos (by decide)),
      Nat.div_eq_of_lt (readLE_lt m a k), Nat.zero_add]
  apply BitVec.eq_of_toNat_eq
  rw [hdiv, readLE_add, load32, BitVec.toNat_ofNat, BitVec.toNat_ofNat]
  omega

/-- The 8-byte word at `a`. -/
def load64 (m : Mem) (a : Nat) : BitVec 64 := BitVec.ofNat 64 (readLE m a 8)

theorem load64_congr {m m' : Mem} {a : Nat} (h : ∀ x, a ≤ x → x < a + 8 → m x = m' x) :
    load64 m a = load64 m' a := by
  rw [load64, load64, readLE_congr h]

/-- `m` with the word `w` at `a`. -/
def store64 (m : Mem) (a : Nat) (w : BitVec 64) : Mem := writeLE m a 8 w.toNat

theorem load32_writeLE (m : Mem) (a : Nat) (v : BitVec 32) : load32 (writeLE m a 4 v.toNat) a = v := by
  rw [load32, readLE_writeLE]
  apply BitVec.eq_of_toNat_eq
  have := v.isLt
  rw [BitVec.toNat_ofNat]
  omega

@[simp] theorem load64_store64 (m : Mem) (a : Nat) (w : BitVec 64) :
    load64 (store64 m a w) a = w := by
  apply BitVec.eq_of_toNat_eq
  rw [load64, store64, readLE_writeLE, BitVec.toNat_ofNat]
  have hw := w.isLt
  omega

theorem load64_store64_of_disjoint {m : Mem} {a b : Nat} {w : BitVec 64}
    (h : a + 8 ≤ b ∨ b + 8 ≤ a) : load64 (store64 m b w) a = load64 m a := by
  rw [load64, store64, readLE_writeLE_of_disjoint h, load64]

/-- The memory whose 8-byte words are `w`. -/
def ofWords (w : Nat → BitVec 64) : Mem := fun a => (w (a / 8) >>> (8 * (a % 8))).setWidth 8

theorem load64_ofWords (w : Nat → BitVec 64) (n : Nat) : load64 (ofWords w) (8 * n) = w n := by
  have hbyte : ∀ i < 8, (ofWords w (8 * n + i)).toNat = (w n).toNat / 2 ^ (8 * i) % 256 := by
    intro i hi
    rw [ofWords, show (8 * n + i) / 8 = n by omega, show (8 * n + i) % 8 = i by omega,
      BitVec.toNat_setWidth, BitVec.toNat_ushiftRight, Nat.shiftRight_eq_div_pow]
  apply BitVec.eq_of_toNat_eq
  have hw := (w n).isLt
  simp only [load64, readLE, Nat.add_assoc, Nat.reduceAdd, BitVec.toNat_ofNat, hbyte 1 (by decide),
    hbyte 2 (by decide), hbyte 3 (by decide), hbyte 4 (by decide), hbyte 5 (by decide),
    hbyte 6 (by decide), hbyte 7 (by decide), show ofWords w (8 * n) = ofWords w (8 * n + 0) from rfl,
    hbyte 0 (by decide)]
  omega

/-- The stores of `l`, in order. -/
def stores (l : List (Nat × BitVec 64)) (m : Mem) : Mem :=
  l.foldl (fun m p => store64 m p.1 p.2) m

@[simp] theorem stores_nil (m : Mem) : stores [] m = m := rfl

@[simp] theorem stores_cons (p : Nat × BitVec 64) (l : List (Nat × BitVec 64)) (m : Mem) :
    stores (p :: l) m = stores l (store64 m p.1 p.2) := rfl

theorem stores_append (l l' : List (Nat × BitVec 64)) (m : Mem) :
    stores (l ++ l') m = stores l' (stores l m) := List.foldl_append ..

theorem load64_stores_of_disjoint {l : List (Nat × BitVec 64)} {m : Mem} {a : Nat}
    (h : ∀ p ∈ l, a + 8 ≤ p.1 ∨ p.1 + 8 ≤ a) : load64 (stores l m) a = load64 m a := by
  induction l generalizing m with
  | nil => rfl
  | cons p l ih =>
    rw [stores_cons, ih fun q hq => h q (List.mem_cons_of_mem _ hq),
      load64_store64_of_disjoint (h p List.mem_cons_self)]

/-- **A stored word reads back** when every store of the list is of the same word at the same address
or apart from it. -/
theorem load64_stores_of_mem {l : List (Nat × BitVec 64)} {m : Mem} {a : Nat} {w : BitVec 64}
    (hmem : (a, w) ∈ l) (h : ∀ p ∈ l, p = (a, w) ∨ a + 8 ≤ p.1 ∨ p.1 + 8 ≤ a) :
    load64 (stores l m) a = w := by
  induction l generalizing m with
  | nil => cases hmem
  | cons p l ih =>
    have hrest : ∀ q ∈ l, q = (a, w) ∨ a + 8 ≤ q.1 ∨ q.1 + 8 ≤ a :=
      fun q hq => h q (List.mem_cons_of_mem _ hq)
    rw [stores_cons]
    by_cases hin : (a, w) ∈ l
    · exact ih hin hrest
    · have hp : (a, w) = p := (List.mem_cons.1 hmem).resolve_right hin
      rw [load64_stores_of_disjoint fun q hq => ?_, ← hp, load64_store64]
      exact (hrest q hq).resolve_left fun hqa => hin (hqa ▸ hq)

/-! ## Arrays of words -/

/-- An array after writes to it by index, in order. -/
def writeEntries (writes : List (Nat × BitVec 64)) (t : Nat → BitVec 64) : Nat → BitVec 64 :=
  writes.foldl (fun t w => Function.update t w.1 w.2) t

theorem writeEntries_cons (w : Nat × BitVec 64) (l : List (Nat × BitVec 64)) (t : Nat → BitVec 64) :
    writeEntries (w :: l) t = writeEntries l (Function.update t w.1 w.2) := rfl

theorem writeEntries_append (l l' : List (Nat × BitVec 64)) (t : Nat → BitVec 64) :
    writeEntries (l ++ l') t = writeEntries l' (writeEntries l t) := List.foldl_append ..

/-- The stores to an array in memory are the writes to it. -/
theorem load64_stores_array (l : List (Nat × BitVec 64)) (m : Mem) (base k : Nat) :
    load64 (stores (l.map fun w => (base + 8 * w.1, w.2)) m) (base + 8 * k) =
      writeEntries l (fun k => load64 m (base + 8 * k)) k := by
  induction l generalizing m with
  | nil => rfl
  | cons w l ih =>
    have hupdate : (fun k => load64 (store64 m (base + 8 * w.1) w.2) (base + 8 * k)) =
        Function.update (fun k => load64 m (base + 8 * k)) w.1 w.2 := by
      funext k
      by_cases hk : k = w.1
      · rw [hk, load64_store64, Function.update_self]
      · rw [load64_store64_of_disjoint (by omega), Function.update_of_ne hk]
    rw [List.map_cons, stores_cons, ih, hupdate, writeEntries_cons]

theorem writeEntries_range (n i : Nat) (f t : Nat → BitVec 64) (k : Nat) :
    writeEntries ((List.range n).map fun j => (i + j, f j)) t k =
      if i ≤ k ∧ k < i + n then f (k - i) else t k := by
  induction n with
  | zero => rw [if_neg (by omega)]; rfl
  | succ n ih =>
    have hlast : ∀ t' : Nat → BitVec 64,
        writeEntries ([n].map fun j => (i + j, f j)) t' = Function.update t' (i + n) (f n) :=
      fun _ => rfl
    rw [List.range_succ, List.map_append, writeEntries_append, hlast]
    by_cases hk : k = i + n
    · rw [hk, Function.update_self, if_pos ⟨Nat.le_add_right .., Nat.lt_succ_self _⟩,
        Nat.add_sub_cancel_left]
    · rw [Function.update_of_ne hk, ih]
      congr 1
      rw [eq_iff_iff]
      omega

end Xmhf.Memory
