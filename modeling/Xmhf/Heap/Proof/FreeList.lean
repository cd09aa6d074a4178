import Xmhf.Heap.Proof.Align
import Xmhf.Heap.Proof.Header
import Xmhf.Heap.Proof.Mapping
import Xmhf.Lib.Dlist

/-!
# The free lists

`Indexed m pool L`: the lists in memory are the lists of addresses `L f s`, doubly linked from their heads
with the null block at both ends, and the bitmaps have the bits of the lists that are not empty.

* `removeFreeBlock_spec`, `insertFreeBlock_spec`: the two operations on the lists, the assertions hold, and
  memory changes in the pool structure and in the links of blocks of the lists only.
* `searchSuitableBlock_spec`: the search finds the first block of the first list, from the given one on,
  that is not empty.
-/

namespace Xmhf.Tlsf

open Xmhf.Memory Xmhf.Dlist

theorem blocks_eq (pool f s : Nat) : blocks pool f s = pool + 116 + 4 * (32 * f + s) := by
  simp only [blocks, blockHeaderSize, flIndexCount, slIndexCount, flIndexMax, flIndexShift,
    slIndexCountLog2, alignSizeLog2]
  omega

theorem slBitmap_eq (pool f : Nat) : slBitmap pool f = pool + 20 + 4 * f := rfl

theorem flBitmap_eq (pool : Nat) : flBitmap pool = pool + 16 := rfl

/-! ## Pointers -/

theorem ptr_lt (m : Mem) (a : Nat) : ptr m a < 2 ^ 32 := BitVec.isLt _

theorem ptr_setPtr {m : Mem} {a p : Nat} (h : p < 2 ^ 32) : ptr (setPtr m a p) a = p := by
  rw [ptr, setPtr, load32_store32, BitVec.toNat_ofNat, Nat.mod_eq_of_lt h]

theorem load32_setPtr {m : Mem} {a b p : Nat} (h : a + 4 ≤ b ∨ b + 4 ≤ a) :
    load32 (setPtr m b p) a = load32 m a := load32_store32_of_disjoint h

theorem ptr_setPtr_of_disjoint {m : Mem} {a b p : Nat} (h : a + 4 ≤ b ∨ b + 4 ≤ a) :
    ptr (setPtr m b p) a = ptr m a := by rw [ptr, load32_setPtr h, ptr]

theorem ptr_store32_of_disjoint {m : Mem} {a b : Nat} {w : BitVec 32} (h : a + 4 ≤ b ∨ b + 4 ≤ a) :
    ptr (store32 m b w) a = ptr m a := by rw [ptr, load32_store32_of_disjoint h, ptr]

theorem setPtr_apply {m : Mem} {a p x : Nat} (h : x < a ∨ a + 4 ≤ x) : setPtr m a p x = m x := store32_apply h

/-! ## Bits -/

theorem getLsbD_bit {i j : Nat} (hj : j < 32) : (1#32 <<< i).getLsbD j = decide (j = i) := by
  rw [BitVec.getLsbD_shiftLeft, BitVec.getLsbD_one, decide_eq_true hj, Bool.true_and, Bool.eq_iff_iff]
  simp
  omega

theorem getLsbD_or_bit {w : BitVec 32} {i j : Nat} (hj : j < 32) :
    (w ||| 1#32 <<< i).getLsbD j = (w.getLsbD j || decide (j = i)) := by
  rw [BitVec.getLsbD_or, getLsbD_bit hj]

theorem getLsbD_and_not_bit {w : BitVec 32} {i j : Nat} (hj : j < 32) :
    (w &&& ~~~(1#32 <<< i)).getLsbD j = (w.getLsbD j && !decide (j = i)) := by
  rw [BitVec.getLsbD_and, BitVec.getLsbD_not, getLsbD_bit hj, decide_eq_true hj, Bool.true_and]

theorem ne_zero_iff {w : BitVec 32} : w ≠ 0 ↔ ∃ i < 32, w.getLsbD i = true := by
  refine ⟨exists_bit, ?_⟩
  rintro ⟨i, -, hbit⟩ rfl
  simp at hbit

/-! ## Lists in memory -/

/-- The node after `x` in list `f`, `s`; the first one is after the null block. -/
def nextOf (m : Mem) (pool f s x : Nat) : Nat := if x = pool then ptr m (blocks pool f s) else ptr m (x + 8)

/-- The node before `x`. -/
def prevOf (m : Mem) (x : Nat) : Nat := ptr m (x + 12)

/-- **The lists in memory** are those of `L`. -/
structure Indexed (m : Mem) (pool : Nat) (L : Nat → Nat → List Nat) : Prop where
  linked : ∀ f < 24, ∀ s < 32, Linked (nextOf m pool f s) (prevOf m) pool pool (L f s)
  slBits : ∀ f < 24, ∀ s < 32, (load32 m (slBitmap pool f)).getLsbD s = true ↔ L f s ≠ []
  flBits : ∀ f < 32, (load32 m (flBitmap pool)).getLsbD f = true ↔
    f < 24 ∧ load32 m (slBitmap pool f) ≠ 0

/-- The nodes of the lists are headers of blocks, each in one list and once. -/
structure Nodes (pool : Nat) (L : Nat → Nat → List Nat) : Prop where
  pos : 0 < pool
  lo : ∀ f s, ∀ x ∈ L f s, pool + 3184 ≤ x
  hi : ∀ f s, ∀ x ∈ L f s, x + 16 < 2 ^ 32
  apart : ∀ f s, ∀ x ∈ L f s, ∀ f' s', ∀ y ∈ L f' s', x = y ∨ x + 16 ≤ y ∨ y + 16 ≤ x
  same : ∀ f s f' s', ∀ x ∈ L f s, x ∈ L f' s' → f = f' ∧ s = s'
  nodup : ∀ f s, (L f s).Nodup

/-- What an operation on the lists leaves alone, when `touched` are the nodes it may have to do with. -/
def LinkFrame (m m' : Mem) (pool : Nat) (touched : Nat → Prop) : Prop :=
  ∀ x, x < pool + 8 ∨ pool + 3188 ≤ x → (∀ y, touched y → x < y + 8 ∨ y + 16 ≤ x) → m' x = m x

/-- `L` without the node `a` of list `f`, `s`. -/
def eraseAt (L : Nat → Nat → List Nat) (f s a : Nat) : Nat → Nat → List Nat :=
  fun f' s' => if f' = f ∧ s' = s then (L f s).erase a else L f' s'

/-- `L` with the node `a` at the front of list `f`, `s`. -/
def insertAt (L : Nat → Nat → List Nat) (f s a : Nat) : Nat → Nat → List Nat :=
  fun f' s' => if f' = f ∧ s' = s then a :: L f s else L f' s'

section
variable {m m' : Mem} {pool f s a : Nat} {L : Nat → Nat → List Nat}

theorem Nodes.ne_pool (hn : Nodes pool L) {x : Nat} (hx : x ∈ L f s) : x ≠ pool := by
  have := hn.lo f s x hx
  omega

theorem Nodes.pool_not_mem (hn : Nodes pool L) : pool ∉ L f s := fun hx => hn.ne_pool hx rfl

theorem Nodes.nodup_cons (hn : Nodes pool L) : (pool :: L f s).Nodup :=
  List.nodup_cons.2 ⟨hn.pool_not_mem, hn.nodup f s⟩

theorem Nodes.pool_lt (hn : Nodes pool L) {x : Nat} (hx : x ∈ L f s) : pool < 2 ^ 32 := by
  have := hn.lo f s x hx
  have := hn.hi f s x hx
  omega

/-- **The lists after stores to their links**: `p`'s next node is `n`, and `n`'s node before is `p`. -/
theorem Indexed.linked_erase (hi : Indexed m pool L) (hn : Nodes pool L) (hf : f < 24) (hs : s < 32)
    (ha : a ∈ L f s) {p n : Nat} (hp : p = prevOf m a) (hnext : n = nextOf m pool f s a)
    (hprev' : ∀ f' s', ∀ y ∈ L f' s', ptr m' (y + 12) = if y = n then p else ptr m (y + 12))
    (hnext' : ∀ f' s', ∀ y ∈ L f' s', ptr m' (y + 8) = if y = p then n else ptr m (y + 8))
    (hhead : ∀ f' < 24, ∀ s' < 32, ptr m' (blocks pool f' s') =
      if f' = f ∧ s' = s ∧ p = pool then n else ptr m (blocks pool f' s'))
    {f' s' : Nat} (hf' : f' < 24) (hs' : s' < 32) :
    Linked (nextOf m' pool f' s') (prevOf m') pool pool (eraseAt L f s a f' s') := by
  have hlinked := hi.linked f hf s hs
  unfold eraseAt
  split
  · obtain ⟨rfl, rfl⟩ := ‹f' = f ∧ s' = s›
    refine (hlinked.erase hn.nodup_cons hn.pool_not_mem ha).congr (fun y hy => ?_) fun y hy => ?_
    · rw [← hp, ← hnext]
      rcases List.mem_cons.1 hy with rfl | hy
      · rw [nextOf, if_pos rfl, hhead f' hf' s' hs']
        by_cases hpool : p = y
        · rw [if_pos ⟨rfl, rfl, hpool⟩, hpool, Function.update_self]
        · rw [if_neg fun h => hpool h.2.2, Function.update_of_ne (Ne.symm hpool), nextOf, if_pos rfl]
      · have hy' := List.mem_of_mem_erase hy
        rw [nextOf, if_neg (hn.ne_pool hy'), hnext' _ _ y hy']
        by_cases hyp : y = p
        · rw [if_pos hyp, hyp, Function.update_self]
        · rw [if_neg hyp, Function.update_of_ne hyp, nextOf, if_neg (hn.ne_pool hy')]
    · have hy' := List.mem_of_mem_erase hy
      rw [← hp, ← hnext, prevOf, hprev' _ _ y hy']
      by_cases hyn : y = n
      · rw [if_pos hyn, hyn, Function.update_self]
      · rw [if_neg hyn, Function.update_of_ne hyn, prevOf]
  · -- the nodes of another list have other links
    rename_i hne
    have hother : ∀ y ∈ L f' s', y ≠ p ∧ y ≠ n := by
      intro y hy
      constructor
      · rintro rfl
        rcases List.mem_cons.1 (hp ▸ hlinked.prev_mem ha) with h | h
        · exact hn.ne_pool hy h
        · exact hne (hn.same f' s' f s y hy h)
      · rintro rfl
        rcases hnext ▸ hlinked.next_mem (List.mem_cons_of_mem _ ha) with h | h
        · exact hn.ne_pool hy h
        · exact hne (hn.same f' s' f s y hy h)
    refine (hi.linked f' hf' s' hs').congr (fun y hy => ?_) fun y hy => ?_
    · rcases List.mem_cons.1 hy with rfl | hy
      · rw [nextOf, nextOf, if_pos rfl, if_pos rfl, hhead f' hf' s' hs',
          if_neg fun h => hne ⟨h.1, h.2.1⟩]
      · rw [nextOf, nextOf, if_neg (hn.ne_pool hy), if_neg (hn.ne_pool hy), hnext' _ _ y hy,
          if_neg (hother y hy).1]
    · rw [prevOf, prevOf, hprev' _ _ y hy, if_neg (hother y hy).2]

/-- The lists after stores to their links: `a` is before `c`, the first node so far. -/
theorem Indexed.linked_insert (hi : Indexed m pool L) (hn : Nodes pool L) (hf : f < 24) (hs : s < 32)
    (ha : ∀ f' s', a ∉ L f' s') (hapool : a ≠ pool) {c : Nat} (hc : c = nextOf m pool f s pool)
    (hprev' : ∀ f' s', ∀ y ∈ L f' s', ptr m' (y + 12) = if y = c then a else ptr m (y + 12))
    (hnext' : ∀ f' s', ∀ y ∈ L f' s', ptr m' (y + 8) = ptr m (y + 8))
    (haprev : ptr m' (a + 12) = pool) (hanext : ptr m' (a + 8) = c)
    (hhead : ∀ f' < 24, ∀ s' < 32, ptr m' (blocks pool f' s') =
      if f' = f ∧ s' = s then a else ptr m (blocks pool f' s'))
    {f' s' : Nat} (hf' : f' < 24) (hs' : s' < 32) :
    Linked (nextOf m' pool f' s') (prevOf m') pool pool (insertAt L f s a f' s') := by
  have hlinked := hi.linked f hf s hs
  have hcmem : c = pool ∨ c ∈ L f s := hc ▸ hlinked.next_mem List.mem_cons_self
  unfold insertAt
  split
  · obtain ⟨rfl, rfl⟩ := ‹f' = f ∧ s' = s›
    have hac : a ≠ c := by
      rcases hcmem with rfl | h
      · exact hapool
      · exact fun he => ha f' s' (he ▸ h)
    have hnew : a ∉ pool :: L f' s' := fun h => (List.mem_cons.1 h).elim hapool (ha f' s')
    refine (hlinked.insert hn.nodup_cons hn.pool_not_mem hnew hapool).congr (fun y hy => ?_) fun y hy => ?_
    · rw [← hc]
      rcases List.mem_cons.1 hy with rfl | hy
      · rw [nextOf, if_pos rfl, hhead f' hf' s' hs', if_pos ⟨rfl, rfl⟩, Function.update_self]
      · rcases List.mem_cons.1 hy with rfl | hy
        · rw [nextOf, if_neg hapool, hanext, Function.update_of_ne hapool, Function.update_self]
        · have hya : y ≠ a := ne_of_mem_of_not_mem hy (ha f' s')
          rw [nextOf, if_neg (hn.ne_pool hy), hnext' _ _ y hy, Function.update_of_ne (hn.ne_pool hy),
            Function.update_of_ne hya, nextOf, if_neg (hn.ne_pool hy)]
    · rw [← hc]
      rcases List.mem_cons.1 hy with rfl | hy
      · rw [prevOf, haprev, Function.update_of_ne hac, Function.update_self]
      · have hya : y ≠ a := ne_of_mem_of_not_mem hy (ha f' s')
        rw [prevOf, hprev' _ _ y hy]
        by_cases hyc : y = c
        · rw [if_pos hyc, hyc, Function.update_self]
        · rw [if_neg hyc, Function.update_of_ne hyc, Function.update_of_ne hya, prevOf]
  · rename_i hne
    refine (hi.linked f' hf' s' hs').congr (fun y hy => ?_) fun y hy => ?_
    · rcases List.mem_cons.1 hy with rfl | hy
      · rw [nextOf, nextOf, if_pos rfl, if_pos rfl, hhead f' hf' s' hs', if_neg hne]
      · rw [nextOf, nextOf, if_neg (hn.ne_pool hy), if_neg (hn.ne_pool hy), hnext' _ _ y hy]
    · have hyc : y ≠ c := by
        rintro rfl
        rcases hcmem with h | h
        · exact hn.ne_pool hy h
        · exact hne (hn.same f' s' f s y hy h)
      rw [prevOf, prevOf, hprev' _ _ y hy, if_neg hyc]

/-! ## The bitmaps -/

/-- The bitmaps after a change of list `f`, `s`: its own bits are right, and the others stay. -/
theorem Indexed.bits (hi : Indexed m pool L) (m' : Mem) {L' : Nat → Nat → List Nat}
    (hL : ∀ f' s', ¬(f' = f ∧ s' = s) → L' f' s' = L f' s')
    (hsl : ∀ f' < 24, ∀ s' < 32, ¬(f' = f ∧ s' = s) →
      (load32 m' (slBitmap pool f')).getLsbD s' = (load32 m (slBitmap pool f')).getLsbD s')
    (hsl' : (load32 m' (slBitmap pool f)).getLsbD s = true ↔ L' f s ≠ [])
    (hfl : ∀ f' < 32, f' ≠ f → (load32 m' (flBitmap pool)).getLsbD f' = (load32 m (flBitmap pool)).getLsbD f')
    (hfl' : (load32 m' (flBitmap pool)).getLsbD f = true ↔ f < 24 ∧ load32 m' (slBitmap pool f) ≠ 0) :
    (∀ f' < 24, ∀ s' < 32, (load32 m' (slBitmap pool f')).getLsbD s' = true ↔ L' f' s' ≠ []) ∧
    ∀ f' < 32, (load32 m' (flBitmap pool)).getLsbD f' = true ↔ f' < 24 ∧ load32 m' (slBitmap pool f') ≠ 0 := by
  constructor
  · intro f' hf' s' hs'
    by_cases hsame : f' = f ∧ s' = s
    · rw [hsame.1, hsame.2]
      exact hsl'
    · rw [hsl f' hf' s' hs' hsame, hL f' s' hsame]
      exact hi.slBits f' hf' s' hs'
  · intro f' hf'
    by_cases hsame : f' = f
    · rw [hsame]
      exact hfl'
    · rw [hfl f' hf' hsame, hi.flBits f' hf']
      refine and_congr_right fun h24 => ?_
      rw [ne_zero_iff, ne_zero_iff]
      refine exists_congr fun i => and_congr_right fun hi32 => ?_
      rw [hsl f' h24 i hi32 fun h => hsame h.1]

/-- **The bits of a list that is empty now** are cleared. -/
theorem clearBits_spec (hi : Indexed m pool L) (hf : f < 24) (hs : s < 32) (hnot : L f s ≠ [])
    {L' : Nat → Nat → List Nat} (hL : ∀ f' s', ¬(f' = f ∧ s' = s) → L' f' s' = L f' s') (hnil : L' f s = [])
    (hsame : ∀ x, pool + 16 ≤ x → x + 4 ≤ pool + 116 → load32 m' x = load32 m x) :
    (∀ f' < 24, ∀ s' < 32, (load32 (clearBits m' pool f s) (slBitmap pool f')).getLsbD s' = true ↔
      L' f' s' ≠ []) ∧
    ∀ f' < 32, (load32 (clearBits m' pool f s) (flBitmap pool)).getLsbD f' = true ↔
      f' < 24 ∧ load32 (clearBits m' pool f s) (slBitmap pool f') ≠ 0 := by
  have hslw : ∀ f' < 24, load32 m' (slBitmap pool f') = load32 m (slBitmap pool f') := fun f' hf' =>
    hsame _ (by rw [slBitmap_eq]; omega) (by rw [slBitmap_eq]; omega)
  have hflw : load32 m' (flBitmap pool) = load32 m (flBitmap pool) :=
    hsame _ (by rw [flBitmap_eq]) (by rw [flBitmap_eq]; omega)
  have hflf : (load32 m (flBitmap pool)).getLsbD f = true := by
    refine (hi.flBits f (by omega)).2 ⟨hf, ne_zero_iff.2 ⟨s, hs, (hi.slBits f hf s hs).2 hnot⟩⟩
  -- the words of the bitmaps afterwards
  have hsl : ∀ f' < 24, load32 (clearBits m' pool f s) (slBitmap pool f') =
      if f' = f then load32 m (slBitmap pool f) &&& ~~~(1#32 <<< s) else load32 m (slBitmap pool f') := by
    intro f' hf'
    have hstore : load32 (store32 m' (slBitmap pool f) (load32 m' (slBitmap pool f) &&& ~~~(1#32 <<< s)))
        (slBitmap pool f') = if f' = f then load32 m (slBitmap pool f) &&& ~~~(1#32 <<< s) else
          load32 m (slBitmap pool f') := by
      split
      · next h => rw [h, load32_store32, hslw f hf]
      · next h => rw [load32_store32_of_disjoint (by rw [slBitmap_eq, slBitmap_eq]; omega), hslw f' hf']
    unfold clearBits
    simp only
    split
    · rw [load32_store32_of_disjoint (by rw [slBitmap_eq, flBitmap_eq]; omega)]
      exact hstore
    · exact hstore
  have hfl : load32 (clearBits m' pool f s) (flBitmap pool) =
      if load32 m (slBitmap pool f) &&& ~~~(1#32 <<< s) = 0 then
        load32 m (flBitmap pool) &&& ~~~(1#32 <<< f) else load32 m (flBitmap pool) := by
    have hapart : ∀ w, load32 (store32 m' (slBitmap pool f) w) (flBitmap pool) = load32 m (flBitmap pool) :=
      fun w => by rw [load32_store32_of_disjoint (by rw [slBitmap_eq, flBitmap_eq]; omega), hflw]
    unfold clearBits
    simp only [load32_store32, hslw f hf]
    split
    · rw [load32_store32, hapart]
    · exact hapart _
  refine hi.bits _ hL (fun f' hf' s' hs' hne => ?_) ?_ (fun f' hf' hne => ?_) ?_
  · rw [hsl f' hf']
    split
    · next h =>
      have hs'' : s' ≠ s := fun h' => hne ⟨h, h'⟩
      rw [getLsbD_and_not_bit hs', decide_eq_false hs'', h]
      simp
    · rfl
  · rw [hsl f hf, if_pos rfl, getLsbD_and_not_bit hs, hnil]
    simp
  · rw [hfl]
    split
    · rw [getLsbD_and_not_bit hf', decide_eq_false hne]
      simp
    · rfl
  · rw [hfl, hsl f hf, if_pos rfl]
    split
    · next h =>
      rw [getLsbD_and_not_bit (by omega), h]
      simp
    · next h => exact iff_of_true hflf ⟨hf, h⟩

/-! ## Taking a block out -/

/-- What `clearBits` leaves alone. -/
theorem clearBits_apply {x : Nat} (hf : f < 24) (hx : x < pool + 16 ∨ pool + 116 ≤ x) :
    clearBits m pool f s x = m x := by
  unfold clearBits
  split
  · rw [store32_apply (by rw [flBitmap_eq]; omega), store32_apply (by rw [slBitmap_eq]; omega)]
  · rw [store32_apply (by rw [slBitmap_eq]; omega)]

theorem ptr_clearBits {x : Nat} (hf : f < 24) (hx : x + 4 ≤ pool + 16 ∨ pool + 116 ≤ x) :
    ptr (clearBits m pool f s) x = ptr m x := by
  rw [ptr, ptr, load32, load32, readLE_congr fun y h1 h2 => clearBits_apply hf (by omega)]

/-- **`remove_free_block`** takes the block out of its list. -/
theorem removeFreeBlock_spec (hi : Indexed m pool L) (hn : Nodes pool L) (hf : f < 24) (hs : s < 32)
    (ha : a ∈ L f s) : ∃ m', removeFreeBlock m pool a f s = some m' ∧ Indexed m' pool (eraseAt L f s a) ∧
      LinkFrame m m' pool fun y => ∃ f' s', y ∈ L f' s' := by
  have hlinked := hi.linked f hf s hs
  have hpool32 := hn.pool_lt ha
  obtain ⟨p, hp⟩ : ∃ p, p = prevOf m a := ⟨_, rfl⟩
  obtain ⟨n, hnext⟩ : ∃ n, n = nextOf m pool f s a := ⟨_, rfl⟩
  have hpmem : p = pool ∨ p ∈ L f s := List.mem_cons.1 (hp ▸ hlinked.prev_mem ha)
  have hnmem : n = pool ∨ n ∈ L f s := hnext ▸ hlinked.next_mem (List.mem_cons_of_mem _ ha)
  -- the null block and the nodes are apart
  have hcell : ∀ z, z = pool ∨ z ∈ L f s → ∀ f' s' y, y ∈ L f' s' → y = z ∨ y + 16 ≤ z ∨ z + 16 ≤ y := by
    rintro z (rfl | hz) f' s' y hy
    · have := hn.lo f' s' y hy
      omega
    · exact hn.apart f' s' y hy f s z hz
  have hbounds : ∀ z, z = pool ∨ z ∈ L f s → 0 < z ∧ z < 2 ^ 32 ∧ (z + 16 ≤ pool + 16 ∨ pool + 3184 ≤ z) := by
    have := hn.pos
    rintro z (rfl | hz)
    · omega
    · have := hn.lo f s z hz
      have := hn.hi f s z hz
      omega
  obtain ⟨hp0, hp32, hpin⟩ := hbounds p hpmem
  obtain ⟨hn0, hn32, hnin⟩ := hbounds n hnmem
  have hpn : p = n ∨ p + 16 ≤ n ∨ n + 16 ≤ p := by
    rcases hpmem with h | h
    · rcases hnmem with h' | h'
      · exact Or.inl (h.trans h'.symm)
      · have := hn.lo f s n h'
        omega
    · exact hcell n hnmem f s p h
  obtain ⟨m₂, hm₂⟩ : ∃ m₂, m₂ = setPtr (setPtr m (n + 12) p) (p + 8) n := ⟨_, rfl⟩
  have h12 : ∀ f' s', ∀ y ∈ L f' s', ptr m₂ (y + 12) = if y = n then p else ptr m (y + 12) := by
    intro f' s' y hy
    have hyp := hcell p hpmem f' s' y hy
    have hyn := hcell n hnmem f' s' y hy
    rw [hm₂, ptr_setPtr_of_disjoint (by omega)]
    split
    · next h => rw [h, ptr_setPtr hp32]
    · rw [ptr_setPtr_of_disjoint (by omega)]
  have h8 : ∀ f' s', ∀ y ∈ L f' s', ptr m₂ (y + 8) = if y = p then n else ptr m (y + 8) := by
    intro f' s' y hy
    have hyp := hcell p hpmem f' s' y hy
    have hyn := hcell n hnmem f' s' y hy
    split
    · next h => rw [hm₂, h, ptr_setPtr hn32]
    · rw [hm₂, ptr_setPtr_of_disjoint (by omega), ptr_setPtr_of_disjoint (by omega)]
  have hfix : ∀ x, pool + 16 ≤ x → x + 4 ≤ pool + 3188 → load32 m₂ x = load32 m x := by
    intro x h1 h2
    rw [hm₂, load32_setPtr (by omega), load32_setPtr (by omega)]
  have hframe : LinkFrame m m₂ pool fun y => ∃ f' s', y ∈ L f' s' := by
    intro x hx hy
    have hz : ∀ z, z = pool ∨ z ∈ L f s → x < z + 8 ∨ z + 16 ≤ x := by
      rintro z (rfl | hz)
      · omega
      · exact hy z ⟨f, s, hz⟩
    have := hz p hpmem
    have := hz n hnmem
    rw [hm₂, setPtr_apply (by omega), setPtr_apply (by omega)]
  have hheads : ∀ f' < 24, ∀ s' < 32, ptr m₂ (blocks pool f' s') = ptr m (blocks pool f' s') :=
    fun f' hf' s' hs' => by
      rw [ptr, ptr, hfix _ (by rw [blocks_eq]; omega) (by rw [blocks_eq]; omega)]
  have hhead : ptr m₂ (blocks pool f s) = a ↔ p = pool := by
    rw [hheads f hf s hs, hp, hlinked.prev_eq_start hn.pool_not_mem ha, nextOf, if_pos rfl]
  have hrun : removeFreeBlock m pool a f s = if ptr m₂ (blocks pool f s) = a then
      some (if n = pool then clearBits (setPtr m₂ (blocks pool f s) n) pool f s else
        setPtr m₂ (blocks pool f s) n) else some m₂ := by
    have hpa : ptr m (a + 12) = p := hp.symm
    have hna : ptr m (a + 8) = n := by rw [hnext, nextOf, if_neg (hn.ne_pool ha)]
    simp only [removeFreeBlock, prevFree_eq, nextFree_eq, hpa, hna, tlsfAssert, blockNull,
      if_pos (Nat.ne_of_gt hp0), if_pos (Nat.ne_of_gt hn0), Option.bind_eq_bind, Option.bind_some,
      Option.pure_def, ← hm₂]
  have hL : ∀ f' s', ¬(f' = f ∧ s' = s) → eraseAt L f s a f' s' = L f' s' := fun f' s' h => if_neg h
  have hne : L f s ≠ [] := List.ne_nil_of_mem ha
  by_cases hpool : p = pool
  · -- the first block of its list
    have hheads' : ∀ f' < 24, ∀ s' < 32, ptr (setPtr m₂ (blocks pool f s) n) (blocks pool f' s') =
        if f' = f ∧ s' = s ∧ p = pool then n else ptr m (blocks pool f' s') := by
      intro f' hf' s' hs'
      split
      · next h => rw [h.1, h.2.1, ptr_setPtr hn32]
      · next h =>
        have hother : ¬(f' = f ∧ s' = s) := fun h' => h ⟨h'.1, h'.2, hpool⟩
        rw [ptr_setPtr_of_disjoint (by rw [blocks_eq, blocks_eq]; omega), hheads f' hf' s' hs']
    have hlist : ∀ (m' : Mem), (∀ x, pool + 116 ≤ x → ptr m' x = ptr (setPtr m₂ (blocks pool f s) n) x) →
        ∀ f' < 24, ∀ s' < 32, Linked (nextOf m' pool f' s') (prevOf m') pool pool (eraseAt L f s a f' s') := by
      intro m' hm' f' hf' s' hs'
      refine hi.linked_erase hn hf hs ha hp hnext (fun f' s' y hy => ?_) (fun f' s' y hy => ?_)
        (fun f' hf' s' hs' => ?_) hf' hs'
      · have := hn.lo f' s' y hy
        rw [hm' _ (by omega), ptr_setPtr_of_disjoint (by rw [blocks_eq]; omega), h12 f' s' y hy]
      · have := hn.lo f' s' y hy
        rw [hm' _ (by omega), ptr_setPtr_of_disjoint (by rw [blocks_eq]; omega), h8 f' s' y hy]
      · rw [hm' _ (by rw [blocks_eq]; omega), hheads' f' hf' s' hs']
    -- the list is empty when its first block had none after it
    have hnil : ∀ (m' : Mem), (∀ x, pool + 116 ≤ x → ptr m' x = ptr (setPtr m₂ (blocks pool f s) n) x) →
        (eraseAt L f s a f s = [] ↔ n = pool) := by
      intro m' hm'
      have hnot : pool ∉ eraseAt L f s a f s := by
        rw [eraseAt, if_pos ⟨rfl, rfl⟩]
        exact fun h => hn.pool_not_mem (List.mem_of_mem_erase h)
      rw [(hlist m' hm' f hf s hs).eq_nil_iff hnot, nextOf, if_pos rfl, hm' _ (by rw [blocks_eq]; omega),
        hheads' f hf s hs, if_pos ⟨rfl, rfl, hpool⟩]
    rw [if_pos (hhead.2 hpool)] at hrun
    have hsame : ∀ x, pool + 16 ≤ x → x + 4 ≤ pool + 116 →
        load32 (setPtr m₂ (blocks pool f s) n) x = load32 m x := fun x h1 h2 => by
      rw [load32_setPtr (by rw [blocks_eq]; omega), hfix x h1 (by omega)]
    by_cases hnpool : n = pool
    · rw [if_pos hnpool] at hrun
      have hptr : ∀ x, pool + 116 ≤ x → ptr (clearBits (setPtr m₂ (blocks pool f s) n) pool f s) x =
          ptr (setPtr m₂ (blocks pool f s) n) x := fun x hx => ptr_clearBits hf (Or.inr hx)
      obtain ⟨hsl, hfl⟩ := clearBits_spec hi hf hs hne hL ((hnil _ hptr).2 hnpool) hsame
      refine ⟨_, hrun, ⟨hlist _ hptr, hsl, hfl⟩, fun x hx hy => ?_⟩
      rw [clearBits_apply hf (by omega), setPtr_apply (by rw [blocks_eq]; omega), hframe x hx hy]
    · rw [if_neg hnpool] at hrun
      have hptr : ∀ x, pool + 116 ≤ x → ptr (setPtr m₂ (blocks pool f s) n) x =
          ptr (setPtr m₂ (blocks pool f s) n) x := fun _ _ => rfl
      have hslw : ∀ f' < 24, load32 (setPtr m₂ (blocks pool f s) n) (slBitmap pool f') =
          load32 m (slBitmap pool f') := fun f' hf' =>
        hsame _ (by rw [slBitmap_eq]; omega) (by rw [slBitmap_eq]; omega)
      have hflw : load32 (setPtr m₂ (blocks pool f s) n) (flBitmap pool) = load32 m (flBitmap pool) :=
        hsame _ (by rw [flBitmap_eq]) (by rw [flBitmap_eq]; omega)
      obtain ⟨hsl, hfl⟩ := hi.bits (setPtr m₂ (blocks pool f s) n) hL
        (fun f' hf' s' _ _ => by rw [hslw f' hf'])
        (by rw [hslw f hf, hi.slBits f hf s hs]; exact iff_of_true hne fun h => hnpool ((hnil _ hptr).1 h))
        (fun _ _ _ => by rw [hflw]) (by rw [hflw, hslw f hf]; exact hi.flBits f (by omega))
      refine ⟨_, hrun, ⟨hlist _ hptr, hsl, hfl⟩, fun x hx hy => ?_⟩
      rw [setPtr_apply (by rw [blocks_eq]; omega), hframe x hx hy]
  · -- there is a block before it
    rw [if_neg fun h => hpool (hhead.1 h)] at hrun
    have hlist : ∀ f' < 24, ∀ s' < 32,
        Linked (nextOf m₂ pool f' s') (prevOf m₂) pool pool (eraseAt L f s a f' s') :=
      fun f' hf' s' hs' => hi.linked_erase hn hf hs ha hp hnext h12 h8
        (fun f' hf' s' hs' => by rw [if_neg fun h => hpool h.2.2, hheads f' hf' s' hs']) hf' hs'
    have hne' : eraseAt L f s a f s ≠ [] := by
      have hpa : p ≠ a := hp ▸ hlinked.prev_ne hn.nodup_cons ha
      rw [eraseAt, if_pos ⟨rfl, rfl⟩]
      exact List.ne_nil_of_mem ((List.mem_erase_of_ne hpa).2 (hpmem.resolve_left hpool))
    have hslw : ∀ f' < 24, load32 m₂ (slBitmap pool f') = load32 m (slBitmap pool f') := fun f' hf' =>
      hfix _ (by rw [slBitmap_eq]; omega) (by rw [slBitmap_eq]; omega)
    have hflw : load32 m₂ (flBitmap pool) = load32 m (flBitmap pool) :=
      hfix _ (by rw [flBitmap_eq]) (by rw [flBitmap_eq]; omega)
    obtain ⟨hsl, hfl⟩ := hi.bits m₂ hL (fun f' hf' s' _ _ => by rw [hslw f' hf'])
      (by rw [hslw f hf, hi.slBits f hf s hs]; exact iff_of_true hne hne')
      (fun _ _ _ => by rw [hflw]) (by rw [hflw, hslw f hf]; exact hi.flBits f (by omega))
    exact ⟨m₂, hrun, ⟨hlist, hsl, hfl⟩, hframe⟩

/-! ## Putting a block in -/

/-- **`insert_free_block`** puts the block at the front of its list. -/
theorem insertFreeBlock_spec (hi : Indexed m pool L) (hn : Nodes pool L) (hpool : pool + 3188 ≤ 2 ^ 32)
    (hf : f < 24) (hs : s < 32) (hlo : pool + 3184 ≤ a) (h32 : a + 16 < 2 ^ 32) (h4 : a % 4 = 0)
    (hapart : ∀ f' s', ∀ y ∈ L f' s', y + 16 ≤ a ∨ a + 16 ≤ y) :
    ∃ m', insertFreeBlock m pool a f s = some m' ∧ Indexed m' pool (insertAt L f s a) ∧
      LinkFrame m m' pool fun y => y = a ∨ ∃ f' s', y ∈ L f' s' := by
  have hlinked := hi.linked f hf s hs
  have hpos := hn.pos
  obtain ⟨c, hc⟩ : ∃ c, c = nextOf m pool f s pool := ⟨_, rfl⟩
  have hcmem : c = pool ∨ c ∈ L f s := hc ▸ hlinked.next_mem List.mem_cons_self
  have hcell : ∀ f' s' y, y ∈ L f' s' → y = c ∨ y + 16 ≤ c ∨ c + 16 ≤ y := by
    intro f' s' y hy
    rcases hcmem with h | h
    · have := hn.lo f' s' y hy
      omega
    · exact hn.apart f' s' y hy f s c h
  have hca : (c = pool ∨ pool + 3184 ≤ c) ∧ 0 < c ∧ (c + 16 ≤ a ∨ a + 16 ≤ c) := by
    rcases hcmem with h | h
    · omega
    · have := hn.lo f s c h
      have := hapart f s c h
      omega
  obtain ⟨hcin, hc0, hca⟩ := hca
  obtain ⟨m₁, hm₁⟩ : ∃ m₁, m₁ = setPtr (setPtr (setPtr m (a + 8) c) (a + 12) pool) (c + 12) a := ⟨_, rfl⟩
  obtain ⟨m₂, hm₂⟩ : ∃ m₂, m₂ = setPtr m₁ (blocks pool f s) a := ⟨_, rfl⟩
  obtain ⟨m₃, hm₃⟩ : ∃ m₃, m₃ = store32 m₂ (flBitmap pool) (load32 m₂ (flBitmap pool) ||| 1#32 <<< f) :=
    ⟨_, rfl⟩
  obtain ⟨m₄, hm₄⟩ : ∃ m₄, m₄ = store32 m₃ (slBitmap pool f) (load32 m₃ (slBitmap pool f) ||| 1#32 <<< s) :=
    ⟨_, rfl⟩
  have hrun : insertFreeBlock m pool a f s = some m₄ := by
    have hhead : ptr m (blocks pool f s) = c := by rw [hc, nextOf, if_pos rfl]
    have hptr : blockToPtr a = a + 8 := Word.add32_of_lt (show a + 8 < 2 ^ 32 by omega)
    have halign : alignPtr (a + 8) alignSize = some (a + 8) := alignPtr_of_aligned (by omega) (by omega)
    simp only [insertFreeBlock, hhead, prevFree_eq, nextFree_eq, blockNull, tlsfAssert,
      if_pos (Nat.ne_of_gt hc0), if_pos (show a ≠ 0 by omega), Option.bind_eq_bind, Option.bind_some,
      Option.pure_def, hptr, halign, if_true, ← hm₁, ← hm₂, ← hm₃, ← hm₄]
  -- outside the bitmaps, and the words of the bitmaps
  have hptr : ∀ x, pool + 116 ≤ x → ptr m₄ x = ptr m₂ x := fun x hx => by
    rw [hm₄, ptr_store32_of_disjoint (by rw [slBitmap_eq]; omega), hm₃,
      ptr_store32_of_disjoint (by rw [flBitmap_eq]; omega)]
  have hfix : ∀ x, pool + 16 ≤ x → x + 4 ≤ pool + 116 → load32 m₂ x = load32 m x := fun x h1 h2 => by
    rw [hm₂, load32_setPtr (by rw [blocks_eq]; omega), hm₁, load32_setPtr (by omega),
      load32_setPtr (by omega), load32_setPtr (by omega)]
  have hslw : ∀ f' < 24, load32 m₄ (slBitmap pool f') = if f' = f then
      load32 m (slBitmap pool f) ||| 1#32 <<< s else load32 m (slBitmap pool f') := by
    intro f' hf'
    have hm : ∀ f' < 24, load32 m₃ (slBitmap pool f') = load32 m (slBitmap pool f') := fun f' hf' => by
      rw [hm₃, load32_store32_of_disjoint (by rw [slBitmap_eq, flBitmap_eq]; omega),
        hfix _ (by rw [slBitmap_eq]; omega) (by rw [slBitmap_eq]; omega)]
    split
    · next h => rw [h, hm₄, load32_store32, hm f hf]
    · rw [hm₄, load32_store32_of_disjoint (by rw [slBitmap_eq, slBitmap_eq]; omega), hm f' hf']
  have hflw : load32 m₄ (flBitmap pool) = load32 m (flBitmap pool) ||| 1#32 <<< f := by
    rw [hm₄, load32_store32_of_disjoint (by rw [slBitmap_eq, flBitmap_eq]; omega), hm₃, load32_store32,
      hfix _ (by rw [flBitmap_eq]) (by rw [flBitmap_eq]; omega)]
  have hother : ∀ f' s', ¬(f' = f ∧ s' = s) → insertAt L f s a f' s' = L f' s' := fun f' s' h => if_neg h
  obtain ⟨hsl, hfl⟩ := hi.bits m₄ hother
    (fun f' hf' s' hs' hne => by
      rw [hslw f' hf']
      split
      · next h => rw [getLsbD_or_bit hs', decide_eq_false fun h' => hne ⟨h, h'⟩, Bool.or_false, h]
      · rfl)
    (by
      rw [hslw f hf, if_pos rfl, getLsbD_or_bit hs]
      simp [insertAt])
    (fun f' hf' hne => by rw [hflw, getLsbD_or_bit hf', decide_eq_false hne, Bool.or_false])
    (by
      rw [hflw, getLsbD_or_bit (by omega), hslw f hf, if_pos rfl, ne_zero_iff]
      refine iff_of_true (by simp) ⟨hf, s, hs, ?_⟩
      rw [getLsbD_or_bit hs]
      simp)
  refine ⟨m₄, hrun, ⟨fun f' hf' s' hs' => ?_, hsl, hfl⟩, fun x hx hy => ?_⟩
  · refine hi.linked_insert hn hf hs (fun f' s' h => ?_) (by omega) hc (fun f' s' y hy => ?_)
      (fun f' s' y hy => ?_) ?_ ?_ (fun f' hf' s' hs' => ?_) hf' hs'
    · have := hapart f' s' a h
      omega
    · have := hn.lo f' s' y hy
      have := hcell f' s' y hy
      have := hapart f' s' y hy
      rw [hptr _ (by omega), hm₂, ptr_setPtr_of_disjoint (by rw [blocks_eq]; omega), hm₁]
      split
      · next h => rw [h, ptr_setPtr (by omega)]
      · rw [ptr_setPtr_of_disjoint (by omega), ptr_setPtr_of_disjoint (by omega),
          ptr_setPtr_of_disjoint (by omega)]
    · have := hn.lo f' s' y hy
      have := hcell f' s' y hy
      have := hapart f' s' y hy
      rw [hptr _ (by omega), hm₂, ptr_setPtr_of_disjoint (by rw [blocks_eq]; omega), hm₁,
        ptr_setPtr_of_disjoint (by omega), ptr_setPtr_of_disjoint (by omega),
        ptr_setPtr_of_disjoint (by omega)]
    · rw [hptr _ (by omega), hm₂, ptr_setPtr_of_disjoint (by rw [blocks_eq]; omega), hm₁,
        ptr_setPtr_of_disjoint (by omega), ptr_setPtr (by omega)]
    · have hc32 : c < 2 ^ 32 := by
        rw [hc, nextOf, if_pos rfl]
        exact ptr_lt ..
      rw [hptr _ (by omega), hm₂, ptr_setPtr_of_disjoint (by rw [blocks_eq]; omega), hm₁,
        ptr_setPtr_of_disjoint (by omega), ptr_setPtr_of_disjoint (by omega), ptr_setPtr hc32]
    · rw [hptr _ (by rw [blocks_eq]; omega), hm₂]
      split
      · next h => rw [h.1, h.2, ptr_setPtr (by omega)]
      · rw [ptr_setPtr_of_disjoint (by rw [blocks_eq, blocks_eq]; omega), hm₁,
          ptr_setPtr_of_disjoint (by rw [blocks_eq]; omega), ptr_setPtr_of_disjoint (by rw [blocks_eq]; omega),
          ptr_setPtr_of_disjoint (by rw [blocks_eq]; omega)]
  · have hxa := hy a (Or.inl rfl)
    have hxc : x < c + 8 ∨ c + 16 ≤ x := by
      rcases hcmem with h | h
      · omega
      · exact hy c (Or.inr ⟨f, s, h⟩)
    rw [hm₄, store32_apply (by rw [slBitmap_eq]; omega), hm₃, store32_apply (by rw [flBitmap_eq]; omega), hm₂,
      setPtr_apply (by rw [blocks_eq]; omega), hm₁, setPtr_apply (by omega), setPtr_apply (by omega),
      setPtr_apply (by omega)]

/-! ## The search -/

/-- The bits of a word from `i` on. -/
theorem getLsbD_and_mask {w : BitVec 32} {i j : Nat} (hj : j < 32) :
    (w &&& (BitVec.allOnes 32 <<< i)).getLsbD j = (w.getLsbD j && decide (i ≤ j)) := by
  rw [BitVec.getLsbD_and, BitVec.getLsbD_shiftLeft, BitVec.getLsbD_allOnes, decide_eq_true hj, Bool.true_and]
  congr 1
  rw [Bool.eq_iff_iff]
  simp
  omega

theorem firstBlock_spec (hi : Indexed m pool L) (hf : f < 24) {w : BitVec 32} (hw : w ≠ 0)
    (hbits : ∀ i < 32, w.getLsbD i = true → L f i ≠ []) :
    ∃ s' < 32, ∃ a l, firstBlock m pool f w = some (a, f, s') ∧ L f s' = a :: l ∧ w.getLsbD s' = true := by
  obtain ⟨i, hffs, hi32, hbit, -⟩ := tlsfFfs_spec hw
  obtain ⟨a, l, hal⟩ := List.exists_cons_of_ne_nil (hbits i hi32 hbit)
  have hhead := (hi.linked f hf i hi32).next_start
  rw [hal, List.headD_cons, nextOf, if_pos rfl] at hhead
  refine ⟨i, hi32, a, l, ?_, hal, hbit⟩
  simp only [firstBlock, tlsfAssert, if_pos hw, Option.bind_eq_bind, Option.bind_some, Option.pure_def, hffs,
    Int.toNat_natCast, hhead]

/-- **`search_suitable_block`** finds a block in a list from the given one on, or there is none. -/
theorem searchSuitableBlock_spec (hi : Indexed m pool L) (hf : f < 24) (hs : s < 32) :
    (searchSuitableBlock m pool f s = some (0, f, s) ∧
      ∀ f' < 24, ∀ s' < 32, key (f, s) ≤ key (f', s') → L f' s' = []) ∨
    ∃ f' < 24, ∃ s' < 32, ∃ a l, searchSuitableBlock m pool f s = some (a, f', s') ∧ L f' s' = a :: l ∧
      key (f, s) ≤ key (f', s') := by
  have hkey : ∀ f s : Nat, key (f, s) = 32 * f + s := fun _ _ => rfl
  unfold searchSuitableBlock
  simp only
  split
  · next hsl =>
    have hrow : ∀ s' < 32, s ≤ s' → L f s' = [] := by
      intro s' hs' hle
      by_contra hne
      have hbit := congrArg (fun w => w.getLsbD s') hsl
      simp only [getLsbD_and_mask hs', (hi.slBits f hf s' hs').2 hne, hle] at hbit
      simp at hbit
    split
    · next hfl =>
      refine Or.inl ⟨rfl, fun f' hf' s' hs' hle => ?_⟩
      rw [hkey, hkey] at hle
      rcases Nat.lt_trichotomy f' f with h | rfl | h
      · omega
      · exact hrow s' hs' (by omega)
      · by_contra hne
        have hbit := congrArg (fun w => w.getLsbD f') hfl
        have hset := (hi.flBits f' (by omega)).2
          ⟨hf', ne_zero_iff.2 ⟨s', hs', (hi.slBits f' hf' s' hs').2 hne⟩⟩
        simp only [@getLsbD_and_mask _ _ f' (by omega), hset, show f + 1 ≤ f' from h] at hbit
        simp at hbit
    · next hfl =>
      obtain ⟨f', hffs, hf32, hbit, -⟩ := tlsfFfs_spec hfl
      rw [getLsbD_and_mask hf32, Bool.and_eq_true, decide_eq_true_eq] at hbit
      obtain ⟨hf', hne⟩ := (hi.flBits f' hf32).1 hbit.1
      obtain ⟨s', hs', a, l, hrun, hal, -⟩ := firstBlock_spec hi hf' hne fun i hi32 hb =>
        (hi.slBits f' hf' i hi32).1 hb
      refine Or.inr ⟨f', hf', s', hs', a, l, ?_, hal, ?_⟩
      · rw [hffs, Int.toNat_natCast, hrun]
      · rw [hkey, hkey]
        omega
  · next hsl =>
    obtain ⟨s', hs', a, l, hrun, hal, hbit⟩ := firstBlock_spec hi hf hsl fun i hi32 hb => by
      rw [getLsbD_and_mask hi32, Bool.and_eq_true] at hb
      exact (hi.slBits f hf i hi32).1 hb.1
    rw [getLsbD_and_mask hs', Bool.and_eq_true, decide_eq_true_eq] at hbit
    refine Or.inr ⟨f, hf, s', hs', a, l, hrun, hal, ?_⟩
    rw [hkey, hkey]
    omega

end

end Xmhf.Tlsf
