import Xmhf.Heap.Proof.FreeList
import Xmhf.Heap.Proof.Layout

/-!
# The heap with a window

`Window m pool stop pre mid post`: the pool is laid out as `pre ++ mid ++ post`, and the free lists hold the
free blocks of `pre` and `post`, each in the list of its size. An operation works on the blocks of `mid`,
which are in no list.

* `Window.removeLast`, `Window.removeNext`: `block_remove` moves a free block next to the window into it.
* `Window.insertFirst`, `Window.insertLast`: `block_insert` moves one out of it.
* `Window.replace`: other blocks in the window.
* `Keeps`: the contents of blocks in use, and memory outside the pool, do not change.
-/

namespace Xmhf.Tlsf

open Xmhf.Memory Xmhf.Extent

/-- The bytes that belong to the users of the blocks, and those outside the pool. -/
def Untouched (pool stop : Nat) (bs : List Block) (x : Nat) : Prop :=
  x < pool ∨ stop + 8 ≤ x ∨ ∃ b ∈ bs, b.free = false ∧ b.addr + 8 ≤ x ∧ x < b.next + 4

/-- What the users have in memory stays. -/
def Keeps (m m' : Mem) (pool stop : Nat) (bs : List Block) : Prop :=
  ∀ x, Untouched pool stop bs x → m' x = m x

section
variable {m m' m'' : Mem} {pool stop : Nat} {bs bs' : List Block}

theorem Keeps.refl (m : Mem) (pool stop : Nat) (bs : List Block) : Keeps m m pool stop bs := fun _ _ => rfl

theorem Keeps.trans (h : Keeps m m' pool stop bs) (h' : Keeps m' m'' pool stop bs) :
    Keeps m m'' pool stop bs := fun x hx => (h' x hx).trans (h x hx)

theorem Keeps.mono (h : Keeps m m' pool stop bs) (hsub : ∀ b ∈ bs', b.free = false → b ∈ bs) :
    Keeps m m' pool stop bs' := by
  rintro x (hx | hx | ⟨b, hb, hfree, hin⟩)
  · exact h x (Or.inl hx)
  · exact h x (Or.inr (Or.inl hx))
  · exact h x (Or.inr (Or.inr ⟨b, hsub b hb hfree, hfree, hin⟩))

end

/-- The lists hold the free blocks of `S`, by their size. -/
structure Holds (L : Nat → Nat → List Nat) (S : Block → Prop) : Prop where
  nodup : ∀ f s, (L f s).Nodup
  mem : ∀ f s a, a ∈ L f s ↔ ∃ b, S b ∧ b.free = true ∧ b.addr = a ∧ mappingInsert b.size = (f, s)

/-- **The heap with a window** on the blocks `mid`. -/
structure Window (m : Mem) (pool stop : Nat) (pre mid post : List Block) : Prop where
  laid : Laid m pool stop (pre ++ mid ++ post)
  lists : ∃ L, Indexed m pool L ∧ Holds L fun b => b ∈ pre ∨ b ∈ post

variable {m m' : Mem} {pool stop : Nat} {bs pre mid mid' post : List Block} {b c : Block}
  {L : Nat → Nat → List Nat} {S S' : Block → Prop}

theorem Holds.congr (h : Holds L S) (hS : ∀ b, b.free = true → (S' b ↔ S b)) : Holds L S' where
  nodup := h.nodup
  mem f s a := by
    rw [h.mem]
    refine exists_congr fun b => ⟨fun ⟨h1, h2, h3⟩ => ⟨(hS b h2).2 h1, h2, h3⟩,
      fun ⟨h1, h2, h3⟩ => ⟨(hS b h2).1 h1, h2, h3⟩⟩

theorem Holds.nodes (h : Holds L S) (hlaid : Laid m pool stop bs) (hsub : ∀ b, S b → b ∈ bs) :
    Nodes pool L where
  pos := hlaid.pos
  lo f s x hx := by
    obtain ⟨b, hb, -, rfl, -⟩ := (h.mem f s x).1 hx
    exact (hlaid.facts (hsub b hb)).lo
  hi f s x hx := by
    obtain ⟨b, hb, -, rfl, -⟩ := (h.mem f s x).1 hx
    have hfacts := hlaid.facts (hsub b hb)
    have := hfacts.hi
    have := hfacts.min
    have := hfacts.stop_le
    omega
  apart f s x hx f' s' y hy := by
    obtain ⟨b, hb, -, rfl, -⟩ := (h.mem f s x).1 hx
    obtain ⟨c, hc, -, rfl, -⟩ := (h.mem f' s' y).1 hy
    have hbmin := (hlaid.facts (hsub b hb)).min
    have hcmin := (hlaid.facts (hsub c hc)).min
    have hapart := hlaid.apart (hsub b hb) (hsub c hc)
    unfold Block.next at hapart
    rcases hapart with rfl | hlt | hlt
    · exact Or.inl rfl
    · omega
    · omega
  same f s f' s' x hx hx' := by
    obtain ⟨b, hb, -, rfl, hmap⟩ := (h.mem f s x).1 hx
    obtain ⟨c, hc, -, haddr, hmap'⟩ := (h.mem f' s' b.addr).1 hx'
    rw [hlaid.eq_of_addr (hsub c hc) (hsub b hb) haddr, hmap] at hmap'
    exact ⟨congrArg Prod.fst hmap', congrArg Prod.snd hmap'⟩
  nodup := h.nodup

/-- The list of a block is inside the tables. -/
theorem Placed.list_lt (h : Placed pool stop b) :
    (mappingInsert b.size).1 < 24 ∧ (mappingInsert b.size).2 < 32 :=
  have h32 : b.size < 2 ^ 32 := Nat.lt_trans h.max (by decide)
  ⟨(mappingInsert_fst_lt_iff h32).2 h.max, mappingInsert_snd_lt h32⟩

theorem Laid.blockSize_eq (h : Laid m pool stop bs) (hb : b ∈ bs) : blockSize m b.addr = b.size := by
  obtain ⟨p, hw⟩ := h.exists_size hb
  have hfacts := h.facts hb
  exact blockSize_of hfacts.size_aligned hw (Nat.lt_trans hfacts.max (by decide))

theorem Laid.blockIsFree_iff (h : Laid m pool stop bs) (hb : b ∈ bs) :
    blockIsFree m b.addr ↔ b.free = true := by
  obtain ⟨p, hw⟩ := h.exists_size hb
  exact blockIsFree_of (h.facts hb).size_aligned hw

theorem Laid.blockNext_eq (h : Laid m pool stop bs) (hb : b ∈ bs) : blockNext m b.addr = some b.next := by
  obtain ⟨p, hw⟩ := h.exists_size hb
  have hfacts := h.facts hb
  have hmin := hfacts.min
  have hhi := hfacts.hi
  have hstop := hfacts.stop_le
  exact blockNext_of hfacts.size_aligned hw (by omega) (by omega)

/-! ## Changes of the lists -/

/-- An operation on the lists leaves the layout and the users' bytes alone. -/
theorem Laid.of_linkFrame (h : Laid m pool stop bs) {touched : Nat → Prop}
    (hframe : LinkFrame m m' pool touched)
    (ht : ∀ y, touched y → ∃ b ∈ bs, b.free = true ∧ b.addr = y) :
    Laid m' pool stop bs ∧ Keeps m m' pool stop bs := by
  have hfirst := h.first_le_stop
  have hload : ∀ a, pool + 3188 ≤ a → (∀ b ∈ bs, b.free = true → a + 4 ≤ b.addr + 8 ∨ b.addr + 16 ≤ a) →
      load32 m' a = load32 m a := by
    intro a ha hb
    rw [load32, load32, readLE_congr fun x h1 h2 => hframe x (by omega) fun y hy => ?_]
    obtain ⟨b, hmem, hfree, rfl⟩ := ht y hy
    have := hb b hmem hfree
    omega
  constructor
  · refine h.congr (fun c hc => ?_) (fun c hc _ => ?_) ?_
    · have hc' := h.facts hc
      have := hc'.lo
      refine hload _ (by omega) fun b hb _ => ?_
      have := (h.facts hb).min
      have hapart := h.apart hb hc
      unfold Block.next at hapart
      rcases hapart with rfl | hlt | hlt <;> omega
    · have hc' := h.facts hc
      have := hc'.lo
      have := hc'.min
      refine hload _ (by unfold Block.next; omega) fun b hb _ => ?_
      have := (h.facts hb).min
      have hapart := h.apart hb hc
      unfold Block.next at hapart ⊢
      rcases hapart with rfl | hlt | hlt <;> omega
    · refine hload _ (by omega) fun b hb _ => ?_
      have := (h.facts hb).min
      have := (h.facts hb).hi
      omega
  · rintro x (hx | hx | ⟨c, hc, hfree, hlo, hhi⟩)
    · refine hframe x (by omega) fun y hy => ?_
      obtain ⟨b, hmem, -, rfl⟩ := ht y hy
      have := (h.facts hmem).lo
      omega
    · refine hframe x (by omega) fun y hy => ?_
      obtain ⟨b, hmem, -, rfl⟩ := ht y hy
      have := (h.facts hmem).hi
      have := (h.facts hmem).min
      omega
    · have := (h.facts hc).lo
      refine hframe x (by omega) fun y hy => ?_
      obtain ⟨b, hmem, hbfree, rfl⟩ := ht y hy
      have := (h.facts hmem).min
      have hapart := h.apart hmem hc
      unfold Block.next at hapart hhi
      rcases hapart with rfl | hlt | hlt
      · rw [hfree] at hbfree
        cases hbfree
      · omega
      · omega

/-- A block is not another one of the list. -/
theorem Laid.not_mem (h : Laid m pool stop (pre ++ b :: post)) : b ∉ pre ∧ b ∉ post := by
  have hpair := pairwise_of_consecutive h.consecutive
  obtain ⟨-, hpost, hpre⟩ := List.pairwise_append.1 hpair
  constructor
  · intro hb
    have := hpre b hb b List.mem_cons_self
    unfold Block.next at this
    omega
  · intro hb
    have := (List.pairwise_cons.1 hpost).1 b hb
    unfold Block.next at this
    omega

/-- **`block_remove`**, for any of the blocks in the lists. -/
theorem blockRemove_spec (hlaid : Laid m pool stop bs) (hsub : ∀ b, S b → b ∈ bs) (hi : Indexed m pool L)
    (hh : Holds L S) (hb : S b) (hfree : b.free = true) : ∃ m' L', blockRemove m pool b.addr = some m' ∧
      Laid m' pool stop bs ∧ Indexed m' pool L' ∧ Holds L' (fun c => S c ∧ c ≠ b) ∧
      Keeps m m' pool stop bs := by
  obtain ⟨hf, hs⟩ := (hlaid.facts (hsub b hb)).list_lt
  have hmem : b.addr ∈ L (mappingInsert b.size).1 (mappingInsert b.size).2 :=
    (hh.mem _ _ _).2 ⟨b, hb, hfree, rfl, rfl⟩
  obtain ⟨m', hrun, hi', hframe⟩ := removeFreeBlock_spec hi (hh.nodes hlaid hsub) hf hs hmem
  obtain ⟨hlaid', hkeeps⟩ := hlaid.of_linkFrame hframe fun y hy => by
    obtain ⟨f, s, hy⟩ := hy
    obtain ⟨c, hc, hcfree, rfl, -⟩ := (hh.mem f s y).1 hy
    exact ⟨c, hsub c hc, hcfree, rfl⟩
  refine ⟨m', _, ?_, hlaid', hi', ⟨fun f s => ?_, fun f s a => ?_⟩, hkeeps⟩
  · rw [blockRemove, hlaid.blockSize_eq (hsub b hb)]
    exact hrun
  · unfold eraseAt
    split
    · exact (hh.nodup _ _).erase _
    · exact hh.nodup f s
  · have hne : ∀ c, S c → (c ≠ b ↔ c.addr ≠ b.addr) := fun c hc =>
      not_congr ⟨congrArg Block.addr, hlaid.eq_of_addr (hsub c hc) (hsub b hb)⟩
    unfold eraseAt
    split
    · next h =>
      rw [(hh.nodup _ _).mem_erase_iff, hh.mem, ← h.1, ← h.2]
      constructor
      · rintro ⟨ha, c, hc, hcfree, rfl, hmap⟩
        exact ⟨c, ⟨hc, (hne c hc).2 ha⟩, hcfree, rfl, hmap⟩
      · rintro ⟨c, ⟨hc, hcb⟩, hcfree, rfl, hmap⟩
        exact ⟨(hne c hc).1 hcb, c, hc, hcfree, rfl, hmap⟩
    · next h =>
      rw [hh.mem]
      constructor
      · rintro ⟨c, hc, hcfree, rfl, hmap⟩
        refine ⟨c, ⟨hc, ?_⟩, hcfree, rfl, hmap⟩
        rintro rfl
        exact h ⟨(congrArg Prod.fst hmap).symm, (congrArg Prod.snd hmap).symm⟩
      · rintro ⟨c, ⟨hc, -⟩, hcfree, rfl, hmap⟩
        exact ⟨c, hc, hcfree, rfl, hmap⟩

/-- **`block_insert`**, for a free block that is in no list. -/
theorem blockInsert_spec (hlaid : Laid m pool stop bs) (hsub : ∀ b, S b → b ∈ bs) (hi : Indexed m pool L)
    (hh : Holds L S) (hb : b ∈ bs) (hS : ¬S b) (hfree : b.free = true) :
    ∃ m' L', blockInsert m pool b.addr = some m' ∧ Laid m' pool stop bs ∧ Indexed m' pool L' ∧
      Holds L' (fun c => S c ∨ c = b) ∧ Keeps m m' pool stop bs := by
  have hfacts := hlaid.facts hb
  obtain ⟨hf, hs⟩ := hfacts.list_lt
  have hapart : ∀ f s, ∀ y ∈ L f s, y + 16 ≤ b.addr ∨ b.addr + 16 ≤ y := by
    intro f s y hy
    obtain ⟨c, hc, -, rfl, -⟩ := (hh.mem f s y).1 hy
    have := hfacts.min
    have := (hlaid.facts (hsub c hc)).min
    have hbc := hlaid.apart hb (hsub c hc)
    unfold Block.next at hbc
    rcases hbc with rfl | hlt | hlt
    · exact absurd hc hS
    · omega
    · omega
  have hlo := hfacts.lo
  have hhi := hfacts.hi
  have hmin := hfacts.min
  have hstop := hfacts.stop_le
  obtain ⟨m', hrun, hi', hframe⟩ := insertFreeBlock_spec hi (hh.nodes hlaid hsub) (by omega) hf hs hlo
    (by omega) hfacts.aligned hapart
  obtain ⟨hlaid', hkeeps⟩ := hlaid.of_linkFrame hframe fun y hy => by
    rcases hy with rfl | ⟨f, s, hy⟩
    · exact ⟨b, hb, hfree, rfl⟩
    · obtain ⟨c, hc, hcfree, rfl, -⟩ := (hh.mem f s y).1 hy
      exact ⟨c, hsub c hc, hcfree, rfl⟩
  refine ⟨m', _, ?_, hlaid', hi', ⟨fun f s => ?_, fun f s a => ?_⟩, hkeeps⟩
  · rw [blockInsert, hlaid.blockSize_eq hb]
    exact hrun
  · unfold insertAt
    split
    · refine List.nodup_cons.2 ⟨fun hmem => ?_, hh.nodup _ _⟩
      have := hapart _ _ _ hmem
      omega
    · exact hh.nodup f s
  · unfold insertAt
    split
    · next h =>
      rw [List.mem_cons, hh.mem, ← h.1, ← h.2]
      constructor
      · rintro (rfl | ⟨c, hc, hcfree, rfl, hmap⟩)
        · exact ⟨b, Or.inr rfl, hfree, rfl, by rw [h.1, h.2]⟩
        · exact ⟨c, Or.inl hc, hcfree, rfl, hmap⟩
      · rintro ⟨c, hc | rfl, hcfree, rfl, hmap⟩
        · exact Or.inr ⟨c, hc, hcfree, rfl, hmap⟩
        · exact Or.inl rfl
    · next h =>
      rw [hh.mem]
      constructor
      · rintro ⟨c, hc, hcfree, rfl, hmap⟩
        exact ⟨c, Or.inl hc, hcfree, rfl, hmap⟩
      · rintro ⟨c, hc | rfl, hcfree, rfl, hmap⟩
        · exact ⟨c, hc, hcfree, rfl, hmap⟩
        · exact absurd ⟨(congrArg Prod.fst hmap).symm, (congrArg Prod.snd hmap).symm⟩ h

/-! ## Moves of the window -/

theorem Window.sub : ∀ b, b ∈ pre ∨ b ∈ post → b ∈ pre ++ mid ++ post := fun b hb => by
  rcases hb with hb | hb <;> simp [hb]

/-- **`block_remove` of the block after the window.** -/
theorem Window.removeNext (h : Window m pool stop pre mid (c :: post)) (hfree : c.free = true) :
    ∃ m', blockRemove m pool c.addr = some m' ∧ Window m' pool stop pre (mid ++ [c]) post ∧
      Keeps m m' pool stop (pre ++ mid ++ c :: post) := by
  obtain ⟨L, hi, hh⟩ := h.lists
  obtain ⟨m', L', hrun, hlaid', hi', hh', hkeeps⟩ :=
    blockRemove_spec h.laid Window.sub hi hh (Or.inr List.mem_cons_self) hfree
  have hlist : pre ++ (mid ++ [c]) ++ post = pre ++ mid ++ c :: post := by simp
  refine ⟨m', hrun, ⟨hlist ▸ hlaid', L', hi', hh'.congr fun b _ => ?_⟩, hkeeps⟩
  obtain ⟨hcpre, hcpost⟩ := h.laid.not_mem
  constructor
  · rintro (hb | hb)
    · exact ⟨Or.inl hb, fun he => hcpre (he ▸ List.mem_append_left mid hb)⟩
    · exact ⟨Or.inr (List.mem_cons_of_mem c hb), fun he => hcpost (he ▸ hb)⟩
  · rintro ⟨hb | hb, hbc⟩
    · exact Or.inl hb
    · exact Or.inr ((List.mem_cons.1 hb).resolve_left hbc)

/-- **`block_remove` of the block before the window.** -/
theorem Window.removeLast (h : Window m pool stop (pre ++ [c]) mid post) (hfree : c.free = true) :
    ∃ m', blockRemove m pool c.addr = some m' ∧ Window m' pool stop pre (c :: mid) post ∧
      Keeps m m' pool stop (pre ++ c :: mid ++ post) := by
  obtain ⟨L, hi, hh⟩ := h.lists
  obtain ⟨m', L', hrun, hlaid', hi', hh', hkeeps⟩ :=
    blockRemove_spec h.laid Window.sub hi hh (b := c) (Or.inl (by simp)) hfree
  have hlist : pre ++ [c] ++ mid ++ post = pre ++ c :: mid ++ post := by simp
  have hlist' : pre ++ [c] ++ mid ++ post = pre ++ c :: (mid ++ post) := by simp
  refine ⟨m', hrun, ⟨hlist ▸ hlaid', L', hi', hh'.congr fun b _ => ?_⟩, hlist ▸ hkeeps⟩
  obtain ⟨hcpre, hcpost⟩ := (hlist' ▸ h.laid).not_mem
  constructor
  · rintro (hb | hb)
    · exact ⟨Or.inl (List.mem_append_left _ hb), fun he => hcpre (he ▸ hb)⟩
    · exact ⟨Or.inr hb, fun he => hcpost (he ▸ List.mem_append_right mid hb)⟩
  · rintro ⟨hb | hb, hbc⟩
    · exact Or.inl ((List.mem_append.1 hb).resolve_right fun hb => hbc (List.mem_singleton.1 hb))
    · exact Or.inr hb

/-- **`block_insert` of the last block of the window.** -/
theorem Window.insertLast (h : Window m pool stop pre (mid ++ [b]) post) (hfree : b.free = true) :
    ∃ m', blockInsert m pool b.addr = some m' ∧ Window m' pool stop pre mid (b :: post) ∧
      Keeps m m' pool stop (pre ++ mid ++ b :: post) := by
  obtain ⟨L, hi, hh⟩ := h.lists
  have hlist : pre ++ (mid ++ [b]) ++ post = pre ++ mid ++ b :: post := by simp
  obtain ⟨hbpre, hbpost⟩ := (hlist ▸ h.laid).not_mem
  have hnot : ¬(b ∈ pre ∨ b ∈ post) := fun hb =>
    hb.elim (fun hb => hbpre (List.mem_append_left mid hb)) hbpost
  obtain ⟨m', L', hrun, hlaid', hi', hh', hkeeps⟩ :=
    blockInsert_spec h.laid Window.sub hi hh (by simp) hnot hfree
  refine ⟨m', hrun, ⟨hlist ▸ hlaid', L', hi', hh'.congr fun c _ => ?_⟩, hlist ▸ hkeeps⟩
  rw [List.mem_cons, or_assoc]
  exact or_congr_right or_comm

/-- **`block_insert` of the first block of the window.** -/
theorem Window.insertFirst (h : Window m pool stop pre (b :: mid) post) (hfree : b.free = true) :
    ∃ m', blockInsert m pool b.addr = some m' ∧ Window m' pool stop (pre ++ [b]) mid post ∧
      Keeps m m' pool stop (pre ++ b :: mid ++ post) := by
  obtain ⟨L, hi, hh⟩ := h.lists
  have hlist : pre ++ b :: mid ++ post = pre ++ b :: (mid ++ post) := by simp
  have hlist' : pre ++ b :: mid ++ post = pre ++ [b] ++ mid ++ post := by simp
  obtain ⟨hbpre, hbpost⟩ := (hlist ▸ h.laid).not_mem
  have hnot : ¬(b ∈ pre ∨ b ∈ post) := fun hb =>
    hb.elim hbpre fun hb => hbpost (List.mem_append_right mid hb)
  obtain ⟨m', L', hrun, hlaid', hi', hh', hkeeps⟩ :=
    blockInsert_spec h.laid Window.sub hi hh (by simp) hnot hfree
  refine ⟨m', hrun, ⟨hlist' ▸ hlaid', L', hi', hh'.congr fun c _ => ?_⟩, hkeeps⟩
  rw [List.mem_append, List.mem_singleton, or_assoc, or_assoc]
  exact or_congr_right or_comm

/-- A block in use is in no list: it may be counted to the window, or not. -/
theorem Window.shift (h : Window m pool stop pre (b :: mid) post) (hused : b.free = false) :
    Window m pool stop (pre ++ [b]) mid post := by
  obtain ⟨L, hi, hh⟩ := h.lists
  have hlist : pre ++ b :: mid ++ post = pre ++ [b] ++ mid ++ post := by simp
  refine ⟨hlist ▸ h.laid, L, hi, hh.congr fun c hc => ?_⟩
  rw [List.mem_append, List.mem_singleton, or_assoc]
  refine or_congr_right ⟨fun h => h.resolve_left ?_, Or.inr⟩
  rintro rfl
  rw [hused] at hc
  cases hc

theorem Window.unshift (h : Window m pool stop (pre ++ [b]) mid post) (hused : b.free = false) :
    Window m pool stop pre (b :: mid) post := by
  obtain ⟨L, hi, hh⟩ := h.lists
  have hlist : pre ++ [b] ++ mid ++ post = pre ++ b :: mid ++ post := by simp
  refine ⟨hlist ▸ h.laid, L, hi, hh.congr fun c hc => ?_⟩
  rw [List.mem_append, List.mem_singleton, or_assoc]
  refine or_congr_right ⟨Or.inr, fun h => h.resolve_left ?_⟩
  rintro rfl
  rw [hused] at hc
  cases hc

/-! ## Other blocks in the window -/

theorem Indexed.congr (h : Indexed m pool L)
    (hpool : ∀ x, pool + 16 ≤ x → x + 4 ≤ pool + 3188 → load32 m' x = load32 m x)
    (hlinks : ∀ f s, ∀ y ∈ L f s, load32 m' (y + 8) = load32 m (y + 8) ∧ load32 m' (y + 12) = load32 m (y + 12)) :
    Indexed m' pool L where
  linked f hf s hs := by
    refine (h.linked f hf s hs).congr (fun y hy => ?_) fun y hy => ?_
    · rcases List.mem_cons.1 hy with rfl | hy
      · rw [nextOf, nextOf, if_pos rfl, if_pos rfl, ptr, ptr,
          hpool _ (by rw [blocks_eq]; omega) (by rw [blocks_eq]; omega)]
      · rw [nextOf, nextOf]
        split
        · rw [ptr, ptr, hpool _ (by rw [blocks_eq]; omega) (by rw [blocks_eq]; omega)]
        · rw [ptr, ptr, (hlinks f s y hy).1]
    · rw [prevOf, prevOf, ptr, ptr, (hlinks f s y hy).2]
  slBits f hf s hs := by
    rw [hpool _ (by rw [slBitmap_eq]; omega) (by rw [slBitmap_eq]; omega)]
    exact h.slBits f hf s hs
  flBits f hf := by
    rw [hpool _ (by rw [flBitmap_eq]) (by rw [flBitmap_eq]; omega), h.flBits f hf]
    refine and_congr_right fun h24 => ?_
    rw [hpool _ (by rw [slBitmap_eq]; omega) (by rw [slBitmap_eq]; omega)]

/-- **Other blocks in the window**, in memory that changes there and in what the next block records. -/
theorem Window.replace {lo hi : Nat} (h : Window m pool stop pre mid post)
    (hpre : Consecutive Block.addr Block.len (firstAddr pool) pre lo)
    (hmid : Consecutive Block.addr Block.len lo mid' hi)
    (hpost : Consecutive Block.addr Block.len hi post stop)
    (hsizes : ∀ b ∈ mid', 12 ≤ b.size ∧ b.size % 4 = 0)
    (hagree : ∀ x, x < lo + 4 ∨ hi + 8 ≤ x → m' x = m x)
    (hheaders : Headers m' (lastFree false pre) mid')
    (hnext : load32 m' (hi + 4) = sizeWord (nextBlock stop post).size (nextBlock stop post).free
      (lastFree (lastFree false pre) mid')) :
    Window m' pool stop pre mid' post ∧ Keeps m m' pool stop (pre ++ post) := by
  have hlo := hpre.le
  have hlohi := hmid.le
  have hstop := hpost.le
  unfold firstAddr at hlo
  have hload : ∀ a, a + 4 ≤ lo + 4 ∨ hi + 8 ≤ a → load32 m' a = load32 m a := fun a ha => by
    rw [load32, load32, readLE_congr fun x h1 h2 => hagree x (by omega)]
  constructor
  · refine ⟨h.laid.replace hpre hmid hpost hsizes hagree hheaders hnext, ?_⟩
    obtain ⟨L, hidx, hh⟩ := h.lists
    refine ⟨L, hidx.congr (fun x _ h2 => hload x (by omega)) fun f s y hy => ?_, hh⟩
    obtain ⟨b, hb, -, rfl, -⟩ := (hh.mem f s y).1 hy
    have hmin := (h.laid.facts (Window.sub b hb)).min
    rcases hb with hb | hb
    · have := (hpre.of_mem hb).2.2
      unfold Block.len at this
      exact ⟨hload _ (by omega), hload _ (by omega)⟩
    · have := (hpost.of_mem hb).1
      exact ⟨hload _ (by omega), hload _ (by omega)⟩
  · rintro x (hx | hx | ⟨b, hb, -, h1, h2⟩)
    · exact hagree x (by omega)
    · exact hagree x (by omega)
    · refine hagree x ?_
      unfold Block.next at h2
      rcases List.mem_append.1 hb with hb | hb
      · have := (hpre.of_mem hb).2.2
        unfold Block.len at this
        omega
      · have := (hpost.of_mem hb).1
        omega

end Xmhf.Tlsf
