import Xmhf.Heap.Proof.Run

/-!
# The heap in every state that its clients reach

A heap made by `tlsf_create`, and any calls after that.

* `created_inv`, `HeapRun.inv`: the invariant at the start, and in every state.
* `heap_run`: no call fails an assertion; the client's regions are apart, aligned and in the pool; what it
  knows of their contents is there.
* `heap_check`: `tlsf_check_heap` finds nothing wrong.
* `heap_released`: with nothing in use, the pool is one free block again.
* `malloc_null_iff`: when `malloc` fails.
-/

namespace Xmhf.Tlsf

open Xmhf.Memory Xmhf.Allocator Xmhf.Extent

/-- **Room for a pool**: what `tlsf_create` and its caller want of it. -/
structure PoolAt (mem bytes : Nat) : Prop where
  pos : 0 < mem
  aligned : mem % 4 = 0
  min : 3208 ≤ bytes
  max : poolBytes bytes < 2 ^ 30
  fits : mem + bytes ≤ 2 ^ 32

/-- The pool of `mem_init`, at some address. -/
theorem poolAt_heapmem : PoolAt 4096 Malloc.heapmemPoolsize where
  pos := by decide
  aligned := by decide
  min := by decide
  max := by decide
  fits := by decide

/-- The calls that a client may make. -/
def Allowed (s : Client (BitVec 8)) (q : Call) : Prop := s.view.Legal (request q) ∧ q.Fits

/-- **The states that a client of a new heap reaches.** -/
def HeapRun (m : Mem) (mem bytes : Nat) (s : Client (BitVec 8)) : Prop :=
  ∃ m₁, tlsfCreate m mem bytes = some (mem, m₁) ∧
    Trans.Reach (step (exec mem) request) Allowed { mem := m₁, view := View.empty } s

variable {m : Mem} {mem bytes pool stop n : Nat} {s : Client (BitVec 8)} {bs : List Block} {b : Block}

/-- The sentinel of a new heap. -/
def stopOf (mem bytes : Nat) : Nat := (firstBlockOf mem bytes).next

theorem created_inv (hp : PoolAt mem bytes) (m : Mem) : ∃ m₁, tlsfCreate m mem bytes = some (mem, m₁) ∧
    Inv m mem (stopOf mem bytes) { mem := m₁, view := View.empty } ∧ stopOf mem bytes + 8 ≤ mem + bytes := by
  obtain ⟨m₁, hrun, hsound, hstop, hout⟩ := tlsfCreate_spec hp.pos hp.aligned hp.min hp.max hp.fits
  exact ⟨m₁, hrun, ⟨⟨_, hsound, [], List.Perm.refl _, List.Forall₂.nil⟩, hout⟩, hstop⟩

/-- **The invariant of a run**, and every call answers. -/
theorem reach_inv {m₁ : Mem} (h₀ : Inv m mem stop { mem := m₁, view := View.empty })
    (h : Trans.Reach (step (exec mem) request) Allowed { mem := m₁, view := View.empty } s) :
    (Inv m mem stop s ∧ s.view.Wf ∧ s.view.Holds s.mem) ∧
      ∀ q, s.view.Legal (request q) → q.Fits → (step (exec mem) request s q).isSome :=
  reach_served (fun s q hI hwf hlegal hfits => call_served s q hI hwf hlegal hfits)
    ⟨h₀, View.empty_wf, fun _ _ hx => nomatch hx⟩ h

theorem HeapRun.inv (hp : PoolAt mem bytes) (h : HeapRun m mem bytes s) : Inv m mem (stopOf mem bytes) s := by
  obtain ⟨m₁, hrun, hreach⟩ := h
  obtain ⟨m₁', hrun', hinv, -⟩ := created_inv hp m
  rw [hrun] at hrun'
  cases hrun'
  exact (reach_inv hinv hreach).1.1

/-- **No call fails an assertion**, the client's regions are apart, aligned, and inside the pool, memory has
what it knows of them, and memory outside the pool stays. -/
theorem heap_run (hp : PoolAt mem bytes) (m : Mem) : ∃ m₁, tlsfCreate m mem bytes = some (mem, m₁) ∧
    ∀ s, Trans.Reach (step (exec mem) request) Allowed { mem := m₁, view := View.empty } s →
      (∀ q, Allowed s q → (step (exec mem) request s q).isSome) ∧
      s.view.live.Pairwise Region.Apart ∧
      (∀ r ∈ s.view.live, r.addr % 4 = 0 ∧ mem + 3192 ≤ r.addr ∧ r.addr + r.size + 4 ≤ mem + bytes) ∧
      s.view.Holds s.mem ∧ ∀ x, x < mem ∨ mem + bytes ≤ x → s.mem x = m x := by
  obtain ⟨m₁, hrun, hinv, hstop⟩ := created_inv hp m
  refine ⟨m₁, hrun, fun s hreach => ?_⟩
  obtain ⟨⟨⟨⟨bs, hs, howns⟩, hout⟩, hwf, hholds⟩, hanswers⟩ := reach_inv hinv hreach
  refine ⟨fun q hq => hanswers q hq.1 hq.2, hwf.apart, fun r hr => ?_, hholds, fun x hx => hout x (by omega)⟩
  obtain ⟨c, hc, -, haddr, hsize⟩ := howns.block hr
  have hcf := hs.laid.facts hc
  have hlo := hcf.lo
  have hhi := hcf.hi
  have hal := hcf.aligned
  omega

theorem heap_run_heapmem : ∃ m₁, Malloc.memInit (fun _ => 0) 4096 = some (4096, m₁) ∧
    ∀ s, Trans.Reach (step (exec 4096) request) Allowed { mem := m₁, view := View.empty } s →
      s.view.live.Pairwise Region.Apart := by
  obtain ⟨m₁, hrun, hall⟩ := heap_run poolAt_heapmem fun _ => 0
  exact ⟨m₁, hrun, fun s hs => (hall s hs).2.1⟩

/-! ## A block that comes and goes -/

/-- The client that holds 100 bytes at `p`. -/
def holding (p : Nat) (m : Mem) : Client (BitVec 8) where
  mem := m
  view := View.empty.add ⟨p, 100⟩ fun _ => none

/-- The client that has given them back. -/
def gaveBack (p : Nat) (m : Mem) : Client (BitVec 8) where
  mem := m
  view := (holding p m).view.drop ⟨p, 100⟩

theorem live_gaveBack (p : Nat) (m : Mem) : (gaveBack p m).view.live = [] :=
  List.erase_cons_head ..

/-- The hypapp's heap gives out 100 bytes and takes them back. -/
theorem heapmem_run : ∃ m₁ p m₂ m₃, Malloc.memInit (fun _ => 0) 4096 = some (4096, m₁) ∧
    Malloc.malloc m₁ 4096 100 = some (p, m₂) ∧ p ≠ 0 ∧ Malloc.free m₂ 4096 p = some m₃ ∧
      HeapRun (fun _ => 0) 4096 Malloc.heapmemPoolsize (holding p m₂) ∧
        HeapRun (fun _ => 0) 4096 Malloc.heapmemPoolsize (gaveBack p m₃) := by
  have hp := poolAt_heapmem
  obtain ⟨m₁, hrun, hsound, -⟩ := tlsfCreate_spec (m := fun _ => 0) hp.pos hp.aligned hp.min hp.max hp.fits
  obtain ⟨m₁', hrun', hinv, -⟩ := created_inv hp fun _ => 0
  cases hrun.symm.trans hrun'
  rcases tlsfMalloc_spec hsound (show 100 ≠ 0 by decide) (by decide) with ⟨-, hsmall⟩ | ⟨m₂, bs', c, hmalloc, -⟩
  · exact absurd (hsmall _ List.mem_cons_self rfl) (by decide)
  · have hne : c.addr + 8 ≠ 0 := Nat.succ_ne_zero _
    have hstep : step (exec 4096) request { mem := m₁, view := View.empty } (.malloc 100) =
        some (holding (c.addr + 8) m₂) := by
      rw [step, exec, Malloc.malloc, hmalloc]
      rfl
    have hallowed : Allowed { mem := m₁, view := View.empty } (.malloc 100) := ⟨trivial, Or.inl (by decide)⟩
    have hreach : Trans.Reach (step (exec 4096) request) Allowed { mem := m₁, view := View.empty }
        (holding (c.addr + 8) m₂) := .step .init hallowed hstep
    have hfree : Allowed (holding (c.addr + 8) m₂) (.free (some ⟨c.addr + 8, 100⟩)) :=
      ⟨List.mem_cons_self, trivial⟩
    obtain ⟨s, hs⟩ := Option.isSome_iff_exists.1 ((reach_inv hinv hreach).2 _ hfree.1 hfree.2)
    obtain ⟨⟨q, m₃⟩, hexec, hafter⟩ := Option.map_eq_some_iff.1 hs
    obtain ⟨m₃', hgiven, hq⟩ := Option.map_eq_some_iff.1 hexec
    cases hq
    obtain rfl : gaveBack (c.addr + 8) m₃ = s := hafter
    exact ⟨m₁, c.addr + 8, m₂, m₃, hrun, hmalloc, hne, hgiven, ⟨m₁, hrun, hreach⟩,
      ⟨m₁, hrun, hreach.step hfree hs⟩⟩

/-! ## The debugging utilities -/

/-- A block takes 16 bytes. -/
theorem length_le_of_consecutive {lo hi : Nat} (h : Consecutive Block.addr Block.len lo bs hi)
    (hmin : ∀ b ∈ bs, 12 ≤ b.size) : lo + 16 * bs.length ≤ hi := by
  induction bs generalizing lo with
  | nil => exact Nat.le_of_eq h
  | cons b bs ih =>
    have hb := hmin b List.mem_cons_self
    have hrest := ih h.2.2 fun c hc => hmin c (List.mem_cons_of_mem b hc)
    unfold Block.len at hrest
    rw [List.length_cons]
    omega

/-- **`tlsf_check_heap` finds nothing wrong** in any state of a run, and it ends. -/
theorem heap_check (hp : PoolAt mem bytes) (h : HeapRun m mem bytes s) (hn : bytes ≤ 16 * n) :
    tlsfCheckHeap s.mem mem n = some 0 := by
  obtain ⟨-, -, -, hstop⟩ := created_inv hp m
  obtain ⟨bs, hs, -⟩ := (h.inv hp).blocks
  have hlen := length_le_of_consecutive hs.laid.consecutive fun b hb => (hs.laid.sizes b hb).1
  unfold firstAddr at hlen
  exact tlsfCheckHeap_spec hs (by omega)

/-- While a block is out, and when it is back. -/
theorem heap_check_heapmem : ∃ m₁ p m₂ m₃, Malloc.memInit (fun _ => 0) 4096 = some (4096, m₁) ∧
    Malloc.malloc m₁ 4096 100 = some (p, m₂) ∧ p ≠ 0 ∧ Malloc.free m₂ 4096 p = some m₃ ∧
      tlsfCheckHeap m₂ 4096 262144 = some 0 ∧ tlsfCheckHeap m₃ 4096 262144 = some 0 := by
  obtain ⟨m₁, p, m₂, m₃, hinit, hmalloc, hne, hfree, hheld, hback⟩ := heapmem_run
  exact ⟨m₁, p, m₂, m₃, hinit, hmalloc, hne, hfree, heap_check poolAt_heapmem hheld (by decide),
    heap_check poolAt_heapmem hback (by decide)⟩

/-! ## Everything is given back -/

/-- A sound heap with nothing in use is one free block. -/
theorem eq_first_of_unused (hs : Sound m mem (stopOf mem bytes) bs) (hused : usedOf bs = []) :
    bs = [firstBlockOf mem bytes] := by
  have hfree : ∀ b ∈ bs, b.free = true := fun b hb => by
    by_contra hne
    have hmem := mem_usedOf.2 ⟨hb, Bool.eq_false_iff.2 hne⟩
    rw [hused] at hmem
    cases hmem
  have hcons := hs.laid.consecutive
  have hstop : stopOf mem bytes = mem + 3184 + poolBytes bytes + 4 := rfl
  match bs, hs.coalesced with
  | [], _ =>
    have : firstAddr mem = stopOf mem bytes := hcons
    unfold firstAddr at this
    omega
  | [b], _ =>
    have hb := hfree b List.mem_cons_self
    obtain ⟨haddr, -, hlen⟩ := hcons
    have hlen' : firstAddr mem + (b.size + 4) = stopOf mem bytes := hlen
    unfold firstAddr at haddr hlen'
    have hsize : b.size = poolBytes bytes := by omega
    rw [firstBlockOf, ← haddr, ← hsize, ← hb]
  | b :: c :: bs, hco =>
    exact absurd ⟨hfree b List.mem_cons_self, hfree c (by simp)⟩ hco.2.1

/-- **With nothing in use, the pool is one free block again**, as after `tlsf_create`, and what fits in it is
allocated. -/
theorem heap_released (hp : PoolAt mem bytes) (h : HeapRun m mem bytes s) (hnone : s.view.live = []) :
    Sound s.mem mem (stopOf mem bytes) [firstBlockOf mem bytes] ∧
      ∀ size, size ≠ 0 → size ≤ searchMax → goodSize (adjusted size) ≤ poolBytes bytes →
        ∃ p m', p ≠ 0 ∧ Malloc.malloc s.mem mem size = some (p, m') := by
  have hs : Sound s.mem mem (stopOf mem bytes) [firstBlockOf mem bytes] := by
    obtain ⟨bs, hs, cs, hperm, hgives⟩ := (h.inv hp).blocks
    rw [hnone] at hgives
    cases hgives
    exact eq_first_of_unused hs hperm.symm.eq_nil ▸ hs
  refine ⟨hs, fun size h0 hmax hfit => ?_⟩
  rcases tlsfMalloc_spec hs h0 hmax with ⟨-, hsmall⟩ | ⟨m', bs', c, hrun, -⟩
  · exact absurd (hsmall _ List.mem_cons_self rfl) (Nat.not_lt.2 hfit)
  · exact ⟨c.addr + 8, m', by omega, hrun⟩

/-- A block has come and gone, and 4,000,000 bytes are to be had. -/
theorem heap_released_heapmem : ∃ m₁ p m₂ m₃, Malloc.memInit (fun _ => 0) 4096 = some (4096, m₁) ∧
    Malloc.malloc m₁ 4096 100 = some (p, m₂) ∧ p ≠ 0 ∧ Malloc.free m₂ 4096 p = some m₃ ∧
      Sound m₃ 4096 (stopOf 4096 Malloc.heapmemPoolsize) [firstBlockOf 4096 Malloc.heapmemPoolsize] ∧
        ∃ q m₄, q ≠ 0 ∧ Malloc.malloc m₃ 4096 4000000 = some (q, m₄) := by
  obtain ⟨m₁, p, m₂, m₃, hinit, hmalloc, hne, hfree, -, hback⟩ := heapmem_run
  obtain ⟨hsound, hserved⟩ := heap_released poolAt_heapmem hback (live_gaveBack p m₃)
  exact ⟨m₁, p, m₂, m₃, hinit, hmalloc, hne, hfree, hsound, hserved 4000000 (by decide) (by decide) (by decide)⟩

/-! ## When `malloc` fails -/

theorem searchRound_le (n : Nat) : searchRound n ≤ n / 32 := by
  unfold searchRound
  split
  · next h =>
    have hlog : 5 ≤ n.log2 := (Nat.le_log2 (by omega)).2 h
    have hpow : 2 ^ (n.log2 - 5) * 2 ^ 5 = 2 ^ n.log2 := by rw [← Nat.pow_add, Nat.sub_add_cancel hlog]
    have hle := Nat.log2_self_le (n := n) (by omega)
    omega
  · exact Nat.zero_le _

theorem goodSize_le {n : Nat} (h31 : n < 2 ^ 31) : goodSize n ≤ n + n / 32 := by
  have hle := (keyMin_keyOf (add_searchRound_lt h31)).1
  rw [goodSize, mappingSearch_eq h31]
  exact Nat.le_trans hle (Nat.add_le_add_left (searchRound_le n) n)

/-- **`malloc` fails** just when no free block has `goodSize` bytes, which are at most one part in 32 more
than are needed. -/
theorem malloc_null_iff (hp : PoolAt mem bytes) (h : HeapRun m mem bytes s) {size : Nat} (h0 : size ≠ 0)
    (hmax : size ≤ searchMax) : ∃ bs, Sound s.mem mem (stopOf mem bytes) bs ∧
      (Malloc.malloc s.mem mem size = some (0, s.mem) ↔
        ∀ b ∈ bs, b.free = true → b.size < goodSize (adjusted size)) ∧
      adjusted size ≤ goodSize (adjusted size) ∧
      goodSize (adjusted size) ≤ adjusted size + adjusted size / 32 := by
  obtain ⟨bs, hs, -⟩ := (h.inv hp).blocks
  obtain ⟨-, -, h4, hmax'⟩ := adjusted_le_searchMax h0 hmax
  have h31 : adjusted size < 2 ^ 31 := Nat.lt_of_le_of_lt hmax' (by decide)
  refine ⟨bs, hs, ?_, le_goodSize h4 h31, goodSize_le h31⟩
  rcases tlsfMalloc_spec hs h0 hmax with ⟨hrun, hnone⟩ | ⟨m', bs', c, hrun, ⟨b, hb, hfree, hgood⟩, -⟩
  · exact iff_of_true hrun hnone
  · refine iff_of_false (fun hnull => ?_) fun hall => Nat.not_le.2 (hall b hb hfree) hgood
    have hpair := Option.some.inj (hrun.symm.trans hnull)
    exact absurd (congrArg Prod.fst hpair) (by simp)

/-- While a block is out, no block has the bytes of the whole pool. -/
theorem malloc_null_iff_heapmem : ∃ m₁ p m₂, Malloc.memInit (fun _ => 0) 4096 = some (4096, m₁) ∧
    Malloc.malloc m₁ 4096 100 = some (p, m₂) ∧ p ≠ 0 ∧
      ∃ bs, Sound m₂ 4096 (stopOf 4096 Malloc.heapmemPoolsize) bs ∧
        (Malloc.malloc m₂ 4096 Malloc.heapmemPoolsize = some (0, m₂) ↔
          ∀ b ∈ bs, b.free = true → b.size < goodSize (adjusted Malloc.heapmemPoolsize)) ∧
        Malloc.malloc m₂ 4096 Malloc.heapmemPoolsize = some (0, m₂) := by
  obtain ⟨m₁, p, m₂, m₃, hinit, hmalloc, hne, -, hheld, -⟩ := heapmem_run
  obtain ⟨bs, hs, hnull, -⟩ := malloc_null_iff poolAt_heapmem hheld
    (show Malloc.heapmemPoolsize ≠ 0 by decide) (by decide)
  refine ⟨m₁, p, m₂, hinit, hmalloc, hne, bs, hs, hnull, hnull.2 fun b hb _ => ?_⟩
  have hb := hs.laid.facts hb
  have hlo := hb.lo
  have hhi := hb.hi
  have hpool : Malloc.heapmemPoolsize ≤ goodSize (adjusted Malloc.heapmemPoolsize) := by decide
  have hstop : stopOf 4096 Malloc.heapmemPoolsize ≤ 4096 + Malloc.heapmemPoolsize := by decide
  omega

/-- **The lists and the searches**: a search starts inside the tables just up to `searchMax`; from there on
every block is large enough, and every block that is one part in 32 larger is there. -/
theorem mapping_good_fit {size : Nat} (h4 : size % 4 = 0) (h31 : size < 2 ^ 31) :
    ((mappingSearch size).1 < flIndexCount ↔ size ≤ searchMax) ∧ ∀ b < 2 ^ 32,
      (key (mappingSearch size) ≤ key (mappingInsert b) → size ≤ b) ∧
      (size + size / 32 ≤ b → key (mappingSearch size) ≤ key (mappingInsert b)) := by
  refine ⟨mappingSearch_inside_iff h4 h31, fun b hb => ⟨le_of_key_search_le h4 h31 hb, fun hle => ?_⟩⟩
  have hlarge : keyMin (key (mappingSearch size)) ≤ b := Nat.le_trans (goodSize_le h31) hle
  exact (keyMin_le_iff hb).1 hlarge

theorem mapping_good_fit_hundred : (mappingSearch 100).1 < flIndexCount :=
  (mapping_good_fit (by decide) (by decide)).1.2 (by decide)

end Xmhf.Tlsf
