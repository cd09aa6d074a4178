import Mathlib.Data.List.Forall2
import Xmhf.Heap.Malloc
import Xmhf.Heap.Proof.Check
import Xmhf.Heap.Proof.Create
import Xmhf.Heap.Proof.Memalign
import Xmhf.Heap.Proof.Realloc
import Xmhf.Lib.Allocator

/-!
# The allocator over whole runs

A client calls the functions of the heap with the pointers that it holds, and writes into its regions. The
heap is an allocator in the sense of `Xmhf.Lib.Allocator`.

* `Owns live bs`: each region of the client is in a block in use of its own, and there are no others.
* `Inv`: the heap is sound, and the client owns its blocks.
* `Inv.alloc`, `Inv.release`, `Inv.resize`, `Inv.write`: one lemma for each request.
* `call_served`: every call meets the contract.
-/

namespace Xmhf.Tlsf

open Xmhf.Memory Xmhf.Allocator

/-- The client's region is the first part of a block. -/
def Gives (c : Block) (r : Region) : Prop := r.addr = c.addr + 8 ∧ r.size ≤ c.size

/-- **The blocks in use** are those of the client's regions. -/
def Owns (live : List Region) (bs : List Block) : Prop :=
  ∃ cs, cs.Perm (usedOf bs) ∧ List.Forall₂ Gives cs live

variable {m m' m₀ : Mem} {pool stop size n : Nat} {bs bs' pre post : List Block} {b c : Block}
  {live : List Region} {r s : Region} {v : View (BitVec 8)}

/-! ## Regions and blocks -/

theorem Owns.add (h : Owns live bs) (hused : (usedOf bs').Perm (c :: usedOf bs)) (hg : Gives c r) :
    Owns (r :: live) bs' := by
  obtain ⟨cs, hperm, hgives⟩ := h
  exact ⟨c :: cs, (hperm.cons c).trans hused.symm, List.Forall₂.cons hg hgives⟩

theorem forall₂_erase {cs : List Block} (h : List.Forall₂ Gives cs live) (hr : r ∈ live) :
    ∃ us c vs, cs = us ++ c :: vs ∧ Gives c r ∧ List.Forall₂ Gives (us ++ vs) (live.erase r) := by
  induction h with
  | nil => cases hr
  | @cons c s cs live hg hrest ih =>
    by_cases hsr : s = r
    · subst hsr
      exact ⟨[], c, cs, rfl, hg, by rwa [List.erase_cons_head]⟩
    · obtain ⟨us, d, vs, rfl, hd, hothers⟩ := ih ((List.mem_cons.1 hr).resolve_left (Ne.symm hsr))
      refine ⟨c :: us, d, vs, rfl, hd, ?_⟩
      rw [List.erase_cons_tail (by simpa using hsr)]
      exact List.Forall₂.cons hg hothers

/-- **The block of a region**, and the others. -/
theorem Owns.split (h : Owns live bs) (hr : r ∈ live) : ∃ pre c post, bs = pre ++ c :: post ∧
    c.free = false ∧ Gives c r ∧ Owns (live.erase r) (pre ++ post) := by
  obtain ⟨cs, hperm, hgives⟩ := h
  obtain ⟨us, c, vs, rfl, hg, hothers⟩ := forall₂_erase hgives hr
  obtain ⟨hc, hused⟩ := mem_usedOf.1 (hperm.mem_iff.1 (List.mem_append_right us List.mem_cons_self))
  obtain ⟨pre, post, rfl⟩ := List.append_of_mem hc
  refine ⟨pre, c, post, rfl, hused, hg, us ++ vs, ?_, hothers⟩
  rw [usedOf_append]
  rw [usedOf_append, usedOf_cons_of_used hused] at hperm
  exact (List.perm_middle.symm.trans (hperm.trans List.perm_middle)).cons_inv

theorem Owns.of_perm (h : Owns live bs) (hused : (usedOf bs').Perm (usedOf bs)) : Owns live bs' := by
  obtain ⟨cs, hperm, hgives⟩ := h
  exact ⟨cs, hperm.trans hused.symm, hgives⟩

theorem Owns.block (h : Owns live bs) (hr : r ∈ live) : ∃ c ∈ bs, c.free = false ∧ Gives c r := by
  obtain ⟨pre, c, post, rfl, hused, hg, -⟩ := h.split hr
  exact ⟨c, by simp, hused, hg⟩

theorem Gives.has {x : Nat} (h : Gives c r) (hx : r.Has x) : c.addr + 8 ≤ x ∧ x < c.next + 4 := by
  obtain ⟨haddr, hsize⟩ := h
  obtain ⟨h1, h2⟩ := hx
  unfold Block.next
  omega

/-- A client's bytes are not the heap's. -/
theorem Owns.untouched (h : Owns live bs) (hr : r ∈ live) {x : Nat} (hx : r.Has x) :
    Untouched pool stop bs x := by
  obtain ⟨c, hc, hused, hg⟩ := h.block hr
  exact Or.inr (Or.inr ⟨c, hc, hused, hg.has hx⟩)

/-- **Regions are apart**, since blocks are. -/
theorem Owns.apart (h : Owns (r :: live) bs) (hlaid : Laid m pool stop bs) (hs : s ∈ live) : r.Apart s := by
  obtain ⟨cs, hperm, hgives⟩ := h
  obtain ⟨c, cs, hg, hrest, rfl⟩ := List.forall₂_cons_right_iff.1 hgives
  obtain ⟨us, d, vs, rfl, hd, -⟩ := forall₂_erase hrest hs
  have hnodup := hperm.nodup_iff.2 (hlaid.nodup.filter _)
  have hdmem : d ∈ us ++ d :: vs := by simp
  have hcd : ¬c = d := fun he => (List.nodup_cons.1 hnodup).1 (he ▸ hdmem)
  have hc := (mem_usedOf.1 (hperm.mem_iff.1 List.mem_cons_self)).1
  have hdbs := (mem_usedOf.1 (hperm.mem_iff.1 (List.mem_cons_of_mem c hdmem))).1
  have happart := (hlaid.apart hc hdbs).resolve_left hcd
  rintro x ⟨hr, hs⟩
  have h1 := hg.has hr
  have h2 := hd.has hs
  unfold Block.next at *
  omega

/-! ## The invariant -/

/-- **The heap and its client**; memory outside the pool is that of `m₀`. -/
structure Inv (m₀ : Mem) (pool stop : Nat) (s : Client (BitVec 8)) : Prop where
  blocks : ∃ bs, Sound s.mem pool stop bs ∧ Owns s.view.live bs
  outside : ∀ x, x < pool ∨ stop + 8 ≤ x → s.mem x = m₀ x

theorem Keeps.outside (h : Keeps m m' pool stop bs) {x : Nat} (hx : x < pool ∨ stop + 8 ≤ x) : m' x = m x :=
  h x (hx.elim Or.inl fun hx => Or.inr (Or.inl hx))

/-- What a client knows is in the blocks in use. -/
theorem known_untouched (hwf : v.Wf) (h : Owns v.live bs) {x : Nat} (hx : v.known x ≠ none) :
    Untouched pool stop bs x := by
  obtain ⟨r, hr, hin⟩ := hwf.inside x hx
  exact h.untouched hr hin

/-- **A new region.** The client may find in it what it asked for. -/
theorem alloc_served {init : Option (BitVec 8)} (hwf : v.Wf) (h : Owns v.live bs)
    (hout : ∀ x, x < pool ∨ stop + 8 ≤ x → m x = m₀ x) {m₁ : Mem}
    (hgot : Allocated m m₁ pool stop bs bs' c n) (hsize : size ≤ n)
    (hm' : ∀ x, ¬Region.Has ⟨c.addr + 8, size⟩ x → m' x = m₁ x)
    (hinit : ∀ b, init = some b → ∀ i < size, m' (c.addr + 8 + i) = b) :
    v.Fresh (c.addr + 8) (.alloc size init) ∧ v.Serves m m' (c.addr + 8) (.alloc size init) ∧
      Inv m₀ pool stop { mem := m', view := v.after (c.addr + 8) (.alloc size init) } := by
  have hgives : Gives c ⟨c.addr + 8, size⟩ := ⟨rfl, Nat.le_trans hsize hgot.size_le⟩
  have howns : Owns (⟨c.addr + 8, size⟩ :: v.live) bs' := h.add hgot.used hgives
  have hapart : ∀ s ∈ v.live, Region.Apart ⟨c.addr + 8, size⟩ s := fun s hs => howns.apart hgot.sound.laid hs
  obtain ⟨d, hd, hdused, hdgives⟩ := howns.block List.mem_cons_self
  have hdf := hgot.sound.laid.facts hd
  have hlo := hdf.lo
  have hhi := hdf.hi
  refine ⟨fun _ => hapart, ⟨fun x hx => ?_, fun _ => hinit⟩, ⟨bs', hgot.sound.write fun x hx => ?_, ?_⟩, ?_⟩
  · obtain ⟨s, hs, hin⟩ := hwf.inside x hx
    rw [hm' x fun hc => hapart s hs x ⟨hc, hin⟩]
    exact hgot.keeps x (h.untouched hs hin)
  · exact hm' x fun hc => hx (Or.inr (Or.inr ⟨d, hd, hdused, hdgives.has hc⟩))
  · rw [View.after, if_neg (by omega)]
    exact howns
  · intro x hx
    have hnot : ¬Region.Has ⟨c.addr + 8, size⟩ x := fun hc => by
      have := hdgives.has hc
      unfold Block.next at this
      omega
    exact (hm' x hnot).trans ((hgot.keeps.outside hx).trans (hout x hx))

/-- **A region is given back.** -/
theorem release_served (hwf : v.Wf) (hs : Sound m pool stop bs) (h : Owns v.live bs)
    (hout : ∀ x, x < pool ∨ stop + 8 ≤ x → m x = m₀ x) (hr : r ∈ v.live) :
    ∃ m', tlsfFree m pool r.addr = some m' ∧ v.Serves m m' 0 (.release r) ∧
      Inv m₀ pool stop { mem := m', view := v.drop r } := by
  obtain ⟨pre, c, post, rfl, hused, hg, hothers⟩ := h.split hr
  obtain ⟨m', bs', hrun, hsound, husedbs, hkeeps⟩ := tlsfFree_spec hs hused
  have howns : Owns (v.drop r).live (pre ++ post) := hothers
  refine ⟨m', hg.1 ▸ hrun, fun x hx => hkeeps x (known_untouched (hwf.drop r) howns hx),
    ⟨bs', hsound, howns.of_perm (husedbs ▸ List.Perm.refl _)⟩,
    fun x hx => (hkeeps.outside hx).trans (hout x hx)⟩

/-- **A region gets another size**, or nothing changes. -/
theorem resize_served (hwf : v.Wf) (hs : Sound m pool stop bs) (h : Owns v.live bs)
    (hout : ∀ x, x < pool ∨ stop + 8 ≤ x → m x = m₀ x) (hr : r ∈ v.live) (h0 : size ≠ 0)
    (hmax : size ≤ searchMax) :
    ∃ p m', tlsfRealloc m pool r.addr size = some (p, m') ∧ v.Fresh p (.resize r size) ∧
      v.Serves m m' p (.resize r size) ∧
      Inv m₀ pool stop { mem := m', view := v.after p (.resize r size) } := by
  obtain ⟨pre, c, post, rfl, hused, hg, hothers⟩ := h.split hr
  rw [hg.1]
  rcases tlsfRealloc_spec hs hused h0 hmax with ⟨hrun, -⟩ | ⟨m', bs', d, hrun, hresized⟩
  · refine ⟨0, m, hrun, fun hne => absurd rfl hne, ?_, ⟨_, hs, h⟩, hout⟩
    rw [View.Serves, if_pos rfl]
    exact fun _ _ => rfl
  · have howns : Owns (⟨d.addr + 8, size⟩ :: v.live.erase r) bs' :=
      hothers.add hresized.used ⟨rfl, hresized.size_le⟩
    have hp0 : d.addr + 8 ≠ 0 := by omega
    have hdrop : Owns (v.drop r).live (pre ++ post) := hothers
    refine ⟨d.addr + 8, m', hrun, fun _ s hs => howns.apart hresized.sound.laid hs, ?_,
      ⟨bs', hresized.sound, ?_⟩, fun x hx => (hresized.keeps.outside hx).trans (hout x hx)⟩
    · rw [View.Serves, if_neg hp0]
      refine ⟨fun x hx => hresized.keeps x (known_untouched (hwf.drop r) hdrop hx), fun i hi => ?_⟩
      have hsize := hg.2
      rw [hresized.bytes i (by omega), hg.1]
    · rw [View.after, if_neg hp0]
      exact howns

/-- **A client writes** into one of its regions. -/
theorem write_served {x : Nat} (b : BitVec 8) (hs : Sound m pool stop bs) (h : Owns v.live bs)
    (hout : ∀ x, x < pool ∨ stop + 8 ≤ x → m x = m₀ x) (hx : ∃ r ∈ v.live, r.Has x) :
    v.Serves m (Function.update m x b) 0 (.write x b) ∧
      Inv m₀ pool stop { mem := Function.update m x b, view := v.put x b } := by
  obtain ⟨r, hr, hin⟩ := hx
  obtain ⟨c, hc, hused, hg⟩ := h.block hr
  have hcf := hs.laid.facts hc
  have hlo := hcf.lo
  have hhi := hcf.hi
  have hb := hg.has hin
  refine ⟨⟨Function.update_self .., fun y hy _ => Function.update_of_ne hy ..⟩,
    ⟨bs, hs.write fun y hy => Function.update_of_ne ?_ .., h⟩, fun y hy => ?_⟩
  · rintro rfl
    exact hy (h.untouched hr hin)
  · have hyx : y ≠ x := by
      unfold Block.next at hb
      omega
    exact (Function.update_of_ne hyx ..).trans (hout y hy)

/-! ## Calls -/

/-- A call of a client: the functions of `malloc.c`, `tlsf_memalign`, and a store of its own. A pointer is
`NULL` or that of a region. -/
inductive Call
  | malloc (size : Nat)
  | calloc (nmemb size : Nat)
  | memalign (k size : Nat)
  | realloc (r : Option Region) (size : Nat)
  | free (r : Option Region)
  | store (x : Nat) (b : BitVec 8)

/-- The pointer of a region, or `NULL`. -/
def ptrOf : Option Region → Nat
  | none => 0
  | some r => r.addr

/-- The call in memory. The alignment of `tlsf_memalign` is a power of two. -/
def exec (gPool : Nat) (m : Mem) : Call → Option (Nat × Mem)
  | .malloc size => Malloc.malloc m gPool size
  | .calloc nmemb size => Malloc.calloc m gPool nmemb size
  | .memalign k size => tlsfMemalign m gPool (2 ^ k) size
  | .realloc r size => Malloc.realloc m gPool (ptrOf r) size
  | .free r => (Malloc.free m gPool (ptrOf r)).map fun m => (0, m)
  | .store x b => some (0, Function.update m x b)

/-- What the client asks for with a call. -/
def request : Call → Request (BitVec 8)
  | .malloc size => .alloc size none
  | .calloc nmemb size => .alloc (nmemb * size % 2 ^ 32) (some 0)
  | .memalign _ size => .alloc size none
  | .realloc none size => .alloc size none
  | .realloc (some r) size => if size = 0 then .release r else .resize r size
  | .free none => .skip
  | .free (some r) => .release r
  | .store x b => .write x b

/-- A request that the tables have a list for, or that is refused before. -/
def Searchable (size : Nat) : Prop := size ≤ searchMax ∨ 2 ^ 30 ≤ size

/-- **Calls that stay inside the tables**, of an aligned block or another size with bytes in it. -/
def Call.Fits : Call → Prop
  | .malloc size => Searchable size
  | .calloc nmemb size => Searchable (nmemb * size % 2 ^ 32)
  | .memalign k size => k < 32 ∧ size ≠ 0 ∧ size ≤ searchMax ∧ memalignSize k size ≤ searchMax
  | .realloc none size => Searchable size
  | .realloc (some _) size => size ≤ searchMax
  | .free _ => True
  | .store _ _ => True

/-- **`tlsf_malloc` as a request**, with the bytes of the region set to something else after. -/
theorem malloc_served (init : Option (BitVec 8)) (hwf : v.Wf) (hs : Sound m pool stop bs)
    (h : Owns v.live bs) (hout : ∀ x, x < pool ∨ stop + 8 ≤ x → m x = m₀ x) (hsize : Searchable size) :
    ∃ p m₁, tlsfMalloc m pool size = some (p, m₁) ∧ (p ≠ 0 → p + size ≤ 2 ^ 32) ∧ ∀ m', (p = 0 → m' = m₁) →
      (∀ x, ¬Region.Has ⟨p, size⟩ x → m' x = m₁ x) → (∀ b, init = some b → p ≠ 0 → ∀ i < size, m' (p + i) = b) →
        v.Fresh p (.alloc size init) ∧ v.Serves m m' p (.alloc size init) ∧
          Inv m₀ pool stop { mem := m', view := v.after p (.alloc size init) } := by
  have hrefused : tlsfMalloc m pool size = some (0, m) → ∃ p m₁, tlsfMalloc m pool size = some (p, m₁) ∧
      (p ≠ 0 → p + size ≤ 2 ^ 32) ∧ ∀ m', (p = 0 → m' = m₁) → (∀ x, ¬Region.Has ⟨p, size⟩ x → m' x = m₁ x) →
        (∀ b, init = some b → p ≠ 0 → ∀ i < size, m' (p + i) = b) → v.Fresh p (.alloc size init) ∧
          v.Serves m m' p (.alloc size init) ∧
            Inv m₀ pool stop { mem := m', view := v.after p (.alloc size init) } := by
    refine fun hrun => ⟨0, m, hrun, fun hne => absurd rfl hne, fun m' hm' _ _ => ?_⟩
    rw [hm' rfl]
    exact ⟨fun hne => absurd rfl hne, ⟨fun _ _ => rfl, fun hne => absurd rfl hne⟩, ⟨bs, hs, h⟩, hout⟩
  by_cases h0 : size = 0 ∨ 2 ^ 30 ≤ size
  · exact hrefused (tlsfMalloc_refused h0)
  · have hmax : size ≤ searchMax := hsize.resolve_right fun hge => h0 (Or.inr hge)
    have hne : size ≠ 0 := fun he => h0 (Or.inl he)
    rcases tlsfMalloc_spec hs hne hmax with ⟨hrun, -⟩ | ⟨m₁, bs', c, hrun, -, hgot⟩
    · exact hrefused hrun
    · have hle := (adjusted_le_searchMax hne hmax).1
      have hc := hgot.sound.laid.facts (mem_usedOf.1 (hgot.used.mem_iff.2 List.mem_cons_self)).1
      have hhi := hc.hi
      have hstop := hc.stop_le
      have hcsize := hgot.size_le
      refine ⟨c.addr + 8, m₁, hrun, fun _ => by omega, fun m' _ hm' hinit => ?_⟩
      exact alloc_served hwf h hout hgot hle hm' fun b hb => hinit b hb (by omega)

/-- **Every call meets the contract**, and the heap stays sound. -/
theorem call_served (s : Client (BitVec 8)) (q : Call) (hI : Inv m₀ pool stop s) (hwf : s.view.Wf)
    (hlegal : s.view.Legal (request q)) (hfits : q.Fits) :
    ∃ p m', exec pool s.mem q = some (p, m') ∧ s.view.Fresh p (request q) ∧
      s.view.Serves s.mem m' p (request q) ∧ Inv m₀ pool stop { mem := m', view := s.view.after p (request q) } := by
  obtain ⟨⟨bs, hs, howns⟩, hout⟩ := hI
  cases q with
  | malloc size =>
    obtain ⟨p, m', hrun, -, hserved⟩ := malloc_served none hwf hs howns hout hfits
    exact ⟨p, m', hrun, hserved m' (fun _ => rfl) (fun _ _ => rfl) fun b hb => nomatch hb⟩
  | calloc nmemb size =>
    obtain ⟨p, m₁, hrun, hroom, hserved⟩ := malloc_served (some 0) hwf hs howns hout hfits
    refine ⟨p, _, by rw [exec, Malloc.calloc, hrun]; rfl, hserved _ (fun hp => if_neg (not_not_intro hp))
      (fun x hx => ?_) fun b hb hp i hi => ?_⟩
    · split
      · next hp =>
        rw [Chunk.memset_apply 0 (hroom hp)]
        exact if_neg hx
      · rfl
    · rw [if_pos hp, Chunk.memset_apply 0 (hroom hp), if_pos ⟨Nat.le_add_right .., Nat.add_lt_add_left hi p⟩]
      exact Option.some.inj hb
  | memalign k size =>
    obtain ⟨hk, h0, hsize, hmax⟩ := hfits
    rcases tlsfMemalign_spec hs hk h0 hsize hmax with ⟨hrun, -⟩ | ⟨m', bs', c, hrun, -, -, hgot⟩
    · exact ⟨0, s.mem, hrun, fun hne => absurd rfl hne, ⟨fun _ _ => rfl, fun hne => absurd rfl hne⟩,
        ⟨bs, hs, howns⟩, hout⟩
    · exact ⟨c.addr + 8, m', hrun, alloc_served hwf howns hout hgot (adjusted_le_searchMax h0 hsize).1
        (fun _ _ => rfl) fun b hb => nomatch hb⟩
  | realloc r size =>
    cases r with
    | none =>
      obtain ⟨p, m', hrun, -, hserved⟩ := malloc_served none hwf hs howns hout hfits
      refine ⟨p, m', ?_, hserved m' (fun _ => rfl) (fun _ _ => rfl) fun b hb => nomatch hb⟩
      rw [exec, Malloc.realloc, ptrOf, tlsfRealloc, if_neg fun hp => hp.1 rfl, if_pos rfl, hrun]
    | some r =>
      by_cases h0 : size = 0
      · have hq : request (.realloc (some r) size) = .release r := if_pos h0
        rw [hq] at hlegal ⊢
        obtain ⟨m', hrun, hserves, hinv⟩ := release_served hwf hs howns hout hlegal
        refine ⟨0, m', ?_, trivial, hserves, hinv⟩
        obtain ⟨c, hc, -, hg⟩ := howns.block hlegal
        have hp0 : ptrOf (some r) ≠ 0 := fun hp => by
          have haddr := hg.1
          rw [ptrOf] at hp
          omega
        rw [exec, Malloc.realloc, tlsfRealloc, if_pos ⟨hp0, h0⟩]
        simp only [ptrOf, hrun, Option.bind_eq_bind, Option.bind_some, Option.pure_def]
      · have hq : request (.realloc (some r) size) = .resize r size := if_neg h0
        rw [hq] at hlegal ⊢
        exact resize_served hwf hs howns hout hlegal h0 hfits
  | free r =>
    cases r with
    | none => exact ⟨0, s.mem, rfl, trivial, fun _ _ => rfl, ⟨bs, hs, howns⟩, hout⟩
    | some r =>
      obtain ⟨m', hrun, hserves, hinv⟩ := release_served hwf hs howns hout hlegal
      exact ⟨0, m', by rw [exec, Malloc.free, ptrOf, hrun]; rfl, trivial, hserves, hinv⟩
  | store x b =>
    obtain ⟨hserves, hinv⟩ := write_served b hs howns hout hlegal
    exact ⟨0, _, rfl, trivial, hserves, hinv⟩

end Xmhf.Tlsf
