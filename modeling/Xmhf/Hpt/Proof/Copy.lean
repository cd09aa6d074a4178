import Xmhf.Hpt.Proof.Hops

/-!
# Checked copies

A copy moves bytes from one side to the other in chunks of contiguous bytes.

* The size of a chunk comes from the place on the frame, so a chunk stays within its pages where leaving a
  page and coming to the end of its frame are the same (`Straight`).
* `checkedCopy_bytes`: then every byte of a copy is at its own translation.
-/

namespace Xmhf.Hpt

open Xmhf.Memory Xmhf.Word Xmhf.Chunk Xmhf.Paging

/-! ## The two sides of a copy -/

/-- Where the bytes of a copy are or come from: addresses of a context, a buffer, or one byte. -/
inductive Side
  | mapped (c : EmhfCtx) (base : Va)
  | buffer (ptr : Nat)
  | byte (b : BitVec 8)

namespace Side

/-- The types of the tables are NORM, PAE or EPT. -/
def Walked : Side → Prop
  | mapped c _ => c.Walked
  | _ => True

/-- A byte of a page map of the side. -/
def InMaps (r : Rpb) (m : Mem) : Side → Nat → Prop
  | mapped c _, x => c.InMaps r m x
  | _, _ => False

/-- The pages of the translation of byte `i`. -/
def hops (r : Rpb) (m : Mem) : Side → Nat → Option (List Hop)
  | mapped c base, i => c.hops r m (vaAt base i)
  | _, _ => some []

/-- The pointer of byte `i`. -/
def ptrAt (r : Rpb) (m : Mem) : Side → Nat → Option Nat
  | mapped c base, i => c.translate r m (vaAt base i)
  | buffer ptr, i => some (add32 ptr i)
  | byte _, _ => none

/-- Byte `i`. -/
def byteAt (r : Rpb) (m : Mem) : Side → Nat → Option (BitVec 8)
  | mapped c base, i => (c.translate r m (vaAt base i)).map m
  | buffer ptr, i => some (m (add32 ptr i))
  | byte b, _ => some b

/-- The address of byte `i` is the last of a page. -/
def Leaves (r : Rpb) (m : Mem) (side : Side) (i : Nat) : Prop :=
  ∃ x ∈ (side.hops r m i).getD [], x.Leaves

/-- Byte `i` is the last of a frame. -/
def Ends (r : Rpb) (m : Mem) (side : Side) (i : Nat) : Prop :=
  ∃ x ∈ (side.hops r m i).getD [], x.Ends

/-- The pages of byte `i` have the same offset on their frames. -/
def Aligned (r : Rpb) (m : Mem) (side : Side) (i : Nat) : Prop :=
  ∀ x ∈ (side.hops r m i).getD [],
    x.va.toNat % 2 ^ x.leaf.pageSizeLog2 = x.pa.toNat % 2 ^ x.leaf.pageSizeLog2

instance (r : Rpb) (m : Mem) (side : Side) (i : Nat) : Decidable (side.Aligned r m i) :=
  inferInstanceAs (Decidable (∀ x ∈ _, _))

/-- `f` are the bytes from byte `done` on as `s` has them. -/
def Reads (r : Rpb) (m s : Mem) : Side → Nat → (Nat → BitVec 8) → Prop
  | byte b, _, f => ∀ i, f i = b
  | side, done, f => ∃ ptr, side.ptrAt r m done = some ptr ∧ ∀ i, f i = s (add32 ptr i)

/-- A chunk of `k` bytes from byte `done` on stays on its frames. -/
structure Chunk (r : Rpb) (m : Mem) (side : Side) (done k : Nat) (xs : List Hop) : Prop where
  hops : side.hops r m done = some xs
  le : ∀ x ∈ xs, k ≤ x.leaf.remainingOnPage x.pa

end Side

/-- A call of one of the four functions. -/
inductive Op
  | copyFromVa (src : EmhfCtx) (cpl : Cpl) (dst : Nat) (srcVa : Va)
  | copyToVa (dst : EmhfCtx) (cpl : Cpl) (dstVa : Va) (src : Nat)
  | copyVaToVa (dst : EmhfCtx) (dstCpl : Cpl) (dstVa : Va) (src : EmhfCtx) (srcCpl : Cpl) (srcVa : Va)
  | memsetVa (dst : EmhfCtx) (cpl : Cpl) (dstVa : Va) (c : BitVec 32)

namespace Op

/-- The call. -/
def run (r : Rpb) (len : Nat) (m : Mem) : Op → Option (Nat × Mem)
  | copyFromVa src cpl dst srcVa => checkedCopyFromVa (src.super r) cpl dst srcVa len m
  | copyToVa dst cpl dstVa src => checkedCopyToVa (dst.super r) cpl dstVa src len m
  | copyVaToVa dst dstCpl dstVa src srcCpl srcVa =>
    checkedCopyVaToVa (dst.super r) dstCpl dstVa (src.super r) srcCpl srcVa len m
  | memsetVa dst cpl dstVa c => checkedMemsetVa (dst.super r) cpl dstVa c len m

/-- A round of its loop. -/
def chunk (r : Rpb) (len : Nat) : Op → Mem → Nat → Option (Option (Mem × Nat))
  | copyFromVa src cpl dst srcVa => copyFromChunk (src.super r) cpl dst srcVa len
  | copyToVa dst cpl dstVa src => copyToChunk (dst.super r) cpl dstVa src len
  | copyVaToVa dst dstCpl dstVa src srcCpl srcVa =>
    copyVaToVaChunk (dst.super r) dstCpl dstVa (src.super r) srcCpl srcVa len
  | memsetVa dst cpl dstVa c => memsetChunk (dst.super r) cpl dstVa c len

/-- Where the bytes go. -/
def dst : Op → Side
  | copyFromVa _ _ dst _ => .buffer dst
  | copyToVa dst _ dstVa _ => .mapped dst dstVa
  | copyVaToVa dst _ dstVa _ _ _ => .mapped dst dstVa
  | memsetVa dst _ dstVa _ => .mapped dst dstVa

/-- Where they come from. -/
def src : Op → Side
  | copyFromVa src _ _ srcVa => .mapped src srcVa
  | copyToVa _ _ _ src => .buffer src
  | copyVaToVa _ _ _ src _ srcVa => .mapped src srcVa
  | memsetVa _ _ _ c => .byte (c.setWidth 8)

end Op

/-- Where one of the sides leaves a page, one of them is at the end of a frame, so that the chunk ends
there. -/
def Straight (r : Rpb) (m : Mem) (dst src : Side) (len : Nat) : Prop :=
  ∀ i, i + 1 < len → dst.Leaves r m i ∨ src.Leaves r m i → dst.Ends r m i ∨ src.Ends r m i

variable {c : EmhfCtx} {r : Rpb} {m s : Mem} {base : Va} {access : Prot} {cpl : Cpl} {side dst src : Side}
  {xs ys : List Hop} {i k n len done ptr : Nat}

namespace Side

theorem hops_add (h : side.hops r m done = some xs) (hin : ∀ j < i, ∀ x ∈ xs, ¬ (x.add j).Leaves) :
    side.hops r m (done + i) = some (xs.map (·.add i)) := by
  cases side with
  | mapped c base =>
    rw [hops, ← vaAt_vaAt]
    exact EmhfCtx.hops_add h hin
  | _ =>
    obtain rfl := Option.some.inj h
    rfl

theorem ptrAt_add (hp : side.ptrAt r m done = some ptr) (h : side.hops r m done = some xs)
    (hi : side.hops r m (done + i) = some (xs.map (·.add i))) :
    side.ptrAt r m (done + i) = some (add32 ptr i) := by
  cases side with
  | mapped c base =>
    rw [ptrAt, EmhfCtx.translate, show c.hops r m _ = _ from h, Option.bind_some] at hp
    rw [ptrAt, EmhfCtx.translate, show c.hops r m _ = _ from hi, Option.bind_some, lastPtr_add hp]
  | buffer p =>
    obtain rfl := Option.some.inj hp
    refine congrArg some ?_
    unfold add32
    omega
  | byte b => cases hp

theorem byteAt_of_reads {f : Nat → BitVec 8} (hf : side.Reads r m s done f)
    (h : side.hops r m done = some xs) (hi : side.hops r m (done + i) = some (xs.map (·.add i)))
    (hs : ∀ x, side.ptrAt r m (done + i) = some x → s x = m x) : side.byteAt r m (done + i) = some (f i) := by
  have hptr : ∀ {p}, side.ptrAt r m done = some p → f i = s (add32 p i) →
      (side.ptrAt r m (done + i)).map m = some (f i) := by
    intro p hp hfi
    have hat := ptrAt_add hp h hi
    rw [hat, Option.map_some, hfi, hs _ hat]
  cases side with
  | byte b => exact congrArg some (hf i).symm
  | _ =>
    obtain ⟨p, hp, hf⟩ := hf
    exact hptr hp (hf i)

theorem Chunk.mono {k' : Nat} (h : side.Chunk r m done k xs) (hk : k' ≤ k) : side.Chunk r m done k' xs :=
  ⟨h.hops, fun x hx => Nat.le_trans hk (h.le x hx)⟩

theorem chunk_of_access (hw : c.Walked) (hmaps : ∀ x, c.InMaps r m x → s x = m x)
    (h : checkedAccessVa (c.super r) s access cpl (vaAt base done) n = some (ptr, k)) (hptr : ptr ≠ 0) :
    ∃ xs, (mapped c base).Chunk r m done k xs ∧ (mapped c base).ptrAt r m done = some ptr ∧ k ≤ n := by
  obtain ⟨xs, hhops, hlast, hk, hle⟩ :=
    EmhfCtx.hops_of_access ((EmhfCtx.sameMaps hw hmaps).checkedAccessVa_eq h hptr) hptr
  refine ⟨xs, ⟨hhops, hle⟩, ?_, hk⟩
  rw [ptrAt, EmhfCtx.translate, hhops, Option.bind_some, hlast]

end Side

/-! ## A chunk -/

theorem Hop.ends_of_leaves {x : Hop}
    (h : x.va.toNat % 2 ^ x.leaf.pageSizeLog2 = x.pa.toNat % 2 ^ x.leaf.pageSizeLog2) (hx : x.Leaves) :
    x.Ends := by
  have hx : (x.va.toNat + 1) % 2 ^ x.leaf.pageSizeLog2 = 0 := hx
  show (x.pa.toNat + 1) % 2 ^ x.leaf.pageSizeLog2 = 0
  rw [← hx, ← Nat.mod_add_mod, ← h, Nat.mod_add_mod]

/-- Pages that are aligned to their size make a copy straight. -/
theorem straight_of_aligned (hdst : ∀ i < len, dst.Aligned r m i) (hsrc : ∀ i < len, src.Aligned r m i) :
    Straight r m dst src len := by
  rintro i hi (⟨x, hx, hleaves⟩ | ⟨y, hy, hleaves⟩)
  · exact Or.inl ⟨x, hx, Hop.ends_of_leaves (hdst i (Nat.lt_of_succ_lt hi) x hx) hleaves⟩
  · exact Or.inr ⟨y, hy, Hop.ends_of_leaves (hsrc i (Nat.lt_of_succ_lt hi) y hy) hleaves⟩

/-- A chunk does not leave its pages but at its end. -/
theorem Straight.not_leaves (h : Straight r m dst src len) (hdst : dst.Chunk r m done k xs)
    (hsrc : src.Chunk r m done k ys) (hle : done + k ≤ len) (hi : i + 1 < k) :
    (∀ x ∈ xs, ¬ (x.add i).Leaves) ∧ ∀ y ∈ ys, ¬ (y.add i).Leaves := by
  induction i using Nat.strong_induction_on with
  | _ i ih =>
    have hends : ∀ {side : Side} {zs : List Hop}, side.Chunk r m done k zs →
        side.hops r m (done + i) = some (zs.map (·.add i)) → ¬ side.Ends r m (done + i) := by
      rintro side zs hchunk hhops ⟨y, hy, hyends⟩
      rw [hhops, Option.getD_some] at hy
      obtain ⟨z, hz, rfl⟩ := List.mem_map.1 hy
      exact Hop.not_ends (Nat.lt_of_lt_of_le hi (hchunk.le z hz)) hyends
    have hdst' := Side.hops_add hdst.hops fun j hj => (ih j hj (by omega)).1
    have hsrc' := Side.hops_add hsrc.hops fun j hj => (ih j hj (by omega)).2
    have hno : ¬ (dst.Leaves r m (done + i) ∨ src.Leaves r m (done + i)) := fun hleaves =>
      (h (done + i) (by omega) hleaves).elim (hends hdst hdst') (hends hsrc hsrc')
    constructor
    · refine fun x hx hx' => hno (Or.inl ⟨x.add i, ?_, hx'⟩)
      rw [hdst', Option.getD_some]
      exact List.mem_map_of_mem hx
    · refine fun y hy hy' => hno (Or.inr ⟨y.add i, ?_, hy'⟩)
      rw [hsrc', Option.getD_some]
      exact List.mem_map_of_mem hy

/-- The pointers of a chunk are contiguous on both sides. -/
theorem Straight.hops_add (h : Straight r m dst src len) (hdst : dst.Chunk r m done k xs)
    (hsrc : src.Chunk r m done k ys) (hle : done + k ≤ len) (hi : i < k) :
    dst.hops r m (done + i) = some (xs.map (·.add i)) ∧
      src.hops r m (done + i) = some (ys.map (·.add i)) :=
  ⟨Side.hops_add hdst.hops fun _ hj => (h.not_leaves hdst hsrc hle (by omega)).1,
    Side.hops_add hsrc.hops fun _ hj => (h.not_leaves hdst hsrc hle (by omega)).2⟩

namespace Op

theorem run_eq (op : Op) : op.run r len m = (chunkLoop (op.chunk r len) len len 0 m).map copyRv := by
  cases op <;> rfl

theorem round_iff {p : Prop} [Decidable p] {m' s' : Mem} {k' : Nat} :
    (if p then some none else some (some (m', k'))) = some (some (s', k)) ↔ ¬ p ∧ m' = s' ∧ k' = k := by
  by_cases h : p <;> simp [h]

/-- A round moves a chunk from the one side to the other. -/
theorem chunk_inv {op : Op} {s' : Mem} (hdst : op.dst.Walked) (hsrc : op.src.Walked)
    (hdstMaps : ∀ x, op.dst.InMaps r m x → s x = m x) (hsrcMaps : ∀ x, op.src.InMaps r m x → s x = m x)
    (h : op.chunk r len s done = some (some (s', k))) : ∃ xs ys ptr f,
      op.dst.Chunk r m done k xs ∧ op.src.Chunk r m done k ys ∧ k ≤ len - done ∧
      op.dst.ptrAt r m done = some ptr ∧ op.src.Reads r m s done f ∧ s' = writeBytes s ptr f k := by
  cases op with
  | copyFromVa c cpl dst srcVa =>
    obtain ⟨⟨src, toCopy⟩, hacc, h⟩ := Option.bind_eq_some_iff.1 h
    obtain ⟨h0, rfl, rfl⟩ := round_iff.1 h
    obtain ⟨ys, hys, hptr, hk⟩ := Side.chunk_of_access hsrc hsrcMaps hacc h0
    exact ⟨[], ys, _, _, ⟨rfl, nofun⟩, hys, hk, rfl, ⟨src, hptr, fun _ => rfl⟩, rfl⟩
  | copyToVa c cpl dstVa src =>
    obtain ⟨⟨dst, toCopy⟩, hacc, h⟩ := Option.bind_eq_some_iff.1 h
    obtain ⟨h0, rfl, rfl⟩ := round_iff.1 h
    obtain ⟨xs, hxs, hptr, hk⟩ := Side.chunk_of_access hdst hdstMaps hacc h0
    exact ⟨xs, [], dst, _, hxs, ⟨rfl, nofun⟩, hk, hptr, ⟨_, rfl, fun _ => rfl⟩, rfl⟩
  | copyVaToVa c cpl dstVa c' cpl' srcVa =>
    obtain ⟨⟨dst, avail⟩, hacc, h⟩ := Option.bind_eq_some_iff.1 h
    dsimp only at h
    by_cases h0 : dst = 0
    · rw [if_pos h0] at h
      cases h
    · rw [if_neg h0] at h
      obtain ⟨⟨src, toCopy⟩, hacc', h⟩ := Option.bind_eq_some_iff.1 h
      obtain ⟨h0', rfl, rfl⟩ := round_iff.1 h
      obtain ⟨xs, hxs, hptr, hk⟩ := Side.chunk_of_access hdst hdstMaps hacc h0
      obtain ⟨ys, hys, hptr', hk'⟩ := Side.chunk_of_access hsrc hsrcMaps hacc' h0'
      exact ⟨xs, ys, dst, _, hxs.mono hk', hys, hk'.trans hk, hptr, ⟨src, hptr', fun _ => rfl⟩, rfl⟩
  | memsetVa c cpl dstVa b =>
    obtain ⟨⟨dst, toSet⟩, hacc, h⟩ := Option.bind_eq_some_iff.1 h
    obtain ⟨h0, rfl, rfl⟩ := round_iff.1 h
    obtain ⟨xs, hxs, hptr, hk⟩ := Side.chunk_of_access hdst hdstMaps hacc h0
    exact ⟨xs, [], dst, _, hxs, ⟨rfl, nofun⟩, hk, hptr, fun _ => rfl, rfl⟩

theorem chunk_pos {op : Op} {s' : Mem} (hlen : done < len)
    (h : op.chunk r len s done = some (some (s', k))) : 1 ≤ k := by
  have hpos : ∀ {c : EmhfCtx} {va : Va} {access cpl n ptr k}, 1 ≤ n → ptr ≠ 0 →
      checkedAccessVa (c.super r) s access cpl va n = some (ptr, k) → 1 ≤ k := by
    intro c va access cpl n ptr k hn hptr hacc
    obtain ⟨leaf, pa, hw⟩ := checkedWalk_of_some (c.availOk r) hn hacc hptr
    exact hw.bytes.1
  cases op with
  | copyVaToVa c cpl dstVa c' cpl' srcVa =>
    obtain ⟨⟨dst, avail⟩, hacc, h⟩ := Option.bind_eq_some_iff.1 h
    dsimp only at h
    by_cases h0 : dst = 0
    · rw [if_pos h0] at h
      cases h
    · rw [if_neg h0] at h
      obtain ⟨⟨src, toCopy⟩, hacc', h⟩ := Option.bind_eq_some_iff.1 h
      obtain ⟨h0', rfl, rfl⟩ := round_iff.1 h
      exact hpos (hpos (by omega) h0 hacc) h0' hacc'
  | _ =>
    obtain ⟨⟨ptr, toCopy⟩, hacc, h⟩ := Option.bind_eq_some_iff.1 h
    obtain ⟨h0, rfl, rfl⟩ := round_iff.1 h
    exact hpos (by omega) h0 hacc

theorem run_eq_of_le (op : Op) (hn : len ≤ n) :
    (chunkLoop (op.chunk r len) len n 0 m).map copyRv = op.run r len m := by
  rw [run_eq, chunkLoop_eq_of_le (fun _ _ _ _ => chunk_pos) (by omega) (Nat.le_of_eq (Nat.zero_add len).symm)]

end Op

/-! ## Every byte of a copy -/

/-- The bytes that are written are none of the source and none of a page map. -/
def FramesApart (r : Rpb) (m : Mem) (dst src : Side) (len : Nat) : Prop :=
  ∀ i < len, ∀ x, dst.ptrAt r m i = some x → ¬ dst.InMaps r m x ∧ ¬ src.InMaps r m x ∧
    ∀ j < len, src.ptrAt r m j ≠ some x

/-- Addresses that share a byte are given the same. -/
def SharedAgree (r : Rpb) (m : Mem) (dst src : Side) (len : Nat) : Prop :=
  ∀ i < len, ∀ j < len, ∀ x, dst.ptrAt r m i = some x → dst.ptrAt r m j = some x →
    src.byteAt r m i = src.byteAt r m j

/-- Each byte is at its own translation: the property of a copy. -/
def BytesAt (r : Rpb) (m m' : Mem) (dst src : Side) (len : Nat) : Prop :=
  ∀ i < len, ∃ x, dst.ptrAt r m i = some x ∧ src.byteAt r m i = some (m' x)

/-- **Checked copies move the right bytes**: a call that returns 0 has put each byte at the translation
of its own address, where the pages of both sides are straight and addresses that share a byte are given
the same. -/
theorem checkedCopy_bytes (r : Rpb) (op : Op) {m' : Mem} (hdst : op.dst.Walked) (hsrc : op.src.Walked)
    (hframes : FramesApart r m op.dst op.src len) (hshared : SharedAgree r m op.dst op.src len)
    (hstraight : Straight r m op.dst op.src len) (h : op.run r len m = some (0, m')) :
    BytesAt r m m' op.dst op.src len := by
  rw [Op.run_eq] at h
  obtain ⟨⟨fin, m''⟩, hloop, h⟩ := Option.map_eq_some_iff.1 h
  obtain ⟨hrv, rfl⟩ := Prod.mk.inj h
  obtain rfl : fin = true := by
    by_contra hfin
    simp [hfin] at hrv
  refine (placed_of_chunkLoop ?_ hshared hloop).placed
  intro done s s' k hlen hwithin hchunk
  have hmaps : ∀ x, op.dst.InMaps r m x ∨ op.src.InMaps r m x → s x = m x := by
    intro x hx
    refine hwithin x fun i hi hat => ?_
    obtain ⟨h1, h2, -⟩ := hframes i hi x hat
    exact hx.elim h1 h2
  obtain ⟨xs, ys, ptr, f, hxs, hys, hk, hptr, hf, rfl⟩ := Op.chunk_inv hdst hsrc
    (fun x hx => hmaps x (Or.inl hx)) (fun x hx => hmaps x (Or.inr hx)) hchunk
  refine ⟨by omega, ptr, f, ?_, rfl⟩
  intro i hi
  obtain ⟨hdst', hsrc'⟩ := hstraight.hops_add hxs hys (by omega) hi
  refine ⟨Side.ptrAt_add hptr hxs.hops hdst', Side.byteAt_of_reads hf hys.hops hsrc' ?_⟩
  intro x hx
  exact hwithin x fun j hj hat => (hframes j hj x hat).2.2 (done + i) (by omega) hx

/-! ## Copies that go wrong -/

theorem maps_among {ctx : Ctx} {P : Pmo → Prop} (hroot : ∀ pmo, getRoot ctx m = some (some pmo) → P pmo)
    (hstep : ∀ va pmo e q, P pmo → pmo.getPmeoByVa m va = some e → Step ctx m pmo e true q → P q)
    {va : Va} {d : Nat} {pmo : Pmo} (h : mapAt ctx m va d = some pmo) : P pmo := by
  induction d generalizing pmo with
  | zero =>
    obtain ⟨root, hr, rfl⟩ := Option.bind_eq_some_iff.1 h
    exact hroot _ hr
  | succ d ih =>
    obtain ⟨pmo', hmap, h⟩ := Option.bind_eq_some_iff.1 h
    obtain ⟨⟨b, q⟩, hnext, h⟩ := Option.bind_eq_some_iff.1 h
    obtain ⟨rfl, h⟩ := Option.ite_none_right_eq_some.1 h
    obtain rfl := Option.some.inj h
    obtain ⟨-, e, he, hs⟩ := nextLvl_iff.1 hnext
    exact hstep va pmo' e _ (ih hmap) he hs

/-- The host of `nestedMem`, and in it a PAE guest with the pointer table at 0x3000 and a page directory at
0x4000, whose second entry maps 2 MB at 0x800000. Two bytes are set. -/
def paeWords (first : Pme) (i : Nat) : BitVec 64 :=
  if i = 0xB0001000 / 8 then 0x2007
  else if i = 0xB0002000 / 8 then 0x87
  else if i = 0xB0003000 / 8 then 0x4001
  else if i = 0xB0004000 / 8 then first
  else if i = 0xB0004000 / 8 + 1 then 0x800087
  else if i = 0xB0800000 / 8 then 0xAA
  else if i = 0xC0300000 / 8 then 0xAA
  else 0

/-- `paeWords` as memory. -/
def paeMem (first : Pme) : Mem := ofWords (paeWords first)

/-- The guest of `paeMem`. -/
def paeGuest : EmhfCtx := .guest ⟨0x3000, .pae, ⟨0x1000, .ept⟩⟩

/-- Only an entry that is present and no page links a page map. -/
theorem Step.no_link {ctx : Ctx} {pmo q : Pmo} {e : Pmeo} {P : Prop} (h : Step ctx m pmo e true q)
    (hno : e.isPresent = some false ∨ e.isPage = some true) : P := by
  cases h with
  | down hpresent hpage =>
    rw [hpresent, hpage] at hno
    rcases hno with hno | hno <;> cases hno

theorem Step.link_eq {ctx : Ctx} {pmo q : Pmo} {e : Pmeo} {pa : Pa} {sz pm avail : Nat}
    (h : Step ctx m pmo e true q) (hpa : e.getAddress = some pa) (hsz : pmSize pmo.t (pmo.lvl - 1) = some sz)
    (hptr : ctx.pa2ptr m pa sz protsR .cpl0 = some (pm, avail)) : q = ⟨pm, pmo.t, pmo.lvl - 1⟩ := by
  cases h with
  | down _ _ hsz' hpa' hptr' =>
    obtain rfl := Option.some.inj (hsz.symm.trans hsz')
    obtain rfl := Option.some.inj (hpa.symm.trans hpa')
    obtain ⟨rfl, -⟩ := Prod.mk.inj (Option.some.inj (hptr.symm.trans hptr'))
    rfl

/-- A page map of 8-byte words that links one at most, by its first entry. -/
theorem Step.first_of_words {ctx : Ctx} {w : Nat → BitVec 64} {t : HptType} {lvl k : Nat} {e : Pmeo} {va : Va}
    {q : Pmo} (hl : OnLvl t lvl) (hw : widthOf t = 8)
    (hrest : ∀ i, 0 < i → 8 * i + 8 ≤ pmSizes t lvl →
      w (k + i) = 0 ∨ pmeIsPage t lvl (w (k + i)) = some true)
    (he : (⟨8 * k, t, lvl⟩ : Pmo).getPmeoByVa (ofWords w) va = some e)
    (h : Step ctx (ofWords w) ⟨8 * k, t, lvl⟩ e true q) : e = ⟨w k, t, lvl⟩ := by
  have hidx := (getPmIdx_eq hl va).2
  rw [hw] at hidx
  have hentry : entryAt t (ofWords w) (8 * k) (idxOf t lvl va) = w (k + idxOf t lvl va) := by
    rw [entryAt_eq hl.walked, hw, ← Nat.mul_add]
    exact load64_ofWords ..
  rw [Pmo.getPmeoByVa, pmGetPmeByVa_eq hl, Option.map_some, hentry] at he
  obtain rfl := Option.some.inj he
  rcases Nat.eq_zero_or_pos (idxOf t lvl va) with h0 | hpos
  · rw [h0, Nat.add_zero]
  · rcases hrest _ hpos hidx with hzero | hpage
    · refine h.no_link (Or.inl ?_)
      rw [hzero]
      exact pmeIsPresent_eq hl 0
    · exact h.no_link (Or.inr hpage)

theorem paeHost_map {first : Pme} {va : Va} {d : Nat} {pmo : Pmo}
    (h : mapAt (HostCtx.super relocated ⟨0x1000, .ept⟩) (paeMem first) va d = some pmo) :
    pmo = ⟨8 * 0x16000200, .ept, 4⟩ ∨ pmo = ⟨8 * 0x16000400, .ept, 3⟩ := by
  have hl4 : OnLvl .ept 4 := ⟨by simp [HptType.Walked], by decide, by decide⟩
  have hrest : ∀ i, 0 < i → 8 * i + 8 ≤ 4096 →
      paeWords first (0x16000200 + i) = 0 ∧ paeWords first (0x16000400 + i) = 0 := by
    intro i hpos hi
    constructor <;> unfold paeWords <;> repeat rw [if_neg (by omega)]
  refine maps_among (P := fun pmo => pmo = ⟨8 * 0x16000200, .ept, 4⟩ ∨ pmo = ⟨8 * 0x16000400, .ept, 3⟩)
    ?_ ?_ h
  · intro pmo hroot
    exact Or.inl (Option.some.inj (Option.some.inj hroot)).symm
  · rintro va pmo e q (rfl | rfl) he hstep
    · have he' := Step.first_of_words hl4 rfl (fun i hpos hi => Or.inl (hrest i hpos hi).1) he hstep
      rw [he', show paeWords first 0x16000200 = 0x2007 from rfl] at hstep
      exact Or.inr (hstep.link_eq (show _ = some 0x2000 by decide) rfl rfl)
    · have he' := Step.first_of_words (hl4.pred (by decide)) rfl
        (fun i hpos hi => Or.inl (hrest i hpos hi).2) he hstep
      rw [he', show paeWords first 0x16000400 = 0x87 from rfl] at hstep
      exact hstep.no_link (Or.inr (by decide))

/-- The first pages of the two copies: a misaligned one, and the same as the next. -/
def firstPages : List Pme := [0x2087, 0x800087]

theorem paeGuest_map {first : Pme} (hfirst : first ∈ firstPages) {va : Va} {d : Nat} {pmo : Pmo}
    (h : mapAt (paeGuest.super relocated) (paeMem first) va d = some pmo) :
    pmo = ⟨8 * 0x16000600, .pae, 3⟩ ∨ pmo = ⟨8 * 0x16000800, .pae, 2⟩ := by
  have hcases : first = 0x2087 ∨ first = 0x800087 := by simpa [firstPages] using hfirst
  have hl3 : OnLvl .pae 3 := ⟨by simp [HptType.Walked], by decide, by decide⟩
  have hroot : getRoot (paeGuest.super relocated) (paeMem first) = some (some ⟨8 * 0x16000600, .pae, 3⟩) := by
    rcases hcases with rfl | rfl <;> decide +kernel
  have hptr : (paeGuest.super relocated).pa2ptr (paeMem first) 0x4000 4096 protsR .cpl0 =
      some (8 * 0x16000800, 4096) := by
    rcases hcases with rfl | rfl <;> decide +kernel
  have hrest : ∀ i, 0 < i → 8 * i + 8 ≤ 4096 → paeWords first (0x16000800 + i) = 0 ∨
      pmeIsPage .pae 2 (paeWords first (0x16000800 + i)) = some true := by
    intro i hpos hi
    rcases Nat.eq_or_lt_of_le hpos with rfl | hlt
    · exact Or.inr (show pmeIsPage .pae 2 0x800087 = some true by decide)
    · left
      unfold paeWords
      repeat rw [if_neg (by omega)]
  refine maps_among (P := fun pmo => pmo = ⟨8 * 0x16000600, .pae, 3⟩ ∨ pmo = ⟨8 * 0x16000800, .pae, 2⟩)
    ?_ ?_ h
  · intro pmo h
    exact Or.inl (Option.some.inj (Option.some.inj (h.symm.trans hroot)))
  · rintro va pmo e q (rfl | rfl) he hstep
    · have he' := Step.first_of_words hl3 rfl (fun i hpos hi => Or.inl ?_) he hstep
      · rw [he', show paeWords first 0x16000600 = 0x4001 from rfl] at hstep
        exact Or.inr (hstep.link_eq (show _ = some 0x4000 by decide) rfl hptr)
      · have hi : 8 * i + 8 ≤ 32 := hi
        unfold paeWords
        repeat rw [if_neg (by omega)]
    · have he' := Step.first_of_words (hl3.pred (by decide)) rfl hrest he hstep
      rw [he', show paeWords first 0x16000800 = first from rfl] at hstep
      refine hstep.no_link (Or.inr ?_)
      rcases hcases with rfl | rfl <;> decide

theorem paeGuest_inMaps {first : Pme} (hfirst : first ∈ firstPages) {x : Nat}
    (h : paeGuest.InMaps relocated (paeMem first) x) : 0xB0001000 ≤ x ∧ x < 0xB0005000 := by
  rcases h with ⟨va, d, pmo, hmap, h1, h2⟩ | ⟨va, d, pmo, hmap, h1, h2⟩
  · rcases paeGuest_map hfirst hmap with rfl | rfl <;>
      simp only [pmSizes, hptPmSize] at h1 h2 <;> omega
  · rcases paeHost_map hmap with rfl | rfl <;>
      simp only [pmSizes, hptPmSize] at h1 h2 <;> omega

/-- Two bytes from 0x1FFFFF on, the last of a page and the first of the next. -/
def copyAcross : Op := .copyFromVa paeGuest .cpl0 0xC0300000 0x1FFFFF

theorem paeGuest_walked : paeGuest.Walked := ⟨by simp [HptType.Walked], by simp [HptType.Walked]⟩

theorem copyAcross_framesApart {first : Pme} (hfirst : first ∈ firstPages) :
    FramesApart relocated (paeMem first) copyAcross.dst copyAcross.src 2 := by
  have hsrc : ∀ j < 2, copyAcross.src.ptrAt relocated (paeMem first) j ≠ some 0xC0300000 ∧
      copyAcross.src.ptrAt relocated (paeMem first) j ≠ some 0xC0300001 := by
    have hcases : first = 0x2087 ∨ first = 0x800087 := by simpa [firstPages] using hfirst
    rcases hcases with rfl | rfl <;> decide +kernel
  intro i hi x hx
  have hx' : x = 0xC0300000 ∨ x = 0xC0300001 := by
    obtain rfl := Option.some.inj hx
    interval_cases i <;> decide
  refine ⟨id, fun hmaps => ?_, fun j hj => ?_⟩
  · have := paeGuest_inMaps hfirst hmaps
    omega
  · rcases hx' with rfl | rfl
    · exact (hsrc j hj).1
    · exact (hsrc j hj).2

theorem checkedCopy_bytes_across : ∃ m', copyAcross.run relocated 2 (paeMem 0x800087) = some (0, m') ∧
    BytesAt relocated (paeMem 0x800087) m' copyAcross.dst copyAcross.src 2 := by
  have hrun : (copyAcross.run relocated 2 (paeMem 0x800087)).map Prod.fst = some 0 := by decide +kernel
  obtain ⟨⟨rv, m'⟩, hrun, rfl⟩ := Option.map_eq_some_iff.1 hrun
  refine ⟨m', hrun, checkedCopy_bytes relocated copyAcross trivial paeGuest_walked
    (copyAcross_framesApart (by decide)) ?_ (straight_of_aligned (by decide +kernel) (by decide +kernel)) hrun⟩
  intro i hi j hj x hx hx'
  have hij : i = j := by
    have heq : add32 0xC0300000 i = add32 0xC0300000 j := Option.some.inj (hx.trans hx'.symm)
    unfold add32 at heq
    omega
  rw [hij]

/-- From 0x1FFFFF on to the end of the next page, where both have one frame. -/
def copyShared : Op := .copyToVa paeGuest .cpl0 0x1FFFFF 0xC0300000

/-- The bytes of `copyShared` after the first fill a frame. -/
theorem copyShared_ptrAt {j : Nat} (hj : j < 2 ^ 21) :
    copyShared.dst.ptrAt relocated (paeMem 0x800087) (1 + j) = some (0xB0800000 + j) := by
  have hhops : copyShared.dst.hops relocated (paeMem 0x800087) 1 =
      some [⟨⟨0x800087, .pae, 2⟩, 0x200000, 0x800000⟩, ⟨⟨0x87, .ept, 3⟩, 0x800000, 0x800000⟩] := by
    decide +kernel
  have hptr : copyShared.dst.ptrAt relocated (paeMem 0x800087) 1 = some 0xB0800000 := by decide +kernel
  have hnext := Side.ptrAt_add hptr hhops (Side.hops_add (i := j) hhops fun k hk x hx => ?_)
  · rw [hnext, add32_of_lt (by omega)]
  · intro hleaves
    simp only [List.mem_cons, List.not_mem_nil, or_false] at hx
    rcases hx with rfl | rfl
    · have h : ((0x200000 : Va) + BitVec.ofNat 64 k).toNat % 2 ^ 21 + 1 = 2 ^ 21 := by
        have h : (((0x200000 : Va) + BitVec.ofNat 64 k).toNat + 1) % 2 ^ 21 = 0 := hleaves
        omega
      rw [BitVec.toNat_add, BitVec.toNat_ofNat] at h
      simp only [BitVec.ofNat_eq_ofNat, BitVec.toNat_ofNat] at h
      omega
    · have h : (((0x800000 : Va) + BitVec.ofNat 64 k).toNat + 1) % 2 ^ 30 = 0 := hleaves
      rw [BitVec.toNat_add, BitVec.toNat_ofNat] at h
      simp only [BitVec.ofNat_eq_ofNat, BitVec.toNat_ofNat] at h
      omega

theorem copyShared_framesApart :
    FramesApart relocated (paeMem 0x800087) copyShared.dst copyShared.src (2 ^ 21 + 1) := by
  intro i hi x hx
  have hx' : 0xB0800000 ≤ x ∧ x < 0xB0A00000 := by
    rcases Nat.eq_zero_or_pos i with rfl | hpos
    · have h0 : copyShared.dst.ptrAt relocated (paeMem 0x800087) 0 = some 0xB09FFFFF := by decide +kernel
      obtain rfl := Option.some.inj (h0.symm.trans hx)
      decide
    · obtain ⟨j, rfl⟩ : ∃ j, i = 1 + j := ⟨i - 1, by omega⟩
      obtain rfl := Option.some.inj ((copyShared_ptrAt (by omega)).symm.trans hx)
      omega
  refine ⟨fun hmaps => ?_, id, fun j hj hat => ?_⟩
  · have := paeGuest_inMaps (by decide) hmaps
    omega
  · have hj' : add32 0xC0300000 j = x := Option.some.inj hat
    rw [add32_of_lt (by omega)] at hj'
    omega

/-- **The bytes can go wrong**: where a page ends before its frame does, as with the misaligned 2 MB page
at 0x2000, the chunk runs on past the frame; and where two pages have one frame, the later byte stays. -/
theorem copies_go_wrong :
    (∃ m', copyAcross.run relocated 2 (paeMem 0x2087) = some (0, m') ∧
      FramesApart relocated (paeMem 0x2087) copyAcross.dst copyAcross.src 2 ∧
      ¬ BytesAt relocated (paeMem 0x2087) m' copyAcross.dst copyAcross.src 2) ∧
    (∃ m', copyShared.run relocated (2 ^ 21 + 1) (paeMem 0x800087) = some (0, m') ∧
      FramesApart relocated (paeMem 0x800087) copyShared.dst copyShared.src (2 ^ 21 + 1) ∧
      ¬ BytesAt relocated (paeMem 0x800087) m' copyShared.dst copyShared.src (2 ^ 21 + 1)) := by
  constructor
  · have hrun : (copyAcross.run relocated 2 (paeMem 0x2087)).map (fun q => (q.1, q.2 0xC0300001)) =
        some (0, 0) := by decide +kernel
    obtain ⟨⟨rv, m'⟩, hrun, hres⟩ := Option.map_eq_some_iff.1 hrun
    obtain ⟨rfl, hbyte⟩ := Prod.mk.inj hres
    refine ⟨m', hrun, copyAcross_framesApart (by decide), fun hbytes => ?_⟩
    obtain ⟨x, hx, hval⟩ := hbytes 1 (by decide)
    obtain rfl := Option.some.inj hx
    have hsrc : copyAcross.src.byteAt relocated (paeMem 0x2087) 1 = some 0xAA := by decide +kernel
    rw [hsrc, show m' (add32 0xC0300000 1) = 0 from hbyte] at hval
    exact absurd hval (by decide)
  · have hrun : (copyShared.run relocated (2 ^ 21 + 1) (paeMem 0x800087)).map Prod.fst = some 0 := by
      decide +kernel
    obtain ⟨⟨rv, m'⟩, hrun, rfl⟩ := Option.map_eq_some_iff.1 hrun
    refine ⟨m', hrun, copyShared_framesApart, fun hbytes => ?_⟩
    -- the first and the last byte have one frame
    have hfirst : copyShared.dst.ptrAt relocated (paeMem 0x800087) 0 = some 0xB09FFFFF := by decide +kernel
    have hlast := copyShared_ptrAt (j := 2 ^ 21 - 1) (by decide)
    rw [show 1 + (2 ^ 21 - 1) = 2 ^ 21 by decide, show 0xB0800000 + (2 ^ 21 - 1) = 0xB09FFFFF by decide]
      at hlast
    have hsrc : copyShared.src.byteAt relocated (paeMem 0x800087) 0 = some 0xAA ∧
        copyShared.src.byteAt relocated (paeMem 0x800087) (2 ^ 21) = some 0 := by decide +kernel
    obtain ⟨x, hx, hval⟩ := hbytes 0 (by decide)
    obtain ⟨y, hy, hval'⟩ := hbytes (2 ^ 21) (by decide)
    obtain rfl := Option.some.inj (hfirst.symm.trans hx)
    obtain rfl := Option.some.inj (hlast.symm.trans hy)
    rw [hsrc.1] at hval
    rw [hsrc.2, ← hval] at hval'
    exact absurd hval' (by decide)

end Xmhf.Hpt
