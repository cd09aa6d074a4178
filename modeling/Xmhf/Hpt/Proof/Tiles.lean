import Xmhf.Hpt.Proof.Copy
import Xmhf.Hpt.Proof.Total

/-!
# The chunks of a checked copy

* `Op.Moves`: what a round moves, from the accesses that it makes.
* `Op.chunk_total`: a round gives up or moves at least one byte and at most what is left.
* `checkedCopy_tiles`: every call ends, with 0 after moves that tile the whole length, and with 1 after moves
  that tile a part of it.
-/

namespace Xmhf.Hpt

open Xmhf.Memory Xmhf.Word Xmhf.Chunk Xmhf.Paging

variable {c : EmhfCtx} {r : Rpb} {m s : Mem} {va : Va} {access : Prot} {cpl : Cpl} {op : Op}
  {n len done ptr avail : Nat}

/-- The round of the call that makes the move `mv` in the memory `s`. -/
def Op.Moves (r : Rpb) (len : Nat) (s : Mem) (mv : Move) : Op → Prop
  | copyFromVa src cpl dst srcVa => ∃ ptr, ptr ≠ 0 ∧
      checkedAccessVa (src.super r) s protsR cpl (vaAt srcVa mv.start) (len - mv.start) =
        some (ptr, mv.size) ∧
      mv.dst = add32 dst mv.start ∧ ∀ i, mv.bytes i = s (add32 ptr i)
  | copyToVa dst cpl dstVa src => mv.dst ≠ 0 ∧
      checkedAccessVa (dst.super r) s protsW cpl (vaAt dstVa mv.start) (len - mv.start) =
        some (mv.dst, mv.size) ∧
      ∀ i, mv.bytes i = s (add32 (add32 src mv.start) i)
  | copyVaToVa dst dstCpl dstVa src srcCpl srcVa => ∃ avail ptr, mv.dst ≠ 0 ∧ ptr ≠ 0 ∧
      checkedAccessVa (dst.super r) s protsW dstCpl (vaAt dstVa mv.start) (len - mv.start) =
        some (mv.dst, avail) ∧
      checkedAccessVa (src.super r) s protsR srcCpl (vaAt srcVa mv.start) avail =
        some (ptr, mv.size) ∧
      ∀ i, mv.bytes i = s (add32 ptr i)
  | memsetVa dst cpl dstVa c => mv.dst ≠ 0 ∧
      checkedAccessVa (dst.super r) s protsW cpl (vaAt dstVa mv.start) (len - mv.start) =
        some (mv.dst, mv.size) ∧
      ∀ i, mv.bytes i = c.setWidth 8

/-! ## A round -/

/-- An access gives NULL, or a pointer to at least one byte and at most the requested ones. -/
theorem EmhfCtx.checkedAccessVa_cases (r : Rpb) (hw : c.Walked) (m : Mem) (access : Prot) (cpl : Cpl)
    (va : Va) (hn : 1 ≤ n) :
    (∃ avail, checkedAccessVa (c.super r) m access cpl va n = some (0, avail)) ∨
      ∃ ptr avail, ptr ≠ 0 ∧ checkedAccessVa (c.super r) m access cpl va n = some (ptr, avail) ∧
        1 ≤ avail ∧ avail ≤ n := by
  obtain ⟨ptr, avail, h⟩ : ∃ ptr avail,
      checkedAccessVa (c.super r) m access cpl va n = some (ptr, avail) :=
    EmhfCtx.checkedAccessVa_total r hw
  rcases Nat.eq_zero_or_pos ptr with rfl | hpos
  · exact Or.inl ⟨avail, h⟩
  · have hptr := Nat.ne_of_gt hpos
    obtain ⟨leaf, pa, hwalk⟩ := checkedWalk_of_some (c.availOk r) hn h hptr
    exact Or.inr ⟨ptr, avail, hptr, h, hwalk.bytes⟩

/-- A round gives up, or makes a move that stays within the transfer. -/
theorem Op.chunk_total (op : Op) (hdst : op.dst.Walked) (hsrc : op.src.Walked) (s : Mem)
    (hlt : done < len) : op.chunk r len s done = some none ∨
      ∃ mv : Move, op.chunk r len s done = some (some (mv.write s, mv.size)) ∧ op.Moves r len s mv ∧
        mv.start = done ∧ 1 ≤ mv.size ∧ done + mv.size ≤ len := by
  have hn : 1 ≤ len - done := by omega
  have hadd : ∀ {k}, k ≤ len - done → done + k ≤ len := by omega
  cases op with
  | copyFromVa c cpl dst srcVa =>
    rcases EmhfCtx.checkedAccessVa_cases r hsrc s protsR cpl (vaAt srcVa done) hn with
      ⟨avail, h⟩ | ⟨ptr, avail, hptr, h, hpos, hle⟩
    · exact Or.inl (by simp [chunk, copyFromChunk, h])
    · refine Or.inr ⟨⟨done, avail, add32 dst done, fun i => s (add32 ptr i)⟩, ?_, ?_, rfl, hpos, hadd hle⟩
      · simp [chunk, copyFromChunk, h, hptr, Move.write, memcpy]
      · exact ⟨ptr, hptr, h, rfl, fun _ => rfl⟩
  | copyToVa c cpl dstVa src =>
    rcases EmhfCtx.checkedAccessVa_cases r hdst s protsW cpl (vaAt dstVa done) hn with
      ⟨avail, h⟩ | ⟨ptr, avail, hptr, h, hpos, hle⟩
    · exact Or.inl (by simp [chunk, copyToChunk, h])
    · refine Or.inr ⟨⟨done, avail, ptr, fun i => s (add32 (add32 src done) i)⟩, ?_, ?_, rfl, hpos,
        hadd hle⟩
      · simp [chunk, copyToChunk, h, hptr, Move.write, memcpy]
      · exact ⟨hptr, h, fun _ => rfl⟩
  | copyVaToVa c cpl dstVa c' cpl' srcVa =>
    rcases EmhfCtx.checkedAccessVa_cases r hdst s protsW cpl (vaAt dstVa done) hn with
      ⟨avail, h⟩ | ⟨ptr, avail, hptr, h, hpos, hle⟩
    · exact Or.inl (by simp [chunk, copyVaToVaChunk, h])
    · rcases EmhfCtx.checkedAccessVa_cases r hsrc s protsR cpl' (vaAt srcVa done) hpos with
        ⟨avail', h'⟩ | ⟨ptr', avail', hptr', h', hpos', hle'⟩
      · exact Or.inl (by simp [chunk, copyVaToVaChunk, h, hptr, h'])
      · refine Or.inr ⟨⟨done, avail', ptr, fun i => s (add32 ptr' i)⟩, ?_, ?_, rfl, hpos', hadd (hle'.trans hle)⟩
        · simp [chunk, copyVaToVaChunk, h, hptr, h', hptr', Move.write, memcpy]
        · exact ⟨avail, ptr', hptr, hptr', h, h', fun _ => rfl⟩
  | memsetVa c cpl dstVa b =>
    rcases EmhfCtx.checkedAccessVa_cases r hdst s protsW cpl (vaAt dstVa done) hn with
      ⟨avail, h⟩ | ⟨ptr, avail, hptr, h, hpos, hle⟩
    · exact Or.inl (by simp [chunk, memsetChunk, h])
    · refine Or.inr ⟨⟨done, avail, ptr, fun _ => b.setWidth 8⟩, ?_, ?_, rfl, hpos, hadd hle⟩
      · simp [chunk, memsetChunk, h, hptr, Move.write, memset]
      · exact ⟨hptr, h, fun _ => rfl⟩

/-! ## Calls -/

/-- **Checked copies make progress and fail with a clean prefix**, whatever the tables are. A call ends
with the memory that its moves leave; they follow one another without gap or overlap from 0 to `k`. It
returns 0 when `k` is the length, and 1 when `k` is less. -/
theorem checkedCopy_tiles (r : Rpb) (op : Op) (hdst : op.dst.Walked) (hsrc : op.src.Walked) (len : Nat)
    (m : Mem) : ∃ rv mvs k, op.run r len m = some (rv, mvs.foldl Move.write m) ∧
      (rv = 0 ∧ k = len ∨ rv = 1 ∧ k < len) ∧ Tiles 0 mvs k ∧
      Trans.Along Move.write (fun s mv => op.Moves r len s mv) m mvs := by
  obtain ⟨mvs, k, htiles, halong, hle, hloop⟩ :=
    chunkLoop_tiles (R := fun s mv => op.Moves r len s mv)
      (fun s done hlt => op.chunk_total hdst hsrc s hlt)
      (Nat.le_of_eq (Nat.zero_add len).symm) (Nat.zero_le len) m
  refine ⟨if k = len then 0 else 1, mvs, k, ?_, ?_, htiles, halong⟩
  · rw [Op.run_eq, hloop]
    simp [copyRv]
  · by_cases hk : k = len
    · exact Or.inl ⟨if_pos hk, hk⟩
    · exact Or.inr ⟨if_neg hk, by omega⟩

theorem checkedCopy_tiles_across : ∃ rv mvs k,
    copyAcross.run relocated 2 (paeMem 0x2087) = some (rv, mvs.foldl Move.write (paeMem 0x2087)) ∧
      (rv = 0 ∧ k = 2 ∨ rv = 1 ∧ k < 2) ∧ Tiles 0 mvs k ∧
      Trans.Along Move.write (fun s mv => copyAcross.Moves relocated 2 s mv) (paeMem 0x2087) mvs :=
  checkedCopy_tiles relocated copyAcross trivial paeGuest_walked 2 (paeMem 0x2087)

end Xmhf.Hpt
