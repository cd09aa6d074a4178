import Xmhf.Dmaprot.DevInit

/-!
# What the early bitmap covers

The base of the bitmap is before the buffer by whole pages of bitmap, one for each 128MB below the
region; the byte of the region's first page is at `offset` in the buffer (`earlyDevBitmap_eq`). A page of
ones from there covers 128MB, while the check admits regions of up to 256MB: the region is covered
exactly under the bound of `earlyCovers_iff`, for the call of the secure loader exactly when runtime and
loader are 128MB together at most (`slRuntime_covered_iff`).
-/

namespace Xmhf.Dmaprot

open Xmhf.Memory Xmhf.Word Xmhf.Paging Xmhf.Chunk Xmhf.Bitmap

variable {slBaseaddr paddr vaddr start size a p : Nat} {m : Mem}

/-- A protected buffer of 8K in the segment of the secure loader. -/
structure EarlyBuffer (slBaseaddr paddr vaddr : Nat) : Prop where
  paddr_eq : paddr = slBaseaddr + vaddr
  paddr_aligned : paddr % 4096 = 0
  vaddr_aligned : vaddr % 4096 = 0
  le : paddr + 8192 ≤ 2 ^ 32

/-- The result for a region: the base is page-aligned, the bit of every page of the region is set whatever
the memory held, and nothing outside the buffer is written. -/
def EarlyCovers (slBaseaddr paddr vaddr start size : Nat) : Prop :=
  ∀ m, ∃ dev m', svmEapEarlyInitialize slBaseaddr paddr vaddr start size m = some (dev, m') ∧
    dev % 4096 = 0 ∧ (∀ a, start ≤ a → a < start + size → bit m' dev (a / 4096) = true) ∧
    ∀ x, x < paddr ∨ paddr + 8192 ≤ x → m' x = m x

/-- The base and the offset as division with remainder. -/
theorem earlyDevBitmap_eq (hb : EarlyBuffer slBaseaddr paddr vaddr) (hstart : start < 2 ^ 32) :
    earlyDevBitmap paddr start =
      ((paddr + 2 ^ 32 - start / 2 ^ 27 * 4096) % 2 ^ 32, start / 2 ^ 15 % 4096) := by
  have hal := hb.paddr_aligned
  have hle := hb.le
  have hbefore : pageAlign4K start / pageSize4K / 8 = start / 2 ^ 15 := by
    unfold pageAlign4K pageSize4K
    omega
  have hdev : sub32 paddr (start / 2 ^ 15) = (paddr + 2 ^ 32 - start / 2 ^ 15) % 2 ^ 32 := by
    unfold sub32
    omega
  rw [earlyDevBitmap, hbefore, hdev]
  unfold pageSize4K add32
  split
  · refine Prod.ext ?_ ?_ <;> simp only <;> omega
  · refine Prod.ext ?_ ?_ <;> simp only <;> omega

theorem memset_buffer (hb : EarlyBuffer slBaseaddr paddr vaddr) {offset : Nat} (hoff : offset < 4096)
    (m : Mem) (x : Nat) : memset m (add32 slBaseaddr (add32 vaddr offset)) 0xFF pageSize4K x =
      if paddr + offset ≤ x ∧ x < paddr + offset + 4096 then 0xFF else m x := by
  have heq := hb.paddr_eq
  have hle := hb.le
  have hdst : add32 slBaseaddr (add32 vaddr offset) = paddr + offset := by
    rw [add32_of_lt (x := vaddr) (by omega), add32_of_lt (by omega)]
    omega
  have hbyte : ∀ i < pageSize4K, add32 (paddr + offset) i = paddr + offset + i := by
    intro i hi
    unfold pageSize4K at hi
    exact add32_of_lt (by omega)
  rw [hdst]
  rcases writeBytes_cases m (paddr + offset) (fun _ => 0xFF) pageSize4K x with
    ⟨i, hi, hix, hval⟩ | ⟨hno, hval⟩
  · rw [hbyte i hi] at hix
    unfold pageSize4K at hi
    rw [if_pos (by omega)]
    exact hval
  · rw [if_neg]
    · exact hval
    · rintro ⟨h1, h2⟩
      refine hno (x - (paddr + offset)) (by unfold pageSize4K; omega) ?_
      rw [hbyte _ (by unfold pageSize4K; omega)]
      omega

theorem svmEapEarlyInitialize_eq (hb : EarlyBuffer slBaseaddr paddr vaddr) (hstart : start < 2 ^ 32)
    (hsize : size < 2 ^ 28) (m : Mem) :
    svmEapEarlyInitialize slBaseaddr paddr vaddr start size m =
      some ((paddr + 2 ^ 32 - start / 2 ^ 27 * 4096) % 2 ^ 32,
        memset m (add32 slBaseaddr (add32 vaddr (start / 2 ^ 15 % 4096))) 0xFF pageSize4K) := by
  have h1 := hb.paddr_aligned
  have h2 := hb.vaddr_aligned
  rw [svmEapEarlyInitialize, earlyDevBitmap_eq hb hstart]
  refine if_pos ?_
  unfold pageSize4K
  omega

/-- The bit of a page is set in zeroed memory only if its byte is in the page of ones. -/
theorem bit_memset_zero {lo dev : Nat} {m' : Mem}
    (hm : ∀ x, m' x = if lo ≤ x ∧ x < lo + 4096 then 0xFF else 0) (h : bit m' dev p = true) :
    lo ≤ dev + p / 8 ∧ dev + p / 8 < lo + 4096 := by
  by_contra hout
  rw [bit, hm, if_neg hout] at h
  simp at h

/-- A covered region has the bytes of its first and of its last page in the page of ones. -/
theorem EarlyCovers.window (hb : EarlyBuffer slBaseaddr paddr vaddr) (hstart : start < 2 ^ 32)
    (hsize : size < 2 ^ 28) (hpos : 0 < size) (h : EarlyCovers slBaseaddr paddr vaddr start size) :
    start / 2 ^ 27 * 4096 ≤ paddr ∧ (start + size - 1) / 2 ^ 15 < start / 2 ^ 15 + 4096 := by
  have hmem := memset_buffer hb (Nat.mod_lt (start / 2 ^ 15) (by decide : 4096 > 0))
  have hal := hb.paddr_aligned
  obtain ⟨dev, m', hrun, -, hbits, -⟩ := h fun _ => 0
  rw [svmEapEarlyInitialize_eq hb hstart hsize] at hrun
  obtain ⟨rfl, rfl⟩ := Prod.mk.inj (Option.some.inj hrun)
  have hfirst := bit_memset_zero (hmem _) (hbits start (Nat.le_refl _) (by omega))
  have hlast := bit_memset_zero (hmem _) (hbits (start + size - 1) (by omega) (by omega))
  have hfits : start / 2 ^ 27 * 4096 ≤ paddr := by omega
  exact ⟨hfits, by omega⟩

theorem EarlyCovers.of_window (hb : EarlyBuffer slBaseaddr paddr vaddr) (hstart : start < 2 ^ 32)
    (hsize : size < 2 ^ 28) (h : size = 0 ∨ start / 2 ^ 27 * 4096 ≤ paddr ∧
      (start + size - 1) / 2 ^ 15 < start / 2 ^ 15 + 4096) :
    EarlyCovers slBaseaddr paddr vaddr start size := by
  have hmem := memset_buffer hb (Nat.mod_lt (start / 2 ^ 15) (by decide : 4096 > 0))
  have hal := hb.paddr_aligned
  have hle := hb.le
  intro m
  refine ⟨_, _, svmEapEarlyInitialize_eq hb hstart hsize m, by omega,
    fun a ha ha' => bit_of_ones ?_, fun x hx => ?_⟩
  · rw [hmem]
    refine if_pos ?_
    omega
  · rw [hmem]
    exact if_neg (by omega)

/-- **The secure loader's call** covers loader and runtime exactly when they are 128MB together at most. -/
theorem slRuntime_covered_iff {slProtectedDmabuffer runtimeSize : Nat}
    (hb : EarlyBuffer slBaseaddr (add32 slBaseaddr slProtectedDmabuffer) slProtectedDmabuffer)
    (hbase : slBaseaddr % pageSize2M = 0) (hsize : runtimeSize + pageSize2M < 2 ^ 28) :
    EarlyCovers slBaseaddr (add32 slBaseaddr slProtectedDmabuffer) slProtectedDmabuffer slBaseaddr
      (add32 runtimeSize pageSize2M) ↔ runtimeSize + pageSize2M ≤ 2 ^ 27 := by
  have heq := hb.paddr_eq
  have hle := hb.le
  have hsum : add32 runtimeSize pageSize2M = runtimeSize + pageSize2M := add32_of_lt (by omega)
  rw [hsum]
  unfold pageSize2M at *
  constructor
  · intro h
    have hw := h.window hb (by omega) hsize (by omega)
    omega
  · intro h
    exact .of_window hb (by omega) hsize (.inr ⟨by omega, by omega⟩)

/-- **Early protection covers the region** exactly when the bits of its pages are in one page of bitmap
from the byte of the first on, that is in 128MB, and the base of the bitmap is not below address 0. -/
theorem earlyCovers_iff (hb : EarlyBuffer slBaseaddr paddr vaddr) (hstart : start < 2 ^ 32)
    (hsize : size < 8192 * 8 * pageSize4K) : EarlyCovers slBaseaddr paddr vaddr start size ↔
      size = 0 ∨ start / 2 ^ 27 * 4096 ≤ paddr ∧ (start + size - 1) / 2 ^ 15 < start / 2 ^ 15 + 4096 := by
  constructor
  · intro h
    rcases Nat.eq_zero_or_pos size with hzero | hpos
    · exact .inl hzero
    · exact .inr (h.window hb hstart hsize hpos)
  · exact .of_window hb hstart hsize

/-- The region of the secure loader at 256MB and a runtime of 190MB: the bits after the first 128MB are
not set. -/
theorem earlyCovers_not : ¬ EarlyCovers 0x10000000 0x10004000 0x4000 0x10000000 0x0C000000 := by
  have hb : EarlyBuffer 0x10000000 0x10004000 0x4000 := ⟨rfl, by decide, by decide, by decide⟩
  intro h
  obtain ⟨dev, m', hrun, -, hbits, -⟩ := h fun _ => 0
  rw [svmEapEarlyInitialize_eq hb (by decide) (by decide)] at hrun
  obtain ⟨rfl, rfl⟩ := Prod.mk.inj (Option.some.inj hrun)
  have hlast := bit_memset_zero (memset_buffer hb (by decide) _) (hbits 0x1BFFFFFF (by decide) (by decide))
  exact absurd hlast (by decide)

theorem earlyCovers_iff_half : EarlyCovers 0x10000000 0x10004000 0x4000 0x10000000 0x08000000 ↔
    0x08000000 = 0 ∨ 0x10000000 / 2 ^ 27 * 4096 ≤ 0x10004000 ∧
      (0x10000000 + 0x08000000 - 1) / 2 ^ 15 < 0x10000000 / 2 ^ 15 + 4096 :=
  earlyCovers_iff ⟨rfl, by decide, by decide, by decide⟩ (by decide) (by decide)

end Xmhf.Dmaprot
