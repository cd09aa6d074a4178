import Xmhf.Memprot.Tables

/-!
# What the loops leave in memory

`fillTables` is a list of stores (`fillTables_eq`) to three arrays: 4 pointers, 2048 directory entries
and `2 ^ 20` leaves (`mem_tablesWrites`). The running 32-bit `paddr` is the page of the leaf. The
arrays do not meet, so every entry reads back (`load_pdpte`, `load_pde`, `load_pte`).
-/

namespace Xmhf.Memprot

open Xmhf.Memory Xmhf.Word Xmhf.Loop Xmhf.Paging

/-! ## The loops as lists of stores -/

/-- A loop whose round `i` makes the stores `w i` and advances `paddr` by `c`. -/
theorem forLoop_fill {n c p : Nat} {m : Mem} {f : Nat → Fill → Fill}
    {w : Nat → List (Nat × BitVec 64)}
    (hf : ∀ i m, i < n → f i ⟨m, (p + c * i) % 2 ^ 32⟩ =
      ⟨stores (w i) m, (p + c * (i + 1)) % 2 ^ 32⟩) :
    forLoop n f ⟨m, p % 2 ^ 32⟩ =
      ⟨stores ((List.range n).flatMap w) m, (p + c * n) % 2 ^ 32⟩ := by
  refine forLoop_inv (P := fun i (s : Fill) => s =
    ⟨stores ((List.range i).flatMap w) m, (p + c * i) % 2 ^ 32⟩) (by simp) ?_
  rintro i s hi rfl
  rw [hf i _ hi, List.range_succ, List.flatMap_append, stores_append]
  simp

section
variable (r : Rpb) (pdpe pde pte : Nat → BitVec 64)

/-- The stores of `fillPt` from the physical page `p`. -/
def ptWrites (pt p : Nat) : List (Nat × BitVec 64) :=
  (List.range ptrsPerPt).flatMap fun k => [(hva2spa1 r (pt + 8 * k), pte (p + 2 ^ 12 * k))]

/-- The stores of `fillPdt` from the physical page `p`. -/
def pdtWrites (pdt pts p : Nat) : List (Nat × BitVec 64) :=
  (List.range ptrsPerPdt).flatMap fun j =>
    (hva2spa1 r (pdt + 8 * j), pde (pts + pageSize4K * j)) ::
      ptWrites r pte (pts + pageSize4K * j) (p + 2 ^ 21 * j)

/-- The stores of `fillTables`. -/
def tablesWrites (t : Tables r) : List (Nat × BitVec 64) :=
  (List.range ptrsPerPdpt).flatMap fun i =>
    (hva2spa1 r (t.pdpt + 8 * i), pdpe (t.pdts + pageSize4K * i)) ::
      pdtWrites r pde pte (t.pdts + pageSize4K * i) (t.pts + pageSize4K * (i * ptrsPerPdt))
        (0 + 2 ^ 30 * i)

variable {r pdpe pde pte}

theorem fillPt_eq {pt p : Nat} {m : Mem} (hp : p + 2 ^ 21 ≤ 2 ^ 32) :
    fillPt r pte pt ⟨m, p % 2 ^ 32⟩ =
      ⟨stores (ptWrites r pte pt p) m, (p + 2 ^ 21) % 2 ^ 32⟩ := by
  have hn : 2 ^ 21 = 2 ^ 12 * ptrsPerPt := by decide
  rw [fillPt, ptWrites, hn]
  apply forLoop_fill
  intro k m hk
  have hlt : (p + 2 ^ 12 * k) % 2 ^ 32 = p + 2 ^ 12 * k := by
    simp only [ptrsPerPt] at hk
    omega
  simp only [hlt, put, add32, stores_cons, stores_nil, pageSize4K, Nat.mul_add, Nat.mul_one,
    Nat.add_assoc]

theorem fillPdt_eq {pdt pts p : Nat} {m : Mem} (hp : p + 2 ^ 30 ≤ 2 ^ 32) :
    fillPdt r pde pte pdt pts ⟨m, p % 2 ^ 32⟩ =
      ⟨stores (pdtWrites r pde pte pdt pts p) m, (p + 2 ^ 30) % 2 ^ 32⟩ := by
  have hn : 2 ^ 30 = 2 ^ 21 * ptrsPerPdt := by decide
  rw [fillPdt, pdtWrites, hn]
  apply forLoop_fill
  intro j m hj
  rw [fillPt_eq (by simp only [ptrsPerPdt] at hj; omega)]
  simp only [put, stores_cons, Nat.mul_add, Nat.mul_one, Nat.add_assoc]

/-- **The loop nest is a list of stores.** -/
theorem fillTables_eq (t : Tables r) (m : Mem) :
    fillTables r pdpe pde pte t m = stores (tablesWrites r pdpe pde pte t) m := by
  have h := forLoop_fill (n := ptrsPerPdpt) (c := 2 ^ 30) (p := 0) (m := m)
    (f := fun i s => fillPdt r pde pte (t.pdts + pageSize4K * i)
      (t.pts + pageSize4K * (i * ptrsPerPdt))
      ⟨put r s.mem (t.pdpt + 8 * i) (pdpe (t.pdts + pageSize4K * i)), s.paddr⟩)
    (w := fun i => (hva2spa1 r (t.pdpt + 8 * i), pdpe (t.pdts + pageSize4K * i)) ::
      pdtWrites r pde pte (t.pdts + pageSize4K * i) (t.pts + pageSize4K * (i * ptrsPerPdt))
        (0 + 2 ^ 30 * i)) ?_
  · rw [Nat.zero_mod] at h
    rw [fillTables, tablesWrites, h]
  · intro i m hi
    rw [fillPdt_eq (by simp only [ptrsPerPdpt] at hi; omega), stores_cons, Nat.mul_add, Nat.mul_one,
      ← Nat.add_assoc, put]

theorem mem_tablesWrites {t : Tables r} {e : Nat × BitVec 64} :
    e ∈ tablesWrites r pdpe pde pte t ↔
      (∃ i < 4, e = (hva2spa1 r (t.pdpt + 8 * i), pdpe (t.pdts + 4096 * i))) ∨
      (∃ q < 2048, e = (hva2spa1 r (t.pdts + 8 * q), pde (t.pts + 4096 * q))) ∨
      (∃ n < 2 ^ 20, e = (hva2spa1 r (t.pts + 8 * n), pte (4096 * n))) := by
  simp only [tablesWrites, pdtWrites, ptWrites, ptrsPerPdpt, ptrsPerPdt, ptrsPerPt, pageSize4K,
    List.mem_flatMap, List.mem_range, List.mem_cons, List.not_mem_nil, or_false]
  constructor
  · rintro ⟨i, hi, rfl | ⟨j, hj, rfl | ⟨k, hk, rfl⟩⟩⟩
    · exact .inl ⟨i, hi, rfl⟩
    · refine .inr (.inl ⟨i * 512 + j, by omega, ?_⟩)
      congr 2 <;> omega
    · refine .inr (.inr ⟨(i * 512 + j) * 512 + k, by omega, ?_⟩)
      congr 2 <;> omega
  · rintro (⟨i, hi, rfl⟩ | ⟨q, hq, rfl⟩ | ⟨n, hn, rfl⟩)
    · exact ⟨i, hi, .inl rfl⟩
    · refine ⟨q / 512, by omega, .inr ⟨q % 512, by omega, .inl ?_⟩⟩
      congr 2 <;> omega
    · refine ⟨n / 512 / 512, by omega, .inr ⟨n / 512 % 512, by omega, .inr ⟨n % 512, by omega, ?_⟩⟩⟩
      congr 2 <;> omega

/-! ## Reading the entries back -/

/-- An aligned word of the runtime. -/
structure IsWord (r : Rpb) (x : Nat) : Prop where
  aligned : x % 8 = 0
  ge : r.runtimeVirtBase ≤ x
  le : x + 8 ≤ r.runtimeVirtBase + r.runtimeSize

theorem Block.isWord {a n k : Nat} (h : Block r a n) (hk : k < 512 * n) : IsWord r (a + 8 * k) := by
  obtain ⟨h1, h2, h3⟩ := h
  simp only [pageSize4K] at h1 h3
  constructor <;> omega

/-- Two words of the runtime are the same or apart in physical memory. -/
theorem IsWord.eq_or_apart {x y : Nat} (hx : IsWord r x) (hy : IsWord r y) :
    x = y ∨ hva2spa1 r x + 8 ≤ hva2spa1 r y ∨ hva2spa1 r y + 8 ≤ hva2spa1 r x := by
  obtain ⟨h1, h2, h3⟩ := hx
  obtain ⟨h4, h5, h6⟩ := hy
  rw [hva2spa1_of_mem h2 (by omega), hva2spa1_of_mem h5 (by omega)]
  omega

/-- A word is read after the loops: if it is an entry of one of the arrays, it is the one stored
there. -/
theorem load_entry {t : Tables r} {m : Mem} {x : Nat} {w : BitVec 64} (hx : IsWord r x)
    (hmem : (hva2spa1 r x, w) ∈ tablesWrites r pdpe pde pte t)
    (h1 : ∀ i < 4, t.pdpt + 8 * i = x → pdpe (t.pdts + 4096 * i) = w)
    (h2 : ∀ q < 2048, t.pdts + 8 * q = x → pde (t.pts + 4096 * q) = w)
    (h3 : ∀ n < 2 ^ 20, t.pts + 8 * n = x → pte (4096 * n) = w) :
    load64 (fillTables r pdpe pde pte t m) (hva2spa1 r x) = w := by
  rw [fillTables_eq]
  refine load64_stores_of_mem hmem fun e he => ?_
  rcases mem_tablesWrites.1 he with ⟨i, hi, rfl⟩ | ⟨q, hq, rfl⟩ | ⟨n, hn, rfl⟩
  · rcases hx.eq_or_apart (t.pdpt_block.isWord (k := i) (by omega)) with heq | hap
    · exact .inl (by rw [h1 i hi heq.symm, ← heq])
    · exact .inr hap
  · rcases hx.eq_or_apart (t.pdts_block.isWord (k := q) (by omega)) with heq | hap
    · exact .inl (by rw [h2 q hq heq.symm, ← heq])
    · exact .inr hap
  · rcases hx.eq_or_apart (t.pts_block.isWord (k := n) (by omega)) with heq | hap
    · exact .inl (by rw [h3 n hn heq.symm, ← heq])
    · exact .inr hap

section
variable (pdpe pde pte) (t : Tables r) (m : Mem)

theorem load_pdpte {i : Nat} (hi : i < 4) :
    load64 (fillTables r pdpe pde pte t m) (hva2spa1 r (t.pdpt + 8 * i)) =
      pdpe (t.pdts + 4096 * i) := by
  have h1 := t.pdpt_pdts
  have h2 := t.pdpt_pts
  simp only [Apart, pageSize4K] at h1 h2
  refine load_entry (t.pdpt_block.isWord (by omega)) (mem_tablesWrites.2 (.inl ⟨i, hi, rfl⟩)) ?_ ?_ ?_
  · intro j _ h
    obtain rfl : j = i := by omega
    rfl
  · omega
  · omega

theorem load_pde {q : Nat} (hq : q < 2048) :
    load64 (fillTables r pdpe pde pte t m) (hva2spa1 r (t.pdts + 8 * q)) =
      pde (t.pts + 4096 * q) := by
  have h1 := t.pdpt_pdts
  have h2 := t.pdts_pts
  simp only [Apart, pageSize4K] at h1 h2
  refine load_entry (t.pdts_block.isWord (by omega))
    (mem_tablesWrites.2 (.inr (.inl ⟨q, hq, rfl⟩))) ?_ ?_ ?_
  · omega
  · intro j _ h
    obtain rfl : j = q := by omega
    rfl
  · omega

theorem load_pte {n : Nat} (hn : n < 2 ^ 20) :
    load64 (fillTables r pdpe pde pte t m) (hva2spa1 r (t.pts + 8 * n)) = pte (4096 * n) := by
  have h1 := t.pdpt_pts
  have h2 := t.pdts_pts
  simp only [Apart, pageSize4K] at h1 h2
  refine load_entry (t.pts_block.isWord (by omega))
    (mem_tablesWrites.2 (.inr (.inr ⟨n, hn, rfl⟩))) ?_ ?_ ?_
  · omega
  · omega
  · intro j _ h
    obtain rfl : j = n := by omega
    rfl

theorem load_fillTables_of_apart {a : Nat}
    (h1 : ∀ i < 4, a + 8 ≤ hva2spa1 r (t.pdpt + 8 * i) ∨ hva2spa1 r (t.pdpt + 8 * i) + 8 ≤ a)
    (h2 : ∀ q < 2048, a + 8 ≤ hva2spa1 r (t.pdts + 8 * q) ∨ hva2spa1 r (t.pdts + 8 * q) + 8 ≤ a)
    (h3 : ∀ n < 2 ^ 20, a + 8 ≤ hva2spa1 r (t.pts + 8 * n) ∨ hva2spa1 r (t.pts + 8 * n) + 8 ≤ a) :
    load64 (fillTables r pdpe pde pte t m) a = load64 m a := by
  rw [fillTables_eq]
  refine load64_stores_of_disjoint fun e he => ?_
  rcases mem_tablesWrites.1 he with ⟨i, hi, rfl⟩ | ⟨q, hq, rfl⟩ | ⟨n, hn, rfl⟩
  · exact h1 i hi
  · exact h2 q hq
  · exact h3 n hn

end

end

end Xmhf.Memprot
