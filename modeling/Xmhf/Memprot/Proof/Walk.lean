import Xmhf.Platform.Entry
import Xmhf.Memprot.Proof.Fill

/-!
# The nested page tables protect the hypervisor

`Protects r walk`: through `walk`, the guest finds secure loader and runtime not present and every other
page at its own address with all rights. `ept_protects` proves it of the table `_vmx_setupEPT` builds.
The links of `_svm_nptinitialize` hold virtual addresses, so its table does so when the runtime is
mapped at its physical address (`npt_protects`), and not otherwise (`npt_fails`).
-/

namespace Xmhf.Memprot

open Xmhf.Memory Xmhf.Paging

/-- All rights. -/
def allRights : Rights := ⟨true, true, true⟩

/-- Not present in secure loader and runtime, identity with all rights elsewhere. -/
def Protects (r : Rpb) (walk : Nat → Option (Nat × Rights)) : Prop :=
  ∀ a < 2 ^ 32, walk a = if r.protectedAt (a / 4096 * 4096) then none else some (a, allRights)

section
variable {r : Rpb}

/-! ## Addresses -/

/-- Within a block, physical addresses advance with the virtual ones. -/
theorem Block.hva2spa1_add {a n k : Nat} (h : Block r a n) (hk : k < 4096 * n) :
    hva2spa1 r (a + k) = hva2spa1 r a + k := by
  obtain ⟨-, h2, h3⟩ := h
  simp only [pageSize4K] at h3
  rw [hva2spa1_of_mem (by omega) (by omega), hva2spa1_of_mem h2 (by omega)]
  omega

/-- Pages of a block are at aligned 32-bit physical addresses. -/
theorem Block.page {a n i : Nat} (h : Block r a n) (hi : i < n) :
    hva2spa1 r (a + 4096 * i) % 2 ^ 12 = 0 ∧ hva2spa1 r (a + 4096 * i) < 2 ^ 32 := by
  obtain ⟨h1, h2, h3⟩ := h
  have h4 := r.offset
  have h5 := r.phys_lt
  simp only [pageSize4K] at h1 h3 h4
  rw [hva2spa1_of_mem (by omega) (by omega)]
  omega

theorem Block.isEntry {a n i : Nat} (h : Block r a n) (hi : i < n) :
    IsEntry (eptLink r (a + 4096 * i)) (hva2spa1 r (a + 4096 * i)) 7 :=
  .of_or (h.page hi).1 (h.page hi).2 (by decide)

namespace Tables

variable (t : Tables r) {a : Nat}

/-- The addresses a walk of `a` reads are entries of the three arrays. -/
theorem addr_pdpte (ha : a < 2 ^ 32) :
    hva2spa1 r t.pdpt + 8 * (a / 2 ^ 30) = hva2spa1 r (t.pdpt + 8 * (a / 2 ^ 30)) := by
  rw [t.pdpt_block.hva2spa1_add (by omega)]

theorem addr_pde (ha : a < 2 ^ 32) :
    hva2spa1 r (t.pdts + 4096 * (a / 2 ^ 30)) + 8 * (a / 2 ^ 21 % 512) =
      hva2spa1 r (t.pdts + 8 * (a / 2 ^ 21)) := by
  rw [t.pdts_block.hva2spa1_add (by omega), t.pdts_block.hva2spa1_add (by omega)]
  omega

theorem addr_pte (ha : a < 2 ^ 32) :
    hva2spa1 r (t.pts + 4096 * (a / 2 ^ 21)) + 8 * (a / 2 ^ 12 % 512) =
      hva2spa1 r (t.pts + 8 * (a / 2 ^ 12)) := by
  rw [t.pts_block.hva2spa1_add (by omega), t.pts_block.hva2spa1_add (by omega)]
  omega

end Tables

/-! ## EPT -/

theorem eptPresent_of_entry {e : BitVec 64} {x c : Nat} (h : IsEntry e x c) (hc : c = 7 ∨ c = 0x37) :
    eptPresent e = true ∧ eptRights e = allRights ∧ e.getLsbD 7 = false := by
  have h0 := h.getLsbD (i := 0) (by decide)
  have h1 := h.getLsbD (i := 1) (by decide)
  have h2 := h.getLsbD (i := 2) (by decide)
  have h7 := h.getLsbD (i := 7) (by decide)
  simp only [eptPresent, eptRights, allRights, h0, h1, h2, h7]
  rcases hc with rfl | rfl <;> decide

/-- A leaf of the protected region is not present, whatever the memory type. -/
theorem eptLeaf_protected {memorytype : Nat → BitVec 32} {n : Nat} (h : r.protectedAt (4096 * n)) :
    eptPresent (eptLeaf r memorytype (4096 * n)) = false := by
  have hbit : ∀ i < 3, (eptLeaf r memorytype (4096 * n)).getLsbD i = false := by
    intro i hi
    have h0 : 4096 * n = 2 ^ 12 * n + 0 := by omega
    rw [eptLeaf, if_pos h, BitVec.getLsbD_or, BitVec.getLsbD_or, BitVec.getLsbD_shiftLeft,
      BitVec.getLsbD_ofNat, h0, Nat.testBit_two_pow_mul_add _ (by decide), if_pos (by omega)]
    simp [hi]
  simp only [eptPresent, hbit 0 (by decide), hbit 1 (by decide), hbit 2 (by decide), Bool.or_false]

theorem eptLeaf_open (memorytype : Nat → BitVec 32) {n : Nat} (hn : n < 2 ^ 20)
    (h : ¬ r.protectedAt (4096 * n)) :
    ∃ c, (c = 7 ∨ c = 0x37) ∧ IsEntry (eptLeaf r memorytype (4096 * n)) (4096 * n) c := by
  rw [eptLeaf, if_neg h]
  split
  · next hm =>
    refine ⟨7, .inl rfl, ?_⟩
    rw [hm, BitVec.or_assoc]
    exact IsEntry.of_or (x := 4096 * n) (c := 7) (by omega) (by omega) (by decide)
  · refine ⟨0x37, .inr rfl, ?_⟩
    rw [BitVec.or_assoc]
    exact IsEntry.of_or (x := 4096 * n) (c := 0x37) (by omega) (by omega) (by decide)

theorem load_pml4e (t : EptTables r) (memorytype : Nat → BitVec 32) (m : Mem) :
    load64 (vmxSetupEPT r t memorytype m) (hva2spa1 r t.pml4) = eptLink r t.pdpt := by
  have hw := t.pml4_block.isWord (k := 0) (by decide)
  have h1 := t.pml4_pdpt
  have h2 := t.pml4_pdts
  have h3 := t.pml4_pts
  simp only [Apart, pageSize4K, Nat.mul_zero, Nat.add_zero] at h1 h2 h3 hw
  rw [vmxSetupEPT, load_fillTables_of_apart, put, load64_store64]
  · intro i hi
    exact (hw.eq_or_apart (t.pdpt_block.isWord (k := i) (by omega))).resolve_left (by omega)
  · intro q hq
    exact (hw.eq_or_apart (t.pdts_block.isWord (k := q) (by omega))).resolve_left (by omega)
  · intro n hn
    exact (hw.eq_or_apart (t.pts_block.isWord (k := n) (by omega))).resolve_left (by omega)

/-- **The EPT protects exactly the hypervisor.** -/
theorem ept_protects (t : EptTables r) (memorytype : Nat → BitVec 32) (m : Mem) :
    Protects r (eptWalk (vmxSetupEPT r t memorytype m) (entryAddr (vmxEptp r t))) := by
  intro a ha
  have hroot : entryAddr (vmxEptp r t) = hva2spa1 r t.pml4 := by
    have hp := t.pml4_block.page (i := 0) (by decide)
    exact (IsEntry.of_or (c := 0x1E) hp.1 hp.2 (by decide)).entryAddr
  have e4 := t.pdpt_block.isEntry (i := 0) (by decide)
  have e3 := t.pdts_block.isEntry (i := a / 2 ^ 30) (by omega)
  have e2 := t.pts_block.isEntry (i := a / 2 ^ 21) (by omega)
  simp only [Nat.mul_zero, Nat.add_zero] at e4
  obtain ⟨p4, r4, -⟩ := eptPresent_of_entry e4 (.inl rfl)
  obtain ⟨p3, r3, b3⟩ := eptPresent_of_entry e3 (.inl rfl)
  obtain ⟨p2, r2, b2⟩ := eptPresent_of_entry e2 (.inl rfl)
  have l4 := load_pml4e t memorytype m
  have l3 := load_pdpte (eptLink r) (eptLink r) (eptLeaf r memorytype) t.toTables
    (put r m t.pml4 (eptLink r t.pdpt)) (i := a / 2 ^ 30) (by omega)
  have l2 := load_pde (eptLink r) (eptLink r) (eptLeaf r memorytype) t.toTables
    (put r m t.pml4 (eptLink r t.pdpt)) (q := a / 2 ^ 21) (by omega)
  have l1 := load_pte (eptLink r) (eptLink r) (eptLeaf r memorytype) t.toTables
    (put r m t.pml4 (eptLink r t.pdpt)) (n := a / 2 ^ 12) (by omega)
  rw [← vmxSetupEPT] at l3 l2 l1
  have h39 : a / 2 ^ 39 % 512 = 0 := by omega
  have h30 : a / 2 ^ 30 % 512 = a / 2 ^ 30 := by omega
  have hpage : a / 4096 * 4096 = 4096 * (a / 2 ^ 12) := by omega
  rw [eptWalk, hroot, h39, h30, hpage, Nat.mul_zero, Nat.add_zero, l4]
  simp only [p4, ↓reduceIte, e4.entryAddr, t.addr_pdpte ha, l3, p3, b3, Bool.false_eq_true,
    e3.entryAddr, t.addr_pde ha, l2, p2, b2, e2.entryAddr, t.addr_pte ha, l1, r4, r3, r2]
  by_cases hprot : r.protectedAt (4096 * (a / 2 ^ 12))
  · simp only [hprot, eptLeaf_protected hprot, Bool.false_eq_true, ↓reduceIte]
  · obtain ⟨c, hc, e1⟩ := eptLeaf_open memorytype (n := a / 2 ^ 12) (by omega) hprot
    obtain ⟨p1, r1, -⟩ := eptPresent_of_entry e1 hc
    have haddr : 4096 * (a / 2 ^ 12) + a % 2 ^ 12 = a := by omega
    have hinter : allRights.inter allRights = allRights := rfl
    simp only [hprot, p1, r1, e1.entryAddr, haddr, hinter, ↓reduceIte]

/-! ## NPT -/

/-- With the runtime mapped at its physical address, a link of the NPT is right. -/
theorem Block.isEntry_npt {a n i c : Nat} (hid : r.runtimeVirtBase = r.runtimePhysBase)
    (h : Block r a n) (hi : i < n) (hc : c < 2 ^ 12) :
    IsEntry (paeMakePte (hva2spa (a + 4096 * i)) (BitVec.ofNat 64 c))
      (hva2spa1 r (a + 4096 * i)) c := by
  have hspa : hva2spa (a + 4096 * i) = hva2spa1 r (a + 4096 * i) := by
    obtain ⟨-, h2, h3⟩ := h
    simp only [pageSize4K] at h3
    rw [hva2spa1_of_mem (by omega) (by omega), hva2spa]
    omega
  rw [hspa]
  exact .of_paeMakePte (h.page hi).1 (h.page hi).2 hc

theorem nptLeaf_isEntry {n : Nat} (hn : n < 2 ^ 20) :
    IsEntry (nptLeaf r (4096 * n)) (4096 * n) (if r.protectedAt (4096 * n) then 0 else 7) := by
  rw [nptLeaf]
  split
  · exact .of_paeMakePte (c := 0) (by omega) (by omega) (by decide)
  · exact .of_paeMakePte (c := 7) (by omega) (by omega) (by decide)

/-- **The NPT protects exactly the hypervisor** when the runtime is mapped at its physical address. -/
theorem npt_protects (hid : r.runtimeVirtBase = r.runtimePhysBase) (t : Tables r) (m : Mem) :
    Protects r (nptWalk (svmNptInitialize r t m) (svmNCr3 t)) := by
  intro a ha
  have hroot : svmNCr3 t / 32 * 32 = hva2spa1 r t.pdpt := by
    obtain ⟨h1, h2, h3⟩ := t.pdpt_block
    simp only [pageSize4K] at h1 h3
    rw [hva2spa1_of_mem h2 (by omega), svmNCr3, hva2spa]
    omega
  have e3 : IsEntry (nptPdpe (t.pdts + 4096 * (a / 2 ^ 30))) _ 1 :=
    t.pdts_block.isEntry_npt (i := a / 2 ^ 30) (c := 1) hid (by omega) (by decide)
  have e2 : IsEntry (nptPde (t.pts + 4096 * (a / 2 ^ 21))) _ 7 :=
    t.pts_block.isEntry_npt (i := a / 2 ^ 21) (c := 7) hid (by omega) (by decide)
  have e1 := nptLeaf_isEntry (r := r) (n := a / 2 ^ 12) (by omega)
  have l3 := load_pdpte nptPdpe nptPde (nptLeaf r) t m (i := a / 2 ^ 30) (by omega)
  have l2 := load_pde nptPdpe nptPde (nptLeaf r) t m (q := a / 2 ^ 21) (by omega)
  have l1 := load_pte nptPdpe nptPde (nptLeaf r) t m (n := a / 2 ^ 12) (by omega)
  rw [← svmNptInitialize] at l3 l2 l1
  have h30 : a / 2 ^ 30 % 4 = a / 2 ^ 30 := by omega
  have hpage : a / 4096 * 4096 = 4096 * (a / 2 ^ 12) := by omega
  have b3 : (nptPdpe (t.pdts + 4096 * (a / 2 ^ 30))).getLsbD 0 = true := e3.getLsbD (by decide)
  have b20 : (nptPde (t.pts + 4096 * (a / 2 ^ 21))).getLsbD 0 = true := e2.getLsbD (by decide)
  have b21 : (nptPde (t.pts + 4096 * (a / 2 ^ 21))).getLsbD 1 = true := e2.getLsbD (by decide)
  have b22 : (nptPde (t.pts + 4096 * (a / 2 ^ 21))).getLsbD 2 = true := e2.getLsbD (by decide)
  have b27 : (nptPde (t.pts + 4096 * (a / 2 ^ 21))).getLsbD 7 = false := e2.getLsbD (by decide)
  rw [nptWalk, paeWalk, hroot, h30, hpage]
  simp only [t.addr_pdpte ha, l3, b3, ↓reduceIte, e3.entryAddr, t.addr_pde ha, l2, b20, b21, b22, b27,
    Bool.false_eq_true, e2.entryAddr, t.addr_pte ha, l1, e2.nx, e1.nx, e1.entryAddr]
  by_cases hprot : r.protectedAt (4096 * (a / 2 ^ 12))
  · rw [if_pos hprot] at e1 ⊢
    have b10 : (nptLeaf r (4096 * (a / 2 ^ 12))).getLsbD 0 = false := e1.getLsbD (by decide)
    simp only [b10, Bool.false_eq_true, ↓reduceIte, Option.map_none]
  · rw [if_neg hprot] at e1 ⊢
    have b10 : (nptLeaf r (4096 * (a / 2 ^ 12))).getLsbD 0 = true := e1.getLsbD (by decide)
    have b11 : (nptLeaf r (4096 * (a / 2 ^ 12))).getLsbD 1 = true := e1.getLsbD (by decide)
    have b12 : (nptLeaf r (4096 * (a / 2 ^ 12))).getLsbD 2 = true := e1.getLsbD (by decide)
    have haddr : 4096 * (a / 2 ^ 12) + a % 2 ^ 12 = a := by omega
    simp only [b10, b11, b12, ↓reduceIte, Option.map_some, haddr]
    rfl

/-- A page walk that finds a page reads entries that are present. -/
theorem paeWalk_present {m : Mem} {cr3 va : Nat} {pdpte pde pte : BitVec 64}
    (h : (paeWalk m cr3 va).isSome)
    (h3 : load64 m (cr3 / 32 * 32 + 8 * (va / 2 ^ 30 % 4)) = pdpte)
    (h2 : load64 m (entryAddr pdpte + 8 * (va / 2 ^ 21 % 512)) = pde)
    (h1 : load64 m (entryAddr pde + 8 * (va / 2 ^ 12 % 512)) = pte) :
    pdpte.getLsbD 0 = true ∧ pde.getLsbD 0 = true ∧
      (pde.getLsbD 7 = true ∨ pte.getLsbD 0 = true) := by
  simp only [paeWalk, h3, h2, h1] at h
  split at h
  · split at h
    · split at h
      · exact ⟨‹_›, ‹_›, .inl ‹_›⟩
      · split at h
        · exact ⟨‹_›, ‹_›, .inr ‹_›⟩
        · cases h
    · cases h
  · cases h

/-- Zeroed memory with the NPT in it. -/
def zeroedNpt (t : Tables r) : Mem := svmNptInitialize r t fun _ => 0

/-- The word at `a` is the entry `e` of one of the three arrays. -/
inductive NptWord (t : Tables r) (a : Nat) (e : BitVec 64) : Prop
  | pdpte (i : Nat) (hi : i < 4) (ha : a = t.pdpt + 8 * i - r.runtimeVirtBase + r.runtimePhysBase)
      (he : e = nptPdpe (t.pdts + 4096 * i))
  | pde (q : Nat) (hq : q < 2048) (ha : a = t.pdts + 8 * q - r.runtimeVirtBase + r.runtimePhysBase)
      (he : e = nptPde (t.pts + 4096 * q))
  | pte (n : Nat) (hn : n < 2 ^ 20) (ha : a = t.pts + 8 * n - r.runtimeVirtBase + r.runtimePhysBase)
      (he : e = nptLeaf r (4096 * n))

/-- In zeroed memory, a present entry is one of the tables'. -/
theorem nptWord_of_present {t : Tables r} {a : Nat} {e : BitVec 64} (ha : a % 8 = 0)
    (hload : load64 (zeroedNpt t) a = e) (hbit : e.getLsbD 0 = true) : NptWord t a e := by
  have hword : ∀ x, IsWord r x → hva2spa1 r x = x - r.runtimeVirtBase + r.runtimePhysBase ∧
      (a ≠ hva2spa1 r x → a + 8 ≤ hva2spa1 r x ∨ hva2spa1 r x + 8 ≤ a) := by
    intro x hx
    obtain ⟨h1, h2, h3⟩ := hx
    have h4 := r.offset
    simp only [pageSize4K] at h4
    rw [hva2spa1_of_mem h2 (by omega)]
    omega
  by_contra hne
  -- no entry is at `a`, so the loops left it zero
  have hzero : load64 (zeroedNpt t) a = load64 (fun _ => 0) a := by
    refine load_fillTables_of_apart _ _ _ t _ (fun i hi => ?_) (fun q hq => ?_) fun n hn => ?_
    · obtain ⟨hx, hap⟩ := hword _ (t.pdpt_block.isWord (k := i) (by omega))
      refine hap fun heq => hne (.pdpte i hi (heq.trans hx) ?_)
      rw [← hload, heq]
      exact load_pdpte _ _ _ t _ hi
    · obtain ⟨hx, hap⟩ := hword _ (t.pdts_block.isWord (k := q) (by omega))
      refine hap fun heq => hne (.pde q hq (heq.trans hx) ?_)
      rw [← hload, heq]
      exact load_pde _ _ _ t _ hq
    · obtain ⟨hx, hap⟩ := hword _ (t.pts_block.isWord (k := n) (by omega))
      refine hap fun heq => hne (.pte n hn (heq.trans hx) ?_)
      rw [← hload, heq]
      exact load_pte _ _ _ t _ hn
  have hnil : load64 (fun _ => 0) a = 0 := by
    simp [load64, readLE]
  rw [← hload, hzero, hnil] at hbit
  cases hbit

theorem NptWord.mem {t : Tables r} {a : Nat} {e : BitVec 64} (h : NptWord t a e) :
    r.runtimePhysBase ≤ a ∧ a + 8 ≤ r.runtimePhysBase + r.runtimeSize := by
  obtain ⟨-, h1, h2⟩ := t.pdpt_block
  obtain ⟨-, h3, h4⟩ := t.pdts_block
  obtain ⟨-, h5, h6⟩ := t.pts_block
  simp only [pageSize4K] at h2 h4 h6
  rcases h with ⟨i, hi, ha, -⟩ | ⟨q, hq, ha, -⟩ | ⟨n, hn, ha, -⟩ <;> omega

/-- A leaf leads out of the runtime: taken as a link, it leads to no entry. -/
theorem not_nptWord_of_leaf {t : Tables r} {n k : Nat} {e : BitVec 64} (hn : n < 2 ^ 20)
    (hk : k < 512) (hbit : (nptLeaf r (4096 * n)).getLsbD 0 = true) :
    ¬ NptWord t (entryAddr (nptLeaf r (4096 * n)) + 8 * k) e := by
  intro hword
  have he := nptLeaf_isEntry (r := r) hn
  have hmem := hword.mem
  rw [he.entryAddr] at hmem
  have hprot : r.protectedAt (4096 * n) := by
    have h1 := r.phys_ge
    rw [r.protectedAt_iff]
    simp only [pageSize2M] at h1 ⊢
    omega
  rw [he.getLsbD (by decide), if_pos hprot] at hbit
  cases hbit

/-- **The NPT fails** when the runtime is not mapped at its physical address: in zeroed memory, the walk
of the last page finds nothing. -/
theorem npt_fails (hvirt : r.runtimeVirtBase ≠ r.runtimePhysBase)
    (hlast : ¬ r.protectedAt (2 ^ 32 - 4096)) (t : Tables r) :
    ¬ Protects r (nptWalk (zeroedNpt t) (svmNCr3 t)) := by
  intro hprot
  have hwalk := hprot (2 ^ 32 - 4096) (by decide)
  have hpage : (2 ^ 32 - 4096) / 4096 * 4096 = 2 ^ 32 - 4096 := by decide
  rw [hpage, if_neg hlast] at hwalk
  have hsome : (paeWalk (zeroedNpt t) (svmNCr3 t) (2 ^ 32 - 4096)).isSome := by
    rw [← Option.isSome_map (f := fun g : PaeGrant => (g.addr, (⟨g.user, g.user && g.rw,
      g.user && !g.nx⟩ : Rights))), ← nptWalk, hwalk]
    rfl
  obtain ⟨a1, a2, a3⟩ := t.pdpt_block
  obtain ⟨b1, b2, b3⟩ := t.pdts_block
  obtain ⟨c1, c2, c3⟩ := t.pts_block
  have hap := t.pdpt_pts
  have hoff := r.offset
  have hvle := r.virt_le
  simp only [pageSize4K, Apart] at a1 a3 b1 b3 c1 c3 hap hoff
  have hroot : svmNCr3 t / 32 * 32 = t.pdpt := by
    rw [svmNCr3, hva2spa]
    omega
  obtain ⟨p3, p2, p1⟩ := paeWalk_present hsome rfl rfl rfl
  have i3 : (2 ^ 32 - 4096) / 2 ^ 30 % 4 = 3 := by decide
  have i2 : (2 ^ 32 - 4096) / 2 ^ 21 % 512 = 511 := by decide
  rw [hroot, i3] at p3 p2 p1
  rw [i2] at p2 p1
  generalize hpdpte : load64 (zeroedNpt t) (t.pdpt + 8 * 3) = pdpte at p3 p2 p1
  have haligned : ∀ (e : BitVec 64) (k : Nat), (entryAddr e + 8 * k) % 8 = 0 := by
    intro e k
    rw [entryAddr]
    omega
  generalize hpde : load64 (zeroedNpt t) (entryAddr pdpte + 8 * 511) = pde at p2 p1
  generalize hpte : load64 (zeroedNpt t) (entryAddr pde + 8 * 511) = pte at p1
  have hword2 := nptWord_of_present (haligned _ _) hpde p2
  rcases nptWord_of_present (by omega) hpdpte p3 with
    ⟨i, hi, ha, -⟩ | ⟨q, hq, ha, rfl⟩ | ⟨n, hn, -, rfl⟩
  · omega
  · -- the pointer is a link to a page table
    have he : IsEntry (nptPde (t.pts + 4096 * q)) (t.pts + 4096 * q) 7 := by
      rw [nptPde, hva2spa]
      exact .of_paeMakePte (c := 7) (by omega) (by omega) (by decide)
    rw [he.entryAddr] at hword2
    rcases hword2 with ⟨i, hi, ha', -⟩ | ⟨q', hq', ha', -⟩ | ⟨n, hn, -, rfl⟩
    · omega
    · omega
    · have hleaf := nptLeaf_isEntry (r := r) hn
      have h7 : (nptLeaf r (4096 * n)).getLsbD 7 = false := by
        rw [hleaf.getLsbD (by decide)]
        split <;> decide
      rw [h7] at p1
      have hword1 := nptWord_of_present (haligned _ _) hpte (p1.resolve_left (by decide))
      exact not_nptWord_of_leaf hn (by decide) p2 hword1
  · exact not_nptWord_of_leaf hn (by decide) p3 hword2

/-! ## Both backends -/

/-- The two backends protect exactly the hypervisor, and so grant the same accesses. -/
def TablesProtect (r : Rpb) (te : EptTables r) (tn : Tables r) (memorytype : Nat → BitVec 32) :
    Prop :=
  ∀ me mn, Protects r (eptWalk (vmxSetupEPT r te memorytype me) (entryAddr (vmxEptp r te))) ∧
    Protects r (nptWalk (svmNptInitialize r tn mn) (svmNCr3 tn)) ∧
    ∀ a < 2 ^ 32, eptWalk (vmxSetupEPT r te memorytype me) (entryAddr (vmxEptp r te)) a =
      nptWalk (svmNptInitialize r tn mn) (svmNCr3 tn) a

/-- **Nested page tables protect exactly the hypervisor**: the EPT always; the NPT, and with it the
agreement of the backends, if and only if the runtime is mapped at its physical address (the converse
needs a guest page at the end of the address space). -/
theorem nested_tables_protect (r : Rpb) (te : EptTables r) (tn : Tables r)
    (memorytype : Nat → BitVec 32) :
    (∀ m, Protects r (eptWalk (vmxSetupEPT r te memorytype m) (entryAddr (vmxEptp r te)))) ∧
      (r.runtimeVirtBase = r.runtimePhysBase → TablesProtect r te tn memorytype) ∧
      (TablesProtect r te tn memorytype →
        r.runtimeVirtBase = r.runtimePhysBase ∨ r.protectedAt (2 ^ 32 - 4096)) := by
  refine ⟨ept_protects te memorytype, fun hid me mn => ?_, fun h => ?_⟩
  · have he := ept_protects te memorytype me
    have hn := npt_protects hid tn mn
    exact ⟨he, hn, fun a ha => (he a ha).trans (hn a ha).symm⟩
  · by_contra hcon
    rw [not_or] at hcon
    exact npt_fails hcon.1 hcon.2 tn (h (fun _ => 0) fun _ => 0).2.1

end

/-- The tables of the relocated runtime, one after the other. -/
def relocatedTables : EptTables relocated where
  pml4 := 0xC0200000
  pdpt := 0xC0201000
  pdts := 0xC0202000
  pts := 0xC0206000
  pdpt_block := ⟨by decide, by decide, by decide⟩
  pdts_block := ⟨by decide, by decide, by decide⟩
  pts_block := ⟨by decide, by decide, by decide⟩
  pml4_block := ⟨by decide, by decide, by decide⟩
  pdpt_pdts := .inl (by decide)
  pdpt_pts := .inl (by decide)
  pdts_pts := .inl (by decide)
  pml4_pdpt := .inl (by decide)
  pml4_pdts := .inl (by decide)
  pml4_pts := .inl (by decide)

theorem relocated_npt_fails : ¬ Protects relocated
    (nptWalk (svmNptInitialize relocated relocatedTables.toTables fun _ => 0)
      (svmNCr3 relocatedTables.toTables)) :=
  npt_fails (by decide) (by decide) relocatedTables.toTables

end Xmhf.Memprot
