import Mathlib.Data.List.Basic
import Xmhf.Boot.RuntimePaging
import Xmhf.Platform.Entry

/-!
# What the runtime's page table maps

`Loaded` is the situation at the call: sizes and bases in pages of 2MB, and the two arrays in the runtime's
image.

* `Loaded.setup_eq`: what the loops write, by index.
* `Loaded.load64_pdt`: the directories after the stores; the second loop's entry for the runtime's first
  page stands (`Loaded.writeEntries_eq`).
* `setupRuntimePaging_maps`: what the processor's walk makes of them.
-/

namespace Xmhf.Boot

open Xmhf.Memory Xmhf.Word Xmhf.Paging

/-- The runtime of `totalsize` bytes at `runtimeVirtBase`, in pages of 2MB below the pages of devices, and
its arrays `x_3level_pdpt` and `x_3level_pdt`, of one page and of four. -/
structure Loaded (rpb : PagingRpb) (totalsize : Nat) : Prop where
  size_ge : pageSize2M ≤ totalsize
  size_mod : totalsize % pageSize2M = 0
  phys_mod : rpb.runtimePhysBase % pageSize2M = 0
  virt_mod : rpb.runtimeVirtBase % pageSize2M = 0
  phys_le : rpb.runtimePhysBase + totalsize ≤ 0xFEC00000
  virt_le : rpb.runtimeVirtBase + totalsize ≤ 0xFEC00000
  pdpt_mod : rpb.pdptBase % pageSize4K = 0
  pdts_mod : rpb.pdtsBase % pageSize4K = 0
  pdpt_ge : rpb.runtimeVirtBase ≤ rpb.pdptBase
  pdpt_le : rpb.pdptBase + pageSize4K ≤ rpb.runtimeVirtBase + totalsize
  pdts_ge : rpb.runtimeVirtBase ≤ rpb.pdtsBase
  pdts_le : rpb.pdtsBase + 4 * pageSize4K ≤ rpb.runtimeVirtBase + totalsize
  apart : rpb.pdptBase + pageSize4K ≤ rpb.pdtsBase ∨ rpb.pdtsBase + 4 * pageSize4K ≤ rpb.pdptBase

/-- Where a runtime address is in physical memory. -/
def PagingRpb.spa (rpb : PagingRpb) (hva : Nat) : Nat :=
  hva - rpb.runtimeVirtBase + rpb.runtimePhysBase

variable {rpb : PagingRpb} {totalsize : Nat}

/-! ## The address conversions -/

/-- The detour over the secure loader's addresses is the runtime's own mapping. -/
theorem sla2spa_hva2sla (rpb : PagingRpb) (hva d : Nat) :
    rpb.sla2spa (add32 (rpb.hva2sla hva) d) = rpb.hva2spa1 (add32 hva d) := by
  unfold PagingRpb.sla2spa PagingRpb.hva2sla PagingRpb.hva2spa1 sub32 add32 pageSize2M
  omega

theorem Loaded.hva2spa1 (h : Loaded rpb totalsize) {hva : Nat} (h1 : rpb.runtimeVirtBase ≤ hva)
    (h2 : hva < rpb.runtimeVirtBase + totalsize) : rpb.hva2spa1 hva = rpb.spa hva := by
  have hp := h.phys_le
  have hv := h.virt_le
  unfold PagingRpb.hva2spa1 PagingRpb.spa sub32 add32
  omega

theorem Loaded.store_spa (h : Loaded rpb totalsize) {base i : Nat}
    (h1 : rpb.runtimeVirtBase ≤ base) (h2 : base + 8 * i < rpb.runtimeVirtBase + totalsize) :
    rpb.sla2spa (add32 (rpb.hva2sla base) (8 * i)) = rpb.spa base + 8 * i := by
  have hv := h.virt_le
  rw [sla2spa_hva2sla, add32_of_lt (by omega), h.hva2spa1 (by omega) h2]
  unfold PagingRpb.spa
  omega

theorem Loaded.sla2spa_hva2sla (h : Loaded rpb totalsize) {hva : Nat}
    (h1 : rpb.runtimeVirtBase ≤ hva) (h2 : hva < rpb.runtimeVirtBase + totalsize) :
    rpb.sla2spa (rpb.hva2sla hva) = rpb.spa hva := by
  have hsla : rpb.hva2sla hva = add32 (rpb.hva2sla hva) (8 * 0) := (add32_zero (add32_lt ..)).symm
  rw [hsla, h.store_spa h1 h2, Nat.mul_zero, Nat.add_zero]

/-! ## What the loops write -/

/-- The first loop writes `k + 1` entries when the runtime is `k` pages on. -/
theorem unityLoop_eq {sva n i k : Nat} (hk : sva = (i + k) * pageSize2M) (hlt : k < n)
    (hsva : sva < 2 ^ 32) : unityLoop sva n i (i * pageSize2M) =
      ((List.range (k + 1)).map fun j =>
        (i + j, paeMakePdeBig ((i + j) * pageSize2M) defaultFlags), i + k) := by
  induction n generalizing i k with
  | zero => omega
  | succ n ih =>
    rw [unityLoop]
    cases k with
    | zero => simp [hk, hva2spa]
    | succ k =>
      have hne : i * pageSize2M ≠ sva := by
        unfold pageSize2M at hk ⊢
        omega
      have hnext : add32 (i * pageSize2M) pageSize2M = (i + 1) * pageSize2M := by
        rw [Nat.succ_mul, add32_of_lt]
        unfold pageSize2M at hk ⊢
        omega
      have hk' : sva = (i + 1 + k) * pageSize2M := by
        rw [hk, show i + (k + 1) = i + 1 + k by omega]
      have hshift : ∀ j, i + 1 + j = i + (j + 1) := by omega
      rw [if_neg hne, hnext, ih hk' (by omega)]
      rw [List.range_succ_eq_map (n := k + 1)]
      simp only [hva2spa, List.map_cons, List.map_map, Function.comp_def, hshift, Nat.succ_eq_add_one,
        Nat.add_zero]

theorem Loaded.runtimeLoop_eq (h : Loaded rpb totalsize) {n i k : Nat}
    (hn : (k + n) * pageSize2M ≤ totalsize) :
    runtimeLoop rpb n i (rpb.runtimeVirtBase + k * pageSize2M) =
      some ((List.range n).map fun j =>
        (i + j, paeMakePdeBig (rpb.runtimePhysBase + (k + j) * pageSize2M) defaultFlags)) := by
  induction n generalizing i k with
  | zero => rfl
  | succ n ih =>
    have hp := h.phys_le
    have hv := h.virt_le
    have hin : rpb.runtimeVirtBase + k * pageSize2M < rpb.runtimeVirtBase + totalsize := by
      unfold pageSize2M at hn ⊢
      omega
    have hspa : rpb.hva2spa1 (rpb.runtimeVirtBase + k * pageSize2M) =
        rpb.runtimePhysBase + k * pageSize2M := by
      rw [h.hva2spa1 (Nat.le_add_right ..) hin, PagingRpb.spa]
      omega
    have hno : ¬ (rpb.runtimePhysBase + k * pageSize2M = 0xFEE00000 ∨
        rpb.runtimePhysBase + k * pageSize2M = 0xFEC00000) := by
      unfold pageSize2M at hin ⊢
      omega
    have hnext : add32 (rpb.runtimeVirtBase + k * pageSize2M) pageSize2M =
        rpb.runtimeVirtBase + (k + 1) * pageSize2M := by
      rw [add32_of_lt (by unfold pageSize2M at hin ⊢; omega), Nat.succ_mul, Nat.add_assoc]
    have hrest := ih (i := i + 1) (k := k + 1) (by rwa [Nat.add_assoc, Nat.add_comm 1 n])
    simp only [runtimeLoop, hspa, if_neg hno, hnext, hrest, Option.bind_eq_bind, Option.bind_some]
    have hshift : ∀ x j, x + 1 + j = x + (j + 1) := by omega
    simp only [List.range_succ_eq_map, List.map_cons, List.map_map, Function.comp_def, hshift,
      Nat.succ_eq_add_one, Nat.add_zero]

/-! ## The table -/

/-- The entries of the pointer table. -/
def pdptWrites (rpb : PagingRpb) : List (Nat × BitVec 64) :=
  (List.range 4).map fun i => (0 + i, paeMakePte (rpb.spa rpb.pdtsBase + i * 2 ^ 12) pagePresent)

/-- The entries of the directories: one to one up to the runtime's first page, the runtime's, and the
devices'. -/
def pdtWrites (rpb : PagingRpb) (totalsize : Nat) : List (Nat × BitVec 64) :=
  ((List.range (rpb.runtimeVirtBase / pageSize2M + 1)).map fun j =>
      (0 + j, paeMakePdeBig ((0 + j) * pageSize2M) defaultFlags)) ++
    ((List.range (totalsize / pageSize2M)).map fun j => (rpb.runtimeVirtBase / pageSize2M + j,
      paeMakePdeBig (rpb.runtimePhysBase + (0 + j) * pageSize2M) defaultFlags)) ++
    [(0x7F7, paeMakePdeBig 0xFEE00000 (defaultFlags ||| pagePCD)),
      (0x7F6, paeMakePdeBig 0xFEC00000 (defaultFlags ||| pagePCD))]

theorem Loaded.setup_eq (h : Loaded rpb totalsize) :
    setupRuntimePaging rpb rpb.runtimeVirtBase totalsize =
      some ⟨pdptWrites rpb, pdtWrites rpb totalsize, rpb.spa rpb.pdptBase⟩ := by
  have hv := h.virt_le
  have hvm : rpb.runtimeVirtBase = (0 + rpb.runtimeVirtBase / pageSize2M) * pageSize2M := by
    rw [Nat.zero_add, Nat.div_mul_cancel (Nat.dvd_of_mod_eq_zero h.virt_mod)]
  have hlt : rpb.runtimeVirtBase / pageSize2M < 2048 := by
    unfold pageSize2M
    omega
  have hunity := unityLoop_eq hvm hlt (by omega)
  have hsize : (0 + totalsize / pageSize2M) * pageSize2M ≤ totalsize := by
    rw [Nat.zero_add]
    exact Nat.div_mul_le_self ..
  have hruntime := h.runtimeLoop_eq (i := rpb.runtimeVirtBase / pageSize2M) hsize
  have h1 := h.pdpt_ge
  have h2 := h.pdpt_le
  have h3 := h.pdts_ge
  have h4 := h.pdts_le
  unfold pageSize4K at h2 h4
  rw [Nat.zero_mul] at hunity
  rw [Nat.zero_mul, Nat.add_zero] at hruntime
  rw [setupRuntimePaging]
  simp only [hunity, Nat.zero_add, hruntime, h.sla2spa_hva2sla h1 (by omega),
    h.sla2spa_hva2sla h3 (by omega),
    Option.bind_eq_bind, Option.bind_some, pdptWrites, pdtWrites]

/-- Every index of the directories that is written is below 2048. -/
theorem Loaded.pdtWrites_lt (h : Loaded rpb totalsize) : ∀ w ∈ pdtWrites rpb totalsize, w.1 < 2048 := by
  have hv := h.virt_le
  have hvm := Nat.div_mul_le_self rpb.runtimeVirtBase pageSize2M
  have htm := Nat.div_mul_le_self totalsize pageSize2M
  have hpos := h.size_ge
  intro w hw
  simp only [pdtWrites, List.mem_append, List.mem_map, List.mem_range, List.mem_cons,
    List.not_mem_nil, or_false] at hw
  unfold pageSize2M at hw hvm htm hpos
  rcases hw with (⟨j, hj, rfl⟩ | ⟨j, hj, rfl⟩) | rfl | rfl
  · change 0 + j < 2048
    omega
  · change rpb.runtimeVirtBase / 2 ^ 21 + j < 2048
    omega
  · decide
  · decide

theorem pdptWrites_lt : ∀ w ∈ pdptWrites rpb, w.1 < 4 := by
  intro w hw
  obtain ⟨i, hi, rfl⟩ := List.mem_map.1 hw
  rw [Nat.zero_add]
  exact List.mem_range.1 hi

theorem Loaded.stores_eq (h : Loaded rpb totalsize) {base n : Nat} {writes : List (Nat × BitVec 64)}
    (h1 : rpb.runtimeVirtBase ≤ base) (h2 : base + 8 * n ≤ rpb.runtimeVirtBase + totalsize)
    (hw : ∀ w ∈ writes, w.1 < n) : rpb.stores (rpb.hva2sla base) writes =
      writes.map fun w => (rpb.spa base + 8 * w.1, w.2) := by
  apply List.map_congr_left
  intro w hmem
  have := hw w hmem
  rw [h.store_spa h1 (by omega)]

section
variable (h : Loaded rpb totalsize) (m : Mem)

/-- Memory with the two arrays written. -/
def tablesMem (rpb : PagingRpb) (totalsize : Nat) (m : Mem) : Mem :=
  RuntimePaging.mem ⟨pdptWrites rpb, pdtWrites rpb totalsize, rpb.spa rpb.pdptBase⟩ rpb m

include h

theorem Loaded.tablesMem_eq : tablesMem rpb totalsize m =
    Memory.stores ((pdtWrites rpb totalsize).map fun w => (rpb.spa rpb.pdtsBase + 8 * w.1, w.2))
      (Memory.stores ((pdptWrites rpb).map fun w => (rpb.spa rpb.pdptBase + 8 * w.1, w.2)) m) := by
  have h2 := h.pdpt_le
  have h4 := h.pdts_le
  unfold pageSize4K at h2 h4
  rw [tablesMem, RuntimePaging.mem, stores_append,
    h.stores_eq h.pdpt_ge (n := 4) (by omega) pdptWrites_lt,
    h.stores_eq h.pdts_ge (n := 2048) (by omega) h.pdtWrites_lt]

/-- Entries of the two arrays are apart. -/
theorem Loaded.spa_apart {i k : Nat} (hi : i < 4) (hk : k < 2048) :
    rpb.spa rpb.pdptBase + 8 * i + 8 ≤ rpb.spa rpb.pdtsBase + 8 * k ∨
      rpb.spa rpb.pdtsBase + 8 * k + 8 ≤ rpb.spa rpb.pdptBase + 8 * i := by
  have h1 := h.pdpt_ge
  have h2 := h.pdts_ge
  have h3 := h.apart
  unfold pageSize4K at h3
  unfold PagingRpb.spa
  omega

theorem Loaded.load64_pdpt {i : Nat} (hi : i < 4) :
    load64 (tablesMem rpb totalsize m) (rpb.spa rpb.pdptBase + 8 * i) =
      paeMakePte (rpb.spa rpb.pdtsBase + i * 2 ^ 12) pagePresent := by
  rw [h.tablesMem_eq, load64_stores_of_disjoint, load64_stores_array, pdptWrites, writeEntries_range,
    if_pos ⟨Nat.zero_le _, by omega⟩, Nat.sub_zero]
  intro w hw
  obtain ⟨w', hw', rfl⟩ := List.mem_map.1 hw
  exact h.spa_apart hi (h.pdtWrites_lt w' hw')

/-- The four pages of directories are zero before. -/
def ZeroPdts (rpb : PagingRpb) (m : Mem) : Prop :=
  ∀ a, rpb.spa rpb.pdtsBase ≤ a → a < rpb.spa rpb.pdtsBase + 4 * pageSize4K → m a = 0

/-- The directory entry of the 2MB page number `k`. -/
def dirEntry (rpb : PagingRpb) (totalsize k : Nat) : BitVec 64 :=
  if k = 0x7F6 then paeMakePdeBig 0xFEC00000 (defaultFlags ||| pagePCD)
  else if k = 0x7F7 then paeMakePdeBig 0xFEE00000 (defaultFlags ||| pagePCD)
  else if rpb.runtimeVirtBase / pageSize2M ≤ k ∧
      k < rpb.runtimeVirtBase / pageSize2M + totalsize / pageSize2M then
    paeMakePdeBig (rpb.runtimePhysBase + (k - rpb.runtimeVirtBase / pageSize2M) * pageSize2M)
      defaultFlags
  else if k < rpb.runtimeVirtBase / pageSize2M then paeMakePdeBig (k * pageSize2M) defaultFlags
  else 0

/-- The second loop writes the runtime's first page again, over the one to one entry. -/
theorem Loaded.writeEntries_eq (t : Nat → BitVec 64) {k : Nat} (ht : t k = 0) :
    writeEntries (pdtWrites rpb totalsize) t k = dirEntry rpb totalsize k := by
  have hsize : 1 ≤ totalsize / pageSize2M := (Nat.one_le_div_iff (by decide)).2 h.size_ge
  have hdevices : ∀ t' : Nat → BitVec 64, writeEntries
      [(0x7F7, paeMakePdeBig 0xFEE00000 (defaultFlags ||| pagePCD)),
        (0x7F6, paeMakePdeBig 0xFEC00000 (defaultFlags ||| pagePCD))] t' =
      Function.update (Function.update t' 0x7F7 (paeMakePdeBig 0xFEE00000 (defaultFlags ||| pagePCD)))
        0x7F6 (paeMakePdeBig 0xFEC00000 (defaultFlags ||| pagePCD)) := fun _ => rfl
  rw [pdtWrites, writeEntries_append, hdevices, dirEntry]
  by_cases h6 : k = 0x7F6
  · rw [h6, Function.update_self, if_pos rfl]
  rw [Function.update_of_ne h6, if_neg h6]
  by_cases h7 : k = 0x7F7
  · rw [h7, Function.update_self, if_pos rfl]
  rw [Function.update_of_ne h7, if_neg h7, writeEntries_append, writeEntries_range,
    writeEntries_range, ht]
  by_cases hin : rpb.runtimeVirtBase / pageSize2M ≤ k ∧
      k < rpb.runtimeVirtBase / pageSize2M + totalsize / pageSize2M
  · rw [if_pos hin, if_pos hin, Nat.zero_add]
  · rw [if_neg hin, if_neg hin]
    by_cases hbelow : k < rpb.runtimeVirtBase / pageSize2M
    · rw [if_pos ⟨Nat.zero_le _, by omega⟩, if_pos hbelow, Nat.sub_zero, Nat.zero_add]
    · rw [if_neg (by omega), if_neg hbelow]

theorem Loaded.load64_pdt (hzero : ZeroPdts rpb m) {k : Nat} (hk : k < 2048) :
    load64 (tablesMem rpb totalsize m) (rpb.spa rpb.pdtsBase + 8 * k) = dirEntry rpb totalsize k := by
  rw [h.tablesMem_eq, load64_stores_array]
  have hstores := load64_stores_of_disjoint (m := m) (a := rpb.spa rpb.pdtsBase + 8 * k)
    (l := (pdptWrites rpb).map fun w => (rpb.spa rpb.pdptBase + 8 * w.1, w.2)) (by
      intro w hw
      obtain ⟨w', hw', rfl⟩ := List.mem_map.1 hw
      exact (h.spa_apart (pdptWrites_lt w' hw') hk).symm)
  have hbytes : load64 m (rpb.spa rpb.pdtsBase + 8 * k) = load64 (fun _ => 0) 0 :=
    (load64_congr fun x h1 h2 => hzero x (by omega) (by unfold pageSize4K; omega)).trans rfl
  exact h.writeEntries_eq _ (hstores.trans hbytes)

end

/-! ## The walk -/

theorem defaultFlags_eq : defaultFlags = BitVec.ofNat 64 0x87 := by decide

theorem deviceFlags_eq : defaultFlags ||| pagePCD = BitVec.ofNat 64 0x97 := by decide

/-- A page of 2MB, cached or not. -/
structure IsPage (e : BitVec 64) (addr : Nat) (pcd : Bool) : Prop where
  present : e.getLsbD 0
  big : e.getLsbD 7
  addr : entryAddrBig e = addr
  pcd : e.getLsbD 4 = pcd

theorem isPage_default {x : Nat} (hx : x % 2 ^ 21 = 0) (hx' : x < 2 ^ 32) :
    IsPage (paeMakePdeBig x defaultFlags) x false := by
  have he := IsEntry.of_paeMakePdeBig (c := 0x87) hx hx' (by decide)
  rw [defaultFlags_eq]
  exact ⟨he.getLsbD (by decide), he.getLsbD (by decide), he.entryAddrBig hx, he.getLsbD (by decide)⟩

theorem isPage_device {x : Nat} (hx : x % 2 ^ 21 = 0) (hx' : x < 2 ^ 32) :
    IsPage (paeMakePdeBig x (defaultFlags ||| pagePCD)) x true := by
  have he := IsEntry.of_paeMakePdeBig (c := 0x97) hx hx' (by decide)
  rw [deviceFlags_eq]
  exact ⟨he.getLsbD (by decide), he.getLsbD (by decide), he.entryAddrBig hx, he.getLsbD (by decide)⟩

section
variable {m : Mem} {va : Nat} (h : Loaded rpb totalsize) (hva : va < 2 ^ 32)
include h hva

/-- The pointer entry that a walk reads. -/
theorem Loaded.load64_root :
    load64 (tablesMem rpb totalsize m) (rpb.spa rpb.pdptBase / 32 * 32 + 8 * (va / 2 ^ 30 % 4)) =
      paeMakePte (rpb.spa rpb.pdtsBase + va / 2 ^ 30 * 2 ^ 12) pagePresent := by
  have hroot : rpb.spa rpb.pdptBase / 32 * 32 = rpb.spa rpb.pdptBase := by
    have h1 := h.pdpt_mod
    have h2 := h.virt_mod
    have h3 := h.phys_mod
    have h4 := h.pdpt_ge
    unfold pageSize4K at h1
    unfold pageSize2M at h2 h3
    unfold PagingRpb.spa
    omega
  rw [hroot, Nat.mod_eq_of_lt (by omega), h.load64_pdpt m (by omega)]

variable (hzero : ZeroPdts rpb m)
include hzero

theorem Loaded.load64_dir : load64 (tablesMem rpb totalsize m)
    (entryAddr (paeMakePte (rpb.spa rpb.pdtsBase + va / 2 ^ 30 * 2 ^ 12) pagePresent) +
      8 * (va / 2 ^ 21 % 512)) = dirEntry rpb totalsize (va / 2 ^ 21) := by
  have h1 := h.pdts_mod
  have h2 := h.virt_mod
  have h3 := h.phys_mod
  have h4 := h.pdts_ge
  have h5 := h.pdts_le
  have h6 := h.phys_le
  unfold pageSize4K at h1 h5
  unfold pageSize2M at h2 h3
  have he := IsEntry.of_paeMakePte (x := rpb.spa rpb.pdtsBase + va / 2 ^ 30 * 2 ^ 12) (c := 1)
    (by unfold PagingRpb.spa; omega) (by unfold PagingRpb.spa; omega) (by decide)
  have hflags : pagePresent = BitVec.ofNat 64 1 := by decide
  have hidx : rpb.spa rpb.pdtsBase + va / 2 ^ 30 * 2 ^ 12 + 8 * (va / 2 ^ 21 % 512) =
      rpb.spa rpb.pdtsBase + 8 * (va / 2 ^ 21) := by omega
  rw [hflags, he.entryAddr, hidx, h.load64_pdt m hzero (by omega)]

theorem Loaded.walk_page {addr : Nat} {pcd : Bool}
    (hpage : IsPage (dirEntry rpb totalsize (va / 2 ^ 21)) addr pcd) :
    (paeWalk (tablesMem rpb totalsize m) (rpb.spa rpb.pdptBase) va).map PaeGrant.addr =
        some (addr + va % 2 ^ 21) ∧
      paePcd (tablesMem rpb totalsize m) (rpb.spa rpb.pdptBase) va = pcd := by
  have hpresent : (paeMakePte (rpb.spa rpb.pdtsBase + va / 2 ^ 30 * 2 ^ 12) pagePresent).getLsbD 0 := by
    rw [paeMakePte, BitVec.getLsbD_or, show pagePresent.getLsbD 0 = true by decide, Bool.or_true]
  constructor
  · rw [paeWalk]
    simp only [h.load64_root hva, h.load64_dir hva hzero, if_pos hpresent, if_pos hpage.present,
      if_pos hpage.big, Option.map_some, hpage.addr]
  · rw [paePcd]
    simp only [h.load64_root hva, h.load64_dir hva hzero, if_pos hpage.big, hpage.pcd]

theorem Loaded.walk_none (hnone : dirEntry rpb totalsize (va / 2 ^ 21) = 0) :
    paeWalk (tablesMem rpb totalsize m) (rpb.spa rpb.pdptBase) va = none := by
  rw [paeWalk]
  have hbit : ¬ (0 : BitVec 64).getLsbD 0 := by decide
  simp only [h.load64_root hva, h.load64_dir hva hzero, hnone, if_neg hbit, ite_self]

end

/-! ## What is mapped -/

theorem isPage_devices {va : Nat} (h1 : 0xFEC00000 ≤ va) (h2 : va < 0xFF000000) :
    IsPage (dirEntry rpb totalsize (va / 2 ^ 21)) (va / 2 ^ 21 * 2 ^ 21) true := by
  obtain hidx | hidx : va / 2 ^ 21 = 0x7F6 ∨ va / 2 ^ 21 = 0x7F7 := by omega
  · rw [hidx, dirEntry, if_pos rfl]
    exact isPage_device (by decide) (by decide)
  · rw [hidx, dirEntry, if_neg (by decide), if_pos rfl]
    exact isPage_device (by decide) (by decide)

section
variable {va : Nat} (h : Loaded rpb totalsize)
include h

theorem Loaded.isPage_unity (hva : va < rpb.runtimeVirtBase) :
    IsPage (dirEntry rpb totalsize (va / 2 ^ 21)) (va / 2 ^ 21 * 2 ^ 21) false := by
  have h2 := h.virt_mod
  have h3 := h.virt_le
  unfold pageSize2M at h2
  rw [dirEntry, pageSize2M, if_neg (by omega), if_neg (by omega), if_neg (by omega), if_pos (by omega)]
  exact isPage_default (Nat.mul_mod_left ..) (by omega)

theorem Loaded.isPage_runtime (h1 : rpb.runtimeVirtBase ≤ va)
    (h2 : va < rpb.runtimeVirtBase + totalsize) : IsPage (dirEntry rpb totalsize (va / 2 ^ 21))
      (rpb.runtimePhysBase + (va - rpb.runtimeVirtBase) / 2 ^ 21 * 2 ^ 21) false := by
  have h3 := h.virt_mod
  have h4 := h.phys_mod
  have h5 := h.size_mod
  have h6 := h.virt_le
  have h7 := h.phys_le
  unfold pageSize2M at h3 h4 h5
  have hpage : va / 2 ^ 21 - rpb.runtimeVirtBase / 2 ^ 21 = (va - rpb.runtimeVirtBase) / 2 ^ 21 := by
    omega
  rw [dirEntry, pageSize2M, if_neg (by omega), if_neg (by omega), if_pos (by omega), hpage]
  exact isPage_default (by omega) (by omega)

theorem Loaded.dirEntry_eq_zero (h1 : rpb.runtimeVirtBase + totalsize ≤ va)
    (h2 : va < 0xFEC00000 ∨ 0xFF000000 ≤ va) : dirEntry rpb totalsize (va / 2 ^ 21) = 0 := by
  have h3 := h.virt_mod
  have h5 := h.size_mod
  unfold pageSize2M at h3 h5
  rw [dirEntry, pageSize2M, if_neg (by omega), if_neg (by omega), if_neg (by omega), if_neg (by omega)]

end

/-- The mapping that the runtime is to start on. -/
structure RuntimeMap (rpb : PagingRpb) (totalsize : Nat) (m : Mem) (root : Nat) : Prop where
  unity : ∀ va < rpb.runtimeVirtBase, (paeWalk m root va).map PaeGrant.addr = some va
  runtime : ∀ va, rpb.runtimeVirtBase ≤ va → va < rpb.runtimeVirtBase + totalsize →
    (paeWalk m root va).map PaeGrant.addr = some (rpb.runtimePhysBase + (va - rpb.runtimeVirtBase))
  devices : ∀ va, 0xFEC00000 ≤ va → va < 0xFF000000 →
    (paeWalk m root va).map PaeGrant.addr = some va ∧ paePcd m root va
  nothing : ∀ va < 2 ^ 32, rpb.runtimeVirtBase + totalsize ≤ va → va < 0xFEC00000 ∨ 0xFF000000 ≤ va →
    paeWalk m root va = none
  conversions : ∀ hva, rpb.runtimeVirtBase ≤ hva → hva < rpb.runtimeVirtBase + totalsize →
    (paeWalk m root hva).map PaeGrant.addr = some (rpb.sla2spa (rpb.hva2sla hva))

theorem Loaded.walk_runtime (h : Loaded rpb totalsize) {m : Mem} (hzero : ZeroPdts rpb m) {va : Nat}
    (hge : rpb.runtimeVirtBase ≤ va) (hlt : va < rpb.runtimeVirtBase + totalsize) :
    (paeWalk (tablesMem rpb totalsize m) (rpb.spa rpb.pdptBase) va).map PaeGrant.addr =
      some (rpb.runtimePhysBase + (va - rpb.runtimeVirtBase)) := by
  have h1 := h.virt_le
  have hoff : rpb.runtimePhysBase + (va - rpb.runtimeVirtBase) / 2 ^ 21 * 2 ^ 21 + va % 2 ^ 21 =
      rpb.runtimePhysBase + (va - rpb.runtimeVirtBase) := by
    have h2 := h.virt_mod
    unfold pageSize2M at h2
    omega
  rw [(h.walk_page (by omega) hzero (h.isPage_runtime hge hlt)).1, hoff]

theorem Loaded.runtimeMap (h : Loaded rpb totalsize) {m : Mem} (hzero : ZeroPdts rpb m) :
    RuntimeMap rpb totalsize (tablesMem rpb totalsize m) (rpb.spa rpb.pdptBase) where
  unity va hva := by
    have h1 := h.virt_le
    have hwalk := (h.walk_page (by omega) hzero (h.isPage_unity hva)).1
    rwa [Nat.div_add_mod' va (2 ^ 21)] at hwalk
  runtime va hge hlt := h.walk_runtime hzero hge hlt
  devices va hge hlt := by
    have hwalk := h.walk_page (by omega) hzero (isPage_devices hge hlt)
    rwa [Nat.div_add_mod' va (2 ^ 21)] at hwalk
  nothing va hva hge hout := h.walk_none hva hzero (h.dirEntry_eq_zero hge hout)
  conversions hva hge hlt := by
    rw [h.sla2spa_hva2sla hge hlt, h.walk_runtime hzero hge hlt, PagingRpb.spa, Nat.add_comm]

/-- **The page table that the runtime starts on** maps it at its physical base, the addresses below it one
to one, the two pages of devices one to one and uncached, and nothing else; the indices written are
inside the arrays. -/
theorem setupRuntimePaging_maps (h : Loaded rpb totalsize) {m : Mem} (hzero : ZeroPdts rpb m) :
    ∃ t, setupRuntimePaging rpb rpb.runtimeVirtBase totalsize = some t ∧
      (∀ w ∈ t.xpdpt, w.1 < 4) ∧ (∀ w ∈ t.xpdt, w.1 < 2048) ∧
      RuntimeMap rpb totalsize (t.mem rpb m) t.root :=
  ⟨_, h.setup_eq, pdptWrites_lt, h.pdtWrites_lt, h.runtimeMap hzero⟩

/-- The runtime linked at 0xC0200000 and loaded at 0x10200000, of 192MB. -/
def relocatedRpb : PagingRpb where
  runtimePhysBase := 0x10200000
  runtimeVirtBase := 0xC0200000
  pdptBase := 0xC0300000
  pdtsBase := 0xC0301000

theorem setupRuntimePaging_maps_relocated :
    ∃ t, setupRuntimePaging relocatedRpb 0xC0200000 0x0C000000 = some t ∧
      (∀ w ∈ t.xpdpt, w.1 < 4) ∧ (∀ w ∈ t.xpdt, w.1 < 2048) ∧
      RuntimeMap relocatedRpb 0x0C000000 (t.mem relocatedRpb fun _ => 0) t.root :=
  have hloaded : Loaded relocatedRpb 0x0C000000 := by constructor <;> decide
  have hzero : ZeroPdts relocatedRpb fun _ => 0 := fun _ _ _ => rfl
  setupRuntimePaging_maps hloaded hzero

end Xmhf.Boot
