import Xmhf.Smp.Proof.Walk

/-!
# The entries that the guest walks read

The walks of the two back ends return the address in the page of the last entry they read
(`vmxWalk_eq_some_iff`). They read an entry at the host's address that the guest has it at, cut to 32 bits,
and test none.

* `lastEntry_of_inPlace`: where the host sees each entry on the processor's walk in its place, they read
  the processor's.
* `Guest.SameEntries.translate`, `translate_page`: the processor's translation depends on these entries
  alone, and on the page.
-/

namespace Xmhf.Smp.Walk

open Xmhf.Memory Xmhf.Word Xmhf.Paging

/-! ## The processor's entries -/

section
variable (g : Guest) (va : BitVec 32)

/-- Where the pointer table's entry for an address is. -/
def Guest.pdpteAddr : Nat := g.kcr3 / 2 ^ 5 * 2 ^ 5 + 8 * (va.toNat / 2 ^ 30)

/-- The pointer table's entry for an address. -/
def Guest.pdpte : BitVec 64 := load64 g.mem (g.pdpteAddr va)

/-- Where the directory's entry is. -/
def Guest.pdeAddr : Nat := entryAddr (g.pdpte va) + 8 * (va.toNat / 2 ^ 21 % 512)

/-- The directory's entry. -/
def Guest.pde : BitVec 64 := load64 g.mem (g.pdeAddr va)

/-- Where the table's entry is. -/
def Guest.pteAddr : Nat := entryAddr (g.pde va) + 8 * (va.toNat / 2 ^ 12 % 512)

/-- The table's entry. -/
def Guest.pte : BitVec 64 := load64 g.mem (g.pteAddr va)

/-- Where the directory's entry of 32-bit paging is. -/
def Guest.npdeAddr : Nat := g.kcr3 / 2 ^ 12 * 2 ^ 12 + 4 * (va.toNat / 2 ^ 22)

/-- Where the table's entry of 32-bit paging is. -/
def Guest.npteAddr : Nat := (g.npde va).toNat / 2 ^ 12 * 2 ^ 12 + 4 * (va.toNat / 2 ^ 12 % 1024)

/-- Where the entries on the processor's walk are. -/
def Guest.entries : List Nat :=
  if g.pae then
    g.pdpteAddr va :: g.pdeAddr va :: if (g.pde va).getLsbD 7 then [] else [g.pteAddr va]
  else g.npdeAddr va :: if (g.npde va).getLsbD 7 then [] else [g.npteAddr va]

/-- The size of an entry. -/
def Guest.entrySize : Nat := if g.pae then 8 else 4

/-- A byte of the entries on the walk. -/
def Guest.EntryByte (x : Nat) : Prop := ∃ a ∈ g.entries va, a ≤ x ∧ x < a + g.entrySize

instance (x : Nat) : Decidable (g.EntryByte va x) :=
  inferInstanceAs (Decidable (∃ a ∈ g.entries va, a ≤ x ∧ x < a + g.entrySize))

/-- The guest with other memory. -/
def Guest.withMem (m : Mem) : Guest := { g with mem := m }

/-- Memory in which the entries on the walk are the same. -/
def Guest.SameEntries (m : Mem) : Prop := ∀ x, g.EntryByte va x → m x = g.mem x

theorem translate_pae (hpae : g.pae) : g.translate va =
    if (g.pdpte va).getLsbD 0 then
      if (g.pde va).getLsbD 0 then
        if (g.pde va).getLsbD 7 then some (entryAddrBig (g.pde va) + va.toNat % 2 ^ 21)
        else if (g.pte va).getLsbD 0 then some (entryAddr (g.pte va) + va.toNat % 2 ^ 12)
        else none
      else none
    else none := by
  have hva := va.isLt
  have hidx : va.toNat / 2 ^ 30 % 4 = va.toNat / 2 ^ 30 := Nat.mod_eq_of_lt (by omega)
  have hpdpte : load64 g.mem ((g.cr3.setWidth 32 : BitVec 32).toNat / 32 * 32 +
      8 * (va.toNat / 2 ^ 30 % 4)) = g.pdpte va := by rw [hidx]; rfl
  have hpde : load64 g.mem (entryAddr (g.pdpte va) + 8 * (va.toNat / 2 ^ 21 % 512)) = g.pde va := rfl
  have hpte : load64 g.mem (entryAddr (g.pde va) + 8 * (va.toNat / 2 ^ 12 % 512)) = g.pte va := rfl
  rw [Guest.translate, if_pos hpae, paeWalk]
  simp only [hpdpte, hpde, hpte]
  split_ifs <;> rfl

theorem translate_npae (hpae : ¬ g.pae) : g.translate va =
    if (g.npde va).getLsbD 0 then
      if (g.npde va).getLsbD 7 then
        if (g.npde va).getLsbD 21 then none
        else some ((g.npde va).toNat / 2 ^ 13 % 2 ^ 8 * 2 ^ 32 + (g.npde va).toNat / 2 ^ 22 * 2 ^ 22 +
          va.toNat % 2 ^ 22)
      else if (g.npte va).getLsbD 0 then some ((g.npte va).toNat / 2 ^ 12 * 2 ^ 12 + va.toNat % 2 ^ 12)
      else none
    else none := by
  have hva := va.isLt
  have hidx : va.toNat / 2 ^ 22 % 1024 = va.toNat / 2 ^ 22 := Nat.mod_eq_of_lt (by omega)
  have hnpde : load32 g.mem ((g.cr3.setWidth 32 : BitVec 32).toNat / 2 ^ 12 * 2 ^ 12 +
      4 * (va.toNat / 2 ^ 22 % 1024)) = g.npde va := by rw [hidx]; rfl
  have hnpte : load32 g.mem ((g.npde va).toNat / 2 ^ 12 * 2 ^ 12 +
      4 * (va.toNat / 2 ^ 12 % 1024)) = g.npte va := rfl
  rw [Guest.translate, if_neg hpae, npaeWalk]
  simp only [hnpde, hnpte]

end

/-! ## The entries that the walks read -/

section
variable (r : Rpb) (g : Guest) (va : BitVec 32)

/-- The guest's word at `a` is the one that the host sees at its address `a`. -/
def Seen (a : Nat) : Prop := a + 4 ≤ 2 ^ 32 ∧ ∀ k < 4, r.bootMap (a + k) = some (a + k)

/-- Each entry on the processor's walk is at an address at which the host sees it. -/
def Guest.InPlace : Prop := ∀ a ∈ g.entries va, Seen r a

/-- The word at an address of the host; `none` is a page fault. -/
def Guest.word (a : Nat) : Option (BitVec 32) := Eventhub.readEntry r ⟨g.mem, []⟩ a

/-- The last entry that a walk reads, with the size of its pages as a power of two: each table is taken to
be at the host's address in bits 31:12 of the entry before. -/
def Guest.lastEntry : Option (BitVec 32 × Nat) :=
  if g.pae then do
    let pdpte ← g.word r (g.pdpteAddr va)
    let pde ← g.word r (pdpte.toNat / 2 ^ 12 * 2 ^ 12 + 8 * (va.toNat / 2 ^ 21 % 512))
    if pde.getLsbD 7 then return (pde, 21)
    else
      let pte ← g.word r (pde.toNat / 2 ^ 12 * 2 ^ 12 + 8 * (va.toNat / 2 ^ 12 % 512))
      return (pte, 12)
  else do
    let pde ← g.word r (g.npdeAddr va)
    if pde.getLsbD 7 then return (pde, 22)
    else
      let pte ← g.word r (pde.toNat / 2 ^ 12 * 2 ^ 12 + 4 * (va.toNat / 2 ^ 12 % 1024))
      return (pte, 12)

/-- The address in a page of `2 ^ k` bytes whose entry is `e`. -/
def pageAddr (e : BitVec 32) (k : Nat) : Nat := e.toNat / 2 ^ k * 2 ^ k + va.toNat % 2 ^ k

end

theorem toNat_addrOf (e : BitVec 32) : (Eventhub.addrOf e).toNat = e.toNat / 2 ^ 12 * 2 ^ 12 :=
  toNat_and_not_mask e 12

/-- An index into a table of 4KB does not leave it. -/
theorem add32_addrOf (e : BitVec 32) {i : Nat} (hi : i < 2 ^ 12) :
    add32 (Eventhub.addrOf e).toNat i = e.toNat / 2 ^ 12 * 2 ^ 12 + i := by
  have he := e.isLt
  rw [toNat_addrOf, add32_of_lt (by omega)]

theorem toNat_page2M (x v : BitVec 32) : ((x &&& ~~~0x1FFFFF) + (v &&& 0x1FFFFF)).toNat =
    x.toNat / 2 ^ 21 * 2 ^ 21 + v.toNat % 2 ^ 21 :=
  toNat_base_add_offset x v (n := 21) (by decide)

theorem eq_ofNat_pageAddr {va e x : BitVec 32} {k : Nat} (h : x.toNat = pageAddr va e k) :
    x = BitVec.ofNat 32 (pageAddr va e k) := by
  rw [← h, BitVec.ofNat_toNat, BitVec.setWidth_eq]

theorem pageAddr_lt (va e : BitVec 32) {k : Nat} (hk : k ≤ 32) : pageAddr va e k < 2 ^ 32 := by
  have hle := Nat.div_mul_le_self e.toNat (2 ^ k)
  have htop := add_two_pow_le (Nat.lt_of_le_of_lt hle e.isLt) (Nat.mul_mod_left ..) hk
  have hmod := Nat.mod_lt va.toNat (Nat.two_pow_pos k)
  rw [pageAddr]
  omega

section
variable (r : Rpb) (g : Guest) (va : BitVec 32)

theorem walkPae_eq (hpae : g.pae) : Eventhub.walkPae r ⟨g.mem, []⟩ (g.cr3.setWidth 32) va =
    (g.lastEntry r va).map fun l => BitVec.ofNat 32 (pageAddr va l.1 l.2) := by
  have hva := va.isLt
  have hroot : add32 (g.cr3.setWidth 32 &&& ~~~0x1F).toNat (8 * (va.toNat / 2 ^ 30)) = g.pdpteAddr va := by
    have haddr : (g.cr3.setWidth 32 &&& ~~~0x1F).toNat = g.kcr3 / 2 ^ 5 * 2 ^ 5 := toNat_and_not_mask _ 5
    have hlt : g.kcr3 < 2 ^ 32 := BitVec.isLt _
    rw [haddr, add32_of_lt (by omega), Guest.pdpteAddr]
  rw [Guest.lastEntry, if_pos hpae, Eventhub.walkPae]
  simp (disch := omega) only [hroot, Guest.word, Option.bind_eq_bind, Option.map_bind, add32_addrOf,
    Function.comp_def]
  refine Option.bind_congr fun pdpte _ => Option.bind_congr fun pde _ => ?_
  split
  · exact congrArg some (eq_ofNat_pageAddr (toNat_page2M pde va))
  · rw [Option.map_bind]
    exact Option.bind_congr fun pte _ => congrArg some (eq_ofNat_pageAddr (toNat_page4K pte va))

theorem walkNonPae_eq (hpae : ¬ g.pae) : Eventhub.walkNonPae r ⟨g.mem, []⟩ (g.cr3.setWidth 32) va =
    (g.lastEntry r va).map fun l => BitVec.ofNat 32 (pageAddr va l.1 l.2) := by
  have hva := va.isLt
  have hroot : add32 (Eventhub.addrOf (g.cr3.setWidth 32)).toNat (4 * (va.toNat / 2 ^ 22)) =
      g.npdeAddr va := add32_addrOf _ (by omega)
  rw [Guest.lastEntry, if_neg hpae, Eventhub.walkNonPae]
  simp (disch := omega) only [hroot, Guest.word, Option.bind_eq_bind, Option.map_bind, add32_addrOf,
    Function.comp_def]
  refine Option.bind_congr fun pde _ => ?_
  split
  · exact congrArg some (eq_ofNat_pageAddr (toNat_page4M pde va))
  · rw [Option.map_bind]
    exact Option.bind_congr fun pte _ => congrArg some (eq_ofNat_pageAddr (toNat_page4K pte va))

/-- What the walk of the VMX core returns. -/
theorem vmxWalk_eq : g.vmxWalk r va =
    (g.lastEntry r va).map fun l => BitVec.ofNat 32 (pageAddr va l.1 l.2) := by
  by_cases hpae : g.pae
  · exact (if_pos hpae).trans (walkPae_eq r g va hpae)
  · exact (if_neg hpae).trans (walkNonPae_eq r g va hpae)

end

/-! ## Tables in place -/

section
variable {r : Rpb} {g : Guest} {va : BitVec 32}

/-- Bytes that are mapped one after the other are read where they are. -/
theorem read_of_bootMap {s : Hv} {b p n : Nat} (hlt : b + n ≤ 2 ^ 32)
    (h : ∀ k < n, r.bootMap (b + k) = some (p + k)) : s.read r b n = some (readLE s.mem p n) := by
  induction n generalizing b p with
  | zero => rfl
  | succ n ih =>
    have hrest : s.read r (add32 b 1) n = some (readLE s.mem (p + 1) n) := by
      cases n with
      | zero => rfl
      | succ n =>
        rw [add32_of_lt (by omega)]
        refine ih (by omega) fun k hk => ?_
        rw [Nat.add_assoc, Nat.add_assoc, Nat.add_comm 1 k]
        exact h (k + 1) (by omega)
    have hbyte : r.bootMap b = some p := h 0 (Nat.succ_pos n)
    simp only [Hv.read, hbyte, hrest, Option.bind_eq_bind, Option.bind_some, readLE]
    rfl

theorem word_of_bootMap {b p : Nat} (hlt : b + 4 ≤ 2 ^ 32)
    (h : ∀ k < 4, r.bootMap (b + k) = some (p + k)) : g.word r b = some (load32 g.mem p) := by
  rw [Guest.word, Eventhub.readEntry, read_of_bootMap hlt h]
  rfl

theorem Seen.word {a : Nat} (h : Seen r a) : g.word r (a % 2 ^ 32) = some (load32 g.mem a) := by
  have hlt := h.1
  rw [Nat.mod_eq_of_lt (by omega)]
  exact word_of_bootMap hlt h.2

/-- The table that the low half of an entry gives. -/
theorem table_low (e : BitVec 64) {i : Nat} (hi : i < 2 ^ 12) :
    (e.setWidth 32 : BitVec 32).toNat / 2 ^ 12 * 2 ^ 12 + i = (entryAddr e + i) % 2 ^ 32 := by
  rw [BitVec.toNat_setWidth]
  unfold entryAddr
  omega

/-- The low half of an entry has an address below 4GB whole. -/
theorem entryAddr_low {e : BitVec 64} (h : entryAddr e < 2 ^ 32) :
    (e.setWidth 32 : BitVec 32).toNat / 2 ^ 12 * 2 ^ 12 = entryAddr e := by
  rw [BitVec.toNat_setWidth]
  unfold entryAddr at h ⊢
  omega

theorem entryAddrBig_low {e : BitVec 64} (h : entryAddrBig e < 2 ^ 32) :
    (e.setWidth 32 : BitVec 32).toNat / 2 ^ 21 * 2 ^ 21 = entryAddrBig e := by
  rw [BitVec.toNat_setWidth]
  unfold entryAddrBig at h ⊢
  omega

theorem pdpteAddr_low : g.pdpteAddr va % 2 ^ 32 = g.pdpteAddr va := by
  have hva := va.isLt
  have hlt : g.kcr3 < 2 ^ 32 := BitVec.isLt _
  rw [Guest.pdpteAddr]
  omega

theorem npdeAddr_low : g.npdeAddr va % 2 ^ 32 = g.npdeAddr va := by
  have hva := va.isLt
  have hlt : g.kcr3 < 2 ^ 32 := BitVec.isLt _
  rw [Guest.npdeAddr]
  omega

theorem npteAddr_low : g.npteAddr va % 2 ^ 32 = g.npteAddr va := by
  have hlt := (g.npde va).isLt
  rw [Guest.npteAddr]
  omega

/-- Where the walk of a PAE guest reads, after the pointer table's entry. -/
theorem pde_at : (load32 g.mem (g.pdpteAddr va)).toNat / 2 ^ 12 * 2 ^ 12 +
    8 * (va.toNat / 2 ^ 21 % 512) = g.pdeAddr va % 2 ^ 32 := by
  rw [← setWidth_load64]
  exact table_low _ (by omega)

theorem pte_at : (load32 g.mem (g.pdeAddr va)).toNat / 2 ^ 12 * 2 ^ 12 +
    8 * (va.toNat / 2 ^ 12 % 512) = g.pteAddr va % 2 ^ 32 := by
  rw [← setWidth_load64]
  exact table_low _ (by omega)

theorem large_low : (load32 g.mem (g.pdeAddr va)).getLsbD 7 = (g.pde va).getLsbD 7 := by
  rw [← setWidth_load64, getLsbD_low _ (by decide), Guest.pde]

theorem inPlace_pae (hpae : g.pae) : g.InPlace r va ↔ Seen r (g.pdpteAddr va) ∧ Seen r (g.pdeAddr va) ∧
    ((g.pde va).getLsbD 7 = false → Seen r (g.pteAddr va)) := by
  rw [Guest.InPlace, Guest.entries, if_pos hpae, List.forall_mem_cons, List.forall_mem_cons]
  refine and_congr_right fun _ => and_congr_right fun _ => ?_
  cases hbig : (g.pde va).getLsbD 7 <;> simp

theorem inPlace_npae (hpae : ¬ g.pae) : g.InPlace r va ↔ Seen r (g.npdeAddr va) ∧
    ((g.npde va).getLsbD 7 = false → Seen r (g.npteAddr va)) := by
  rw [Guest.InPlace, Guest.entries, if_neg hpae, List.forall_mem_cons]
  refine and_congr_right fun _ => ?_
  cases hbig : (g.npde va).getLsbD 7 <;> simp

/-- With the tables in place, the last entry that is read is the processor's. -/
theorem lastEntry_of_inPlace {addr : Nat} (h : g.InPlace r va) (htr : g.translate va = some addr)
    (hlt : addr < 2 ^ 32) : ∃ e k, g.lastEntry r va = some (e, k) ∧ pageAddr va e k = addr := by
  rw [Guest.lastEntry]
  by_cases hpae : g.pae
  · obtain ⟨hp, hd, ht⟩ := (inPlace_pae hpae).1 h
    have hp := hp.word (g := g)
    rw [pdpteAddr_low] at hp
    rw [translate_pae g va hpae] at htr
    obtain ⟨-, htr⟩ := Option.ite_none_right_eq_some.1 htr
    obtain ⟨-, htr⟩ := Option.ite_none_right_eq_some.1 htr
    simp only [if_pos hpae, hp, Option.bind_eq_bind, Option.bind_some, pde_at, hd.word, large_low]
    by_cases hbig : (g.pde va).getLsbD 7
    · rw [if_pos hbig] at htr ⊢
      refine ⟨_, _, rfl, ?_⟩
      rw [← Option.some.inj htr] at hlt ⊢
      rw [pageAddr, ← setWidth_load64]
      exact congrArg (· + _) (entryAddrBig_low (Nat.lt_of_le_of_lt (Nat.le_add_right ..) hlt))
    · rw [if_neg hbig] at htr ⊢
      obtain ⟨-, htr⟩ := Option.ite_none_right_eq_some.1 htr
      rw [pte_at, (ht (Bool.not_eq_true _ ▸ hbig)).word]
      refine ⟨_, _, rfl, ?_⟩
      rw [← Option.some.inj htr] at hlt ⊢
      rw [pageAddr, ← setWidth_load64]
      exact congrArg (· + _) (entryAddr_low (Nat.lt_of_le_of_lt (Nat.le_add_right ..) hlt))
  · obtain ⟨hd, ht⟩ := (inPlace_npae hpae).1 h
    have hd := hd.word (g := g)
    rw [npdeAddr_low] at hd
    have hde : load32 g.mem (g.npdeAddr va) = g.npde va := rfl
    rw [translate_npae g va hpae] at htr
    obtain ⟨-, htr⟩ := Option.ite_none_right_eq_some.1 htr
    simp only [if_neg hpae, hd, Option.bind_eq_bind, Option.bind_some, hde]
    by_cases hbig : (g.npde va).getLsbD 7
    · rw [if_pos hbig] at htr ⊢
      obtain ⟨-, htr⟩ := Option.ite_none_left_eq_some.1 htr
      refine ⟨_, _, rfl, ?_⟩
      rw [← Option.some.inj htr] at hlt ⊢
      rw [pageAddr]
      omega
    · rw [if_neg hbig] at htr ⊢
      obtain ⟨-, htr⟩ := Option.ite_none_right_eq_some.1 htr
      have ht := (ht (Bool.not_eq_true _ ▸ hbig)).word (g := g)
      rw [npteAddr_low] at ht
      rw [← Guest.npteAddr, ht]
      exact ⟨_, _, rfl, Option.some.inj htr⟩

/-- The sizes of pages. -/
theorem lastEntry_size {e : BitVec 32} {k : Nat} (h : g.lastEntry r va = some (e, k)) :
    k = 12 ∨ k = 21 ∨ k = 22 := by
  rw [Guest.lastEntry] at h
  split at h
  · obtain ⟨_, -, h⟩ := Option.bind_eq_some_iff.1 h
    obtain ⟨_, -, h⟩ := Option.bind_eq_some_iff.1 h
    split at h
    · cases h; exact .inr (.inl rfl)
    · obtain ⟨_, -, h⟩ := Option.bind_eq_some_iff.1 h
      cases h; exact .inl rfl
  · obtain ⟨_, -, h⟩ := Option.bind_eq_some_iff.1 h
    split at h
    · cases h; exact .inr (.inr rfl)
    · obtain ⟨_, -, h⟩ := Option.bind_eq_some_iff.1 h
      cases h; exact .inl rfl

/-- The address that the walk returns, in the page of the last entry. -/
theorem vmxWalk_eq_some_iff {p : Nat} : (∃ x, g.vmxWalk r va = some x ∧ x.toNat = p) ↔
    ∃ e k, g.lastEntry r va = some (e, k) ∧ pageAddr va e k = p := by
  have hnat {e : BitVec 32} {k : Nat} (hlast : g.lastEntry r va = some (e, k)) :
      (BitVec.ofNat 32 (pageAddr va e k)).toNat = pageAddr va e k := by
    have hk : k ≤ 32 := by rcases lastEntry_size hlast with rfl | rfl | rfl <;> decide
    rw [BitVec.toNat_ofNat, Nat.mod_eq_of_lt (pageAddr_lt va e hk)]
  rw [vmxWalk_eq]
  constructor
  · rintro ⟨x, hx, rfl⟩
    obtain ⟨⟨e, k⟩, hlast, rfl⟩ := Option.map_eq_some_iff.1 hx
    exact ⟨e, k, hlast, (hnat hlast).symm⟩
  · rintro ⟨e, k, hlast, rfl⟩
    exact ⟨_, Option.map_eq_some_iff.2 ⟨_, hlast, rfl⟩, hnat hlast⟩

end

/-! ## Guests with the same entries -/

section
variable {g : Guest} {va : BitVec 32} {m : Mem}

theorem entries_aligned {a : Nat} (ha : a ∈ g.entries va) : a % g.entrySize = 0 := by
  unfold Guest.entries at ha
  unfold Guest.entrySize
  split at ha
  · next hpae =>
    rw [if_pos hpae]
    split at ha <;>
    · simp only [List.mem_cons, List.not_mem_nil, or_false, Guest.pdpteAddr, Guest.pdeAddr,
        Guest.pteAddr, entryAddr] at ha
      omega
  · next hpae =>
    rw [if_neg hpae]
    split at ha <;>
    · simp only [List.mem_cons, List.not_mem_nil, or_false, Guest.npdeAddr, Guest.npteAddr] at ha
      omega

theorem entrySize_eq : g.entrySize = 4 ∨ g.entrySize = 8 := by
  unfold Guest.entrySize
  split
  · exact .inr rfl
  · exact .inl rfl

theorem length_entries : (g.entries va).length ≤ 3 := by
  unfold Guest.entries
  split <;> split <;> simp

theorem pdpteAddr_mem (hpae : g.pae) : g.pdpteAddr va ∈ g.entries va := by
  rw [Guest.entries, if_pos hpae]
  exact List.mem_cons_self

theorem pdeAddr_mem (hpae : g.pae) : g.pdeAddr va ∈ g.entries va := by
  rw [Guest.entries, if_pos hpae]
  exact List.mem_cons_of_mem _ List.mem_cons_self

theorem pteAddr_mem (hpae : g.pae) (hbig : (g.pde va).getLsbD 7 = false) :
    g.pteAddr va ∈ g.entries va := by
  rw [Guest.entries, if_pos hpae, hbig]
  exact List.mem_cons_of_mem _ (List.mem_cons_of_mem _ List.mem_cons_self)

theorem npdeAddr_mem (hpae : ¬ g.pae) : g.npdeAddr va ∈ g.entries va := by
  rw [Guest.entries, if_neg hpae]
  exact List.mem_cons_self

theorem npteAddr_mem (hpae : ¬ g.pae) (hbig : (g.npde va).getLsbD 7 = false) :
    g.npteAddr va ∈ g.entries va := by
  rw [Guest.entries, if_neg hpae, hbig]
  exact List.mem_cons_of_mem _ List.mem_cons_self

/-- The bytes of an entry are in one page. -/
theorem Guest.EntryByte.page {x : Nat} (h : g.EntryByte va x) : ∃ a ∈ g.entries va, x / 2 ^ 12 = a / 2 ^ 12 := by
  obtain ⟨a, ha, h1, h2⟩ := h
  have haligned := entries_aligned ha
  refine ⟨a, ha, ?_⟩
  rcases entrySize_eq (g := g) with hsize | hsize <;>
  · rw [hsize] at haligned h2
    omega

theorem Guest.SameEntries.load64 (h : g.SameEntries va m) (hpae : g.pae) {a : Nat} (ha : a ∈ g.entries va) :
    load64 m a = load64 g.mem a :=
  load64_congr fun x h1 h2 => h x ⟨a, ha, h1, by rwa [Guest.entrySize, if_pos hpae]⟩

theorem Guest.SameEntries.load32 (h : g.SameEntries va m) {a : Nat} (ha : a ∈ g.entries va) :
    load32 m a = load32 g.mem a := by
  rw [Memory.load32, Memory.load32]
  congr 1
  refine readLE_congr fun x h1 h2 => h x ⟨a, ha, h1, Nat.lt_of_lt_of_le h2 ?_⟩
  rcases entrySize_eq (g := g) with hsize | hsize <;> omega

theorem Guest.SameEntries.pdpte (h : g.SameEntries va m) (hpae : g.pae) :
    (g.withMem m).pdpte va = g.pdpte va :=
  h.load64 hpae (pdpteAddr_mem hpae)

theorem Guest.SameEntries.pdeAddr (h : g.SameEntries va m) (hpae : g.pae) :
    (g.withMem m).pdeAddr va = g.pdeAddr va := by
  rw [Guest.pdeAddr, h.pdpte hpae, Guest.pdeAddr]

theorem Guest.SameEntries.pde (h : g.SameEntries va m) (hpae : g.pae) : (g.withMem m).pde va = g.pde va := by
  rw [Guest.pde, h.pdeAddr hpae]
  exact h.load64 hpae (pdeAddr_mem hpae)

theorem Guest.SameEntries.pteAddr (h : g.SameEntries va m) (hpae : g.pae) :
    (g.withMem m).pteAddr va = g.pteAddr va := by
  rw [Guest.pteAddr, h.pde hpae, Guest.pteAddr]

theorem Guest.SameEntries.pte (h : g.SameEntries va m) (hpae : g.pae) (hbig : ¬ (g.pde va).getLsbD 7) :
    (g.withMem m).pte va = g.pte va := by
  rw [Guest.pte, h.pteAddr hpae]
  exact h.load64 hpae (pteAddr_mem hpae (eq_false_of_ne_true hbig))

theorem Guest.SameEntries.npde (h : g.SameEntries va m) (hpae : ¬ g.pae) :
    (g.withMem m).npde va = g.npde va :=
  h.load32 (npdeAddr_mem hpae)

theorem Guest.SameEntries.npteAddr (h : g.SameEntries va m) (hpae : ¬ g.pae) :
    (g.withMem m).npteAddr va = g.npteAddr va := by
  rw [Guest.npteAddr, h.npde hpae, Guest.npteAddr]

theorem Guest.SameEntries.npte (h : g.SameEntries va m) (hpae : ¬ g.pae) (hbig : ¬ (g.npde va).getLsbD 7) :
    (g.withMem m).npte va = g.npte va :=
  (congrArg (Memory.load32 m) (h.npteAddr hpae)).trans
    (h.load32 (npteAddr_mem hpae (eq_false_of_ne_true hbig)))

/-- Guests with the same entries have the same walk. -/
theorem Guest.SameEntries.entries (h : g.SameEntries va m) : (g.withMem m).entries va = g.entries va := by
  rw [Guest.entries, Guest.entries]
  by_cases hpae : g.pae
  · rw [if_pos hpae, if_pos (show (g.withMem m).pae from hpae), h.pdeAddr hpae, h.pde hpae, h.pteAddr hpae]
    rfl
  · rw [if_neg hpae, if_neg (show ¬ (g.withMem m).pae from hpae), h.npde hpae, h.npteAddr hpae]
    rfl

/-- and the same translation. -/
theorem Guest.SameEntries.translate (h : g.SameEntries va m) : (g.withMem m).translate va = g.translate va := by
  by_cases hpae : g.pae
  · rw [translate_pae _ va (show (g.withMem m).pae from hpae), translate_pae g va hpae, h.pdpte hpae,
      h.pde hpae]
    by_cases hbig : (g.pde va).getLsbD 7
    · simp only [if_pos hbig]
    · simp only [if_neg hbig, h.pte hpae hbig]
  · rw [translate_npae _ va (show ¬ (g.withMem m).pae from hpae), translate_npae g va hpae, h.npde hpae]
    by_cases hbig : (g.npde va).getLsbD 7
    · simp only [if_pos hbig]
    · simp only [if_neg hbig, h.npte hpae hbig]

variable {va' : BitVec 32} (hpage : va'.toNat / 2 ^ 12 = va.toNat / 2 ^ 12)
include hpage

theorem pdpteAddr_page : g.pdpteAddr va' = g.pdpteAddr va := by
  rw [Guest.pdpteAddr, show va'.toNat / 2 ^ 30 = va.toNat / 2 ^ 30 by omega, Guest.pdpteAddr]

theorem pdeAddr_page : g.pdeAddr va' = g.pdeAddr va := by
  rw [Guest.pdeAddr, Guest.pdpte, pdpteAddr_page hpage,
    show va'.toNat / 2 ^ 21 = va.toNat / 2 ^ 21 by omega, Guest.pdeAddr, Guest.pdpte]

theorem pde_page : g.pde va' = g.pde va := by
  rw [Guest.pde, pdeAddr_page hpage, Guest.pde]

theorem pteAddr_page : g.pteAddr va' = g.pteAddr va := by
  rw [Guest.pteAddr, pde_page hpage, hpage, Guest.pteAddr]

theorem npdeAddr_page : g.npdeAddr va' = g.npdeAddr va := by
  rw [Guest.npdeAddr, show va'.toNat / 2 ^ 22 = va.toNat / 2 ^ 22 by omega, Guest.npdeAddr]

theorem npde_page : g.npde va' = g.npde va := congrArg (load32 g.mem) (npdeAddr_page hpage)

theorem npteAddr_page : g.npteAddr va' = g.npteAddr va := by
  rw [Guest.npteAddr, npde_page hpage, hpage, Guest.npteAddr]

/-- The addresses of a page have one walk. -/
theorem entries_page : g.entries va' = g.entries va := by
  rw [Guest.entries, Guest.entries, pdpteAddr_page hpage, pdeAddr_page hpage, pde_page hpage,
    pteAddr_page hpage, npdeAddr_page hpage, npde_page hpage, npteAddr_page hpage]

theorem translate_page {addr : Nat} (h : g.translate va = some addr) :
    g.translate va' = some (addr / 2 ^ 12 * 2 ^ 12 + va'.toNat % 2 ^ 12) := by
  by_cases hpae : g.pae
  · rw [translate_pae g _ hpae] at h ⊢
    rw [Guest.pdpte, pdpteAddr_page hpage, ← Guest.pdpte, pde_page hpage, Guest.pte, pteAddr_page hpage,
      ← Guest.pte]
    obtain ⟨hp, h⟩ := Option.ite_none_right_eq_some.1 h
    obtain ⟨hd, h⟩ := Option.ite_none_right_eq_some.1 h
    rw [if_pos hp, if_pos hd]
    by_cases hbig : (g.pde va).getLsbD 7
    · rw [if_pos hbig] at h ⊢
      rw [← Option.some.inj h, entryAddrBig]
      exact congrArg some (by omega)
    · rw [if_neg hbig] at h ⊢
      obtain ⟨ht, h⟩ := Option.ite_none_right_eq_some.1 h
      rw [if_pos ht, ← Option.some.inj h, entryAddr]
      exact congrArg some (by omega)
  · have hpte : g.npte va' = g.npte va := congrArg (load32 g.mem) (npteAddr_page hpage)
    rw [translate_npae g _ hpae] at h ⊢
    rw [npde_page hpage, hpte]
    obtain ⟨hd, h⟩ := Option.ite_none_right_eq_some.1 h
    rw [if_pos hd]
    by_cases hbig : (g.npde va).getLsbD 7
    · rw [if_pos hbig] at h ⊢
      obtain ⟨hrsv, h⟩ := Option.ite_none_left_eq_some.1 h
      rw [if_neg hrsv, ← Option.some.inj h]
      exact congrArg some (by omega)
    · rw [if_neg hbig] at h ⊢
      obtain ⟨ht, h⟩ := Option.ite_none_right_eq_some.1 h
      rw [if_pos ht, ← Option.some.inj h]
      exact congrArg some (by omega)

end

end Xmhf.Smp.Walk
