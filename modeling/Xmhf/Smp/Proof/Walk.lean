import Xmhf.Smp.Walk

/-!
# What the guest walks return

Without PAE the walks follow `Guest.npde` and `Guest.npte` and test neither, so each returns the frame of
the last of them with the offset in the page.

* `walkPagetables_hostView`: what the core's walk returns through the runtime's page table is what
  `walkPagetables` returns on the host's view of memory.
* `gva2gpa_eq_walkPagetables_iff`: the copies agree with the walk but for 4MB pages with attributes in the
  bits 21:12 of their entry.
-/

namespace Xmhf.Smp.Walk

open Xmhf.Memory Xmhf.Word Xmhf.Paging Xmhf.Hypapp

/-! ## The entries on the way -/

section
variable (g : Guest) (va : BitVec 32)

/-- The low half of `CR3`. -/
def Guest.kcr3 : Nat := (g.cr3.setWidth 32 : BitVec 32).toNat

/-- The directory's entry of 32-bit paging. -/
def Guest.npde : BitVec 32 := load32 g.mem (g.kcr3 / 2 ^ 12 * 2 ^ 12 + 4 * (va.toNat / 2 ^ 22))

/-- The table's entry of 32-bit paging. -/
def Guest.npte : BitVec 32 :=
  load32 g.mem ((g.npde va).toNat / 2 ^ 12 * 2 ^ 12 + 4 * (va.toNat / 2 ^ 12 % 1024))

end

/-! ## The value returned -/

theorem toNat_add_wide (a b : BitVec 32) :
    (a.setWidth 64 + b.setWidth 64 : BitVec 64).toNat = a.toNat + b.toNat := by
  have ha := a.isLt
  have hb := b.isLt
  rw [BitVec.toNat_add, BitVec.toNat_setWidth, BitVec.toNat_setWidth]
  omega

theorem toNat_and_low {v c : BitVec 32} {n : Nat} (hn : n < 32) (hc : c = BitVec.ofNat 32 (2 ^ n - 1)) :
    (v &&& c).toNat = v.toNat % 2 ^ n :=
  hc ▸ toNat_and_mask v hn

theorem toNat_page4K (x v : BitVec 32) : ((x &&& ~~~0xFFF) + (v &&& 0xFFF)).toNat =
    x.toNat / 2 ^ 12 * 2 ^ 12 + v.toNat % 2 ^ 12 :=
  toNat_base_add_offset x v (n := 12) (by decide)

theorem toNat_page4M (x v : BitVec 32) : ((x &&& ~~~0x3FFFFF) + (v &&& 0x3FFFFF)).toNat =
    x.toNat / 2 ^ 22 * 2 ^ 22 + v.toNat % 2 ^ 22 :=
  toNat_base_add_offset x v (n := 22) (by decide)

theorem toNat_npaeGetAddr (e : BitVec 32) : (npaeGetAddr e).toNat = e.toNat / 2 ^ 12 * 2 ^ 12 :=
  toNat_and_not_mask e 12

/-- A page of `2 ^ k` bytes does not go past 4GB. -/
theorem add_two_pow_le {a k : Nat} (ha : a < 2 ^ 32) (hmod : a % 2 ^ k = 0) (hk : k ≤ 32) : a + 2 ^ k ≤ 2 ^ 32 := by
  obtain ⟨b, hb⟩ : 2 ^ k ∣ 2 ^ 32 := Nat.pow_dvd_pow 2 hk
  obtain ⟨c, rfl⟩ := Nat.dvd_of_mod_eq_zero hmod
  have hc : c < b := Nat.lt_of_mul_lt_mul_left (hb ▸ ha)
  calc 2 ^ k * c + 2 ^ k = 2 ^ k * (c + 1) := (Nat.mul_succ ..).symm
    _ ≤ 2 ^ k * b := Nat.mul_le_mul_left _ hc
    _ = 2 ^ 32 := hb.symm

theorem getLsbD_low (e : BitVec 64) {i : Nat} (hi : i < 32) :
    (e.setWidth 32 : BitVec 32).getLsbD i = e.getLsbD i := by
  rw [BitVec.getLsbD_setWidth, decide_eq_true hi, Bool.true_and]

section
variable (g : Guest) (va : BitVec 32)

theorem toNat_npaeWalkPagetables : (npaeWalkPagetables g.mem (g.cr3.setWidth 32) va).toNat =
    if (g.npde va).getLsbD 7 then (g.npde va).toNat / 2 ^ 22 * 2 ^ 22 + va.toNat % 2 ^ 22
    else (g.npte va).toNat / 2 ^ 12 * 2 ^ 12 + va.toNat % 2 ^ 12 := by
  have hnpde : load32 g.mem ((g.cr3.setWidth 32 : BitVec 32).toNat / 2 ^ 12 * 2 ^ 12 +
      4 * (va.toNat / 2 ^ 22)) = g.npde va := rfl
  have hnpte : load32 g.mem ((g.npde va).toNat / 2 ^ 12 * 2 ^ 12 +
      4 * (va.toNat / 2 ^ 12 % 1024)) = g.npte va := rfl
  unfold npaeWalkPagetables
  simp only [toNat_npaeGetAddr, hnpde, hnpte, setWidth_add_setWidth]
  split
  · rw [npaeGetAddrFromPdeBig, toNat_page4M]
  · rw [npaeGetAddr, toNat_page4K]

end

/-! ## The host's view -/

theorem setWidth_load64 (m : Mem) (a : Nat) : (load64 m a).setWidth 32 = load32 m a := by
  apply BitVec.eq_of_toNat_eq
  rw [BitVec.toNat_setWidth, load64, load32, BitVec.toNat_ofNat, BitVec.toNat_ofNat,
    readLE_add m a 4 4]
  omega

theorem paeGetAddr_low (e : BitVec 32) :
    (paeGetAddr (e.setWidth 64)).setWidth 32 = Eventhub.addrOf e := by
  rw [paeGetAddr, BitVec.setWidth_and, BitVec.setWidth_setWidth_of_le _ (by decide), BitVec.setWidth_eq]
  rfl

theorem paeGetAddrFromPdeBig_low (e : BitVec 32) :
    (paeGetAddrFromPdeBig (e.setWidth 64)).setWidth 32 = e &&& ~~~0x1FFFFF := by
  rw [paeGetAddrFromPdeBig, BitVec.setWidth_and, BitVec.setWidth_setWidth_of_le _ (by decide),
    BitVec.setWidth_eq]
  rfl

theorem setWidth_add_low (a : BitVec 64) (b : BitVec 32) :
    (a + b.setWidth 64).setWidth 32 = a.setWidth 32 + b := by
  rw [BitVec.setWidth_add _ _ (by decide), BitVec.setWidth_setWidth_of_le _ (by decide),
    BitVec.setWidth_eq]

section
variable {r : Rpb} {s : Hv}

/-- The bytes read at an address of the host are those of its view. -/
theorem read_hostView {va n x : Nat} (h : s.read r va n = some x) (hva : va + n ≤ 2 ^ 32) :
    readLE (hostView r.bootMap s.mem) va n = x := by
  induction n generalizing va x with
  | zero => exact Option.some.inj h
  | succ n ih =>
    obtain ⟨pa, hpa, h⟩ := Option.bind_eq_some_iff.1 h
    obtain ⟨rest, hrest, h⟩ := Option.bind_eq_some_iff.1 h
    cases h
    have hbyte : hostView r.bootMap s.mem va = s.mem pa := by
      rw [hostView, hpa]
      rfl
    rw [readLE, hbyte]
    cases n with
    | zero => cases hrest; rfl
    | succ n =>
      rw [add32_of_lt (by omega)] at hrest
      rw [ih hrest (by omega)]

/-- A `u32` of a table that starts at an address with its low `k` bits clear. -/
theorem readEntry_hostView {a i k : Nat} {e : BitVec 32} (ha : a < 2 ^ 32) (hmod : a % 2 ^ k = 0)
    (hk : k ≤ 32) (hi : i + 4 ≤ 2 ^ k) (h : Eventhub.readEntry r s (add32 a i) = some e) :
    load32 (hostView r.bootMap s.mem) (a + i) = e := by
  have htop := add_two_pow_le ha hmod hk
  have hlt : a + i + 4 ≤ 2 ^ 32 := by omega
  rw [add32_of_lt (by omega)] at h
  obtain ⟨x, hx, rfl⟩ := Option.map_eq_some_iff.1 h
  rw [load32, read_hostView hx hlt]

/-- A `u32` of the table that the low half of an entry gives. -/
theorem readEntry_addrOf {t e : BitVec 32} {i : Nat} (hi : i + 4 ≤ 2 ^ 12)
    (h : Eventhub.readEntry r s (add32 (Eventhub.addrOf t).toNat i) = some e) :
    load32 (hostView r.bootMap s.mem) ((Eventhub.addrOf t).toNat + i) = e := by
  have haddr : (Eventhub.addrOf t).toNat = t.toNat / 2 ^ 12 * 2 ^ 12 := toNat_and_not_mask t 12
  have hmod : (Eventhub.addrOf t).toNat % 2 ^ 12 = 0 := haddr ▸ Nat.mul_mod_left ..
  exact readEntry_hostView (BitVec.isLt _) hmod (by decide) hi h

variable {va x : BitVec 32}

theorem walkPae_hostView {cr3 : BitVec 32} (h : Eventhub.walkPae r s cr3 va = some x) :
    paeWalkPagetables (hostView r.bootMap s.mem) cr3 va = x := by
  have hva := va.isLt
  obtain ⟨pdpte, hpdpte, h⟩ := Option.bind_eq_some_iff.1 h
  obtain ⟨pde, hpde, h⟩ := Option.bind_eq_some_iff.1 h
  have haddr : (cr3 &&& ~~~0x1F).toNat = cr3.toNat / 2 ^ 5 * 2 ^ 5 := toNat_and_not_mask cr3 5
  have hroot : (cr3 &&& ~~~0x1F).toNat % 2 ^ 5 = 0 := haddr ▸ Nat.mul_mod_left ..
  have hpdpte := readEntry_hostView (BitVec.isLt _) hroot (by decide) (by omega) hpdpte
  have hpde := readEntry_addrOf (by omega) hpde
  unfold paeWalkPagetables paeGetAddrFrom32bitCr3
  simp only [setWidth_load64, paeGetAddr_low, setWidth_add_low, hpdpte, hpde]
  by_cases hbig : pde.getLsbD 7
  · rw [if_pos hbig] at h ⊢
    rw [paeGetAddrFromPdeBig_low]
    exact Option.some.inj h
  · rw [if_neg hbig] at h ⊢
    obtain ⟨pte, hpte, h⟩ := Option.bind_eq_some_iff.1 h
    rw [readEntry_addrOf (by omega) hpte]
    exact Option.some.inj h

theorem walkNonPae_hostView {cr3 : BitVec 32} (h : Eventhub.walkNonPae r s cr3 va = some x) :
    npaeWalkPagetables (hostView r.bootMap s.mem) cr3 va = x := by
  have hva := va.isLt
  obtain ⟨pde, hpde, h⟩ := Option.bind_eq_some_iff.1 h
  have hpde := readEntry_addrOf (by omega) hpde
  unfold npaeWalkPagetables
  change load32 _ ((npaeGetAddr cr3).toNat + _) = _ at hpde
  simp only [setWidth_add_setWidth, hpde]
  by_cases hbig : pde.getLsbD 7
  · rw [if_pos hbig] at h ⊢
    exact Option.some.inj h
  · rw [if_neg hbig] at h ⊢
    obtain ⟨pte, hpte, h⟩ := Option.bind_eq_some_iff.1 h
    have hpte := readEntry_addrOf (by omega) hpte
    change load32 _ ((npaeGetAddr pde).toNat + _) = _ at hpte
    rw [hpte]
    exact Option.some.inj h

/-- **What the walk returns** on the runtime's page table is what it returns on the host's view. -/
theorem walkPagetables_hostView {v : Eventhub.Vmcs} (h : Eventhub.walkPagetables r s v va = some x) :
    (Vmcs.mk v.guestCR3 v.guestCR4).walkPagetables (hostView r.bootMap s.mem) va = x := by
  rw [Vmcs.walkPagetables, walkPagetables, getLsbD_low _ (show cr4PAE < 32 by decide), cr4PAE]
  rw [Eventhub.walkPagetables] at h
  split at h
  · next hpae => rw [if_pos hpae, walkPae_hostView h]
  · next hpae => rw [if_neg hpae, walkNonPae_hostView h]

end

section
variable (g : Guest) (va : BitVec 32)

/-! ## The copies -/

theorem toNat_gva2gpaOf : (gva2gpaOf g.mem (g.cr3.setWidth 32) va).toNat =
    if (g.npde va).getLsbD 7 then (g.npde va).toNat / 2 ^ 12 * 2 ^ 12 + va.toNat % 2 ^ 22
    else (g.npte va).toNat / 2 ^ 12 * 2 ^ 12 + va.toNat % 2 ^ 12 := by
  have hnpde : load32 g.mem ((g.cr3.setWidth 32 : BitVec 32).toNat / 2 ^ 12 * 2 ^ 12 +
      4 * (va.toNat / 2 ^ 22)) = g.npde va := rfl
  have hnpte : load32 g.mem ((g.npde va).toNat / 2 ^ 12 * 2 ^ 12 +
      4 * (va.toNat / 2 ^ 12 % 1024)) = g.npte va := rfl
  unfold gva2gpaOf
  simp only [toNat_npaeGetAddr, hnpde, hnpte]
  split
  · rw [toNat_add_wide, toNat_npaeGetAddr, toNat_and_low (n := 22) (by decide) (by decide)]
  · rw [toNat_add_wide, toNat_npaeGetAddr, toNat_and_low (n := 12) (by decide) (by decide)]

/-- The two copies return the same 32-bit value as the walk. -/
def Guest.CopiesAgree : Prop :=
  (g.vmcs.gva2gpa g.mem va).setWidth 32 = g.vmcs.walkPagetables g.mem va ∧
    (g.vmcs.gva2gpa2 g.mem va).setWidth 32 = g.vmcs.walkPagetables g.mem va

/-- **The copies agree exactly** where the entry of a 4MB page has no bits between its flags and the
address of the page: their mask for it is that of a 4KB page. -/
theorem gva2gpa_eq_walkPagetables_iff (hpae : g.pae = false) : g.CopiesAgree va ↔
    ((g.npde va).getLsbD 7 → (g.npde va).toNat / 2 ^ 12 % 2 ^ 10 = 0) := by
  have hwalk := toNat_npaeWalkPagetables g va
  have hcopy := toNat_gva2gpaOf g va
  have hboth : g.CopiesAgree va ↔ (gva2gpaOf g.mem (g.cr3.setWidth 32) va).toNat % 2 ^ 32 =
      (npaeWalkPagetables g.mem (g.cr3.setWidth 32) va).toNat := by
    have hnpae : g.vmcs.walkPagetables g.mem va = npaeWalkPagetables g.mem (g.cr3.setWidth 32) va := by
      rw [Vmcs.walkPagetables, walkPagetables, getLsbD_low _ (show cr4PAE < 32 by decide)]
      exact if_neg (Bool.eq_false_iff.1 hpae)
    rw [← BitVec.toNat_setWidth, ← BitVec.toNat_eq, Guest.CopiesAgree, hnpae]
    exact and_self_iff
  rw [hboth, hwalk, hcopy]
  have hnpde := (g.npde va).isLt
  have hnpte := (g.npte va).isLt
  by_cases hbig : (g.npde va).getLsbD 7
  · rw [if_pos hbig, if_pos hbig, forall_prop_of_true hbig]
    omega
  · rw [if_neg hbig, if_neg hbig, iff_true_right fun h => absurd h hbig]
    omega

end

/-- A guest without PAE whose directory, at 0x1000, gives the first 4MB a table, at 0x2000, with page 0 in
frame 3, and maps the next 4MB by a page at 0x800000. -/
def pagedGuest : Guest where
  mem := fun a =>
    if a = 0x1000 then 0x07 else if a = 0x1001 then 0x20
    else if a = 0x1004 then 0x87 else if a = 0x1006 then 0x80
    else if a = 0x2000 then 0x07 else if a = 0x2001 then 0x30 else 0
  cr3 := 0x1000
  cr4 := 0

/-- In a page of 4KB and in one of 4MB the copies agree. -/
theorem gva2gpa_eq_walkPagetables_iff_paged :
    pagedGuest.CopiesAgree 0x123 ∧ pagedGuest.CopiesAgree 0x401234 :=
  ⟨(gva2gpa_eq_walkPagetables_iff pagedGuest 0x123 rfl).2 (by decide),
    (gva2gpa_eq_walkPagetables_iff pagedGuest 0x401234 rfl).2 (by decide)⟩

/-- A guest without PAE whose first directory entry maps 4MB at 0, with bit 12 set, which is an attribute
(PAT) of a 4MB page. -/
def patGuest : Guest where
  mem := fun a => if a = 0 then 0x81 else if a = 1 then 0x10 else 0
  cr3 := 0
  cr4 := 0

/-- The copies do not always agree with the walk: the one gives 0x1000, the other 0. -/
theorem copiesAgree_not : ¬ ∀ (g : Guest) (va : BitVec 32), g.pae = false → g.CopiesAgree va :=
  fun h => absurd (h patGuest 0 rfl).1 (by decide)

end Xmhf.Smp.Walk
