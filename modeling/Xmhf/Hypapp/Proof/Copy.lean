import Xmhf.Hypapp.Copy
import Xmhf.Hypapp.Proof.Collect
import Xmhf.Smp.Proof.Walk

/-!
# What a copy from the guest holds

`gva2gpa` is a frame with the offset in the page (`gva2gpa_eq_gvaFrame`), and the host's page table keeps
the offset as well (`tlb_page`). So the bytes copied for page `k` of the range are those of the host's page
that comes `k` pages after the first frame's.

* `copyExact_iff`: the copy is right, whatever is in memory beside the guest's page tables, just when the
  host has each of these pages mapped to the frame of page `k` (`Call.Follows`), but for bytes of the page
  tables themselves (`Call.AmongTables`).
* `follows_iff`: where the host's page is mapped to itself, the frames are to follow each other.
* `copyExact_of_page`: a range in one page that the host has mapped to itself is copied right.
* `copyProcMap_eq_copy`, `gva2gpa_hostView`: the copies of the hypercall, and `gva2gpa` as the other walks
  have it.
-/

namespace Xmhf.Hypapp

open Xmhf.Memory Xmhf.Word Xmhf.Paging Xmhf.Smp.Walk

section
variable {r : Rpb} {c : Call r} {m m' : Mem} {va len : BitVec 32}

/-! ## The host's page table -/

/-- A page of the host is mapped as a whole. -/
theorem tlb_page (c : Call r) (p : Nat) {o : Nat} (ho : o < 2 ^ 12) :
    c.tlb (p * 2 ^ 12 + o) = (c.tlb (p * 2 ^ 12)).map (· + o) := by
  have h30 : (p * 2 ^ 12 + o) / 2 ^ 30 = p * 2 ^ 12 / 2 ^ 30 := by omega
  have h21 : (p * 2 ^ 12 + o) / 2 ^ 21 = p * 2 ^ 12 / 2 ^ 21 := by omega
  have h12 : (p * 2 ^ 12 + o) / 2 ^ 12 = p * 2 ^ 12 / 2 ^ 12 := by omega
  have hbig : (p * 2 ^ 12 + o) % 2 ^ 21 = p * 2 ^ 12 % 2 ^ 21 + o := by omega
  have hsmall : (p * 2 ^ 12 + o) % 2 ^ 12 = p * 2 ^ 12 % 2 ^ 12 + o := by omega
  unfold Call.tlb paeWalk
  simp only [h30, h21, h12, hbig, hsmall]
  split_ifs <;> simp [Nat.add_assoc]

/-! ## `memcpy` -/

/-- What `memcpy` has copied. -/
theorem memcpy_eq_some {dst buf : Nat → BitVec 8} {src n : Nat} (h : c.memcpy m dst src n = some buf) :
    ∀ i < n, ∃ a, c.tlb (add32 src i) = some a ∧ buf i = m a := by
  induction n generalizing buf with
  | zero => exact fun i hi => absurd hi (Nat.not_lt_zero i)
  | succ n ih =>
    obtain ⟨b, hb, h⟩ := Option.bind_eq_some_iff.1 h
    obtain ⟨a, ha, h⟩ := Option.bind_eq_some_iff.1 h
    cases h
    intro i hi
    rcases Nat.lt_succ_iff_lt_or_eq.1 hi with hlt | rfl
    · obtain ⟨a', ha', hbyte⟩ := ih hb i hlt
      exact ⟨a', ha', (Function.update_of_ne (Nat.ne_of_lt hlt) ..).trans hbyte⟩
    · exact ⟨a, ha, Function.update_self ..⟩

/-- `memcpy` does not fault where every byte of the source is mapped. -/
theorem exists_memcpy {src n : Nat} (h : ∀ i < n, (c.tlb (add32 src i)).isSome)
    (dst : Nat → BitVec 8) : ∃ buf, c.memcpy m dst src n = some buf := by
  induction n with
  | zero => exact ⟨dst, rfl⟩
  | succ n ih =>
    obtain ⟨buf, hbuf⟩ := ih fun i hi => h i (Nat.lt_succ_of_lt hi)
    obtain ⟨a, ha⟩ := Option.isSome_iff_exists.1 (h n (Nat.lt_succ_self n))
    exact ⟨Function.update buf n (m a), by rw [Call.memcpy, hbuf]; simp [ha]⟩

/-! ## Frames -/

/-- The frame that `gva2gpa` finds for an address. -/
def Call.gvaFrame (c : Call r) (m : Mem) (va : BitVec 32) : Option Nat :=
  (c.gva2gpa m va).map (·.toNat / 2 ^ 12)

/-- `gva2gpa` by the frames of the last entry. -/
theorem gva2gpa_toNat : (c.gva2gpa m va).map BitVec.toNat =
    (c.read32 m ((npaeGetAddr c.guestCr3).toNat + 4 * (va.toNat / 2 ^ 22))).bind fun pde =>
      if pde.getLsbD 7 then some ((pde.toNat / 2 ^ 12 + va.toNat / 2 ^ 12 % 2 ^ 10) * 2 ^ 12 + va.toNat % 2 ^ 12)
      else (c.read32 m ((npaeGetAddr pde).toNat + 4 * (va.toNat / 2 ^ 12 % 1024))).map fun pte =>
        pte.toNat / 2 ^ 12 * 2 ^ 12 + va.toNat % 2 ^ 12 := by
  rw [Call.gva2gpa, Option.bind_eq_bind, Option.map_bind]
  refine Option.bind_congr fun pde _ => ?_
  rw [Function.comp_apply]
  split
  · rw [Option.map_some, toNat_add_wide, toNat_npaeGetAddr, toNat_and_low (n := 22) (by decide) (by decide)]
    exact congrArg some (by omega)
  · rw [Option.map_bind, Option.map_eq_bind]
    refine Option.bind_congr fun pte _ => ?_
    rw [Function.comp_apply, Option.map_some, toNat_add_wide, toNat_npaeGetAddr,
      toNat_and_low (n := 12) (by decide) (by decide), Function.comp_apply]

theorem gvaFrame_eq : c.gvaFrame m va =
    (c.read32 m ((npaeGetAddr c.guestCr3).toNat + 4 * (va.toNat / 2 ^ 22))).bind fun pde =>
      if pde.getLsbD 7 then some (pde.toNat / 2 ^ 12 + va.toNat / 2 ^ 12 % 2 ^ 10)
      else (c.read32 m ((npaeGetAddr pde).toNat + 4 * (va.toNat / 2 ^ 12 % 1024))).map fun pte =>
        pte.toNat / 2 ^ 12 := by
  have hdiv (x : Nat) : (x * 2 ^ 12 + va.toNat % 2 ^ 12) / 2 ^ 12 = x := by omega
  have hmap : c.gvaFrame m va = ((c.gva2gpa m va).map BitVec.toNat).map (· / 2 ^ 12) := by
    rw [Option.map_map]
    rfl
  rw [hmap, gva2gpa_toNat, Option.map_bind]
  refine Option.bind_congr fun pde _ => ?_
  rw [Function.comp_apply]
  split
  · exact congrArg some (hdiv _)
  · rw [Option.map_map]
    exact congrArg (Option.map · _) (funext fun pte => hdiv _)

/-- The addresses of a page have one frame. -/
theorem gvaFrame_congr {va' : BitVec 32} (h : va.toNat / 2 ^ 12 = va'.toNat / 2 ^ 12) :
    c.gvaFrame m va = c.gvaFrame m va' := by
  have hpd : va.toNat / 2 ^ 22 = va'.toNat / 2 ^ 22 := by omega
  rw [gvaFrame_eq, gvaFrame_eq, hpd, h]

/-- `gva2gpa` keeps the offset in the page. -/
theorem gva2gpa_offset {p : BitVec 64} (h : c.gva2gpa m va = some p) :
    p.toNat % 2 ^ 12 = va.toNat % 2 ^ 12 := by
  have hp : (c.gva2gpa m va).map BitVec.toNat = _ := gva2gpa_toNat
  rw [h] at hp
  obtain ⟨pde, -, hp⟩ := Option.bind_eq_some_iff.1 hp.symm
  split at hp
  · have := Option.some.inj hp
    omega
  · obtain ⟨pte, -, hp⟩ := Option.map_eq_some_iff.1 hp
    omega

theorem gva2gpa_eq_gvaFrame {p : BitVec 64} (h : c.gva2gpa m va = some p) :
    c.gvaFrame m va = some (p.toNat / 2 ^ 12) ∧
      p.toNat = p.toNat / 2 ^ 12 * 2 ^ 12 + va.toNat % 2 ^ 12 := by
  have hoff := gva2gpa_offset h
  refine ⟨by rw [Call.gvaFrame, h]; rfl, by omega⟩

/-- The entries by which an address is translated are all that `gva2gpa` reads. -/
theorem gva2gpa_congr (h : ∀ a, c.TableByte m va a → m' a = m a) : c.gva2gpa m' va = c.gva2gpa m va := by
  have hword {a : Nat} (ha : ∀ x, a ≤ x → x < a + 4 → m' x = m x) : load32 m' a = load32 m a := by
    rw [load32, load32, readLE_congr ha]
  have hpde : c.read32 m' ((npaeGetAddr c.guestCr3).toNat + 4 * (va.toNat / 2 ^ 22)) =
      c.read32 m ((npaeGetAddr c.guestCr3).toNat + 4 * (va.toNat / 2 ^ 22)) := by
    refine Option.map_congr fun pd hpd => hword fun x h1 h2 => h x ⟨pd, hpd, .inl ⟨h1, h2⟩⟩
  simp only [Call.gva2gpa, Option.bind_eq_bind, hpde]
  refine Option.bind_congr fun pde hpde => ?_
  obtain ⟨pd, hpd, rfl⟩ := Option.map_eq_some_iff.1 hpde
  split
  · rfl
  · next hbig =>
    refine congrArg (Option.bind · _) (Option.map_congr fun pt hpt => hword fun x h1 h2 => h x ?_)
    exact ⟨pd, hpd, .inr ⟨Bool.not_eq_true _ ▸ hbig, pt, hpt, h1, h2⟩⟩

/-- Memory with the same page tables gives the addresses of the range the same translations. -/
theorem gva2gpa_of_tables (h : ∀ a, c.InTables m va len a → m' a = m a) {i : Nat}
    (hi : i = 0 ∨ i < len.toNat) :
    c.gva2gpa m' (va + BitVec.ofNat 32 i) = c.gva2gpa m (va + BitVec.ofNat 32 i) :=
  gva2gpa_congr fun a ha => h a ⟨i, hi, ha⟩

theorem gva2gpa_of_tables_start (h : ∀ a, c.InTables m va len a → m' a = m a) :
    c.gva2gpa m' va = c.gva2gpa m va := by
  have := gva2gpa_of_tables h (i := 0) (.inl rfl)
  rwa [BitVec.add_zero] at this

/-! ## Bytes of the range -/

/-- The page that byte `i` of the range is in, counted from the page of its start. -/
def pageIndex (va : BitVec 32) (i : Nat) : Nat := (va.toNat % 2 ^ 12 + i) / 2 ^ 12

/-- The first address of page `k` of the range, with the offset of `va`. -/
def pageStart (va : BitVec 32) (k : Nat) : BitVec 32 := va + BitVec.ofNat 32 (2 ^ 12 * k)

/-- The host's page `k` pages after the frame `f` is mapped to the frame of page `k` of the range. -/
def Call.Follows (c : Call r) (m : Mem) (va : BitVec 32) (f k : Nat) : Prop :=
  ∃ fk, c.gvaFrame m (pageStart va k) = some fk ∧ c.tlb ((f + k) % 2 ^ 20 * 2 ^ 12) = some (fk * 2 ^ 12)

/-- Byte `i` of the range and the byte read for it, at offset `i` from the start in frame `f`, are both of
the page tables, and the same. -/
def Call.AmongTables (c : Call r) (m : Mem) (va len : BitVec 32) (f i : Nat) : Prop :=
  ∃ q p, c.tlb (add32 (f * 2 ^ 12 + va.toNat % 2 ^ 12) i) = some q ∧
    c.gva2gpa m (va + BitVec.ofNat 32 i) = some p ∧ c.InTables m va len q ∧
      c.InTables m va len p.toNat ∧ m q = m p.toNat

theorem gvaFrame_add (i : Nat) :
    c.gvaFrame m (va + BitVec.ofNat 32 i) = c.gvaFrame m (pageStart va (pageIndex va i)) := by
  refine gvaFrame_congr ?_
  rw [pageStart, pageIndex, BitVec.toNat_add, BitVec.toNat_add, BitVec.toNat_ofNat, BitVec.toNat_ofNat]
  omega

theorem add32_frame (f : Nat) (va : BitVec 32) (i : Nat) : add32 (f * 2 ^ 12 + va.toNat % 2 ^ 12) i =
    (f + pageIndex va i) % 2 ^ 20 * 2 ^ 12 + (va.toNat % 2 ^ 12 + i) % 2 ^ 12 := by
  rw [add32, pageIndex]
  omega

theorem gva2gpa_add {i : Nat} {p : BitVec 64} (h : c.gva2gpa m (va + BitVec.ofNat 32 i) = some p) :
    p.toNat % 2 ^ 12 = (va.toNat % 2 ^ 12 + i) % 2 ^ 12 := by
  rw [gva2gpa_offset h, BitVec.toNat_add, BitVec.toNat_ofNat]
  omega

/-- A byte is read from its own address just when the host's page is mapped to its frame. -/
theorem follows_iff_read {f i : Nat} {p : BitVec 64}
    (h : c.gva2gpa m (va + BitVec.ofNat 32 i) = some p) : c.Follows m va f (pageIndex va i) ↔
      c.tlb (add32 (f * 2 ^ 12 + va.toNat % 2 ^ 12) i) = some p.toNat := by
  have hframe := (gva2gpa_eq_gvaFrame h).1
  have hoff := gva2gpa_add h
  have hmod : (va.toNat % 2 ^ 12 + i) % 2 ^ 12 < 2 ^ 12 := Nat.mod_lt _ (by decide)
  rw [gvaFrame_add] at hframe
  rw [add32_frame, tlb_page c _ hmod, Call.Follows, hframe]
  constructor
  · rintro ⟨fk, hfk, htlb⟩
    cases hfk
    rw [htlb, Option.map_some]
    exact congrArg some (by omega)
  · intro htlb
    obtain ⟨q, hq, hsum⟩ := Option.map_eq_some_iff.1 htlb
    exact ⟨_, rfl, hq.trans (congrArg some (by omega))⟩

/-- The host's address that `gva2gpa` gives, by its frame. -/
theorem add32_gpa2hva {p : BitVec 64} (h : c.gva2gpa m va = some p) (i : Nat) :
    add32 (gpa2hva p).toNat i = add32 (p.toNat / 2 ^ 12 * 2 ^ 12 + va.toNat % 2 ^ 12) i := by
  rw [← (gva2gpa_eq_gvaFrame h).2, gpa2hva, BitVec.toNat_setWidth, add32, add32]
  omega

/-! ## The copy -/

/-- What a copy that does not fault has read. -/
theorem CopiesGuest.reads {dst : Nat → BitVec 8} (h : c.CopiesGuest m va dst len) :
    ∃ p0, c.gva2gpa m va = some p0 ∧ ∀ i < len.toNat, ∃ q p,
      c.tlb (add32 (p0.toNat / 2 ^ 12 * 2 ^ 12 + va.toNat % 2 ^ 12) i) = some q ∧
        c.gva2gpa m (va + BitVec.ofNat 32 i) = some p ∧ m q = m p.toNat := by
  obtain ⟨buf, hcopy, hbytes⟩ := h
  obtain ⟨p0, hp0, hcopy⟩ := Option.bind_eq_some_iff.1 hcopy
  refine ⟨p0, hp0, fun i hi => ?_⟩
  obtain ⟨q, hq, hbyte⟩ := memcpy_eq_some hcopy i hi
  obtain ⟨p, hp, hbuf⟩ := hbytes i hi
  exact ⟨q, p, add32_gpa2hva hp0 i ▸ hq, hp, hbyte.symm.trans hbuf⟩

theorem copiesGuest_of_reads {dst : Nat → BitVec 8} {p0 : BitVec 64} (hp0 : c.gva2gpa m va = some p0)
    (h : ∀ i < len.toNat, ∃ q p, c.tlb (add32 (p0.toNat / 2 ^ 12 * 2 ^ 12 + va.toNat % 2 ^ 12) i) = some q ∧
      c.gva2gpa m (va + BitVec.ofNat 32 i) = some p ∧ m q = m p.toNat) : c.CopiesGuest m va dst len := by
  have hmapped : ∀ i < len.toNat, (c.tlb (add32 (gpa2hva p0).toNat i)).isSome := by
    intro i hi
    obtain ⟨q, p, hq, -⟩ := h i hi
    rw [add32_gpa2hva hp0, hq]
    rfl
  obtain ⟨buf, hbuf⟩ := exists_memcpy (m := m) hmapped dst
  refine ⟨buf, by rw [Call.copyFromGvaToHva, hp0]; exact hbuf, fun i hi => ?_⟩
  obtain ⟨q, p, hq, hp, hsame⟩ := h i hi
  obtain ⟨a, ha, hbyte⟩ := memcpy_eq_some hbuf i hi
  rw [add32_gpa2hva hp0, hq] at ha
  cases ha
  exact ⟨p, hp, hbyte.trans hsame⟩

/-- A byte outside the page tables may be any. -/
theorem CopyExact.same_of_not_tables {dst : Nat → BitVec 8} (h : c.CopyExact m va dst len) {x q i : Nat}
    {p0 p : BitVec 64} (hp0 : c.gva2gpa m va = some p0) (hi : i < len.toNat)
    (hq : c.tlb (add32 (p0.toNat / 2 ^ 12 * 2 ^ 12 + va.toNat % 2 ^ 12) i) = some q)
    (hp : c.gva2gpa m (va + BitVec.ofNat 32 i) = some p) (hx : ¬ c.InTables m va len x) :
    x = q ↔ x = p.toNat := by
  have hsame : ∀ a, c.InTables m va len a → Function.update m x (m x + 1) a = m a :=
    fun a ha => Function.update_of_ne (fun hax : a = x => hx (hax ▸ ha)) ..
  have hbyte {m' : Mem} (hm' : ∀ a, c.InTables m va len a → m' a = m a) : m' q = m' p.toNat := by
    obtain ⟨p0', hp0', hreads⟩ := CopiesGuest.reads (h m' hm')
    obtain ⟨q', p', hq', hp', heq⟩ := hreads i hi
    cases (gva2gpa_of_tables_start hm').symm.trans hp0' |>.symm.trans hp0
    cases (gva2gpa_of_tables hm' (.inr hi)).symm.trans hp' |>.symm.trans hp
    cases hq.symm.trans hq'
    exact heq
  have hone : m x + 1 ≠ m x := by
    intro he
    have := congrArg BitVec.toNat he
    rw [BitVec.toNat_add] at this
    have hlt := (m x).isLt
    have h1 : (1 : BitVec 8).toNat = 1 := rfl
    omega
  have hold := hbyte fun a _ => rfl
  have hnew := hbyte hsame
  constructor
  · rintro rfl
    by_contra hne
    rw [Function.update_self, Function.update_of_ne (Ne.symm hne), ← hold] at hnew
    exact hone hnew
  · rintro rfl
    by_contra hne
    rw [Function.update_self, Function.update_of_ne (Ne.symm hne), hold] at hnew
    exact hone hnew.symm

/-- **The copy is right exactly**, whatever is in memory beside the page tables, when the host has each of
the pages that it reads mapped to the guest's frame for that page, or both bytes are of the page tables. -/
theorem copyExact_iff (c : Call r) (m : Mem) (va : BitVec 32) (dst : Nat → BitVec 8) (len : BitVec 32) :
    c.CopyExact m va dst len ↔ ∃ f, c.gvaFrame m va = some f ∧ ∀ i < len.toNat,
      c.Follows m va f (pageIndex va i) ∨ c.AmongTables m va len f i := by
  constructor
  · intro hexact
    obtain ⟨p0, hp0, hreads⟩ := CopiesGuest.reads (hexact m fun a _ => rfl)
    refine ⟨_, (gva2gpa_eq_gvaFrame hp0).1, fun i hi => ?_⟩
    obtain ⟨q, p, hq, hp, hsame⟩ := hreads i hi
    by_cases hin : c.InTables m va len q ∧ c.InTables m va len p.toNat
    · exact .inr ⟨q, p, hq, hp, hin.1, hin.2, hsame⟩
    · -- one of the two bytes may be any, so they are one
      refine .inl ((follows_iff_read hp).2 (hq.trans (congrArg some ?_)))
      by_cases hqin : c.InTables m va len q
      · exact ((CopyExact.same_of_not_tables hexact hp0 hi hq hp fun hpin => hin ⟨hqin, hpin⟩).2 rfl).symm
      · exact (CopyExact.same_of_not_tables hexact hp0 hi hq hp hqin).1 rfl
  · rintro ⟨f, hf, hbytes⟩ m' hm'
    obtain ⟨p0, hp0, rfl⟩ := Option.map_eq_some_iff.1 hf
    refine copiesGuest_of_reads ((gva2gpa_of_tables_start hm').trans hp0) fun i hi => ?_
    rw [gva2gpa_of_tables hm' (.inr hi)]
    rcases hbytes i hi with hfollows | ⟨q, p, hq, hp, hqin, hpin, hsame⟩
    · have ⟨fk, hfk, _⟩ := hfollows
      rw [← gvaFrame_add] at hfk
      obtain ⟨p, hp, -⟩ := Option.map_eq_some_iff.1 hfk
      exact ⟨_, p, (follows_iff_read hp).1 hfollows, hp, rfl⟩
    · exact ⟨q, p, hq, hp, by rw [hm' q hqin, hm' _ hpin, hsame]⟩

/-- Where the host's page is mapped to itself, page `k` is to be in that frame. -/
theorem follows_iff {f k : Nat}
    (h : c.tlb ((f + k) % 2 ^ 20 * 2 ^ 12) = some ((f + k) % 2 ^ 20 * 2 ^ 12)) :
    c.Follows m va f k ↔ c.gvaFrame m (pageStart va k) = some ((f + k) % 2 ^ 20) := by
  rw [Call.Follows, h]
  constructor
  · rintro ⟨fk, hfk, heq⟩
    have := Option.some.inj heq
    rw [hfk]
    exact congrArg some (by omega)
  · exact fun hfk => ⟨_, hfk, rfl⟩

/-- **A range within a page** is copied right from a frame that the host has mapped to itself. -/
theorem copyExact_of_page {f : Nat} (hf : c.gvaFrame m va = some f) (hlt : f < 2 ^ 20)
    (htlb : c.tlb (f * 2 ^ 12) = some (f * 2 ^ 12)) (hpage : va.toNat % 2 ^ 12 + len.toNat ≤ 2 ^ 12)
    (dst : Nat → BitVec 8) : c.CopyExact m va dst len := by
  refine (copyExact_iff c m va dst len).2 ⟨f, hf, fun i hi => .inl ?_⟩
  have hk : pageIndex va i = 0 := Nat.div_eq_of_lt (by omega)
  have hstart : pageStart va 0 = va := BitVec.add_zero va
  rw [hk, follows_iff (by rwa [Nat.add_zero, Nat.mod_eq_of_lt hlt]), hstart, hf, Nat.add_zero,
    Nat.mod_eq_of_lt hlt]

/-! ## The hypercall's copies -/

/-- The bytes that `copyLE` reads, when they are in a buffer. -/
theorem copyLE_of_bytes {a n j : Nat} (ha : a < 2 ^ 32) {buf : Nat → BitVec 8}
    (h : ∀ i < n, ∃ b, c.tlb (add32 a i) = some b ∧ buf (j + i) = m b) :
    c.copyLE m a n = some (readLE buf j n) := by
  induction n generalizing a j with
  | zero => rfl
  | succ n ih =>
    obtain ⟨b, hb, hbyte⟩ := h 0 (Nat.succ_pos n)
    rw [add32_zero ha] at hb
    rw [Nat.add_zero] at hbyte
    have hrest : c.copyLE m (add32 a 1) n = some (readLE buf (j + 1) n) := by
      refine ih (add32_lt a 1) fun i hi => ?_
      obtain ⟨b', hb', hbyte'⟩ := h (i + 1) (Nat.succ_lt_succ hi)
      exact ⟨b', by rwa [add32_add32, Nat.add_comm], by rwa [Nat.add_assoc, Nat.add_comm 1]⟩
    rw [Call.copyLE, hb, hrest, readLE, hbyte]
    rfl

theorem mapped_of_copyLE {a n x : Nat} (ha : a < 2 ^ 32) (h : c.copyLE m a n = some x) :
    ∀ i < n, (c.tlb (add32 a i)).isSome := by
  induction n generalizing a x with
  | zero => exact fun i hi => absurd hi (Nat.not_lt_zero i)
  | succ n ih =>
    obtain ⟨b, hb, h⟩ := Option.bind_eq_some_iff.1 h
    obtain ⟨rest, hrest, -⟩ := Option.bind_eq_some_iff.1 h
    intro i hi
    cases i with
    | zero => rw [add32_zero ha, hb]; rfl
    | succ i =>
      rw [Nat.add_comm, ← add32_add32]
      exact ih (add32_lt a 1) hrest i (Nat.lt_of_succ_lt_succ hi)

theorem copyLE_eq_memcpy {a : Nat} (ha : a < 2 ^ 32) (n : Nat) (dst : Nat → BitVec 8) :
    c.copyLE m a n = (c.memcpy m dst a n).map fun buf => readLE buf 0 n := by
  cases hcopy : c.memcpy m dst a n with
  | some buf =>
    refine copyLE_of_bytes ha fun i hi => ?_
    rw [Nat.zero_add]
    exact memcpy_eq_some hcopy i hi
  | none =>
    refine Option.eq_none_iff_forall_ne_some.2 fun x hx => ?_
    obtain ⟨buf, hbuf⟩ := exists_memcpy (m := m) (mapped_of_copyLE ha hx) dst
    rw [hcopy] at hbuf
    cases hbuf

/-- A region of the list is what `copy_from_gva_to_hva` puts in a buffer of 16 bytes. -/
theorem copyProcMap_eq_copy (gva : BitVec 32) (dst : Nat → BitVec 8) :
    c.copyProcMap m gva = (c.copyFromGvaToHva m gva dst 16).map (procMapAt · 0) := by
  have hword (buf : Nat → BitVec 8) (k j : Nat) (hkj : k + (4 + j) = 16) :
      BitVec.ofNat 32 (readLE buf 0 16 / 2 ^ (8 * k)) = load32 buf k := by
    rw [← hkj, ofNat_readLE_div, Nat.zero_add]
  simp only [Call.copyProcMap, Call.copyFromGvaToHva, Option.bind_eq_bind, Option.map_bind]
  refine Option.bind_congr fun gpa _ => ?_
  have hcopy := copyLE_eq_memcpy (c := c) (m := m) (gpa2hva gpa).isLt 16 dst
  rw [gpa2hva] at hcopy
  rw [hcopy, Function.comp_apply, gpa2hva, Option.bind_map, Option.map_eq_bind]
  refine Option.bind_congr fun buf _ => congrArg some ?_
  have hmap : procMapAt buf 0 = ⟨load32 buf 0, load32 buf 4, load32 buf 8, load32 buf 12⟩ := rfl
  refine Eq.trans ?_ hmap.symm
  rw [← hword buf 0 12 rfl, ← hword buf 4 8 rfl, ← hword buf 8 4 rfl, ← hword buf 12 0 rfl]
  simp

/-- What `gva2gpa` returns is what it returns on the host's view of memory. -/
theorem gva2gpa_hostView {p : BitVec 64} (h : c.gva2gpa m va = some p) :
    gva2gpaOf (hostView c.tlb m) c.guestCr3 va = p := by
  have hword {e : BitVec 32} {i : Nat} {x : BitVec 32} (hi : i + 4 ≤ 2 ^ 12)
      (hx : c.read32 m ((npaeGetAddr e).toNat + i) = some x) :
      load32 (hostView c.tlb m) ((npaeGetAddr e).toNat + i) = x := by
    obtain ⟨a, ha, rfl⟩ := Option.map_eq_some_iff.1 hx
    rw [toNat_npaeGetAddr, tlb_page c _ (by omega)] at ha
    obtain ⟨b, hb, rfl⟩ := Option.map_eq_some_iff.1 ha
    have hbyte (k : Nat) (hk : k < 4) : hostView c.tlb m ((npaeGetAddr e).toNat + i + k) = m (b + i + k) := by
      rw [hostView, toNat_npaeGetAddr, Nat.add_assoc, tlb_page c _ (by omega), hb, Nat.add_assoc]
      rfl
    have h0 := hbyte 0 (by decide)
    have h1 := hbyte 1 (by decide)
    have h2 := hbyte 2 (by decide)
    have h3 := hbyte 3 (by decide)
    simp only [load32, readLE, Nat.add_assoc, Nat.add_zero, Nat.reduceAdd] at h0 h1 h2 h3 ⊢
    rw [h0, h1, h2, h3]
  obtain ⟨pde, hpde, h⟩ := Option.bind_eq_some_iff.1 h
  have hva := va.isLt
  have hpde := hword (by omega) hpde
  simp only [gva2gpaOf, hpde]
  by_cases hbig : pde.getLsbD 7
  · rw [if_pos hbig] at h ⊢
    exact Option.some.inj h
  · rw [if_neg hbig] at h ⊢
    obtain ⟨pte, hpte, h⟩ := Option.bind_eq_some_iff.1 h
    rw [hword (by omega) hpte]
    exact Option.some.inj h

end

/-! ## Pages that do not follow each other -/

/-- Guest memory with a directory at 0x1000 and a table at 0x2000 that has page 0 in frame 3 and page 1 in
frame 5; frame 4 is empty and frame 5 has a 7. -/
def scatteredMem (a : Nat) : BitVec 8 :=
  if a = 0x1000 then 0x01 else if a = 0x1001 then 0x20
  else if a = 0x2000 then 0x01 else if a = 0x2001 then 0x30
  else if a = 0x2004 then 0x01 else if a = 0x2005 then 0x50
  else if a = 0x5000 then 7 else 0

/-- A hypercall of a guest with this memory. -/
def scatteredCall : Call relocated :=
  { bootCall 0x800000 with
    mem := fun a => if a < 0x6000 then scatteredMem a else (bootCall 0x800000).mem a }

theorem scatteredCall_unity : Unity scatteredCall := by
  intro p hp
  refine (tlb_of_agree (bootCall_wellFormed 0x800000) (fun x h1 _ => ?_) p).trans
    (bootCall_unity 0x800000 hp)
  have hlow : 0x6000 ≤ x := Nat.le_trans (by decide) h1
  exact if_neg (Nat.not_lt.2 hlow)

/-- Where `gva2gpa` finds an address of the first two pages. -/
theorem scatteredCall_gva2gpa (va frame : BitVec 32) (hva : va.toNat < 0x2000)
    (h : load32 scatteredCall.mem (0x2000 + 4 * (va.toNat / 2 ^ 12)) = frame) :
    scatteredCall.gva2gpa scatteredCall.mem va =
      some ((npaeGetAddr frame).setWidth 64 + (va &&& 0xFFF).setWidth 64) := by
  have hdir : (npaeGetAddr scatteredCall.guestCr3).toNat + 4 * (va.toNat / 2 ^ 22) = 0x1000 := by
    have hcr3 : (npaeGetAddr scatteredCall.guestCr3).toNat = 0x1000 := by decide
    omega
  have hpde : load32 scatteredCall.mem 0x1000 = 0x2001 := by decide
  have htable : (npaeGetAddr 0x2001).toNat = 0x2000 := by decide
  have hidx : va.toNat / 2 ^ 12 % 1024 = va.toNat / 2 ^ 12 := Nat.mod_eq_of_lt (by omega)
  have hdirAt : scatteredCall.tlb 0x1000 = some 0x1000 := scatteredCall_unity _ (by decide)
  have htableAt : scatteredCall.tlb (0x2000 + 4 * (va.toNat / 2 ^ 12)) =
      some (0x2000 + 4 * (va.toNat / 2 ^ 12)) := by
    refine scatteredCall_unity _ ?_
    show _ < 0xC0200000
    omega
  have h7 : (0x2001 : BitVec 32).getLsbD 7 = false := by decide
  simp only [Call.gva2gpa, Call.read32, hdir, hdirAt, hpde, h7, htable, hidx, htableAt, h, Option.map_some,
    Option.bind_eq_bind, Option.bind_some, Bool.false_eq_true, if_false]

/-- Two bytes from the end of page 0 on: the second is read from frame 4. -/
theorem copyExact_not : Unity scatteredCall ∧
    ∀ dst, ¬ scatteredCall.CopiesGuest scatteredCall.mem 0xFFF dst 2 := by
  refine ⟨scatteredCall_unity, fun dst hcopy => ?_⟩
  obtain ⟨p0, hp0, hreads⟩ := CopiesGuest.reads hcopy
  obtain ⟨q, p, hq, hp, hsame⟩ := hreads 1 (by decide)
  cases (scatteredCall_gva2gpa 0xFFF 0x3001 (by decide) (by decide)).symm.trans hp0
  cases (scatteredCall_gva2gpa (0xFFF + BitVec.ofNat 32 1) 0x5001 (by decide)
    (by decide)).symm.trans hp
  have hread : scatteredCall.tlb 0x4000 = some 0x4000 := scatteredCall_unity _ (by decide)
  have hq' : scatteredCall.tlb 0x4000 = some q := hq
  cases hread.symm.trans hq'
  exact absurd hsame (by decide)

end Xmhf.Hypapp
