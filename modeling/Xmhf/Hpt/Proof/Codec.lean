import Xmhf.Hpt.Proof.Fields
import Xmhf.Hpt.Proof.SetProt

/-!
# The fields of an entry, written and read back

For entries of every type and level:

* the address (`address_roundTrips_iff`): lost by 4 MB pages above 4 GB, and at the root of LONG;
* the protections (`prot_roundTrips_iff`): lost at the root of PAE, where an entry has no flags but the
  present bit;
* the memory type (`pmt_roundTrips_iff`): kept, but the entry loses its high half.
-/

namespace Xmhf.Hpt

open Xmhf.Bitfield

variable {t : HptType} {lvl : Nat} {e : Pme} {a : Pa} {prot : Prot} {pmt : Pmt}

/-- A level of the page maps of a type. -/
structure IsLevel (t : HptType) (lvl : Nat) : Prop where
  type : t ≠ .invalid
  pos : 1 ≤ lvl
  le : lvl ≤ typeMaxLvl t

/-- The type and the level, one by one. -/
theorem IsLevel.cases (h : IsLevel t lvl) :
    (t = .norm ∧ (lvl = 1 ∨ lvl = 2)) ∨ (t = .pae ∧ (lvl = 1 ∨ lvl = 2 ∨ lvl = 3)) ∨
      (t = .long ∧ (lvl = 1 ∨ lvl = 2 ∨ lvl = 3 ∨ lvl = 4)) ∨
      (t = .ept ∧ (lvl = 1 ∨ lvl = 2 ∨ lvl = 3 ∨ lvl = 4)) := by
  obtain ⟨htype, hpos, hle⟩ := h
  cases t with
  | norm => exact Or.inl ⟨rfl, by simp only [typeMaxLvl] at hle; omega⟩
  | pae => exact Or.inr (Or.inl ⟨rfl, by simp only [typeMaxLvl] at hle; omega⟩)
  | long => exact Or.inr (Or.inr (Or.inl ⟨rfl, by simp only [typeMaxLvl] at hle; omega⟩))
  | ept => exact Or.inr (Or.inr (Or.inr ⟨rfl, by simp only [typeMaxLvl] at hle; omega⟩))
  | invalid => exact absurd rfl htype

/-! ## Addresses -/

/-- The entry maps a page: at level 1 always, and where the format has the page size bit. -/
def MapsPage (t : HptType) (lvl : Nat) (e : Pme) : Prop :=
  lvl = 1 ∨ e.getLsbD 7 = true ∧ (lvl = 2 ∨ lvl = 3 ∧ (t = .long ∨ t = .ept))

instance : Decidable (MapsPage t lvl e) := inferInstanceAs (Decidable (_ ∨ _))

/-- The address field of an entry, by the names of the bit ranges. -/
def addressField (t : HptType) (lvl : Nat) (e : Pme) : Field :=
  match t with
  | .norm => if lvl = 2 ∧ MapsPage t lvl e then [(31, 22), (20, 13)] else [(31, 12)]
  | .pae | .long => if lvl ≠ 1 ∧ MapsPage t lvl e then [(51, 13)] else [(51, 12)]
  | .ept => [(51, 12)]
  | .invalid => []

/-- The bits of the addresses that the format declares. -/
def addressWidth (t : HptType) (lvl : Nat) (e : Pme) : Nat :=
  if t = .norm then if lvl = 2 ∧ MapsPage t lvl e then 40 else 32 else 52

/-- An address for the entry: aligned to the page, or to 4 KB for a page map, and within the width. -/
structure Addressable (t : HptType) (lvl : Nat) (e : Pme) (a : Pa) : Prop where
  aligned : a.toNat % 2 ^ (if MapsPage t lvl e then vaIdxHi t (lvl - 1) + 1 else 12) = 0
  lt : a.toNat < 2 ^ addressWidth t lvl e

/-- The address is stored, read back, and nothing else changes. -/
def AddressRoundTrips (t : HptType) (lvl : Nat) (e : Pme) (a : Pa) : Prop :=
  ∃ e', pmeSetAddress t lvl e a = some e' ∧ pmeGetAddress t lvl e' = some a ∧
    ∀ i, ¬ InField (addressField t lvl e) i → e'.getLsbD i = e.getLsbD i

/-- Every level but the root of LONG has an answer to `hpt_pme_is_page`. -/
theorem pmeIsPage_iff (h : IsLevel t lvl) (hroot : ¬ (t = .long ∧ lvl = 4)) :
    pmeIsPage t lvl e = some (decide (MapsPage t lvl e)) := by
  have hbit := getBit_eq (show 7 < 64 by decide) e
  rcases h.cases with ⟨rfl, rfl | rfl⟩ | ⟨rfl, rfl | rfl | rfl⟩ | ⟨rfl, rfl | rfl | rfl | rfl⟩ |
    ⟨rfl, rfl | rfl | rfl | rfl⟩ <;> simp [pmeIsPage, MapsPage, hbit] at hroot ⊢

/-- Bits copied to the entry and back. -/
theorem copyBits_back {hi lo : Nat} (hhi : hi < 64) (hlo : a.toNat % 2 ^ lo = 0)
    (hlt : a.toNat < 2 ^ (hi + 1)) : copyBits 0 (copyBits e a hi lo 0) hi lo 0 = a := by
  apply BitVec.eq_of_getLsbD_eq
  intro i _
  rw [(puts_copyBits hhi 0 _) i, (puts_copyBits hhi e a) i]
  by_cases hin : InField [(hi, lo)] i
  · rw [if_pos hin, if_pos hin]
  · have hzero : (0 : Pme).getLsbD i = false := BitVec.getLsbD_zero
    rw [if_neg hin, hzero, BitVec.getLsbD]
    rw [inField_range] at hin
    rcases Nat.lt_or_ge i lo with hlow | hhigh
    · have hmod := Nat.testBit_mod_two_pow a.toNat lo i
      rw [hlo, Nat.zero_testBit, decide_eq_true hlow, Bool.true_and] at hmod
      exact hmod
    · have hpow : a.toNat < 2 ^ i :=
        Nat.lt_of_lt_of_le hlt (Nat.pow_le_pow_right (by decide) (by omega))
      exact (Nat.testBit_lt_two_pow hpow).symm

/-- The range of an address, but for a 4 MB page: as wide as the format's addresses, and aligned with them. -/
structure RangeFits (t : HptType) (lvl : Nat) (e : Pme) (r : Nat × Nat) : Prop where
  hi : r.1 < 64
  lo : 12 ≤ r.2
  field : addressField t lvl e = [r]
  width : addressWidth t lvl e = r.1 + 1
  align : r.2 ≤ if MapsPage t lvl e then vaIdxHi t (lvl - 1) + 1 else 12

theorem rangeFits (h : IsLevel t lvl) (hsmall : ¬ (t = .norm ∧ lvl = 2 ∧ MapsPage t lvl e)) :
    RangeFits t lvl e (addressRange t lvl (decide (MapsPage t lvl e))) := by
  have hpage : ∀ page, decide (MapsPage t lvl e) = page → ¬ (t = .norm ∧ lvl = 2 ∧ page) →
      RangeFits t lvl e (addressRange t lvl page) := by
    intro page heq hsmall
    have hiff : MapsPage t lvl e ↔ page = true := by rw [← heq, decide_eq_true_iff]
    rcases h.cases with ⟨rfl, rfl | rfl⟩ | ⟨rfl, rfl | rfl | rfl⟩ | ⟨rfl, rfl | rfl | rfl | rfl⟩ |
      ⟨rfl, rfl | rfl | rfl | rfl⟩ <;> cases page <;>
      constructor <;>
      simp [addressRange, addressField, addressWidth, vaIdxHi, hiff] at hsmall ⊢
  exact hpage _ rfl (by simpa using hsmall)

theorem getLsbD_of_lt {n i : Nat} (h : a.toNat < 2 ^ n) (hi : n ≤ i) : a.getLsbD i = false :=
  Nat.testBit_lt_two_pow (Nat.lt_of_lt_of_le h (Nat.pow_le_pow_right (by decide) hi))

/-- A 4 MB page's address comes back without its bits above 31. -/
theorem pmeGetAddress_big (hbig : MapsPage .norm 2 e) (he : e.toNat < 2 ^ 32) :
    pmeGetAddress .norm 2 (copyBits e a 31 22 0) =
      some (copyBits 0 (copyBits e a 31 22 0) 31 22 0) := by
  have hlevel : IsLevel .norm 2 := ⟨by decide, by decide, by decide⟩
  have hput : Puts [(31, 22)] a e (copyBits e a 31 22 0) := puts_copyBits (by decide) e a
  have hpage : pmeIsPage .norm 2 (copyBits e a 31 22 0) = some true := by
    rw [pmeIsPage_congr7 (hput.eq_of_not_inField (by decide)), pmeIsPage_iff hlevel (by decide),
      decide_eq_true hbig]
  have hzero : copyBits 0 (copyBits e a 31 22 0) 39 32 19 = 0 := by
    apply BitVec.eq_of_getLsbD_eq
    intro i _
    rw [getLsbD_copyBits (by decide)]
    by_cases hin : 32 + 19 ≤ i ∧ i ≤ 39 + 19
    · rw [if_pos hin, hput.eq_of_not_inField (mt inField_range.1 (by omega)),
        getLsbD_of_lt he (by omega)]
      exact BitVec.getLsbD_zero.symm
    · rw [if_neg hin]
  rw [pmeGetAddress_eq, hpage, Option.map_some, if_pos ⟨rfl, rfl, rfl⟩, hzero]
  rfl

theorem roundTrips_big (hbig : MapsPage .norm 2 e) (he : e.toNat < 2 ^ 32) (ha : a.toNat % 2 ^ 22 = 0) :
    AddressRoundTrips .norm 2 e a ↔ a.toNat < 2 ^ 32 := by
  have hlevel : IsLevel .norm 2 := ⟨by decide, by decide, by decide⟩
  have hset : pmeSetAddress .norm 2 e a = some (copyBits e a 31 22 0) := by
    rw [pmeSetAddress_eq, pmeIsPage_iff hlevel (by decide), decide_eq_true hbig]
    rfl
  have hget := pmeGetAddress_big (a := a) hbig he
  constructor
  · rintro ⟨e', hset', hget', -⟩
    obtain rfl : _ = e' := Option.some.inj (hset.symm.trans hset')
    have hback : copyBits 0 (copyBits e a 31 22 0) 31 22 0 = a :=
      Option.some.inj (hget.symm.trans hget')
    have hput : Puts [(31, 22)] (copyBits e a 31 22 0) 0 a := by
      intro i
      rw [← puts_copyBits (by decide) 0 (copyBits e a 31 22 0) i, hback]
    refine Nat.lt_pow_two_of_testBit _ fun i hi => ?_
    exact (hput.eq_of_not_inField (mt inField_range.1 (by omega))).trans BitVec.getLsbD_zero
  · intro hlt
    refine ⟨_, hset, by rw [hget, copyBits_back (by decide) ha hlt], fun i hi => ?_⟩
    have hput : Puts [(31, 22)] a e (copyBits e a 31 22 0) := puts_copyBits (by decide) e a
    refine hput.eq_of_not_inField fun hin => hi ?_
    have hfield : addressField .norm 2 e = [(31, 22)] ++ [(20, 13)] := if_pos ⟨rfl, hbig⟩
    rw [hfield]
    exact inField_append.2 (Or.inl hin)

theorem roundTrips_small (h : IsLevel t lvl) (hroot : ¬ (t = .long ∧ lvl = 4))
    (hsmall : ¬ (t = .norm ∧ lvl = 2 ∧ MapsPage t lvl e)) (ha : Addressable t lvl e a) :
    AddressRoundTrips t lvl e a := by
  have hpage := pmeIsPage_iff (e := e) h hroot
  obtain ⟨hhi, hlo, hfield, hwidth, halign⟩ := rangeFits h hsmall
  have hset := pmeSetAddress_eq t lvl e a
  have hget := pmeGetAddress_eq t lvl (copyBits e a (addressRange t lvl (decide (MapsPage t lvl e))).1
    (addressRange t lvl (decide (MapsPage t lvl e))).2 0)
  rw [hpage, Option.map_some] at hset
  generalize hr : addressRange t lvl (decide (MapsPage t lvl e)) = r at *
  have hput : Puts [r] a e (copyBits e a r.1 r.2 0) := puts_copyBits hhi e a
  have hpage' : pmeIsPage t lvl (copyBits e a r.1 r.2 0) = some (decide (MapsPage t lvl e)) := by
    rw [pmeIsPage_congr7 (hput.eq_of_not_inField (mt inField_range.1 (by omega))), hpage]
  have hnot : ¬ (t = .norm ∧ lvl = 2 ∧ decide (MapsPage t lvl e) = true) := by
    rwa [decide_eq_true_iff]
  rw [hpage', Option.map_some, if_neg hnot, hr] at hget
  have haligned : a.toNat % 2 ^ r.2 = 0 :=
    Nat.mod_eq_zero_of_dvd (Nat.dvd_trans (Nat.pow_dvd_pow 2 halign) (Nat.dvd_of_mod_eq_zero ha.aligned))
  have hlt : a.toNat < 2 ^ (r.1 + 1) := hwidth ▸ ha.lt
  refine ⟨_, hset, by rw [hget, copyBits_back hhi haligned hlt], fun i hi => ?_⟩
  rw [hfield] at hi
  exact hput.eq_of_not_inField hi

/-- **The address codec** round-trips but for 4 MB pages above 4 GB and the root of LONG. -/
theorem address_roundTrips_iff (h : IsLevel t lvl) (he : t = .norm → e.toNat < 2 ^ 32)
    (ha : Addressable t lvl e a) : AddressRoundTrips t lvl e a ↔
      ¬ (t = .long ∧ lvl = 4) ∧ (t = .norm → lvl = 2 → MapsPage t lvl e → a.toNat < 2 ^ 32) := by
  by_cases hroot : t = .long ∧ lvl = 4
  · -- `hpt_pme_is_page` asserts `lvl<=3`
    obtain ⟨rfl, rfl⟩ := hroot
    have hnone : pmeSetAddress .long 4 e a = none := by
      rw [pmeSetAddress_eq]
      rfl
    refine ⟨?_, fun hc => absurd ⟨rfl, rfl⟩ hc.1⟩
    rintro ⟨e', hset, -⟩
    rw [hnone] at hset
    cases hset
  by_cases hbig : t = .norm ∧ lvl = 2 ∧ MapsPage t lvl e
  · obtain ⟨rfl, rfl, hmaps⟩ := hbig
    have haligned := ha.aligned
    rw [if_pos hmaps] at haligned
    rw [roundTrips_big hmaps (he rfl) haligned]
    exact ⟨fun hlt => ⟨hroot, fun _ _ _ => hlt⟩, fun hc => hc.2 rfl rfl hmaps⟩
  · refine ⟨fun _ => ⟨hroot, fun ht hlvl hmaps => absurd ⟨ht, hlvl, hmaps⟩ hbig⟩, fun _ => ?_⟩
    exact roundTrips_small h hroot hbig ha

/-- The root of LONG fails an assertion, and 4 GB comes back from a 4 MB page as 0. -/
theorem address_roundTrips_not :
    (IsLevel .long 4 ∧ Addressable .long 4 0 0x1000 ∧ ¬ AddressRoundTrips .long 4 0 0x1000) ∧
      IsLevel .norm 2 ∧ Addressable .norm 2 0x80 0x100000000 ∧
        ¬ AddressRoundTrips .norm 2 0x80 0x100000000 := by
  refine ⟨⟨⟨by decide, by decide, by decide⟩, ⟨by decide, by decide⟩, ?_⟩,
    ⟨by decide, by decide, by decide⟩, ⟨by decide, by decide⟩, ?_⟩
  · rintro ⟨e', hset, -⟩
    have hnone : pmeSetAddress .long 4 0 0x1000 = none := by decide +kernel
    rw [hnone] at hset
    cases hset
  · rintro ⟨e', hset, hget, -⟩
    have hlost : pmeSetAddress .norm 2 0x80 0x100000000 = some 0x80 := by decide +kernel
    obtain rfl : _ = e' := Option.some.inj (hlost.symm.trans hset)
    exact absurd hget (by decide +kernel)

/-- A 2 MB page of PAE above 4 GB -/
theorem address_roundTrips_iff_pae : AddressRoundTrips .pae 2 0x80 0x123400000000 :=
  (address_roundTrips_iff ⟨by decide, by decide, by decide⟩ (fun ht => by cases ht)
    ⟨by decide, by decide⟩).2 ⟨by decide, fun ht => by cases ht⟩

/-! ## Protections -/

/-- The protection bits of an entry. -/
def protField (t : HptType) (lvl : Nat) : Field :=
  match t with
  | .norm => [(0, 0), (1, 1)]
  | .pae => if lvl = 3 then [(0, 0)] else [(0, 0), (1, 1), (63, 63)]
  | .long => [(0, 0), (1, 1), (63, 63)]
  | .ept => [(2, 0)]
  | .invalid => []

/-- Protections are stored, read back, and nothing else changes. -/
def ProtRoundTrips (t : HptType) (lvl : Nat) (e : Pme) (prot : Prot) : Prop :=
  ∃ e', pmeSetprot t lvl e prot = some e' ∧ pmeGetprot t lvl e' = some prot ∧
    ∀ i, ¬ InField (protField t lvl) i → e'.getLsbD i = e.getLsbD i

theorem prot_norm (hle : lvl ≤ 2) (hprot : protIsValid .norm 1 prot) :
    ProtRoundTrips .norm lvl e prot := by
  have hput := puts_setBits (l := [(0, prot.getLsbD 0), (1, prot.getLsbD 1)]) (by simp) e
  have hbit : ∀ i, (setBit (setBit e 0 (prot.getLsbD 0)) 1 (prot.getLsbD 1)).getLsbD i =
      if i = 1 then prot.getLsbD 1 else if i = 0 then prot.getLsbD 0 else e.getLsbD i := by
    intro i
    rw [getLsbD_setBit (by decide), getLsbD_setBit (by decide)]
  refine ⟨_, if_pos ⟨hle, hprot⟩, ?_, fun i hi => hput.eq_of_not_inField hi⟩
  simp only [pmeGetprot, if_pos (show lvlIsValid .norm lvl from hle), hbit]
  exact congrArg some (protOf_norm hprot).2

/-- The three flags of LONG, and of PAE below its root. -/
theorem getLsbD_flags (i : Nat) :
    (setBit (setBit (setBit e 0 (prot.getLsbD 0)) 1 (prot.getLsbD 1)) 63 (!prot.getLsbD 2)).getLsbD i =
      if i = 63 then !prot.getLsbD 2 else if i = 1 then prot.getLsbD 1
      else if i = 0 then prot.getLsbD 0 else e.getLsbD i := by
  rw [getLsbD_setBit (by decide), getLsbD_setBit (by decide), getLsbD_setBit (by decide)]

theorem prot_pae (hlvl : lvl = 2 ∨ lvl = 1) (hprot : protIsValid .pae lvl prot) :
    ProtRoundTrips .pae lvl e prot := by
  have hle : lvlIsValid .pae lvl := by
    rcases hlvl with rfl | rfl
    all_goals decide
  have hlt : prot.toNat < 8 := by
    rcases hprot with rfl | rfl | ⟨-, rfl⟩ | rfl | rfl
    all_goals decide
  have hput := puts_setBits (l := [(0, prot.getLsbD 0), (1, prot.getLsbD 1), (63, !prot.getLsbD 2)])
    (by simp) e
  refine ⟨_, (if_pos ⟨hle, hprot⟩).trans (if_pos hlvl), ?_, fun i hi => ?_⟩
  · simp only [pmeGetprot, if_pos hle, if_pos hlvl, getLsbD_flags]
    exact congrArg some ((congrArg _ (Bool.not_not _)).trans (protOf_eq hlt))
  · rw [protField, if_neg (by omega)] at hi
    exact hput.eq_of_not_inField hi

/-- The root of PAE has the present bit only: it is read back as all flags or none. -/
theorem prot_paeRoot (hprot : protIsValid .pae 3 prot) :
    ProtRoundTrips .pae 3 e prot ↔ ¬ (prot = protsRX ∨ prot = protsRW) := by
  have hset : pmeSetprot .pae 3 e prot = some (setBit e 0 (prot.getLsbD 0)) := if_pos ⟨by decide, hprot⟩
  have hget : pmeGetprot .pae 3 (setBit e 0 (prot.getLsbD 0)) =
      some (protOf (prot.getLsbD 0) (prot.getLsbD 0) (prot.getLsbD 0)) := by
    have hbit : (setBit e 0 (prot.getLsbD 0)).getLsbD 0 = prot.getLsbD 0 := by
      rw [getLsbD_setBit (by decide), if_pos rfl]
    simp only [pmeGetprot, if_pos (show lvlIsValid .pae 3 by decide),
      if_neg (show ¬ ((3 : Nat) = 2 ∨ (3 : Nat) = 1) by decide), hbit]
  have hput := puts_setBits (l := [(0, prot.getLsbD 0)]) (by simp) e
  have hback : ProtRoundTrips .pae 3 e prot ↔
      protOf (prot.getLsbD 0) (prot.getLsbD 0) (prot.getLsbD 0) = prot := by
    constructor
    · rintro ⟨e', hset', hget', -⟩
      obtain rfl : _ = e' := Option.some.inj (hset.symm.trans hset')
      exact Option.some.inj (hget.symm.trans hget')
    · exact fun heq => ⟨_, hset, by rw [hget, heq], fun i hi => hput.eq_of_not_inField hi⟩
  rw [hback]
  rcases hprot with rfl | rfl | ⟨h3, -⟩ | rfl | rfl
  · decide
  · decide
  · exact absurd rfl h3
  · decide
  · decide

theorem prot_long (hle : lvl ≤ 4) (hprot : protIsValid .long lvl prot) :
    ProtRoundTrips .long lvl e prot := by
  have hlt : prot.toNat < 8 := by
    rcases hprot with rfl | rfl | rfl | rfl | rfl
    all_goals decide
  have hput := puts_setBits (l := [(0, prot.getLsbD 0), (1, prot.getLsbD 1), (63, !prot.getLsbD 2)])
    (by simp) e
  refine ⟨_, if_pos ⟨hle, hprot⟩, ?_, fun i hi => hput.eq_of_not_inField hi⟩
  simp only [pmeGetprot, if_pos (show lvlIsValid .long lvl from hle), getLsbD_flags]
  exact congrArg some ((congrArg _ (Bool.not_not _)).trans (protOf_eq hlt))

/-- EPT takes any bits for valid, and fails an assertion on others than its three. -/
theorem prot_ept (hle : lvl ≤ 4) : ProtRoundTrips .ept lvl e prot ↔ prot.toNat < 8 := by
  have hset : pmeSetprot .ept lvl e prot = setHL e 2 0 prot := if_pos ⟨hle, trivial⟩
  rw [setHL_prot] at hset
  constructor
  · rintro ⟨e', hset', -⟩
    by_contra hge
    rw [hset, if_neg hge] at hset'
    cases hset'
  · intro hlt
    have hbit := getLsbD_insertHL_prot e hlt
    refine ⟨_, hset.trans (if_pos hlt), ?_, fun i hi => ?_⟩
    · simp only [pmeGetprot, if_pos (show lvlIsValid .ept lvl from hle), hbit]
      exact congrArg some (protOf_eq hlt)
    · rw [hbit, if_neg fun h2 => hi (inField_range.2 ⟨Nat.zero_le i, h2⟩)]

/-- **The protection codec** round-trips but for R-X and RW- at the root of PAE and for bits that are no flags
of EPT. -/
theorem prot_roundTrips_iff (h : IsLevel t lvl) (hprot : protIsValid t lvl prot) :
    ProtRoundTrips t lvl e prot ↔
      ¬ (t = .pae ∧ lvl = 3 ∧ (prot = protsRX ∨ prot = protsRW)) ∧ (t = .ept → prot.toNat < 8) := by
  have hle := h.le
  cases t with
  | norm =>
    exact iff_of_true (prot_norm hle hprot) ⟨fun ⟨ht, _⟩ => (by cases ht), fun ht => by cases ht⟩
  | pae =>
    by_cases h3 : lvl = 3
    · subst h3
      rw [prot_paeRoot hprot]
      simp
    · have hlvl : lvl = 2 ∨ lvl = 1 := by
        have := h.pos
        have : lvl ≤ 3 := hle
        omega
      exact iff_of_true (prot_pae hlvl hprot) ⟨fun hc => h3 hc.2.1, fun ht => by cases ht⟩
  | long =>
    exact iff_of_true (prot_long hle hprot) ⟨fun ⟨ht, _⟩ => (by cases ht), fun ht => by cases ht⟩
  | ept =>
    rw [prot_ept hle]
    simp
  | invalid => exact absurd rfl h.type

/-- Write access at the root of PAE comes back with execute access, and EPT's setter fails on an access it was told
is valid. -/
theorem prot_roundTrips_not : (IsLevel .pae 3 ∧ protIsValid .pae 3 protsRW ∧ ¬ ProtRoundTrips .pae 3 0 protsRW) ∧
    IsLevel .ept 1 ∧ protIsValid .ept 1 8 ∧ ¬ ProtRoundTrips .ept 1 0 8 := by
  refine ⟨⟨⟨by decide, by decide, by decide⟩, by decide, ?_⟩, ⟨by decide, by decide, by decide⟩, trivial, ?_⟩
  · rintro ⟨e', hset, hget, -⟩
    have hpresent : pmeSetprot .pae 3 0 protsRW = some 1 := by decide +kernel
    obtain rfl : _ = e' := Option.some.inj (hpresent.symm.trans hset)
    exact absurd hget (by decide +kernel)
  · rintro ⟨e', hset, -⟩
    have hnone : pmeSetprot .ept 1 0 8 = none := by decide +kernel
    rw [hnone] at hset
    cases hset

theorem prot_roundTrips_iff_nx : ProtRoundTrips .pae 1 0x8000000000000067 protsRX :=
  (prot_roundTrips_iff ⟨by decide, by decide, by decide⟩ (by decide)).2
    ⟨by decide, fun ht => by cases ht⟩

/-! ## Memory types -/

/-- The bit PAT of a page's entry. -/
def patBit (lvl : Nat) : Nat := if lvl = 1 then 7 else 12

/-- The memory type bits of a page's entry. -/
def pmtField (t : HptType) (lvl : Nat) : Field :=
  match t with
  | .norm | .pae | .long => [(patBit lvl, patBit lvl), (4, 4), (3, 3)]
  | .ept => [(5, 3)]
  | .invalid => []

/-- The memory types that an entry can express. -/
def Representable (t : HptType) (pmt : Pmt) : Prop :=
  pmt = pmtUC ∨ pmt = pmtWC ∨ pmt = pmtWT ∨ pmt = pmtWB ∨ t = .ept ∧ pmt = pmtWP

instance : Decidable (Representable t pmt) := inferInstanceAs (Decidable (_ ∨ _))

/-- The entry that comes back from `hpt_pme_set_pmt` has the type, no PAT, and everything else of the entry before. -/
def PmtRoundTrips (t : HptType) (lvl : Nat) (e : Pme) (pmt : Pmt) : Prop :=
  ∃ rv, pmeSetPmt t lvl e pmt = some rv ∧ pmeGetPmt t lvl (rv.setWidth 64) = some pmt ∧
    (t ≠ .ept → pmeGetPat t lvl (rv.setWidth 64) = some false) ∧
    pmeGetAddress t lvl (rv.setWidth 64) = pmeGetAddress t lvl e ∧
    pmeGetprot t lvl (rv.setWidth 64) = pmeGetprot t lvl e ∧
    pmeGetuser t lvl (rv.setWidth 64) = pmeGetuser t lvl e ∧
    ∀ i, ¬ InField (pmtField t lvl) i → (rv.setWidth 64).getLsbD i = e.getLsbD i

/-- The types and levels that have pages. -/
theorem IsLevel.of_isPage (h : IsLevel t lvl) (hpage : pmeIsPage t lvl e = some true) :
    (t = .norm ∨ t = .pae) ∧ (lvl = 1 ∨ lvl = 2) ∨
      (t = .long ∨ t = .ept) ∧ (lvl = 1 ∨ lvl = 2 ∨ lvl = 3) := by
  rcases h.cases with ⟨rfl, rfl | rfl⟩ | ⟨rfl, rfl | rfl | rfl⟩ | ⟨rfl, rfl | rfl | rfl | rfl⟩ |
    ⟨rfl, rfl | rfl | rfl | rfl⟩ <;> simp [pmeIsPage] at hpage ⊢

/-- The memory type is apart from the other fields of a page. -/
structure PmtApart (t : HptType) (lvl : Nat) : Prop where
  address : (pmtField t lvl).Apart [(51, (addressRange t lvl true).2)]
  prot : (pmtField t lvl).Apart (fieldOf t .prot)
  user : (pmtField t lvl).Apart (fieldOf t .user)
  low : (pmtField t lvl).Apart [(63, 32)]
  page : lvl = 1 ∨ (pmtField t lvl).Apart [(7, 7)]

theorem pmtApart (h : IsLevel t lvl) (hpage : pmeIsPage t lvl e = some true) : PmtApart t lvl := by
  rcases h.of_isPage hpage with ⟨rfl | rfl, rfl | rfl⟩ | ⟨rfl | rfl, rfl | rfl | rfl⟩ <;>
    constructor <;> decide

theorem pmeSetPat_page (h : IsLevel t lvl) (hept : t ≠ .ept) (hpage : pmeIsPage t lvl e = some true) :
    pmeSetPat t lvl e false = some (setBit e (patBit lvl) false) := by
  rcases h.of_isPage hpage with ⟨rfl | rfl, rfl | rfl⟩ | ⟨rfl | rfl, rfl | rfl | rfl⟩ <;>
    simp_all [pmeSetPat, patBit]

theorem pmeGetPat_page (h : IsLevel t lvl) (hept : t ≠ .ept) (hpage : pmeIsPage t lvl e = some true) :
    pmeGetPat t lvl e = some (e.getLsbD (patBit lvl)) := by
  have h7 := getBit_eq (show 7 < 64 by decide) e
  have h12 := getBit_eq (show 12 < 64 by decide) e
  rcases h.of_isPage hpage with ⟨rfl | rfl, rfl | rfl⟩ | ⟨rfl | rfl, rfl | rfl | rfl⟩ <;>
    simp_all [pmeGetPat, patBit]

theorem pcdPwt_some (h : Representable t pmt) (hept : t ≠ .ept) :
    ∃ pcd pwt, pcdPwt pmt = some (pcd, pwt) ∧ pmtOf pcd pwt = pmt := by
  rcases h with rfl | rfl | rfl | rfl | ⟨ht, -⟩
  · exact ⟨_, _, rfl, rfl⟩
  · exact ⟨_, _, rfl, rfl⟩
  · exact ⟨_, _, rfl, rfl⟩
  · exact ⟨_, _, rfl, rfl⟩
  · exact absurd ht hept

/-- The entry `rv` is `e` with the memory type, if it still maps a page. -/
structure PutsPmt (t : HptType) (lvl : Nat) (e : Pme) (pmt : Pmt) (rv : Pme) : Prop where
  puts : ∃ v, Puts (pmtField t lvl) v e rv
  pmt : pmeIsPage t lvl rv = some true → pmeGetPmt t lvl rv = some pmt
  pat : pmeIsPage t lvl rv = some true → t ≠ .ept → pmeGetPat t lvl rv = some false

/-- The bits that stand for a memory type in the formats without a field for it. -/
def pmtBits (lvl : Nat) (pcd pwt : Bool) : List (Nat × Bool) := [(patBit lvl, false), (4, pcd), (3, pwt)]

theorem patBit_cases (lvl : Nat) : patBit lvl = 7 ∨ patBit lvl = 12 := by
  unfold patBit
  split
  · exact Or.inl rfl
  · exact Or.inr rfl

theorem pmtBits_lt {pcd pwt : Bool} : ∀ q ∈ pmtBits lvl pcd pwt, q.1 < 64 := by
  have := patBit_cases lvl
  simp only [pmtBits, List.mem_cons, List.not_mem_nil, or_false]
  rintro q (rfl | rfl | rfl)
  all_goals omega

theorem getLsbD_pmtBits (pcd pwt : Bool) (i : Nat) : (setBits (pmtBits lvl pcd pwt) e).getLsbD i =
    if i = 3 then pwt else if i = 4 then pcd else if i = patBit lvl then false else e.getLsbD i := by
  have := patBit_cases lvl
  simp only [pmtBits, setBits, List.foldl_cons, List.foldl_nil]
  rw [getLsbD_setBit (by decide), getLsbD_setBit (by decide), getLsbD_setBit (by omega)]

theorem pmePutPmt_flags (h : IsLevel t lvl) (hept : t ≠ .ept) (hpage : pmeIsPage t lvl e = some true)
    (hpmt : Representable t pmt) : ∃ rv, pmePutPmt t lvl e pmt = some rv ∧ PutsPmt t lvl e pmt rv := by
  obtain ⟨pcd, pwt, hbits, hback⟩ := pcdPwt_some hpmt hept
  have hpat := pmeSetPat_page h hept hpage
  have hput := puts_setBits (@pmtBits_lt lvl pcd pwt) e
  have h4 : getBit (setBits (pmtBits lvl pcd pwt) e) 4 = pcd := by
    rw [getBit_eq (by decide), getLsbD_pmtBits]
    rfl
  have h3 : getBit (setBits (pmtBits lvl pcd pwt) e) 3 = pwt := by
    rw [getBit_eq (by decide), getLsbD_pmtBits]
    rfl
  have hget : ∀ hpage' : pmeIsPage t lvl (setBits (pmtBits lvl pcd pwt) e) = some true,
      pmeGetPat t lvl (setBits (pmtBits lvl pcd pwt) e) = some false := fun hpage' => by
    have := patBit_cases lvl
    rw [pmeGetPat_page h hept hpage', getLsbD_pmtBits, if_neg (by omega), if_neg (by omega), if_pos rfl]
  cases t with
  | norm | pae | long =>
    refine ⟨setBits (pmtBits lvl pcd pwt) e, ?_, ⟨_, hput⟩, fun _ => ?_, fun hpage' _ => hget hpage'⟩
    · simp only [pmePutPmt, hbits, hpat, Option.bind_eq_bind, Option.bind_some]
      rfl
    · simp only [pmeGetPmt, pmeGetPcd, pmeGetPwt, pmeGetBit, h4, h3, Option.bind_eq_bind, Option.bind_some]
      exact congrArg some hback
  | ept => exact absurd rfl hept
  | invalid => exact absurd rfl h.type

theorem pmePutPmt_ept (h : IsLevel .ept lvl) (hpage : pmeIsPage .ept lvl e = some true)
    (hpmt : Representable .ept pmt) : ∃ rv, pmePutPmt .ept lvl e pmt = some rv ∧ PutsPmt .ept lvl e pmt rv := by
  have hle : lvl ≤ 3 := by
    rcases h.of_isPage hpage with ⟨ht | ht, -⟩ | ⟨-, hlvl⟩
    · cases ht
    · cases ht
    · omega
  have hfits : zeroHi64 (pmt.setWidth 64) (63 - (5 - 3)) = pmt.setWidth 64 := by
    rcases hpmt with rfl | rfl | rfl | rfl | ⟨-, rfl⟩
    all_goals decide +kernel
  have hput := puts_insertHL (show 5 < 64 by decide) (show 3 ≤ 5 by decide) hfits e
  refine ⟨insertHL e 5 3 (pmt.setWidth 64), ?_, ⟨_, hput⟩, fun hpage' => ?_, fun _ hept => absurd rfl hept⟩
  · simp only [pmePutPmt, if_pos (And.intro hle hpage), setHL, if_pos hfits]
  · have hmt : getHL (insertHL e 5 3 (pmt.setWidth 64)) 5 3 = getHL (pmt.setWidth 64 <<< 3) 5 3 := by
      refine reads_getHL (by decide) _ _ fun i hi => ?_
      rw [hput i, if_pos hi]
    simp only [pmeGetPmt, if_pos (And.intro hle hpage'), hmt]
    rcases hpmt with rfl | rfl | rfl | rfl | ⟨-, rfl⟩
    all_goals decide +kernel

theorem pmePutPmt_some (h : IsLevel t lvl) (hpage : pmeIsPage t lvl e = some true)
    (hpmt : Representable t pmt) : ∃ rv, pmePutPmt t lvl e pmt = some rv ∧ PutsPmt t lvl e pmt rv := by
  by_cases hept : t = .ept
  · subst hept
    exact pmePutPmt_ept h hpage hpmt
  · exact pmePutPmt_flags h hept hpage hpmt

/-- An entry below 4 GB survives being cut to 32 bits. -/
theorem setWidth_back {x : Pme} (h : x.toNat < 2 ^ 32) : (x.setWidth 32).setWidth 64 = x := by
  apply BitVec.eq_of_toNat_eq
  rw [BitVec.toNat_setWidth, BitVec.toNat_setWidth, Nat.mod_eq_of_lt h, Nat.mod_eq_of_lt x.isLt]

/-- **The memory type codec** round-trips exactly where the entry has no bits above 31: for 4-byte entries and
for pages below 4 GB without the no-execute flag. -/
theorem pmt_roundTrips_iff (h : IsLevel t lvl) (hpage : pmeIsPage t lvl e = some true)
    (hpmt : Representable t pmt) : PmtRoundTrips t lvl e pmt ↔ e.toNat < 2 ^ 32 := by
  obtain ⟨haddress, hprot, huser, hlow, h7⟩ := pmtApart h hpage
  obtain ⟨rv, hrv, ⟨v, hput⟩, hget, hpat⟩ := pmePutPmt_some h hpage hpmt
  have hwithin : Field.Within (pmtField t lvl) (pmtField t lvl) := fun _ hi => hi
  have hset : pmeSetPmt t lvl e pmt = some (rv.setWidth 32) := by
    rw [pmeSetPmt, hrv, Option.map_some]
  constructor
  · rintro ⟨r, hr, -, -, -, -, -, hkeep⟩
    refine Nat.lt_pow_two_of_testBit _ fun i hi => ?_
    by_cases hi64 : i < 64
    · have hnot : ¬ InField (pmtField t lvl) i := hlow.symm.not_inField (inField_range.2 ⟨hi, by omega⟩)
      have hout := hkeep i hnot
      rw [BitVec.getLsbD_setWidth, BitVec.getLsbD_of_ge r i hi, Bool.and_false] at hout
      exact hout.symm
    · exact BitVec.getLsbD_of_ge e i (Nat.not_lt.1 hi64)
  · intro hlt
    have hsmall : rv.toNat < 2 ^ 32 := by
      refine Nat.lt_pow_two_of_testBit _ fun i hi => ?_
      by_cases hi64 : i < 64
      · have hnot : ¬ InField (pmtField t lvl) i := hlow.symm.not_inField (inField_range.2 ⟨hi, by omega⟩)
        exact (hput.eq_of_not_inField hnot).trans (getLsbD_of_lt hlt hi)
      · exact BitVec.getLsbD_of_ge rv i (Nat.not_lt.1 hi64)
    have hpage' : pmeIsPage t lvl rv = some true := by
      rcases h7 with rfl | h7
      · rcases h.cases with ⟨rfl, _⟩ | ⟨rfl, _⟩ | ⟨rfl, _⟩ | ⟨rfl, _⟩ <;> rfl
      · exact (reads_isPage e rv (hput.agree hwithin h7)).trans hpage
    refine ⟨_, hset, ?_⟩
    rw [setWidth_back hsmall]
    refine ⟨hget hpage', hpat hpage', ?_, ?_, ?_, fun i hi => hput.eq_of_not_inField hi⟩
    · exact pmeGetAddress_congr hpage hpage' (hput.agree hwithin haddress)
    · exact reads_prot e rv (hput.agree hwithin hprot)
    · exact reads_user e rv (hput.agree hwithin huser)

/-- A page of PAE that may not be executed comes back as one that may. -/
theorem pmt_roundTrips_not : IsLevel .pae 1 ∧ pmeIsPage .pae 1 0x8000000000000067 = some true ∧
    Representable .pae pmtUC ∧ ¬ PmtRoundTrips .pae 1 0x8000000000000067 pmtUC := by
  refine ⟨⟨by decide, by decide, by decide⟩, by decide +kernel, by decide, ?_⟩
  rintro ⟨rv, hset, -, -, -, hprot, -⟩
  have hcut : pmeSetPmt .pae 1 0x8000000000000067 pmtUC = some 0x7F := by decide +kernel
  obtain rfl : _ = rv := Option.some.inj (hcut.symm.trans hset)
  exact absurd hprot (by decide +kernel)

theorem pmt_roundTrips_iff_ept : PmtRoundTrips .ept 2 0x602087 pmtWB :=
  (pmt_roundTrips_iff ⟨by decide, by decide, by decide⟩ (by decide +kernel) (by decide)).2 (by decide)

end Xmhf.Hpt
