import Xmhf.Boot.Proof.Mtrrs

/-!
# Checking and restoring the MTRRs

* `conflictFree_sound`, `combine_isSome`: ranges that pass the check leave no page without a type.
* `restoreMtrrs_spec`: the registers after `restore_mtrrs`, and the switch is off while the ranges change.
* `restore_validated`: a state that passes the check is restored, and every page has a type then.
* `restore_launch`: saving, setting the MTRRs for the AC module and restoring leave a core as it was.
-/

namespace Xmhf.Mtrrs

open Xmhf.Bitfield Xmhf.Loop Xmhf.Mask Xmhf.Memprot

variable {c c' : Core} {vcnt num ndx i : Nat} {saved : MtrrState}

/-! ## What the check finds -/

/-- The bit that a scan stops at, if it stops before the end. -/
theorem scanBits_spec (mask : BitVec 24) (stop : Bool) {i : Nat} (hi : i ≤ 24) :
    i ≤ scanBits mask stop i ∧ scanBits mask stop i ≤ 24 ∧
      (∀ l, i ≤ l → l < scanBits mask stop i → mask.getLsbD l = !stop) ∧
      (scanBits mask stop i < 24 → mask.getLsbD (scanBits mask stop i) = stop) := by
  fun_induction scanBits mask stop i with
  | case1 i h hbit => exact ⟨Nat.le_refl _, hi, fun l h1 h2 => by omega, fun _ => hbit⟩
  | case2 i h hbit ih =>
    obtain ⟨h1, h2, h3, h4⟩ := ih h
    refine ⟨by omega, h2, fun l hl hl' => ?_, h4⟩
    rcases Nat.eq_or_lt_of_le hl with rfl | hlt
    · exact Bool.eq_not.2 hbit
    · exact h3 l hlt hl'
  | case3 i h => exact ⟨Nat.le_refl _, hi, fun l h1 h2 => by omega, fun h' => absurd h' h⟩

/-- A mask that passes is one of a range of a power of two. -/
theorem high_of_contiguous {mask : BitVec 24} (h : contiguous mask = true) : ∃ k, High mask k := by
  obtain ⟨-, hle, hzero, -⟩ := scanBits_spec mask true (Nat.zero_le 24)
  obtain ⟨-, -, hone, -⟩ := scanBits_spec mask false hle
  rw [contiguous, beq_iff_eq] at h
  rw [h] at hone
  refine ⟨scanBits mask true 0, fun i hi => ?_⟩
  by_cases hk : scanBits mask true 0 ≤ i
  · rw [decide_eq_true hk]
    exact hone i hk hi
  · rw [decide_eq_false hk]
    exact hzero i (Nat.zero_le i) (Nat.not_le.1 hk)

/-- Of two ranges with a page in common, one starts in the other. -/
theorem startsIn_of_covers {a b : VarMtrr} {k l : Nat} {page : BitVec 24} (hk : High a.mask k) (hl : High b.mask l)
    (ha : a.covers page = true) (hb : b.covers page = true) : a.startsIn b = true ∨ b.startsIn a = true := by
  simp only [VarMtrr.covers, VarMtrr.startsIn, beq_iff_eq] at ha hb ⊢
  rcases hk.nested hl with h | h
  · refine Or.inl ?_
    rw [← ha, BitVec.and_assoc, h, hb]
  · refine Or.inr ?_
    rw [← hb, BitVec.and_assoc, BitVec.and_comm b.mask, h, ha]

/-- A range has the pages of a range that lies in it. -/
theorem covers_of_liesIn {a u : VarMtrr} {page : BitVec 24} (h : a.liesIn u = true) (ha : a.covers page = true) :
    u.covers page = true := by
  simp only [VarMtrr.covers, VarMtrr.startsIn, VarMtrr.liesIn, beq_iff_eq, Bool.and_eq_true] at h ha ⊢
  have hsub : a.mask &&& u.mask = u.mask := by
    apply BitVec.eq_of_getLsbD_eq
    intro i hi
    have hbit := congrArg (fun m => m.getLsbD i) h.2
    simp only [BitVec.getLsbD_and, BitVec.getLsbD_not, hi, decide_true, Bool.true_and] at hbit
    rw [BitVec.getLsbD_and]
    cases ha' : a.mask.getLsbD i <;> cases hu : u.mask.getLsbD i <;> simp_all
  rw [← h.1, ← ha, BitVec.and_assoc, hsub]

/-- Two types that may overlap. -/
def Mix (t u : BitVec 8) : Prop :=
  t = u ∨ (t = typeWrthrough ∨ t = typeWrback) ∧ (u = typeWrthrough ∨ u = typeWrback)

theorem mix_of_typesMix {t u : BitVec 8} (h : typesMix t u = true) (ht : t ≠ typeUncachable)
    (hu : u ≠ typeUncachable) : Mix t u := by
  simp only [typesMix, Bool.or_eq_true, Bool.and_eq_true, beq_iff_eq, ht, hu, or_false] at h
  unfold Mix
  tauto

/-- Types that mix two by two, or an uncachable one, give a page its type. -/
theorem combine_isSome {dflt : BitVec 8} {ts : List (BitVec 8)}
    (h : typeUncachable ∈ ts ∨ ∀ t ∈ ts, ∀ u ∈ ts, Mix t u) : (combine dflt ts).isSome := by
  cases ts with
  | nil => rfl
  | cons t ts =>
    rw [combine]
    split
    · rfl
    · next huc =>
      have hmix := h.resolve_left huc
      split
      · rfl
      · next hne =>
        rw [if_pos]
        · rfl
        · obtain ⟨u, hu, hut⟩ : ∃ u ∈ ts, u ≠ t := by simpa using hne
          intro x hx
          rcases hmix x hx t List.mem_cons_self with rfl | ⟨hx', -⟩
          · rcases hmix x List.mem_cons_self u (List.mem_cons_of_mem x hu) with rfl | ⟨hx', -⟩
            · exact absurd rfl hut
            · exact hx'
          · exact hx'

/-- Two ranges that pass: where they meet, their types mix or the page is in an uncachable range. -/
theorem conflictFree_sound {a b : VarMtrr} {page : BitVec 24} (ha : saved.var ndx = some a)
    (hb : saved.var i = some b) (h : conflictFree saved num ndx i = some true) (hv : b.v = true) {k l : Nat}
    (hk : High a.mask k) (hl : High b.mask l) (hca : a.covers page = true) (hcb : b.covers page = true) :
    typesMix a.type b.type = true ∨
      ∃ j < num, ∃ u, saved.var j = some u ∧ u.v = true ∧ u.type = typeUncachable ∧ u.covers page = true := by
  have hmeet : (!a.startsIn b && !b.startsIn a) = false := by
    rcases startsIn_of_covers hk hl hca hcb with h | h <;> simp [h]
  simp only [conflictFree, ha, hb, hv, hmeet, Option.bind_eq_bind, Option.bind_some, Bool.not_true, Option.pure_def,
    Bool.false_eq_true, if_false] at h
  split at h
  · next hmix => exact Or.inl hmix
  · obtain ⟨j, hj, hu⟩ := anyM_eq_true h
    refine Or.inr ⟨j, List.mem_range.1 hj, ?_⟩
    obtain ⟨u, hvar, hu⟩ := Option.bind_eq_some_iff.1 hu
    simp only [Option.some.injEq, Bool.and_eq_true, Bool.or_eq_true, beq_iff_eq] at hu
    refine ⟨u, hvar, hu.1.1, hu.1.2, ?_⟩
    exact hu.2.elim (fun h => covers_of_liesIn h hca) fun h => covers_of_liesIn h hcb

/-- What a state that passes has. -/
structure Valid (saved : MtrrState) (vcnt num : Nat) : Prop where
  le : num ≤ vcnt
  regular : ∀ ndx < num, ∃ r, saved.var ndx = some r ∧ (r.v = true → contiguous r.mask = true)
  free : ∀ ndx i r, ndx < i → i < num → saved.var ndx = some r → r.v = true → conflictFree saved num ndx i = some true

theorem valid_of_validateMtrrs {cap : BitVec 64} (hcap : c.msrs msrMTRRcap = some cap)
    (he : isEnabled saved.mtrrDefType = true) (h : validateMtrrs c saved = some true) :
    Valid saved (vcntOf cap) saved.numVarMtrrs.toNat := by
  simp only [validateMtrrs, he, Core.rdmsr64, hcap, Bool.not_true, Bool.false_eq_true, if_false,
    Option.bind_eq_bind, Option.bind_some] at h
  split at h
  · cases h
  · next hle =>
    obtain ⟨regular, hreg, h⟩ := Option.bind_eq_some_iff.1 h
    cases regular with
    | false => cases h
    | true =>
      refine ⟨by omega, fun ndx hndx => ?_, fun ndx i r hlt hi hr hv => ?_⟩
      · obtain ⟨r, hr, hok⟩ := Option.bind_eq_some_iff.1 (allM_eq_true hreg (List.mem_range.2 hndx))
        refine ⟨r, hr, fun hv => ?_⟩
        simpa [hv] using hok
      · have hrow := allM_eq_true (by simpa using h) (List.mem_range.2 (Nat.lt_trans hlt hi))
        simp only [hr, hv, Option.bind_some] at hrow
        exact allM_eq_true hrow (List.mem_range'_1.2 (by omega))

/-- **A state that passes leaves no page without a type.** -/
theorem Valid.combine_isSome {types : List (BitVec 8)} {dflt : BitVec 8} {page : BitVec 24}
    (h : Valid saved vcnt num) (htypes : ∀ t, t ∈ types ↔
      ∃ i < num, ∃ r, saved.var i = some r ∧ (r.v = true ∧ r.covers page = true) ∧ r.type = t) :
    (combine dflt types).isSome := by
  apply Mtrrs.combine_isSome
  by_cases huc : typeUncachable ∈ types
  · exact Or.inl huc
  · refine Or.inr fun t ht u hu => ?_
    -- the check looks at each pair once, the range with the smaller index first
    have hpair : ∀ i j a b, i < j → j < num → saved.var i = some a → saved.var j = some b → a.v = true →
        b.v = true → a.covers page = true → b.covers page = true → Mix a.type b.type := by
      intro i j a b hij hj ha hb hva hvb hca hcb
      obtain ⟨a', ha', hrega⟩ := h.regular i (Nat.lt_trans hij hj)
      obtain rfl := Option.some.inj (ha.symm.trans ha')
      obtain ⟨b', hb', hregb⟩ := h.regular j hj
      obtain rfl := Option.some.inj (hb.symm.trans hb')
      obtain ⟨k, hk⟩ := high_of_contiguous (hrega hva)
      obtain ⟨l, hl⟩ := high_of_contiguous (hregb hvb)
      rcases conflictFree_sound ha hb (h.free i j a hij hj ha hva) hvb hk hl hca hcb with
        hmix | ⟨n, hn, x, hx, hvx, htx, hcx⟩
      · refine mix_of_typesMix hmix (fun heq => huc ?_) fun heq => huc ?_
        · exact (htypes _).2 ⟨i, Nat.lt_trans hij hj, a, ha, ⟨hva, hca⟩, heq⟩
        · exact (htypes _).2 ⟨j, hj, b, hb, ⟨hvb, hcb⟩, heq⟩
      · exact absurd ((htypes _).2 ⟨n, hn, x, hx, ⟨hvx, hcx⟩, htx⟩) huc
    obtain ⟨i, hi, a, ha, ⟨hva, hca⟩, rfl⟩ := (htypes t).1 ht
    obtain ⟨j, hj, b, hb, ⟨hvb, hcb⟩, rfl⟩ := (htypes u).1 hu
    rcases Nat.lt_trichotomy i j with hlt | rfl | hgt
    · exact hpair i j a b hlt hj ha hb hva hvb hca hcb
    · obtain rfl := Option.some.inj (ha.symm.trans hb)
      exact Or.inl rfl
    · rcases hpair j i b a hgt hi hb ha hvb hva hcb hca with heq | hwt
      · exact Or.inl heq.symm
      · exact Or.inr hwt.symm

/-! ## Restoring -/

theorem restoreRange_spec (hc : c.HasMtrrs vcnt) (hoff : c.enabled = false) (hndx : ndx < vcnt) {r : VarMtrr}
    (hr : saved.var ndx = some r) : ∃ c', restoreRange saved c ndx = some c' ∧
      Changes c c' (0x200 + 2 * ndx) (0x200 + 2 * (ndx + 1)) ∧ c'.var ndx = some r := by
  obtain ⟨b, hb, hr⟩ := Option.bind_eq_some_iff.1 hr
  obtain ⟨m, hm, hr⟩ := Option.bind_eq_some_iff.1 hr
  obtain rfl := Option.some.inj hr
  have hbelow := hc.below
  have hne : mtrrPhysMask0Msr + ndx * 2 ≠ mtrrPhysBase0Msr + ndx * 2 := by
    unfold mtrrPhysBase0Msr mtrrPhysMask0Msr
    omega
  have hsome : (c.msrs (mtrrPhysMask0Msr + ndx * 2)).isSome :=
    hc.var _ (by unfold mtrrPhysMask0Msr; omega) (by unfold mtrrPhysMask0Msr; omega)
  have hch : Changes c (c.put (mtrrPhysMask0Msr + ndx * 2) m) (0x200 + 2 * ndx) (0x200 + 2 * (ndx + 1)) :=
    changes_put hsome (by unfold mtrrPhysMask0Msr; omega) (by unfold mtrrPhysMask0Msr; omega)
  have hsome' : ((c.put (mtrrPhysMask0Msr + ndx * 2) m).msrs (mtrrPhysBase0Msr + ndx * 2)).isSome :=
    (hch.present _).trans (hc.var _ (by unfold mtrrPhysBase0Msr; omega) (by unfold mtrrPhysBase0Msr; omega))
  have hoff' := (hch.enabled_eq (by omega)).trans hoff
  refine ⟨(c.put (mtrrPhysMask0Msr + ndx * 2) m).put (mtrrPhysBase0Msr + ndx * 2) b, ?_,
    hch.trans (changes_put hsome' (by unfold mtrrPhysBase0Msr; omega) (by unfold mtrrPhysBase0Msr; omega)), ?_⟩
  · simp only [restoreRange, hm, hb, Option.bind_eq_bind, Option.bind_some]
    rw [wrmsr64_eq hsome fun _ => hoff, Option.bind_some, wrmsr64_eq hsome' fun _ => hoff']
  · simp [Core.var, Function.update_of_ne hne]

/-- **`restore_mtrrs`**: the saved ranges are back, and the other registers are as they were. -/
theorem restoreMtrrs_spec (hc : c.HasMtrrs vcnt) (hle : saved.numVarMtrrs.toNat ≤ vcnt)
    (hvar : ∀ i < saved.numVarMtrrs.toNat, ∃ r, saved.var i = some r) :
    ∃ c', restoreMtrrs c (some saved) = some c' ∧ c'.msrs msrMTRRdefType = some saved.mtrrDefType ∧
      (∀ i < saved.numVarMtrrs.toNat, c'.var i = saved.var i) ∧
      c.SameElsewhere c' saved.numVarMtrrs.toNat ∧ c'.cr0 = c.cr0 ∧ c'.cr4 = c.cr4 ∧ c'.eflags = c.eflags := by
  have hbelow := hc.below
  obtain ⟨raw, c₁, -, hset, -, hch₁, hoff₁⟩ := setAllMtrrs_spec hc false
  have hc₁ := hch₁.hasMtrrs (by decide) hc
  obtain ⟨c₂, hrun, hch₂, hback⟩ : ∃ c₂,
      (List.range saved.numVarMtrrs.toNat).foldlM (restoreRange saved) c₁ = some c₂ ∧
      Changes c₁ c₂ 0x200 (0x200 + 2 * saved.numVarMtrrs.toNat) ∧
      ∀ i < saved.numVarMtrrs.toNat, c₂.var i = saved.var i := by
    refine foldlM_range_inv (P := fun n d => Changes c₁ d 0x200 (0x200 + 2 * saved.numVarMtrrs.toNat) ∧
      ∀ i < n, d.var i = saved.var i) ⟨.refl .., fun i hi => absurd hi (Nat.not_lt_zero i)⟩ fun ndx d hndx hd => ?_
    obtain ⟨r, hr⟩ := hvar ndx hndx
    obtain ⟨d', hd', hch', hvar'⟩ := restoreRange_spec (hd.1.hasMtrrs (by decide) hc₁)
      ((hd.1.enabled_eq (by omega)).trans hoff₁) (Nat.lt_of_lt_of_le hndx hle) hr
    refine ⟨d', hd', hd.1.trans (hch'.mono (by omega) (by omega)), fun i hi => ?_⟩
    rcases Nat.lt_succ_iff_lt_or_eq.1 hi with hlt | rfl
    · rw [hch'.var_eq hlt, hd.2 i hlt]
    · rw [hvar', hr]
  have hdef₂ : (c₂.msrs msrMTRRdefType).isSome := (hch₂.present _).trans hc₁.defType
  have hch₃ : Changes c₂ (c₂.put msrMTRRdefType saved.mtrrDefType) msrMTRRdefType (msrMTRRdefType + 1) :=
    changes_put hdef₂ (Nat.le_refl _) (Nat.lt_succ_self _)
  refine ⟨c₂.put msrMTRRdefType saved.mtrrDefType, ?_, by rw [Core.put_msrs, Function.update_self], fun i hi => ?_,
    ⟨fun msr hmsr hne => ?_, fun msr => ?_⟩, hch₂.cr0.trans hch₁.cr0, hch₂.cr4.trans hch₁.cr4,
    hch₂.eflags.trans hch₁.eflags⟩
  · simp only [restoreMtrrs, hset, hrun, Option.bind_eq_bind, Option.bind_some]
    exact wrmsr64_eq hdef₂ fun h => absurd h (by decide)
  · rw [← hback i hi]
    have hle := hc.le
    exact (hch₃.mono (by decide : 0x200 + 2 * 127 ≤ msrMTRRdefType) (Nat.le_refl _)).var_eq (by omega)
  · have hout : msr < msrMTRRdefType ∨ msrMTRRdefType + 1 ≤ msr := by omega
    rw [hch₃.msrs msr hout, hch₂.msrs msr hmsr, hch₁.msrs msr hout]
  · exact ((hch₃.present msr).trans (hch₂.present msr)).trans (hch₁.present msr)

/-! ## The launch -/

/-- The fixed-range MTRRs are there. -/
def Core.HasFixed (c : Core) : Prop := ∀ r ∈ fixedMtrrs, (c.msrs r.msr).isSome

theorem SameElsewhere.hasMtrrs {n : Nat} (h : c.SameElsewhere c' n) (hc : c.HasMtrrs vcnt) : c'.HasMtrrs vcnt where
  pos := hc.pos
  le := hc.le
  cap := by
    rw [h.1 _ (Or.inl (by decide)) (by decide)]
    exact hc.cap
  defType := (h.2 _).trans hc.defType
  var msr h1 h2 := (h.2 msr).trans (hc.var msr h1 h2)

/-- A page below 1 MB is in one of the fixed ranges. -/
theorem fixedType_isSome (h : c.HasFixed) {page : BitVec 24} (hp : page.toNat < 256) : (c.fixedType page).isSome := by
  have hfind : (fixedMtrrs.find? fun r =>
      r.base ≤ page.toNat * 4096 ∧ page.toNat * 4096 < r.base + 8 * r.size).isSome := by
    rw [List.find?_isSome]
    simp only [fixedMtrrs, List.mem_cons, List.not_mem_nil, or_false, decide_eq_true_eq, exists_eq_or_imp,
      exists_eq_left]
    omega
  obtain ⟨r, hr⟩ := Option.isSome_iff_exists.1 hfind
  obtain ⟨raw, hraw⟩ := Option.isSome_iff_exists.1 (h r (List.mem_of_find?_eq_some hr))
  simp only [Core.fixedType, hr, hraw, Option.bind_eq_bind, Option.bind_some]
  rfl

/-- **`save_mtrrs`** saves the ranges of a core that has no more of them than there is room for. -/
theorem saveMtrrs_spec (hc : c.HasMtrrs vcnt) (h16 : vcnt ≤ maxVariableMtrrs) (blank : MtrrState) :
    ∃ saved, saveMtrrs c blank = some saved ∧ saved.numVarMtrrs = vcnt ∧
      c.msrs msrMTRRdefType = some saved.mtrrDefType ∧ ∀ i < vcnt, saved.var i = c.var i := by
  obtain ⟨raw, hraw⟩ := Option.isSome_iff_exists.1 hc.defType
  obtain ⟨cap, hcap, rfl⟩ := hc.cap
  obtain ⟨saved, hrun, hnum, hdef, hvar⟩ : ∃ saved, (List.range (vcntOf cap)).foldlM (saveRange c)
      { blank with mtrrDefType := raw, numVarMtrrs := vcntOf cap } = some saved ∧ saved.numVarMtrrs = vcntOf cap ∧
      saved.mtrrDefType = raw ∧ ∀ i < vcntOf cap, saved.var i = c.var i := by
    refine foldlM_range_inv (P := fun n (s : MtrrState) => s.numVarMtrrs = vcntOf cap ∧ s.mtrrDefType = raw ∧
      ∀ i < n, s.var i = c.var i) ⟨rfl, rfl, fun i hi => absurd hi (Nat.not_lt_zero i)⟩ fun ndx s hndx hs => ?_
    obtain ⟨b, m, hb, hm⟩ := hc.regs hndx
    have h16' : ndx < 16 := Nat.lt_of_lt_of_le hndx h16
    refine ⟨{ s with
      mtrrPhysmasks := s.mtrrPhysmasks.setIfInBounds ndx m
      mtrrPhysbases := s.mtrrPhysbases.setIfInBounds ndx b }, ?_, hs.1, hs.2.1, fun i hi => ?_⟩
    · simp only [saveRange, Core.rdmsr64, hb, hm, Option.bind_eq_bind, Option.bind_some, Option.pure_def]
    · rcases Nat.lt_succ_iff_lt_or_eq.1 hi with hlt | rfl
      · rw [← hs.2.2 i hlt]
        simp [MtrrState.var, Nat.ne_of_gt hlt]
      · simp [MtrrState.var, Core.var, h16', hb, hm]
  refine ⟨saved, ?_, hnum, by rw [hdef, hraw], hvar⟩
  simp only [saveMtrrs, Core.rdmsr64, hraw, hcap, Option.bind_eq_bind, Option.bind_some]
  rw [if_neg (Nat.not_lt.2 h16), hrun]

/-- **Through the launch**: on a core with at most 16 variable ranges, saving the MTRRs, setting them for the AC
module and restoring them leaves the core as it was, and the check in between judges the same ranges. -/
theorem restore_launch (hc : c.HasMtrrs vcnt) (h16 : vcnt ≤ maxVariableMtrrs) (blank : MtrrState)
    {hdr size : BitVec 32} (hfit : hdr.toNat / 4096 + numPagesOf (size * 4) ≤ 2 ^ 20)
    (hones : (numPagesOf (size * 4)).bitIndices.length < vcnt) :
    ∃ saved c₁, saveMtrrs c blank = some saved ∧ setMtrrsForAcmod c hdr size = some (true, c₁) ∧
      validateMtrrs c₁ saved = validateMtrrs c saved ∧ restoreMtrrs c₁ (some saved) = some c := by
  obtain ⟨saved, hsave, hnum, hdef, hvar⟩ := saveMtrrs_spec hc h16 blank
  obtain ⟨ok, raw, c₁, hset, hsame, hok, htrue, -⟩ := setMtrrsForAcmod_spec hc hfit
  obtain rfl : ok = true := hok.2 hones
  obtain ⟨⟨hcr0, hcr4, hflags⟩, -⟩ := htrue rfl
  have hnat : saved.numVarMtrrs.toNat = vcnt := by rw [hnum, Int.toNat_natCast]
  have hc₁ := SameElsewhere.hasMtrrs hsame hc
  obtain ⟨c₂, hrest, hdef₂, hvar₂, hsame₂, hcr0₂, hcr4₂, hflags₂⟩ := restoreMtrrs_spec hc₁ (Nat.le_of_eq hnat)
    fun i hi => by
      obtain ⟨b, m, hb, hm⟩ := @Core.HasMtrrs.regs _ _ hc i (by omega)
      exact ⟨⟨b, m⟩, by rw [hvar i (by omega)]; simp [Core.var, hb, hm]⟩
  refine ⟨saved, c₁, hsave, hset, ?_, ?_⟩
  · rw [validateMtrrs, validateMtrrs, Core.rdmsr64, Core.rdmsr64, hsame.1 _ (Or.inl (by decide)) (by decide)]
  · have hmsrs : c₂.msrs = c.msrs := by
      funext msr
      rw [hnat] at hvar₂ hsame₂
      by_cases hin : 0x200 ≤ msr ∧ msr < 0x200 + 2 * vcnt
      · obtain ⟨i, hi, hmsr⟩ : ∃ i < vcnt, msr = mtrrPhysBase0Msr + i * 2 ∨ msr = mtrrPhysMask0Msr + i * 2 :=
          ⟨(msr - 0x200) / 2, by omega, by unfold mtrrPhysBase0Msr mtrrPhysMask0Msr; omega⟩
        obtain ⟨b, m, hb, hm⟩ := hc.regs hi
        obtain ⟨b₂, m₂, hb₂, hm₂⟩ := (SameElsewhere.hasMtrrs hsame₂ hc₁).regs hi
        have heq := (hvar₂ i hi).trans (hvar i hi)
        simp only [Core.var, hb, hm, hb₂, hm₂, Option.bind_eq_bind, Option.bind_some, Option.pure_def,
          Option.some.injEq, VarMtrr.mk.injEq] at heq
        rcases hmsr with rfl | rfl
        · rw [hb, hb₂, heq.1]
        · rw [hm, hm₂, heq.2]
      · by_cases hd : msr = msrMTRRdefType
        · rw [hd, hdef₂, hdef]
        · rw [hsame₂.1 msr (by omega) hd, hsame.1 msr (by omega) hd]
    have heq : c₂ = c := by
      cases c₂
      cases c
      simp_all
    rw [hrest, heq]

/-- One write-back range of 128 MB at zero. -/
def saved1 : MtrrState where
  mtrrDefType := 0xC00
  numVarMtrrs := 1
  mtrrPhysbases := (Vector.replicate 16 0).set 0 6
  mtrrPhysmasks := (Vector.replicate 16 0).set 0 0xFF8000800

theorem restore_launch_core8 : ∃ saved c₁, saveMtrrs core8 saved1 = some saved ∧
    setMtrrsForAcmod core8 0x20000000 0x1000 = some (true, c₁) ∧ restoreMtrrs c₁ (some saved) = some core8 := by
  have hpages : numPagesOf (0x1000 * 4) = 2 ^ 2 := by decide
  obtain ⟨saved, c₁, hsave, hset, -, hrest⟩ :=
    @restore_launch core8 8 core8_hasMtrrs (by decide) saved1 0x20000000 0x1000 (by decide)
      (by rw [hpages, Nat.bitIndices_two_pow]; decide)
  exact ⟨saved, c₁, hsave, hset, hrest⟩

end Xmhf.Mtrrs
