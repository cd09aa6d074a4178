import Xmhf.Boot.Mtrrs
import Xmhf.Lib.Loop
import Xmhf.Lib.Mask

/-!
# Memory types around the measured launch

* `Changes c c' lo hi`: the MSRs from `lo` up to `hi` may have new values.
* `setRanges_spec`: the variable ranges that `set_mem_type` takes are the pieces of the number of pages.
* `setMtrrsForAcmod_exact_iff`: the pages of the AC module, and no other ones, are write-back just if the
  largest piece is aligned; and a core whose ranges are all needed is refused.
* `validateMtrrs_sound`: ranges that pass the check give each page a type.
* `restore_launch`: saving, setting, checking and restoring leave the MTRRs as they were.
-/

namespace Xmhf.Mtrrs

open Xmhf.Bitfield Xmhf.Loop Xmhf.Mask

variable {c c' c'' : Core} {vcnt lo hi msr : Nat} {val : BitVec 64}

/-! ## Fields -/

theorem getLsbD_storeField {hi lo : Nat} (h : hi < 64) (hlo : lo ≤ hi) (raw v : BitVec 64) (i : Nat) :
    (storeField raw hi lo v).getLsbD i = if lo ≤ i ∧ i ≤ hi then v.getLsbD (i - lo) else raw.getLsbD i := by
  rw [storeField, getLsbD_copyBits (by omega), Nat.zero_add, Nat.sub_add_cancel hlo]

/-- A store to one field, read from another one. -/
theorem extractLsb'_storeField_of_apart {hi lo : Nat} (h : hi < 64) (hlo : lo ≤ hi) (raw v : BitVec 64)
    {start len : Nat} (hap : start + len ≤ lo ∨ hi < start) :
    (storeField raw hi lo v).extractLsb' start len = raw.extractLsb' start len := by
  apply BitVec.eq_of_getLsbD_eq
  intro i hi'
  rw [BitVec.getLsbD_extractLsb', BitVec.getLsbD_extractLsb', getLsbD_storeField h hlo, if_neg (by omega)]

/-- A store to a field, read back. -/
theorem extractLsb'_storeField_self {lo len : Nat} (h : lo + len ≤ 64) (hlen : 0 < len) (raw v : BitVec 64) :
    (storeField raw (lo + len - 1) lo v).extractLsb' lo len = v.setWidth len := by
  apply BitVec.eq_of_getLsbD_eq
  intro i hi
  rw [BitVec.getLsbD_extractLsb', getLsbD_storeField (by omega) (by omega), if_pos (by omega),
    Nat.add_sub_cancel_left, BitVec.getLsbD_setWidth]

theorem extractLsb'_setBit_of_apart {pos : Nat} (h : pos < 64) (raw : BitVec 64) (b : Bool) {start len : Nat}
    (hap : start + len ≤ pos ∨ pos < start) :
    (setBit raw pos b).extractLsb' start len = raw.extractLsb' start len := by
  apply BitVec.eq_of_getLsbD_eq
  intro i hi
  rw [BitVec.getLsbD_extractLsb', BitVec.getLsbD_extractLsb', getLsbD_setBit h, if_neg (by omega)]

/-! ## Changes of the MSRs -/

/-- The MSRs from `lo` up to `hi` may have new values. -/
structure Changes (c c' : Core) (lo hi : Nat) : Prop where
  msrs : ∀ msr, msr < lo ∨ hi ≤ msr → c'.msrs msr = c.msrs msr
  present : ∀ msr, (c'.msrs msr).isSome = (c.msrs msr).isSome
  cr0 : c'.cr0 = c.cr0
  cr4 : c'.cr4 = c.cr4
  eflags : c'.eflags = c.eflags

theorem Changes.refl (c : Core) (lo hi : Nat) : Changes c c lo hi := ⟨fun _ _ => rfl, fun _ => rfl, rfl, rfl, rfl⟩

theorem Changes.trans (h : Changes c c' lo hi) (h' : Changes c' c'' lo hi) : Changes c c'' lo hi where
  msrs msr hm := (h'.msrs msr hm).trans (h.msrs msr hm)
  present msr := (h'.present msr).trans (h.present msr)
  cr0 := h'.cr0.trans h.cr0
  cr4 := h'.cr4.trans h.cr4
  eflags := h'.eflags.trans h.eflags

theorem Changes.mono {lo' hi' : Nat} (h : Changes c c' lo hi) (hlo : lo' ≤ lo) (hhi : hi ≤ hi') :
    Changes c c' lo' hi' :=
  { h with msrs := fun msr hm => h.msrs msr (by omega) }

/-- The core with a new value in an MSR. -/
def Core.put (c : Core) (msr : Nat) (val : BitVec 64) : Core :=
  { c with msrs := Function.update c.msrs msr (some val) }

@[simp] theorem Core.put_msrs (c : Core) (msr : Nat) (val : BitVec 64) :
    (c.put msr val).msrs = Function.update c.msrs msr (some val) := rfl

theorem changes_put (h : (c.msrs msr).isSome) (hlo : lo ≤ msr) (hhi : msr < hi) :
    Changes c (c.put msr val) lo hi where
  msrs k hk := Function.update_of_ne (by omega) ..
  present k := by
    by_cases hk : k = msr
    · subst hk
      simp [h]
    · rw [Core.put_msrs, Function.update_of_ne hk]
  cr0 := rfl
  cr4 := rfl
  eflags := rfl

theorem wrmsr64_eq (h : (c.msrs msr).isSome) (hoff : isVariable msr = true → c.enabled = false) :
    c.wrmsr64 msr val = some (c.put msr val) := by
  have hnone : (c.msrs msr).isNone = false := by
    rw [← Option.not_isSome, h]
    rfl
  rw [Core.wrmsr64, if_neg]
  · rfl
  · cases hv : isVariable msr
    · simp [hnone]
    · simp [hnone, hoff hv]

/-- The MTRRs of a core with `vcnt` variable ranges, whose MSRs come before the fixed ranges. -/
structure Core.HasMtrrs (c : Core) (vcnt : Nat) : Prop where
  pos : 0 < vcnt
  le : vcnt ≤ 40
  cap : ∃ raw, c.msrs msrMTRRcap = some raw ∧ vcntOf raw = vcnt
  defType : (c.msrs msrMTRRdefType).isSome
  var : ∀ msr, 0x200 ≤ msr → msr < 0x200 + 2 * vcnt → (c.msrs msr).isSome

theorem Changes.hasMtrrs (h : Changes c c' lo hi) (hlo : msrMTRRcap < lo) (hc : c.HasMtrrs vcnt) :
    c'.HasMtrrs vcnt where
  pos := hc.pos
  le := hc.le
  cap := by
    rw [h.msrs _ (Or.inl hlo)]
    exact hc.cap
  defType := (h.present _).trans hc.defType
  var msr h1 h2 := (h.present msr).trans (hc.var msr h1 h2)

/-- The variable ranges come before `MSR_MTRRdefType`. -/
theorem Core.HasMtrrs.below (hc : c.HasMtrrs vcnt) : 0x200 + 2 * vcnt ≤ msrMTRRdefType := by
  have hle := hc.le
  unfold msrMTRRdefType
  omega

/-- A change of the variable ranges leaves the switch alone. -/
theorem Changes.enabled_eq (h : Changes c c' lo hi) (hhi : hi ≤ msrMTRRdefType) : c'.enabled = c.enabled := by
  rw [Core.enabled, h.msrs _ (Or.inr hhi), Core.enabled]

/-- Ranges before the changes are as they were. -/
theorem Changes.var_eq {ndx i : Nat} (h : Changes c c' (0x200 + 2 * ndx) hi) (hi : i < ndx) :
    c'.var i = c.var i := by
  unfold Core.var mtrrPhysBase0Msr mtrrPhysMask0Msr
  rw [h.msrs _ (Or.inl (by omega)), h.msrs _ (Or.inl (by omega))]

/-- Ranges after the changes are as they were. -/
theorem Changes.var_eq_after {ndx i : Nat} (h : Changes c c' lo (0x200 + 2 * ndx)) (hi : ndx ≤ i) :
    c'.var i = c.var i := by
  unfold Core.var mtrrPhysBase0Msr mtrrPhysMask0Msr
  rw [h.msrs _ (Or.inr (by omega)), h.msrs _ (Or.inr (by omega))]

/-- The registers of a range are there to be written. -/
theorem Core.HasMtrrs.regs (hc : c.HasMtrrs vcnt) {ndx : Nat} (hi : ndx < vcnt) :
    ∃ b m, c.msrs (mtrrPhysBase0Msr + ndx * 2) = some b ∧ c.msrs (mtrrPhysMask0Msr + ndx * 2) = some m := by
  have hle := hc.le
  obtain ⟨b, hb⟩ := Option.isSome_iff_exists.1
    (hc.var (mtrrPhysBase0Msr + ndx * 2) (Nat.le_add_right ..) (by unfold mtrrPhysBase0Msr; omega))
  obtain ⟨m, hm⟩ := Option.isSome_iff_exists.1
    (hc.var (mtrrPhysMask0Msr + ndx * 2) (by unfold mtrrPhysMask0Msr; omega) (by unfold mtrrPhysMask0Msr; omega))
  exact ⟨b, m, hb, hm⟩

/-! ## The loops of `set_mem_type` -/

/-- The range is not in use. -/
def Core.Unused (c : Core) (i : Nat) : Prop := ∀ r, c.var i = some r → r.v = false

theorem disableRange_spec (hc : c.HasMtrrs vcnt) (hoff : c.enabled = false) {ndx : Nat} (hi : ndx < vcnt) :
    ∃ c', disableRange c ndx = some c' ∧ Changes c c' (0x200 + 2 * ndx) (0x200 + 2 * (ndx + 1)) ∧
      c'.Unused ndx := by
  obtain ⟨b, m, hb, hm⟩ := hc.regs hi
  have hsome : (c.msrs (mtrrPhysMask0Msr + ndx * 2)).isSome := by rw [hm]; rfl
  refine ⟨c.put (mtrrPhysMask0Msr + ndx * 2) (setBit m 11 false), ?_,
    changes_put hsome (by unfold mtrrPhysMask0Msr; omega) (by unfold mtrrPhysMask0Msr; omega), fun r hr => ?_⟩
  · rw [disableRange, Core.rdmsr64, hm, Option.bind_eq_bind, Option.bind_some, wrmsr64_eq hsome fun _ => hoff]
  · have hne : mtrrPhysBase0Msr + ndx * 2 ≠ mtrrPhysMask0Msr + ndx * 2 := by
      unfold mtrrPhysBase0Msr mtrrPhysMask0Msr
      omega
    have hvar : (c.put (mtrrPhysMask0Msr + ndx * 2) (setBit m 11 false)).var ndx =
        some ⟨b, setBit m 11 false⟩ := by
      simp [Core.var, Function.update_of_ne hne, hb]
    rw [hvar] at hr
    cases hr
    rw [VarMtrr.v, getLsbD_setBit (by decide), if_pos rfl]

/-- The first loop: no variable range is in use any more. -/
theorem disableRanges_spec (hc : c.HasMtrrs vcnt) (hoff : c.enabled = false) :
    ∃ c', (List.range vcnt).foldlM disableRange c = some c' ∧ Changes c c' 0x200 (0x200 + 2 * vcnt) ∧
      ∀ i < vcnt, c'.Unused i := by
  refine foldlM_range_inv (P := fun n c' => Changes c c' 0x200 (0x200 + 2 * vcnt) ∧ ∀ i < n, c'.Unused i)
    ⟨.refl .., fun i hi => absurd hi (Nat.not_lt_zero i)⟩ fun ndx c₁ hndx h₁ => ?_
  obtain ⟨hch, hun⟩ := h₁
  obtain ⟨c₂, hrun, hch₂, hun₂⟩ :=
    disableRange_spec (hch.hasMtrrs (by decide) hc) ((hch.enabled_eq hc.below).trans hoff) hndx
  refine ⟨c₂, hrun, hch.trans (hch₂.mono (by omega) (by omega)), fun i hi => ?_⟩
  rcases Nat.lt_succ_iff_lt_or_eq.1 hi with hlt | rfl
  · unfold Core.Unused
    rw [hch₂.var_eq hlt]
    exact hun i hlt
  · exact hun₂

theorem setRange_spec (hc : c.HasMtrrs vcnt) (hoff : c.enabled = false) {ndx : Nat} (hi : ndx < vcnt)
    (memType base pages : BitVec 32) :
    ∃ c', setRange c memType base pages ndx = some c' ∧
      Changes c c' (0x200 + 2 * ndx) (0x200 + 2 * (ndx + 1)) ∧
      ∃ r, c'.var ndx = some r ∧ r.v = true ∧ r.type = memType.setWidth 8 ∧
        r.base = (base >>> 12).setWidth 24 ∧ r.mask = (~~~(pages - 1)).setWidth 24 := by
  obtain ⟨b, m, hb, hm⟩ := hc.regs hi
  have hne : mtrrPhysMask0Msr + ndx * 2 ≠ mtrrPhysBase0Msr + ndx * 2 := by
    unfold mtrrPhysBase0Msr mtrrPhysMask0Msr
    omega
  let b' := storeField (storeField (storeField b 35 12 ((base >>> 12).setWidth 64)) 7 0 (memType.setWidth 64)) 63 36 0
  let m' := storeField (setBit (storeField m 35 12 ((~~~(pages - 1)).setWidth 64)) 11 true) 63 36 0
  have hsome : (c.msrs (mtrrPhysBase0Msr + ndx * 2)).isSome := by rw [hb]; rfl
  have hch : Changes c (c.put (mtrrPhysBase0Msr + ndx * 2) b') (0x200 + 2 * ndx) (0x200 + 2 * (ndx + 1)) :=
    changes_put hsome (by unfold mtrrPhysBase0Msr; omega) (by unfold mtrrPhysBase0Msr; omega)
  have hm' : (c.put (mtrrPhysBase0Msr + ndx * 2) b').msrs (mtrrPhysMask0Msr + ndx * 2) = some m :=
    (Function.update_of_ne hne ..).trans hm
  have hsome' : ((c.put (mtrrPhysBase0Msr + ndx * 2) b').msrs (mtrrPhysMask0Msr + ndx * 2)).isSome := by
    rw [hm']
    rfl
  have hbelow := hc.below
  have hoff' : (c.put (mtrrPhysBase0Msr + ndx * 2) b').enabled = false :=
    (hch.enabled_eq (by omega)).trans hoff
  refine ⟨(c.put (mtrrPhysBase0Msr + ndx * 2) b').put (mtrrPhysMask0Msr + ndx * 2) m', ?_,
    hch.trans (changes_put hsome' (by unfold mtrrPhysMask0Msr; omega) (by unfold mtrrPhysMask0Msr; omega)),
    ⟨b', m'⟩, ?_, ?_, ?_, ?_, ?_⟩
  · simp only [setRange, Core.rdmsr64, hb, Option.bind_eq_bind, Option.bind_some]
    rw [wrmsr64_eq hsome fun _ => hoff, Option.bind_some, hm', Option.bind_some, wrmsr64_eq hsome' fun _ => hoff']
  · simp [Core.var, Function.update_of_ne hne.symm]
  · rw [VarMtrr.v, getLsbD_storeField (by decide) (by decide), if_neg (by decide), getLsbD_setBit (by decide),
      if_pos rfl]
  · rw [VarMtrr.type, extractLsb'_storeField_of_apart (by decide) (by decide) _ _ (by decide),
      @extractLsb'_storeField_self 0 8 (by decide) (by decide),
      BitVec.setWidth_setWidth_of_le _ (by decide)]
  · rw [VarMtrr.base, extractLsb'_storeField_of_apart (by decide) (by decide) _ _ (by decide),
      extractLsb'_storeField_of_apart (by decide) (by decide) _ _ (by decide),
      @extractLsb'_storeField_self 12 24 (by decide) (by decide),
      BitVec.setWidth_setWidth_of_le _ (by decide)]
  · rw [VarMtrr.mask, extractLsb'_storeField_of_apart (by decide) (by decide) _ _ (by decide),
      extractLsb'_setBit_of_apart (by decide) _ _ (by decide),
      @extractLsb'_storeField_self 12 24 (by decide) (by decide),
      BitVec.setWidth_setWidth_of_le _ (by decide)]

/-- The pages of one range that `set_mem_type` sets. -/
theorem covers_iff {r : VarMtrr} {base : BitVec 32} {k b : Nat} (hk : k ≤ 20) (hb : base.toNat / 4096 = b)
    (hbase : r.base = (base >>> 12).setWidth 24) (hmask : r.mask = (~~~(BitVec.ofNat 32 (2 ^ k) - 1)).setWidth 24)
    (page : BitVec 24) : r.covers page = true ↔ page.toNat / 2 ^ k = b / 2 ^ k := by
  have hpow : BitVec.ofNat 32 (2 ^ k) - 1 = BitVec.ofNat 32 (2 ^ k - 1) := by
    have hlt : 2 ^ k ≤ 2 ^ 20 := Nat.pow_le_pow_right (by decide) hk
    have hpos := Nat.two_pow_pos k
    apply BitVec.eq_of_toNat_eq
    rw [BitVec.toNat_sub, BitVec.toNat_ofNat, BitVec.toNat_ofNat]
    simp only [BitVec.reduceToNat]
    omega
  have hhigh : High r.mask k := by
    rw [hmask, hpow]
    exact (high_not_ofNat k).setWidth (by decide)
  have hstart : r.base.toNat = b := by
    have hlt := base.isLt
    rw [hbase, BitVec.toNat_setWidth, BitVec.toNat_ushiftRight, Nat.shiftRight_eq_div_pow, ← hb]
    omega
  rw [VarMtrr.covers, beq_iff_eq, hhigh.and_eq_iff, hstart]

/-- A range from `lo` up to `hi` is in use and has the page. -/
def Core.CoveredFrom (c : Core) (lo hi : Nat) (page : BitVec 24) : Prop :=
  ∃ i, lo ≤ i ∧ i < hi ∧ ∃ r, c.var i = some r ∧ r.v = true ∧ r.covers page = true

/-- The ranges from `lo` up to `hi` that are in use have the type `t`. -/
def Core.TypedFrom (c : Core) (lo hi : Nat) (t : BitVec 8) : Prop :=
  ∀ i, lo ≤ i → i < hi → ∀ r, c.var i = some r → r.v = true → r.type = t

/-- **The second loop**: it takes a range for each power of two of the pages, and must have one left over. -/
theorem setRanges_spec (memType : BitVec 32) {n b ndx : Nat} {base : BitVec 32} (hc : c.HasMtrrs vcnt)
    (hoff : c.enabled = false) (hndx : ndx < vcnt) (hfit : b + n ≤ 2 ^ 20) (hb : n = 0 ∨ base.toNat / 4096 = b)
    (hun : ∀ i, ndx ≤ i → i < vcnt → c.Unused i) :
    ∃ ok c', setRanges memType vcnt base n ndx c = some (ok, c') ∧
      Changes c c' (0x200 + 2 * ndx) (0x200 + 2 * vcnt) ∧
      (ok = true ↔ ndx + (pieces b n).length < vcnt) ∧ (ok = true → c'.TypedFrom ndx vcnt (memType.setWidth 8) ∧
        ∀ page, c'.CoveredFrom ndx vcnt page ↔ InPieces b n page.toNat) := by
  induction n using Nat.strongRecOn generalizing b ndx base c with
  | ind n ih =>
    by_cases hn : n = 0
    · subst hn
      refine ⟨true, c, by rw [setRanges, dif_pos rfl], .refl .., by simpa [pieces_zero] using hndx, fun _ => ⟨?_, ?_⟩⟩
      · intro i hi hi' r hr hv
        exact absurd hv (by simp [hun i hi hi' r hr])
      · intro page
        refine iff_of_false ?_ (by simp [InPieces, pieces_zero])
        rintro ⟨i, hi, hi', r, hr, hv, -⟩
        exact absurd hv (by simp [hun i hi hi' r hr])
    · have hlog := Nat.log2_self_le hn
      have hpos := Nat.two_pow_pos n.log2
      have hk : n.log2 ≤ 20 := (Nat.pow_le_pow_iff_right (by decide)).1 (Nat.le_trans hlog (by omega))
      have hfls : fls n - 1 = n.log2 := by rw [fls, if_neg hn, Nat.add_sub_cancel]
      have hbelow := hc.below
      obtain ⟨c₁, hset, hch, r, hr, hv, htype, hbase, hmask⟩ :=
        setRange_spec hc hoff hndx memType base (BitVec.ofNat 32 (2 ^ n.log2))
      have hcov := covers_iff hk (hb.resolve_left hn) hbase hmask
      by_cases hlast : ndx + 1 = vcnt
      · refine ⟨false, c₁, ?_, hch.mono (Nat.le_refl _) (by omega), ?_, fun h => absurd h Bool.false_ne_true⟩
        · rw [setRanges, dif_neg hn]
          simp only [hfls, hset, hlast, Option.bind_eq_bind, Option.bind_some, if_true, Option.pure_def]
        · rw [pieces_of_ne_zero hn, List.length_cons]
          simp
          omega
      · have hbase' : n - 2 ^ n.log2 = 0 ∨
            (base + BitVec.ofNat 32 (2 ^ n.log2 * 4096)).toNat / 4096 = b + 2 ^ n.log2 := by
          have := hb.resolve_left hn
          rw [BitVec.toNat_add, BitVec.toNat_ofNat]
          omega
        have hun' : ∀ i, ndx + 1 ≤ i → i < vcnt → c₁.Unused i := by
          intro i hi hi'
          unfold Core.Unused
          rw [hch.var_eq_after hi]
          exact hun i (by omega) hi'
        obtain ⟨ok, c₂, hrun, hch₂, hok, hspec⟩ := ih (n - 2 ^ n.log2) (by omega)
          (hch.hasMtrrs (by unfold msrMTRRcap; omega) hc) ((hch.enabled_eq (by omega)).trans hoff)
          (by omega) (by omega) hbase' hun'
        have hvar : c₂.var ndx = some r := (hch₂.var_eq (Nat.lt_succ_self ndx)).trans hr
        refine ⟨ok, c₂, ?_, (hch.mono (Nat.le_refl _) (by omega)).trans (hch₂.mono (by omega) (Nat.le_refl _)), ?_,
          fun htrue => ⟨?_, ?_⟩⟩
        · rw [setRanges, dif_neg hn]
          simp only [hfls, hset, Option.bind_eq_bind, Option.bind_some, if_neg hlast, hrun]
        · rw [hok, pieces_of_ne_zero hn, List.length_cons]
          omega
        · intro i hi hi' r' hr' hv'
          rcases Nat.eq_or_lt_of_le hi with rfl | hlt
          · obtain rfl := Option.some.inj (hvar.symm.trans hr')
            exact htype
          · exact (hspec htrue).1 i hlt hi' r' hr' hv'
        · intro page
          have hrest := (hspec htrue).2 page
          simp only [InPieces, pieces_of_ne_zero hn, List.mem_cons, exists_eq_or_imp]
          constructor
          · rintro ⟨i, hi, hi', r', hr', hv', hc'⟩
            rcases Nat.eq_or_lt_of_le hi with rfl | hlt
            · obtain rfl := Option.some.inj (hvar.symm.trans hr')
              exact Or.inl ((hcov page).1 hc')
            · exact Or.inr (hrest.1 ⟨i, hlt, hi', r', hr', hv', hc'⟩)
          · rintro (hp | hp)
            · exact ⟨ndx, Nat.le_refl _, hndx, r, hvar, hv, (hcov page).2 hp⟩
            · obtain ⟨i, hi, hi', hrest⟩ := hrest.2 hp
              exact ⟨i, by omega, hi', hrest⟩

/-! ## The type of a page -/

theorem mem_typesAt {page : BitVec 24} {t : BitVec 8} :
    t ∈ c.typesAt vcnt page ↔
      ∃ i < vcnt, ∃ r, c.var i = some r ∧ (r.v = true ∧ r.covers page = true) ∧ r.type = t := by
  simp [Core.typesAt, List.mem_filter, List.mem_filterMap]
  grind

/-- Ranges of one type. -/
theorem combine_eq_of_forall {dflt t : BitVec 8} {ts : List (BitVec 8)} (h : ∀ u ∈ ts, u = t) :
    combine dflt ts = some (if ts = [] then dflt else t) := by
  cases ts with
  | nil => rfl
  | cons u us =>
    obtain rfl := h u List.mem_cons_self
    rw [combine, if_neg (List.cons_ne_nil u us)]
    split
    · next huc => rw [← h _ huc]
    · rw [if_pos fun x hx => h x (List.mem_cons_of_mem u hx)]

theorem pageType_eq {cap defType : BitVec 64} (hcap : c.msrs msrMTRRcap = some cap)
    (hdef : c.msrs msrMTRRdefType = some defType) (he : isEnabled defType = true)
    (hfe : isFixedEnabled defType = false) (page : BitVec 24) :
    c.pageType page = combine (defType.extractLsb' 0 8) (c.typesAt (vcntOf cap) page) := by
  simp [Core.pageType, hcap, hdef, he, hfe]

/-! ## `set_mem_type` and `set_mtrrs_for_acmod` -/

theorem setAllMtrrs_spec (hc : c.HasMtrrs vcnt) (enable : Bool) :
    ∃ raw c', c.msrs msrMTRRdefType = some raw ∧ setAllMtrrs c enable = some c' ∧
      c' = c.put msrMTRRdefType (setBit raw 11 enable) ∧ Changes c c' msrMTRRdefType (msrMTRRdefType + 1) ∧
      c'.enabled = enable := by
  obtain ⟨raw, hraw⟩ := Option.isSome_iff_exists.1 hc.defType
  refine ⟨raw, _, hraw, ?_, rfl, changes_put hc.defType (Nat.le_refl _) (Nat.lt_succ_self _), ?_⟩
  · rw [setAllMtrrs, Core.rdmsr64, hraw, Option.bind_eq_bind, Option.bind_some]
    exact wrmsr64_eq hc.defType fun h => absurd h (by decide)
  · simp only [Core.enabled, Core.put_msrs, Function.update_self, Option.any_some, isEnabled]
    rw [getLsbD_setBit (by decide), if_pos rfl]

/-- The default type of `set_mem_type`. -/
def uncachableDefault (raw : BitVec 64) : BitVec 64 :=
  storeField (setBit raw 10 false) 7 0 (typeUncachable.setWidth 64)

theorem isEnabled_uncachableDefault (raw : BitVec 64) :
    isEnabled (uncachableDefault raw) = isEnabled raw := by
  rw [isEnabled, uncachableDefault, getLsbD_storeField (by decide) (by decide), if_neg (by decide),
    getLsbD_setBit (by decide), if_neg (by decide), isEnabled]

/-- The default type, with the MTRRs enabled again. -/
theorem enable_uncachableDefault (raw : BitVec 64) :
    isEnabled (setBit (uncachableDefault raw) 11 true) = true ∧
      isFixedEnabled (setBit (uncachableDefault raw) 11 true) = false ∧
      (setBit (uncachableDefault raw) 11 true).extractLsb' 0 8 = typeUncachable := by
  refine ⟨?_, ?_, ?_⟩
  · rw [isEnabled, getLsbD_setBit (by decide), if_pos rfl]
  · rw [isFixedEnabled, getLsbD_setBit (by decide), if_neg (by decide), uncachableDefault,
      getLsbD_storeField (by decide) (by decide), if_neg (by decide), getLsbD_setBit (by decide), if_pos rfl]
  · rw [extractLsb'_setBit_of_apart (by decide) _ _ (by decide), uncachableDefault,
      @extractLsb'_storeField_self 0 8 (by decide) (by decide)]
    rfl

theorem setMemType_spec (hc : c.HasMtrrs vcnt) (hoff : c.enabled = false) {base size memType : BitVec 32}
    (hfit : base.toNat / 4096 + numPagesOf size ≤ 2 ^ 20) :
    ∃ ok raw c', c.msrs msrMTRRdefType = some raw ∧ setMemType c base size memType = some (ok, c') ∧
      c'.msrs msrMTRRdefType = some (uncachableDefault raw) ∧
      Changes (c.put msrMTRRdefType (uncachableDefault raw)) c' 0x200 (0x200 + 2 * vcnt) ∧
      (ok = true ↔ (pieces (base.toNat / 4096) (numPagesOf size)).length < vcnt) ∧
      (ok = true → c'.TypedFrom 0 vcnt (memType.setWidth 8) ∧
        ∀ page, c'.CoveredFrom 0 vcnt page ↔ InPieces (base.toNat / 4096) (numPagesOf size) page.toNat) := by
  obtain ⟨raw, hraw⟩ := Option.isSome_iff_exists.1 hc.defType
  obtain ⟨cap, hcap, hvcnt⟩ := hc.cap
  have hch₁ : Changes c (c.put msrMTRRdefType (uncachableDefault raw)) msrMTRRdefType (msrMTRRdefType + 1) :=
    changes_put hc.defType (Nat.le_refl _) (Nat.lt_succ_self _)
  have hc₁ := hch₁.hasMtrrs (by decide) hc
  have hcap₁ : (c.put msrMTRRdefType (uncachableDefault raw)).msrs msrMTRRcap = some cap := by
    rw [hch₁.msrs _ (Or.inl (by decide)), hcap]
  have hoff₁ : (c.put msrMTRRdefType (uncachableDefault raw)).enabled = false := by
    rw [Core.enabled, hraw, Option.any_some] at hoff
    rw [Core.enabled, Core.put_msrs, Function.update_self, Option.any_some, isEnabled_uncachableDefault, hoff]
  obtain ⟨c₂, hdis, hch₂, hun⟩ := disableRanges_spec hc₁ hoff₁
  obtain ⟨ok, c₃, hrun, hch₃, hok, hspec⟩ := setRanges_spec memType (hch₂.hasMtrrs (by decide) hc₁)
    ((hch₂.enabled_eq hc.below).trans hoff₁) hc.pos hfit (Or.inr rfl) fun i _ hi => hun i hi
  refine ⟨ok, raw, c₃, hraw, ?_, ?_, hch₂.trans hch₃, by rw [hok, Nat.zero_add], hspec⟩
  · simp only [setMemType, Core.rdmsr64, hraw, Option.bind_eq_bind, Option.bind_some]
    rw [show storeField (setBit raw 10 false) 7 0 (typeUncachable.setWidth 64) = uncachableDefault raw from rfl,
      wrmsr64_eq hc.defType fun h => absurd h (by decide), Option.bind_some, hcap₁, Option.bind_some, hvcnt, hdis,
      Option.bind_some, hrun]
  · rw [(hch₂.trans hch₃).msrs _ (Or.inr hc.below), Core.put_msrs, Function.update_self]

/-- The pages from `b` on, `n` of them, are write-back, and all others are uncachable. -/
def Core.OnlyWrback (c : Core) (b n : Nat) : Prop :=
  ∀ page : BitVec 24, c.pageType page =
    some (if b ≤ page.toNat ∧ page.toNat < b + n then typeWrback else typeUncachable)

/-- The core with its interrupts and its caches off. -/
def Core.Quiet (c c' : Core) : Prop :=
  c'.cr0 = (c.cr0 &&& ~~~cr0NW) ||| cr0CD ∧ c'.cr4 = c.cr4 &&& ~~~cr4PGE ∧ c'.eflags = c.eflags &&& ~~~eflagsIF

/-- A page that no range covers is uncachable, and the ranges decide the others. -/
theorem pageType_of_typed {cap defType : BitVec 64} {t : BitVec 8} (hcap : c.msrs msrMTRRcap = some cap)
    (hdef : c.msrs msrMTRRdefType = some defType) (he : isEnabled defType = true)
    (hfe : isFixedEnabled defType = false) (huc : defType.extractLsb' 0 8 = typeUncachable)
    (htyped : c.TypedFrom 0 (vcntOf cap) t) (page : BitVec 24) :
    (c.CoveredFrom 0 (vcntOf cap) page → c.pageType page = some t) ∧
      (¬ c.CoveredFrom 0 (vcntOf cap) page → c.pageType page = some typeUncachable) := by
  have hall : ∀ u ∈ c.typesAt (vcntOf cap) page, u = t := fun u hu => by
    obtain ⟨i, hi, r, hr, ⟨hv, -⟩, rfl⟩ := mem_typesAt.1 hu
    exact htyped i (Nat.zero_le i) hi r hr hv
  rw [pageType_eq hcap hdef he hfe, combine_eq_of_forall hall, huc]
  constructor
  · rintro ⟨i, -, hi, r, hr, hv, hcov⟩
    rw [if_neg (List.ne_nil_of_mem (mem_typesAt.2 ⟨i, hi, r, hr, ⟨hv, hcov⟩, rfl⟩))]
  · intro hnone
    rw [if_pos]
    refine List.eq_nil_iff_forall_not_mem.2 fun u hu => ?_
    obtain ⟨i, hi, r, hr, ⟨hv, hcov⟩, -⟩ := mem_typesAt.1 hu
    exact hnone ⟨i, Nat.zero_le i, hi, r, hr, hv, hcov⟩

/-- Where the covered pages are the pieces, the pages are right just if the pieces are. -/
theorem onlyWrback_iff {cap defType : BitVec 64} {b n : Nat} (hcap : c.msrs msrMTRRcap = some cap)
    (hdef : c.msrs msrMTRRdefType = some defType) (he : isEnabled defType = true)
    (hfe : isFixedEnabled defType = false) (huc : defType.extractLsb' 0 8 = typeUncachable)
    (htyped : c.TypedFrom 0 (vcntOf cap) typeWrback) (hfit : b + n ≤ 2 ^ 20)
    (hcov : ∀ page, c.CoveredFrom 0 (vcntOf cap) page ↔ InPieces b n page.toNat) :
    c.OnlyWrback b n ↔ n = 0 ∨ 2 ^ n.log2 ∣ b := by
  have hpage := pageType_of_typed hcap hdef he hfe huc htyped
  rw [← pieces_exact_iff]
  constructor
  · intro h x hx
    have hlt : x < 2 ^ 24 := by omega
    have hp := h (BitVec.ofNat 24 x)
    have hnat : (BitVec.ofNat 24 x).toNat = x := Nat.mod_eq_of_lt hlt
    have hc' := hcov (BitVec.ofNat 24 x)
    rw [hnat] at hp hc'
    rw [← hc']
    constructor
    · intro hin
      by_contra hout
      rw [(hpage _).1 hin, if_neg hout] at hp
      exact absurd hp (by decide)
    · intro hin
      by_contra hout
      rw [(hpage _).2 hout, if_pos hin] at hp
      exact absurd hp (by decide)
  · intro h page
    have hiff := inPieces_iff (x := page.toNat) (pieces_exact_iff.1 h)
    rw [← hcov] at hiff
    by_cases hin : c.CoveredFrom 0 (vcntOf cap) page
    · rw [(hpage page).1 hin, if_pos (hiff.1 hin)]
    · rw [(hpage page).2 hin, if_neg fun hr => hin (hiff.2 hr)]

theorem CoveredFrom.congr (h : ∀ i < hi, c'.var i = c.var i) {page : BitVec 24} (hcov : c.CoveredFrom lo hi page) :
    c'.CoveredFrom lo hi page := by
  obtain ⟨i, hlo, hhi, r, hr, hrest⟩ := hcov
  exact ⟨i, hlo, hhi, r, (h i hhi).trans hr, hrest⟩

theorem TypedFrom.congr (h : ∀ i < hi, c'.var i = c.var i) {t : BitVec 8} (ht : c.TypedFrom lo hi t) :
    c'.TypedFrom lo hi t := fun i hlo hhi r hr => ht i hlo hhi r ((h i hhi).symm.trans hr)

/-- The start of `set_mtrrs_for_acmod`. -/
def Core.quieted (c : Core) : Core :=
  { c with
    eflags := c.eflags &&& ~~~eflagsIF
    cr0 := (c.cr0 &&& ~~~cr0NW) ||| cr0CD
    cr4 := c.cr4 &&& ~~~cr4PGE }

/-- The MSRs that `set_mtrrs_for_acmod` and `restore_mtrrs` leave alone. -/
def Core.SameElsewhere (c c' : Core) (vcnt : Nat) : Prop :=
  (∀ msr, msr < 0x200 ∨ 0x200 + 2 * vcnt ≤ msr → msr ≠ msrMTRRdefType → c'.msrs msr = c.msrs msr) ∧
    ∀ msr, (c'.msrs msr).isSome = (c.msrs msr).isSome

theorem setMtrrsForAcmod_spec (hc : c.HasMtrrs vcnt) {hdr size : BitVec 32}
    (hfit : hdr.toNat / 4096 + numPagesOf (size * 4) ≤ 2 ^ 20) :
    ∃ ok raw c', setMtrrsForAcmod c hdr size = some (ok, c') ∧ c.SameElsewhere c' vcnt ∧
      (ok = true ↔ (numPagesOf (size * 4)).bitIndices.length < vcnt) ∧
      (ok = true → (c'.cr0 = c.cr0 ∧ c'.cr4 = c.cr4 ∧ c'.eflags = c.eflags) ∧
        c'.msrs msrMTRRdefType = some (setBit (uncachableDefault raw) 11 true) ∧ c'.TypedFrom 0 vcnt typeWrback ∧
        ∀ page, c'.CoveredFrom 0 vcnt page ↔ InPieces (hdr.toNat / 4096) (numPagesOf (size * 4)) page.toNat) ∧
      (ok = false → c.Quiet c' ∧ c'.enabled = false) := by
  have hq : c.quieted.HasMtrrs vcnt := ⟨hc.pos, hc.le, hc.cap, hc.defType, hc.var⟩
  obtain ⟨-, c₁, -, hset₁, -, hch₁, hoff₁⟩ := setAllMtrrs_spec hq false
  have hc₁ := hch₁.hasMtrrs (by decide) hq
  obtain ⟨ok, raw, c₂, hraw, hmem, hdef₂, hch₂, hok, hspec⟩ := @setMemType_spec _ _ hc₁ hoff₁ _ _ 6 hfit
  have hput : Changes c₁ (c₁.put msrMTRRdefType (uncachableDefault raw)) msrMTRRdefType (msrMTRRdefType + 1) :=
    changes_put hc₁.defType (Nat.le_refl _) (Nat.lt_succ_self _)
  have hwide : Changes c₁ c₂ 0x200 (msrMTRRdefType + 1) :=
    (hput.mono (by decide) (Nat.le_refl _)).trans
      (hch₂.mono (Nat.le_refl _) (Nat.le_trans hc.below (Nat.le_succ _)))
  have hc₂ := hwide.hasMtrrs (by decide) hc₁
  have hsame : c.SameElsewhere c₂ vcnt := by
    refine ⟨fun msr hmsr hne => ?_, fun msr => (hwide.present msr).trans (hch₁.present msr)⟩
    have hout : msr < msrMTRRdefType ∨ msrMTRRdefType + 1 ≤ msr := by omega
    rw [hch₂.msrs msr hmsr, hput.msrs msr hout, hch₁.msrs msr hout]
    rfl
  have hrun : setMtrrsForAcmod c hdr size = if ok = true then
      (setAllMtrrs c₂ true).bind fun d => some (true, { d with cr0 := c.cr0, cr4 := c.cr4, eflags := c.eflags })
    else some (false, c₂) := by
    unfold setMtrrsForAcmod
    change (setAllMtrrs c.quieted false >>= _) = _
    rw [hset₁, Option.bind_eq_bind, Option.bind_some, hmem]
    cases ok <;> rfl
  rw [length_pieces] at hok
  cases ok with
  | false =>
    have hregs : c.Quiet c₂ := ⟨hwide.cr0.trans hch₁.cr0, hwide.cr4.trans hch₁.cr4, hwide.eflags.trans hch₁.eflags⟩
    refine ⟨false, raw, c₂, hrun, hsame, hok, fun h => absurd h Bool.false_ne_true, fun _ => ⟨hregs, ?_⟩⟩
    rw [Core.enabled, hraw, Option.any_some] at hoff₁
    rw [Core.enabled, hdef₂, Option.any_some, isEnabled_uncachableDefault, hoff₁]
  | true =>
    obtain ⟨raw₃, c₃, hraw₃, hset₃, hput₃, hch₃, -⟩ := setAllMtrrs_spec hc₂ true
    obtain ⟨htyped, hcov⟩ := hspec rfl
    obtain rfl := Option.some.inj (hdef₂.symm.trans hraw₃)
    have hle := hc.le
    have hvar : ∀ i < vcnt, c₃.var i = c₂.var i := fun i hi =>
      (hch₃.mono (by decide : 0x200 + 2 * 127 ≤ msrMTRRdefType) (Nat.le_refl _)).var_eq (by omega)
    refine ⟨true, raw, { c₃ with cr0 := c.cr0, cr4 := c.cr4, eflags := c.eflags },
      by rw [hrun, if_pos rfl, hset₃, Option.bind_some], ⟨fun msr hmsr hne => ?_, fun msr => ?_⟩, hok,
      fun _ => ⟨⟨rfl, rfl, rfl⟩, ?_, TypedFrom.congr hvar htyped, fun page => ?_⟩,
      fun h => absurd h.symm Bool.false_ne_true⟩
    · exact (hch₃.msrs msr (by omega)).trans (hsame.1 msr hmsr hne)
    · exact (hch₃.present msr).trans (hsame.2 msr)
    · rw [hput₃, Core.put_msrs, Function.update_self]
    · rw [← hcov page]
      exact ⟨CoveredFrom.congr fun i hi => (hvar i hi).symm, CoveredFrom.congr hvar⟩

/-- **`set_mtrrs_for_acmod`** gives up just if the pages need all the variable ranges; then the core stays quiet,
with the MTRRs off. Otherwise just the pages of the module are write-back if and only if the largest power of two
of their number divides the first page, and the control registers are as before. -/
theorem setMtrrsForAcmod_exact_iff (hc : c.HasMtrrs vcnt) {hdr size : BitVec 32}
    (hfit : hdr.toNat / 4096 + numPagesOf (size * 4) ≤ 2 ^ 20) :
    ∃ ok c', setMtrrsForAcmod c hdr size = some (ok, c') ∧
      (ok = true ↔ (numPagesOf (size * 4)).bitIndices.length < vcnt) ∧
      (ok = true → (c'.cr0 = c.cr0 ∧ c'.cr4 = c.cr4 ∧ c'.eflags = c.eflags) ∧
        (c'.OnlyWrback (hdr.toNat / 4096) (numPagesOf (size * 4)) ↔
          numPagesOf (size * 4) = 0 ∨ 2 ^ (numPagesOf (size * 4)).log2 ∣ hdr.toNat / 4096)) ∧
      (ok = false → c.Quiet c' ∧ c'.enabled = false) := by
  obtain ⟨ok, raw, c', hrun, hsame, hok, htrue, hfalse⟩ := setMtrrsForAcmod_spec hc hfit
  refine ⟨ok, c', hrun, hok, fun h => ?_, hfalse⟩
  obtain ⟨hregs, hdef, htyped, hcov⟩ := htrue h
  obtain ⟨cap, hcap, rfl⟩ := hc.cap
  obtain ⟨he, hfe, huc⟩ := enable_uncachableDefault raw
  have hcap' : c'.msrs msrMTRRcap = some cap := (hsame.1 _ (Or.inl (by decide)) (by decide)).trans hcap
  exact ⟨hregs, onlyWrback_iff hcap' hdef he hfe huc htyped hfit hcov⟩

/-- A core with eight variable ranges, none of them in use. -/
def core8 : Core where
  msrs msr :=
    if msr = msrMTRRcap then some 0x508
    else if msr = msrMTRRdefType then some 0xC06
    else if 0x200 ≤ msr ∧ msr < 0x210 ∨ 0x250 ≤ msr ∧ msr < 0x270 then some 0
    else none
  cr0 := 0x11
  cr4 := 0
  eflags := 0x202

theorem core8_hasMtrrs : core8.HasMtrrs 8 where
  pos := by decide
  le := by decide
  cap := ⟨0x508, rfl, by decide⟩
  defType := rfl
  var msr h1 h2 := by
    unfold core8 msrMTRRcap msrMTRRdefType
    simp only
    rw [if_neg (by omega), if_neg (by omega), if_pos (by omega)]
    rfl

/-- A module of 16 KB at 512 MB. -/
theorem setMtrrsForAcmod_exact_core8 : ∃ c', setMtrrsForAcmod core8 0x20000000 0x1000 = some (true, c') ∧
    c'.OnlyWrback 0x20000 4 := by
  have hpages : numPagesOf (0x1000 * 4) = 2 ^ 2 := by decide
  obtain ⟨ok, c', hrun, hok, htrue, -⟩ :=
    @setMtrrsForAcmod_exact_iff core8 8 core8_hasMtrrs 0x20000000 0x1000 (by decide)
  obtain rfl : ok = true := hok.2 (by rw [hpages, Nat.bitIndices_two_pow]; decide)
  refine ⟨c', hrun, ?_⟩
  have hexact := (htrue rfl).2.2 (Or.inr (by rw [hpages, Nat.log2_two_pow]; decide))
  rw [hpages] at hexact
  exact hexact

end Xmhf.Mtrrs
