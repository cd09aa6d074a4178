import Mathlib.Data.Option.Basic
import Xmhf.Dmaprot.Dev
import Xmhf.Dmaprot.Proof.Vtd

/-!
# Both backends protect the same pages

`InRegion start size p`: page `p` is one of those from `start` to `start + size` rounded down. The loop
of each backend closes exactly these (`vtd_loop`, `dev_loop`), and then waits for the hardware, which
ends the invalidations it is asked for (`VtdUnits.Completes`, `PciConf.Completes`).

The result is `protect_exact`.
-/

namespace Xmhf.Dmaprot

open Xmhf.Memory Xmhf.Word Xmhf.Loop Xmhf.Paging Xmhf.Memprot Xmhf.Bitmap

variable {r : Rpb} {start size fuel p : Nat} {m : Mem}

/-- Page `p` is one of those protected for a region. -/
def InRegion (start size p : Nat) : Prop :=
  start ≤ 4096 * p ∧ 4096 * p ≤ pageAlign4K (start + size)

instance : Decidable (InRegion start size p) := inferInstanceAs (Decidable (_ ∧ _))

/-- The page of a byte of the region is protected. -/
theorem InRegion.of_mem {a : Nat} (h : start % 4096 = 0) (h1 : start ≤ a) (h2 : a < start + size) :
    InRegion start size (a / 2 ^ 12) := by
  unfold InRegion pageAlign4K pageSize4K
  omega

/-- Where both loops end. -/
structure Bounds (start size : Nat) : Prop where
  aligned : start % 4096 = 0
  lt : start + size < 0xFFFFF000

namespace Bounds

variable (h : Bounds start size)
include h

theorem add32_eq : add32 start size = start + size := add32_of_lt (by have := h.lt; omega)

theorem last : pageAlign4K (start + size) % 4096 = 0 ∧ start ≤ pageAlign4K (start + size) ∧
    pageAlign4K (start + size) + 4096 < 2 ^ 32 := by
  obtain ⟨h1, h2⟩ := h
  unfold pageAlign4K pageSize4K
  omega

theorem pageAlign4K_start : pageAlign4K start = start := by
  have := h.aligned
  unfold pageAlign4K pageSize4K
  omega

/-- A loop over the pages from `start` that keeps an invariant, with the pages closed so far. -/
theorem stepLoop {σ : Type} {f : Nat → σ → Option σ} {s : σ} {P : (Nat → Prop) → σ → Prop}
    (hfuel : 2 ^ 20 ≤ fuel) (h₀ : ∀ Q : Nat → Prop, (∀ n, ¬ Q n) → P Q s)
    (hs : ∀ k Q Q' s, k < 2 ^ 20 → P Q s → (∀ n, Q' n ↔ n = k ∨ Q n) →
      ∃ s', f (4096 * k) s = some s' ∧ P Q' s') :
    ∃ s', stepLoop pageSize4K (pageAlign4K (start + size)) f fuel start s = some s' ∧
      P (InRegion start size) s' := by
  obtain ⟨hmod, hle, hlt⟩ := h.last
  have hstart := h.aligned
  have hround : ∀ y s, y ≤ pageAlign4K (start + size) →
      (y % 4096 = 0 ∧ start ≤ y ∧ P (fun n => start ≤ 4096 * n ∧ 4096 * n < y) s) →
      ∃ s', f y s = some s' ∧ (y + pageSize4K) % 4096 = 0 ∧ start ≤ y + pageSize4K ∧
        P (fun n => start ≤ 4096 * n ∧ 4096 * n < y + pageSize4K) s' := by
    intro y s hy ⟨hymod, hstarty, hP⟩
    have hk : y = 4096 * (y / 4096) := by omega
    obtain ⟨s', hf, hP'⟩ := hs (y / 4096) _
      (fun n => start ≤ 4096 * n ∧ 4096 * n < y + pageSize4K) s (by omega) hP fun n => by
        unfold pageSize4K
        omega
    rw [← hk] at hf
    refine ⟨s', hf, ?_, ?_, hP'⟩
    · unfold pageSize4K
      omega
    · omega
  obtain ⟨y, s', hloop, h1, h2, hymod, hstarty, hP⟩ := stepLoop_inv
    (P := fun y s => y % 4096 = 0 ∧ start ≤ y ∧ P (fun n => start ≤ 4096 * n ∧ 4096 * n < y) s)
    (c := pageSize4K) (x := start) (n := fuel) hlt
    (by omega) (by unfold pageSize4K; omega) ⟨hstart, Nat.le_refl _, h₀ _ fun n => by omega⟩ hround
  refine ⟨s', hloop, ?_⟩
  have hregion : (fun n => start ≤ 4096 * n ∧ 4096 * n < y) = InRegion start size := by
    funext n
    rw [InRegion, eq_iff_iff]
    unfold pageSize4K at h2
    omega
  rw [← hregion]
  exact hP

end Bounds

/-! ## The loops -/

/-- The tables hold the leaves `f` with those of the pages `Q` closed. -/
def VtdClosedOn (t : VtdTables r) (f : Nat → BitVec 64) (Q : Nat → Prop) (m : Mem) : Prop :=
  ∃ g, VtdInv t m g ∧ ∀ n, (Q n → g n = vtdClosed (f n)) ∧ (¬ Q n → g n = f n)

theorem vtdClosed_closed (e : BitVec 64) : vtdClosed (vtdClosed e) = vtdClosed e := by
  rw [vtdClosed, vtdClosed, BitVec.and_assoc, BitVec.and_self]

theorem vtd_loop {t : VtdTables r} {f : Nat → BitVec 64} (h : Bounds start size)
    (hfuel : 2 ^ 20 ≤ fuel) (hm : VtdInv t m f) :
    ∃ m', stepLoop pageSize4K (pageAlign4K (start + size))
        (fun vaddr m => some (vtdProtectPage r t.pts vaddr m)) fuel start m = some m' ∧
      VtdClosedOn t f (InRegion start size) m' := by
  refine h.stepLoop (P := VtdClosedOn t f) hfuel
    (fun Q hQ => ⟨f, hm, fun n => ⟨fun hn => absurd hn (hQ n), fun _ => rfl⟩⟩) ?_
  rintro k Q Q' m hk ⟨g, hg, hgf⟩ hQ'
  have hdiv : 4096 * k / 2 ^ 12 = k := by omega
  have hstep := hg.protectPage (x := 4096 * k) (by omega)
  rw [hdiv] at hstep
  refine ⟨_, rfl, _, hstep, fun n => ?_⟩
  by_cases hnk : n = k
  · subst hnk
    rw [Function.update_self]
    refine ⟨fun _ => ?_, fun hn => absurd ((hQ' n).2 (.inl rfl)) hn⟩
    by_cases hn : Q n
    · rw [(hgf n).1 hn, vtdClosed_closed]
    · rw [(hgf n).2 hn]
  · rw [Function.update_of_ne hnk]
    have hiff : Q' n ↔ Q n := (hQ' n).trans (or_iff_right hnk)
    rw [hiff]
    exact hgf n

theorem svmEapDevSetPageProtection_eq (b : DevBitmap r) (hp : p < 2 ^ 20) :
    svmEapDevSetPageProtection r p b.vaddr m = some (setBit m (hva2spa1 r b.vaddr) p) := by
  have hle := b.block.le
  have hvirt := r.virt_le
  rw [pageSize4K] at hle
  have hand : p &&& 7 = p % 8 := Nat.and_two_pow_sub_one_eq_mod p 3
  rw [svmEapDevSetPageProtection, if_pos b.ne, hand, add32_of_lt (by omega),
    b.block.hva2spa1_add (by omega)]
  rfl

/-- The bits of the pages `Q` are set, and those that were set in `m₀`. -/
def DevClosedOn (b : DevBitmap r) (m₀ : Mem) (Q : Nat → Prop) (m : Mem) : Prop :=
  ∀ n, b.denies m n = true ↔ b.denies m₀ n = true ∨ Q n

theorem dev_loop (b : DevBitmap r) (h : Bounds start size) (hfuel : 2 ^ 20 ≤ fuel) :
    ∃ m', stepLoop pageSize4K (pageAlign4K (start + size))
        (fun i => svmEapDevSetPageProtection r (i / 2 ^ 12) b.vaddr) fuel start m = some m' ∧
      DevClosedOn b m (InRegion start size) m' := by
  refine h.stepLoop (P := DevClosedOn b m) hfuel
    (fun Q hQ n => ⟨.inl, fun h => h.resolve_right (hQ n)⟩) ?_
  rintro k Q Q' m' hk hm' hQ'
  have hdiv : 4096 * k / 2 ^ 12 = k := by omega
  refine ⟨_, by rw [hdiv]; exact svmEapDevSetPageProtection_eq b hk, fun n => ?_⟩
  rw [DevBitmap.denies, bit_setBit, Bool.or_eq_true, decide_eq_true_eq, ← DevBitmap.denies, hm' n, hQ' n]
  exact or_left_comm

/-! ## Waiting for the hardware -/

section
variable {δ : Type} {u : VtdUnits δ} {Ready : δ → Prop} {d : δ}

/-- The units end what they are asked for: with no invalidation going on (`Ready`), `icc` becomes clear;
after a command, it or `ivt` does, and the actual granularity is the one requested. -/
structure VtdUnits.Completes (u : VtdUnits δ) (Ready : δ → Prop) : Prop where
  idle : ∀ i d, Ready d → ∃ k, Settles (fun d => some (u.read i .ccmd d)) vtdBusy
    (fun _ d' => Ready d') k d
  ccmd : ∀ i d, Ready d → ∃ k, Settles (fun d => some (u.read i .ccmd d)) vtdBusy
    (fun v d' => ccmdCaig v = 1 ∧ Ready d') k (u.write i .ccmd ccmdGlobal d)
  iotlb : ∀ i d, Ready d → ∃ k, Settles (fun d => some (u.read i .iotlb d)) vtdBusy
    (fun v d' => iotlbIaig v = 1 ∧ Ready d') k (u.write i .iotlb iotlbGlobal d)

theorem vtdInvalidateUnit_returns (hu : u.Completes Ready) (i : Nat) (hd : Ready d) :
    ∃ N d', Ready d' ∧ ∀ fuel, N ≤ fuel → vtdInvalidateUnit u fuel i d = some d' := by
  obtain ⟨k₁, h₁⟩ := hu.idle i d hd
  obtain ⟨_, d₁, hd₁, p₁⟩ := h₁.pollLoop
  obtain ⟨k₂, h₂⟩ := hu.ccmd i d₁ hd₁
  obtain ⟨ccmd, d₂, ⟨hc, hd₂⟩, p₂⟩ := h₂.pollLoop
  obtain ⟨k₃, h₃⟩ := hu.iotlb i d₂ hd₂
  obtain ⟨iotlb, d₃, ⟨hi, hd₃⟩, p₃⟩ := h₃.pollLoop
  refine ⟨k₁ + k₂ + k₃ + 1, d₃, hd₃, fun fuel hfuel => ?_⟩
  have gc : (guard (ccmdCaig ccmd = 1) : Option Unit) = some () := if_pos hc
  have gi : (guard (iotlbIaig iotlb = 1) : Option Unit) = some () := if_pos hi
  simp only [vtdInvalidateUnit, VtdUnits.poll, p₁ fuel (by omega), p₂ fuel (by omega),
    p₃ fuel (by omega), gc, gi, Option.bind_eq_bind, Option.bind_some]

theorem vtdInvalidatecaches_returns (hu : u.Completes Ready) (numDrhd : Nat) (hd : Ready d) :
    ∃ N d', Ready d' ∧ ∀ fuel, N ≤ fuel → vtdInvalidatecaches u fuel numDrhd d = some d' := by
  induction numDrhd with
  | zero => exact ⟨0, d, hd, fun _ _ => rfl⟩
  | succ n ih =>
    obtain ⟨N₁, d₁, hd₁, h₁⟩ := ih
    obtain ⟨N₂, d₂, hd₂, h₂⟩ := vtdInvalidateUnit_returns hu n hd₁
    refine ⟨N₁ + N₂, d₂, hd₂, fun fuel hfuel => ?_⟩
    have h₁' := h₁ fuel (by omega)
    rw [vtdInvalidatecaches] at h₁' ⊢
    rw [forLoop, h₁', Option.bind_some, h₂ fuel (by omega)]

end

section
variable {ε : Type} {c : PciConf ε} {eap : SvmEap}

/-- `svm_eap_initialize` has set the registers: they are in the configuration space. -/
structure SvmEap.Located (eap : SvmEap) : Prop where
  found : eap.found
  fnidx_le : eap.devFnidxReg ≤ 4095
  data_le : eap.devDataReg ≤ 4095

/-- The DEV block ends the invalidation it is asked for: "h/w clears the devinv bit when done". -/
def PciConf.Completes (c : PciConf ε) (eap : SvmEap) : Prop :=
  ∀ d cr d', devinv cr = true → svmEapDevWrite c eap devCr 0 cr d = some d' →
    ∃ k, Settles (svmEapDevRead c eap devCr 0) devinv (fun _ _ => True) k d'

theorem svmEapDevInvalidateCache_returns (hc : c.Completes eap) (he : eap.Located) (d : ε) :
    ∃ N d', ∀ fuel, N ≤ fuel → svmEapDevInvalidateCache c eap fuel d = some d' := by
  obtain ⟨cr, d₁, hr⟩ : ∃ cr d₁, svmEapDevRead c eap devCr 0 d = some (cr, d₁) :=
    ⟨_, _, by simp [svmEapDevRead, he.found, PciConf.type1Write, he.fnidx_le, PciConf.type1Read,
      he.data_le]; rfl⟩
  obtain ⟨d₂, hw⟩ : ∃ d₂, svmEapDevWrite c eap devCr 0 (cr ||| 1 <<< 4 ||| 1) d₁ = some d₂ :=
    ⟨_, by simp [svmEapDevWrite, he.found, PciConf.type1Write, he.fnidx_le, he.data_le]; rfl⟩
  have hinv : devinv (cr ||| 1 <<< 4 ||| 1) = true := by
    rw [devinv, BitVec.getLsbD_or, BitVec.getLsbD_or]
    simp
  obtain ⟨k, hk⟩ := hc _ _ _ hinv hw
  obtain ⟨v, d₃, -, hp⟩ := hk.pollLoop
  refine ⟨k + 1, d₃, fun fuel hfuel => ?_⟩
  simp only [svmEapDevInvalidateCache, hr, hw, hp fuel hfuel, Option.bind_eq_bind, Option.bind_some]

end

/-! ## Protection is exact -/

/-- What protection does to the VT-d tables at `root`: links and address bits are kept, the leaves map
each page to itself, and exactly those of the pages `Q` let neither reads nor writes through. -/
structure VtdProtects (root : Nat) (m m' : Mem) (Q : Nat → Prop) : Prop where
  walk : ∀ a < 2 ^ 32, ∃ q q', vtdWalk m root a = some q ∧ vtdWalk m' root a = some q' ∧
    q'.pdpte = q.pdpte ∧ q'.pde = q.pde ∧ entryAddr q'.pte = a / 2 ^ 12 * 2 ^ 12 ∧
    vtdClosed q'.pte = vtdClosed q.pte ∧
    (¬ Q (a / 2 ^ 12) → q'.pte = q.pte ∧ q'.rights = (true, true)) ∧
    (Q (a / 2 ^ 12) → q'.pte.getLsbD 0 = false ∧ q'.pte.getLsbD 1 = false)

theorem vtdClosed_getLsbD (e : BitVec 64) {i : Nat} (hi : i < 2) : (vtdClosed e).getLsbD i = false := by
  have hmask : ∀ i < 2, (~~~(vtdRead ||| vtdWrite)).getLsbD i = false := by decide
  rw [vtdClosed, BitVec.getLsbD_and, hmask i hi, Bool.and_false]

/-- Closing a leaf keeps its address. -/
theorem entryAddr_vtdClosed (e : BitVec 64) : entryAddr (vtdClosed e) = entryAddr e := by
  have hdiv : (vtdClosed e).toNat / 2 ^ 12 = e.toNat / 2 ^ 12 := by
    apply Nat.eq_of_testBit_eq
    intro i
    have hlt : 3 < 2 ^ (i + 12) :=
      Nat.lt_of_lt_of_le (by decide) (Nat.pow_le_pow_right (by decide) (Nat.le_add_left 12 i))
    have hmask : (vtdRead ||| vtdWrite).getLsbD (i + 12) = false := by
      rw [show vtdRead ||| vtdWrite = BitVec.ofNat 64 3 from rfl, BitVec.getLsbD_ofNat,
        Nat.testBit_lt_two_pow hlt, Bool.and_false]
    rw [Nat.testBit_div_two_pow, Nat.testBit_div_two_pow, ← BitVec.getLsbD, ← BitVec.getLsbD, vtdClosed,
      BitVec.getLsbD_and, BitVec.getLsbD_not, hmask, Bool.not_false, Bool.and_true]
    by_cases h : i + 12 < 64
    · rw [decide_eq_true h, Bool.and_true]
    · rw [BitVec.getLsbD_of_ge e _ (Nat.not_lt.1 h), Bool.false_and]
  rw [entryAddr, hdiv, entryAddr]

theorem VtdClosedOn.protects {t : VtdTables r} {m' : Mem} {Q : Nat → Prop}
    (hm : VtdInv t m fun n => vtdLeaf (4096 * n))
    (hm' : VtdClosedOn t (fun n => vtdLeaf (4096 * n)) Q m') : VtdProtects t.pdptPaddr m m' Q := by
  obtain ⟨g, hg, hgf⟩ := hm'
  constructor
  intro a ha
  have hleaf : IsEntry (vtdLeaf (4096 * (a / 2 ^ 12))) (4096 * (a / 2 ^ 12)) 3 :=
    vtdLeaf_isEntry (by omega)
  have haddr : 4096 * (a / 2 ^ 12) = a / 2 ^ 12 * 2 ^ 12 := Nat.mul_comm ..
  obtain ⟨hin, hout⟩ := hgf (a / 2 ^ 12)
  refine ⟨_, _, hm.walk ha, hg.walk ha, rfl, rfl, ?_⟩
  by_cases hQ : Q (a / 2 ^ 12)
  · refine ⟨?_, ?_, fun h => absurd hQ h, fun _ => ?_⟩
    · rw [hin hQ, entryAddr_vtdClosed, hleaf.entryAddr, haddr]
    · rw [hin hQ, vtdClosed_closed]
    · rw [hin hQ]
      exact ⟨vtdClosed_getLsbD _ (by decide), vtdClosed_getLsbD _ (by decide)⟩
  · refine ⟨?_, ?_, fun _ => ⟨hout hQ, ?_⟩, fun h => absurd h hQ⟩
    · rw [hout hQ, hleaf.entryAddr, haddr]
    · rw [hout hQ]
    · have e3 := vtdLink_isEntry t.pdts_block (i := a / 2 ^ 30) (by omega)
      have e2 := vtdLink_isEntry t.pts_block (i := a / 2 ^ 21) (by omega)
      rw [← t.pdts_paddr] at e3
      rw [← t.pts_paddr] at e2
      simp only [VtdPath.rights, hout hQ, e3.getLsbD (i := 0) (by decide), e2.getLsbD (i := 0) (by decide),
        hleaf.getLsbD (i := 0) (by decide), e3.getLsbD (i := 1) (by decide),
        e2.getLsbD (i := 1) (by decide), hleaf.getLsbD (i := 1) (by decide)]
      decide

/-- The hardware lets a DMA read, and a DMA write, of the address through. -/
def vtdRights (m : Mem) (root a : Nat) : Bool × Bool :=
  ((vtdWalk m root a).map VtdPath.rights).getD (false, false)

theorem VtdProtects.rights {root a : Nat} {m' : Mem} {Q : Nat → Prop} (h : VtdProtects root m m' Q)
    (ha : a < 2 ^ 32) (hQ : Q (a / 2 ^ 12)) : vtdRights m' root a = (false, false) := by
  obtain ⟨q, q', -, hq', -, -, -, -, -, hin⟩ := h.walk a ha
  obtain ⟨h0, h1⟩ := hin hQ
  simp only [vtdRights, hq', VtdPath.rights, h0, h1, Option.map_some, Option.getD_some, Bool.and_false]

section
variable {δ ε : Type} {u : VtdUnits δ} {Ready : δ → Prop} {c : PciConf ε} {eap : SvmEap}

theorem vmxProtect_returns (hu : u.Completes Ready) (t : VtdTables r) {s : Vtd δ} (hs : Ready s.dev)
    (h : Bounds start size) : ∃ s₁ N, vtdSetuppagetables t s = some s₁ ∧ ∀ fuel, N ≤ fuel →
      ∃ s₂, vmxProtect r u fuel start size s₁ = some s₂ ∧
        VtdProtects t.pdptPaddr s₁.mem s₂.mem (InRegion start size) := by
  obtain ⟨s₁, hset, hinv, hdev, hnum, hpts, n1, n2, n3⟩ := vtdInv_setup t s
  obtain ⟨N, d', -, hflush⟩ := vtdInvalidatecaches_returns hu s₁.numDrhd (hdev.symm ▸ hs)
  refine ⟨s₁, N + 2 ^ 20, hset, fun fuel hfuel => ?_⟩
  obtain ⟨m', hloop, hm'⟩ := vtd_loop h (show 2 ^ 20 ≤ fuel by omega) hinv
  refine ⟨{ s₁ with mem := m', dev := d' }, ?_, hm'.protects hinv⟩
  have g1 : (guard (s₁.pdptPaddr ≠ 0 ∧ s₁.pdptVaddr ≠ 0) : Option Unit) = some () := if_pos n1
  have g2 : (guard (s₁.pdtsPaddr ≠ 0 ∧ s₁.pdtsVaddr ≠ 0) : Option Unit) = some () := if_pos n2
  have g3 : (guard (s₁.ptsPaddr ≠ 0 ∧ s₁.ptsVaddr ≠ 0) : Option Unit) = some () := if_pos n3
  rw [← hpts] at hloop
  simp only [vmxProtect, h.add32_eq, hloop, hflush fuel (by omega), g1, g2, g3, Option.bind_eq_bind,
    Option.bind_some]

theorem svmProtect_returns (hc : c.Completes eap) (he : eap.Located) (b : DevBitmap r)
    (hb : eap.devBitmapVaddr = b.vaddr) (s : Svm ε) (h : Bounds start size) :
    ∃ N, ∀ fuel, N ≤ fuel → ∃ s', svmProtect c eap r fuel start size s = some s' ∧
      DevClosedOn b s.mem (InRegion start size) s'.mem := by
  obtain ⟨N, d', hflush⟩ := svmEapDevInvalidateCache_returns hc he s.dev
  refine ⟨N + 2 ^ 20, fun fuel hfuel => ?_⟩
  obtain ⟨m', hloop, hm'⟩ := dev_loop (m := s.mem) b h (show 2 ^ 20 ≤ fuel by omega)
  refine ⟨⟨m', d'⟩, ?_, hm'⟩
  simp only [svmProtect, h.pageAlign4K_start, h.add32_eq, hb, hloop, hflush fuel (by omega),
    Option.bind_eq_bind, Option.bind_some]

/-- **DMA protection is exact and the same on both back ends**: from the tables of
`_vtd_setuppagetables`, and from any DEV bitmap, both protect functions return, and close exactly the
pages from `start` to `start + size` rounded down; so every byte of the region is closed on both. -/
theorem protect_exact (hu : u.Completes Ready) (t : VtdTables r) (s : Vtd δ) (hs : Ready s.dev)
    (hc : c.Completes eap) (he : eap.Located) (b : DevBitmap r) (hb : eap.devBitmapVaddr = b.vaddr)
    (e : Svm ε) (halign : start % 4096 = 0) (hsize : start + size < 0xFFFFF000) :
    ∃ s₁ N, vtdSetuppagetables t s = some s₁ ∧ ∀ fuel, N ≤ fuel → ∃ s₂ e₂,
      vmxProtect r u fuel start size s₁ = some s₂ ∧ svmProtect c eap r fuel start size e = some e₂ ∧
      VtdProtects t.pdptPaddr s₁.mem s₂.mem (InRegion start size) ∧
      (∀ p, b.denies e₂.mem p = true ↔ b.denies e.mem p = true ∨ InRegion start size p) ∧
      ∀ a, start ≤ a → a < start + size →
        vtdRights s₂.mem t.pdptPaddr a = (false, false) ∧ b.denies e₂.mem (a / 2 ^ 12) = true := by
  have h : Bounds start size := ⟨halign, hsize⟩
  obtain ⟨s₁, N₁, hset, hvmx⟩ := vmxProtect_returns hu t hs h
  obtain ⟨N₂, hsvm⟩ := svmProtect_returns hc he b hb e h
  refine ⟨s₁, N₁ + N₂, hset, fun fuel hfuel => ?_⟩
  obtain ⟨s₂, h₂, hvtd⟩ := hvmx fuel (by omega)
  obtain ⟨e₂, h₂', hdev⟩ := hsvm fuel (by omega)
  refine ⟨s₂, e₂, h₂, h₂', hvtd, hdev, fun a ha ha' => ?_⟩
  have hin : InRegion start size (a / 2 ^ 12) := .of_mem halign ha ha'
  exact ⟨hvtd.rights (by omega) hin, (hdev _).2 (.inr hin)⟩

end

/-! The runtime at its link address, with units and a DEV block that are never busy. -/

/-- The tables in a buffer at 0xC1000000. -/
def relocatedVtd : VtdTables relocated :=
  .ofBuffer (⟨by decide, by decide, by decide⟩ : Block relocated 0xC1000000 2053) (by decide)

/-- The bitmap at 0xC3000000. -/
def relocatedDev : DevBitmap relocated where
  vaddr := 0xC3000000
  ne := by decide
  block := ⟨by decide, by decide, by decide⟩

/-- Units that report the requested granularity at once. -/
def promptUnits : VtdUnits Unit where
  read _ reg d := (match reg with | .ccmd => 1 <<< 59 | .iotlb => 1 <<< 57, d)
  write _ _ _ d := d

theorem promptUnits_completes : promptUnits.Completes fun _ => True where
  idle _ _ _ := ⟨0, .now rfl (by decide) trivial⟩
  ccmd _ _ _ := ⟨0, .now rfl (by decide) ⟨by decide, trivial⟩⟩
  iotlb _ _ _ := ⟨0, .now rfl (by decide) ⟨by decide, trivial⟩⟩

/-- A DEV block whose registers read zero. -/
def promptConf : PciConf Unit where
  read _ d := (0, d)
  write _ _ d := d

/-- The DEV block at 0xF0. -/
def eapAt (vaddr : Nat) : SvmEap := ⟨0xF0, 0xF4, 0xF8, vaddr⟩

theorem eapAt_located (vaddr : Nat) : (eapAt vaddr).Located where
  found := by simp [SvmEap.found, eapAt]
  fnidx_le := by simp [eapAt]
  data_le := by simp [eapAt]

theorem promptConf_completes (vaddr : Nat) : promptConf.Completes (eapAt vaddr) :=
  fun _ _ _ _ _ => ⟨0, .now rfl (by decide) trivial⟩

/-- The VT-d component before its setup, with one unit. -/
def bareVtd : Vtd Unit := ⟨fun _ => 0, 0, 0, 0, 0, 0, 0, 1, ()⟩

/-- An empty bitmap. -/
def bareSvm : Svm Unit := ⟨fun _ => 0, ()⟩

theorem protect_exact_relocated :
    ∃ s₁ N, vtdSetuppagetables relocatedVtd bareVtd = some s₁ ∧ ∀ fuel, N ≤ fuel → ∃ s₂ e₂,
      vmxProtect relocated promptUnits fuel 0x10000000 0x0C200000 s₁ = some s₂ ∧
      svmProtect promptConf (eapAt 0xC3000000) relocated fuel 0x10000000 0x0C200000 bareSvm = some e₂ ∧
      VtdProtects relocatedVtd.pdptPaddr s₁.mem s₂.mem (InRegion 0x10000000 0x0C200000) ∧
      (∀ p, relocatedDev.denies e₂.mem p = true ↔
        relocatedDev.denies bareSvm.mem p = true ∨ InRegion 0x10000000 0x0C200000 p) ∧
      ∀ a, 0x10000000 ≤ a → a < 0x10000000 + 0x0C200000 →
        vtdRights s₂.mem relocatedVtd.pdptPaddr a = (false, false) ∧
        relocatedDev.denies e₂.mem (a / 2 ^ 12) = true :=
  protect_exact promptUnits_completes relocatedVtd bareVtd trivial (promptConf_completes _)
    (eapAt_located _) relocatedDev rfl bareSvm (by decide) (by decide)

end Xmhf.Dmaprot
