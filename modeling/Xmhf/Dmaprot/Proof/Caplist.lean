import Xmhf.Dmaprot.Proof.Early
import Xmhf.Dmaprot.Proof.Protect

/-!
# The search for the DEV block

The traversal reads the index of the next block from the byte of the block's id: it is a search along
the ids (`idNext`), not along the next pointers (`linkNext`). It finds what a search of the list finds
exactly when both come to the same block, or the ids to 0 and the list has no DEV block
(`searchExact_iff`); so it does where the DEV block is the first of the list (`searchExact_of_first`).
-/

namespace Xmhf.Dmaprot

open Xmhf.Memory Xmhf.Word Xmhf.Paging Xmhf.Chain

variable {conf : Mem} {devBitmapPaddr devBitmapVaddr p fuel h : Nat}

/-- The index in a byte; 0 ends a list. -/
def indexAt (conf : Mem) (p : Nat) : Option Nat :=
  if (conf p).toNat ≠ 0 then some (conf p).toNat else none

/-- The next block of the list of capabilities: the byte after the id. -/
def linkNext (conf : Mem) (p : Nat) : Option Nat := indexAt conf (p + 1)

/-- The id of a block taken for an index. -/
def idNext (conf : Mem) (p : Nat) : Option Nat := indexAt conf p

/-- The block has the DEV capability id. -/
def isDev (conf : Mem) (p : Nat) : Bool := decide (conf p = capabilitiesPointerIdDev)

/-- The list of capabilities starts at 0xF0. -/
def StartsAtF0 (conf : Mem) : Prop := (load32 conf capabilitiesPointer).setWidth 8 = 0xF0#8

/-- The call returns, it finds a block if some block of the list has the DEV capability id and only then,
and the header register is the first such block. -/
def SearchExact (conf : Mem) (devBitmapPaddr devBitmapVaddr : Nat) : Prop :=
  ∃ N, ∀ fuel, N ≤ fuel → ∃ found eap,
    svmEapInitialize conf fuel devBitmapPaddr devBitmapVaddr = some (found, eap) ∧
    (found = true ↔ ∃ q, InList (linkNext conf) 0xF0 q ∧ isDev conf q = true) ∧
    ∀ h, FirstHit (linkNext conf) (isDev conf) 0xF0 h → eap.devHdrReg = h

/-- **The traversal follows the ids.** -/
theorem caplistTraverse_eq (hp : p ≤ 4095) :
    caplistTraverse conf fuel p = search (idNext conf) (isDev conf) fuel p := by
  induction fuel generalizing p with
  | zero => rfl
  | succ fuel ih =>
    have hnext : (conf p).toNat ≤ 4095 := by
      have := (conf p).isLt
      omega
    rw [caplistTraverse, search, pciType1ReadByte, if_pos hp]
    by_cases hid : conf p = capabilitiesPointerIdDev
    · simp [isDev, hid]
    · by_cases hzero : (conf p).toNat = 0
      · simp [isDev, hid, idNext, indexAt, hzero]
      · simp [isDev, hid, idNext, indexAt, hzero, ih hnext]

/-- `_svm_eap` for the result of the traversal. -/
def eapFor (devBitmapVaddr : Nat) : Option Nat → Bool × SvmEap
  | some nextptr => (true, ⟨nextptr, nextptr + 4, nextptr + 8, devBitmapVaddr⟩)
  | none => (false, ⟨0, 0, 0, 0⟩)

theorem svmEapInitialize_eq (hcap : StartsAtF0 conf) (halign : devBitmapPaddr % pageSize4K = 0) :
    svmEapInitialize conf fuel devBitmapPaddr devBitmapVaddr =
      (search (idNext conf) (isDev conf) fuel 0xF0).map (eapFor devBitmapVaddr) := by
  have hne : load32 conf capabilitiesPointer ≠ 0 := by
    intro h0
    rw [StartsAtF0, h0] at hcap
    exact absurd hcap (by decide)
  unfold StartsAtF0 at hcap
  rw [svmEapInitialize, if_neg (not_not_intro halign), if_neg hne, if_neg (not_not_intro hcap),
    caplistTraverse_eq (by decide)]
  congr 1

/-- A DEV block at the start of the list is found at once. -/
theorem svmEapInitialize_first (hcap : StartsAtF0 conf) (hid : conf 0xF0 = capabilitiesPointerIdDev)
    (halign : devBitmapPaddr % pageSize4K = 0) :
    svmEapInitialize conf (fuel + 1) devBitmapPaddr devBitmapVaddr =
      some (true, ⟨0xF0, 0xF4, 0xF8, devBitmapVaddr⟩) := by
  have hdev : isDev conf 0xF0 = true := decide_eq_true hid
  rw [svmEapInitialize_eq hcap halign, search, if_pos hdev]
  rfl

/-- **The early protection of the secure loader**, where the DEV block is the first of the list: the
registers are located for later calls, and if loader and runtime are 128MB together at most, the bit of
each of their pages is set. -/
theorem slArchEarlyDmaprotInit_protects {slBaseaddr slProtectedDmabuffer runtimeSize : Nat} {m : Mem}
    (hcap : StartsAtF0 conf) (hid : conf 0xF0 = capabilitiesPointerIdDev)
    (hb : EarlyBuffer slBaseaddr (add32 slBaseaddr slProtectedDmabuffer) slProtectedDmabuffer)
    (hbase : slBaseaddr % pageSize2M = 0) (hsize : runtimeSize + pageSize2M ≤ 2 ^ 27) :
    ∃ eap m', slArchEarlyDmaprotInit conf (fuel + 1) slBaseaddr slProtectedDmabuffer runtimeSize m =
        some (eap, m') ∧ eap.Located ∧
      ∀ a, slBaseaddr ≤ a → a < slBaseaddr + (runtimeSize + pageSize2M) →
        Bitmap.bit m' eap.devBitmapVaddr (a / 4096) = true := by
  have hsum : add32 runtimeSize pageSize2M = runtimeSize + pageSize2M := add32_of_lt (by omega)
  obtain ⟨dev, m', hearly, hdev, hbits, -⟩ := (slRuntime_covered_iff hb hbase (by omega)).2 hsize m
  rw [hsum] at hearly hbits
  have hinit : svmEapInitialize conf (fuel + 1) dev dev = some (true, ⟨0xF0, 0xF4, 0xF8, dev⟩) :=
    svmEapInitialize_first hcap hid hdev
  have g1 : (guard (add32 slBaseaddr slProtectedDmabuffer % pageSize4K = 0) : Option Unit) = some () :=
    if_pos hb.paddr_aligned
  have g2 : (guard (slProtectedDmabuffer % pageSize4K = 0) : Option Unit) = some () :=
    if_pos hb.vaddr_aligned
  have g3 : (guard (pageSize4K * 2 ≤ 2 * pageSize4K) : Option Unit) = some () := if_pos (by decide)
  refine ⟨⟨0xF0, 0xF4, 0xF8, dev⟩, m', ?_, ?_, hbits⟩
  · simp only [slArchEarlyDmaprotInit, svmEarlyinitialize, hsum, g1, g2, g3, hearly, hinit,
      Option.bind_eq_bind, Option.bind_some, if_true]
  · constructor <;> simp [SvmEap.found]

/-- The search is exact where both ways come to the same block. -/
theorem searchExact_of_firstHit (hcap : StartsAtF0 conf) (halign : devBitmapPaddr % pageSize4K = 0)
    (hlink : FirstHit (linkNext conf) (isDev conf) 0xF0 h) (hids : FirstHit (idNext conf) (isDev conf) 0xF0 h) :
    SearchExact conf devBitmapPaddr devBitmapVaddr := by
  obtain ⟨N, hsearch⟩ := search_eq_some_some.2 hids
  refine ⟨N, fun fuel hfuel => ⟨true, ⟨h, h + 4, h + 8, devBitmapVaddr⟩, ?_, ?_, fun h' hf => ?_⟩⟩
  · rw [svmEapInitialize_eq hcap halign, search_mono hsearch hfuel]
    rfl
  · exact ⟨fun _ => exists_firstHit_iff.1 ⟨h, hlink⟩, fun _ => rfl⟩
  · exact hlink.unique hf

/-- **A DEV block at 0xF0**, the first of the list, is what the search has to find. -/
theorem searchExact_of_first (hcap : StartsAtF0 conf) (halign : devBitmapPaddr % pageSize4K = 0)
    (hid : conf 0xF0 = capabilitiesPointerIdDev) : SearchExact conf devBitmapPaddr devBitmapVaddr := by
  have hdev : isDev conf 0xF0 = true := decide_eq_true hid
  exact searchExact_of_firstHit hcap halign (.here hdev) (.here hdev)

/-- **The search is exact** just when the ids, taken for indices, come to the first DEV block of the list,
or to 0 in a list without one. -/
theorem searchExact_iff (hcap : StartsAtF0 conf) (halign : devBitmapPaddr % pageSize4K = 0) :
    SearchExact conf devBitmapPaddr devBitmapVaddr ↔
      (∃ h, FirstHit (linkNext conf) (isDev conf) 0xF0 h ∧ FirstHit (idNext conf) (isDev conf) 0xF0 h) ∨
      (Ends (idNext conf) (isDev conf) 0xF0 ∧
        ¬ ∃ q, InList (linkNext conf) 0xF0 q ∧ isDev conf q = true) := by
  constructor
  · rintro ⟨N, hrun⟩
    obtain ⟨found, eap, hcall, hfound, hreg⟩ := hrun N (Nat.le_refl N)
    rw [svmEapInitialize_eq hcap halign, Option.map_eq_some_iff] at hcall
    obtain ⟨res, hsearch, hres⟩ := hcall
    cases res with
    | some h =>
      obtain ⟨rfl, rfl⟩ := Prod.mk.inj hres
      obtain ⟨h', hf⟩ := exists_firstHit_iff.2 (hfound.1 rfl)
      obtain rfl : h = h' := hreg h' hf
      exact .inl ⟨h, hf, search_eq_some_some.1 ⟨N, hsearch⟩⟩
    | none =>
      obtain ⟨rfl, rfl⟩ := Prod.mk.inj hres
      exact .inr ⟨search_eq_some_none.1 ⟨N, hsearch⟩, fun hq => absurd (hfound.2 hq) Bool.false_ne_true⟩
  · rintro (⟨h, hlink, hids⟩ | ⟨hends, hno⟩)
    · exact searchExact_of_firstHit hcap halign hlink hids
    · obtain ⟨N, hsearch⟩ := search_eq_some_none.2 hends
      refine ⟨N, fun fuel hfuel => ⟨false, ⟨0, 0, 0, 0⟩, ?_, ?_, fun h hf => ?_⟩⟩
      · rw [svmEapInitialize_eq hcap halign, search_mono hsearch hfuel]
        rfl
      · exact ⟨fun h => absurd h Bool.false_ne_true, fun hq => absurd hq hno⟩
      · exact absurd (exists_firstHit_iff.1 ⟨h, hf⟩) hno

/-- A list of two blocks: one with the id 0x08 at 0xF0, and the DEV block at 0xE0. -/
def twoBlocks : Mem
  | 0x34 => 0xF0
  | 0xF0 => 0x08
  | 0xF1 => 0xE0
  | 0xE0 => 0x0F
  | _ => 0

instance : Decidable (StartsAtF0 conf) := inferInstanceAs (Decidable (_ = _))

/-- The DEV block after another one is not found: the id 0x08 is taken for an index, and there is 0. -/
theorem searchExact_not : StartsAtF0 twoBlocks ∧ ¬ SearchExact twoBlocks 0 0 := by
  have hcap : StartsAtF0 twoBlocks := by decide +kernel
  refine ⟨hcap, ?_⟩
  rintro ⟨N, hrun⟩
  obtain ⟨found, eap, hcall, hfound, -⟩ := hrun (N + 2) (Nat.le_add_right N 2)
  have hlist : ∃ q, InList (linkNext twoBlocks) 0xF0 q ∧ isDev twoBlocks q = true :=
    ⟨0xE0, .single (by decide), by decide⟩
  have hsearch : search (idNext twoBlocks) (isDev twoBlocks) 2 0xF0 = some none := by decide
  rw [svmEapInitialize_eq hcap (by decide), search_mono hsearch (Nat.le_add_left 2 N)] at hcall
  obtain ⟨rfl, -⟩ := Prod.mk.inj (Option.some.inj hcall)
  exact absurd (hfound.2 hlist) Bool.false_ne_true

/-- A list of the DEV block alone. -/
def oneBlock : Mem
  | 0x34 => 0xF0
  | 0xF0 => 0x0F
  | _ => 0

theorem searchExact_iff_oneBlock : SearchExact oneBlock 0 0 ↔
    (∃ h, FirstHit (linkNext oneBlock) (isDev oneBlock) 0xF0 h ∧
      FirstHit (idNext oneBlock) (isDev oneBlock) 0xF0 h) ∨
    (Ends (idNext oneBlock) (isDev oneBlock) 0xF0 ∧
      ¬ ∃ q, InList (linkNext oneBlock) 0xF0 q ∧ isDev oneBlock q = true) :=
  searchExact_iff (by decide +kernel) (by decide)

end Xmhf.Dmaprot
