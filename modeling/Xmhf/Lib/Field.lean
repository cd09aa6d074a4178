import Xmhf.Lib.Bitfield

/-!
# Fields of a word

A field is a list of bit ranges, each with its high and its low bit.

* `Puts F v x y`: `y` is `x` with the bits of `v` in the field `F`.
* `Sets D F set`: `set` puts something into a part of `F`, and does the same to all words that agree on `D`.
  Setters of fields that are apart commute (`Sets.comm`).
* `Reads R get`: `get` depends on `R` only. It reads the same after a setter of a field apart (`Sets.reads`).
-/

namespace Xmhf.Bitfield

variable {w : Nat}

/-- Bit ranges `(hi, lo)`. -/
abbrev Field := List (Nat × Nat)

/-- Bit `i` belongs to the field. -/
def InField (F : Field) (i : Nat) : Prop := ∃ r ∈ F, r.2 ≤ i ∧ i ≤ r.1

instance (F : Field) (i : Nat) : Decidable (InField F i) := inferInstanceAs (Decidable (∃ r ∈ F, _))

/-- No bit belongs to both. -/
def Field.Apart (F G : Field) : Prop := ∀ r ∈ F, ∀ s ∈ G, r.1 < s.2 ∨ s.1 < r.2

instance (F G : Field) : Decidable (F.Apart G) := inferInstanceAs (Decidable (∀ r ∈ F, ∀ s ∈ G, _))

/-- The words have the field in common. -/
def Agree (F : Field) (x y : BitVec w) : Prop := ∀ i, InField F i → y.getLsbD i = x.getLsbD i

/-- `y` is `x` with the bits of `v` in the field. -/
def Puts (F : Field) (v x y : BitVec w) : Prop :=
  ∀ i, y.getLsbD i = if InField F i then v.getLsbD i else x.getLsbD i

variable {F G D R : Field} {v u x x' y y' : BitVec w} {i : Nat}

theorem inField_append : InField (F ++ G) i ↔ InField F i ∨ InField G i := by
  simp [InField, or_and_right, exists_or]

theorem inField_range {hi lo : Nat} : InField [(hi, lo)] i ↔ lo ≤ i ∧ i ≤ hi := by
  simp [InField]

theorem Field.Apart.not_inField (h : F.Apart G) (hi : InField F i) : ¬ InField G i := by
  rintro ⟨s, hs, h1, h2⟩
  obtain ⟨r, hr, h3, h4⟩ := hi
  rcases h r hr s hs with hlt | hlt <;> omega

theorem Field.Apart.symm (h : F.Apart G) : G.Apart F := fun s hs r hr => (h r hr s hs).symm

/-- The field lies in the other one. -/
def Field.Within (F G : Field) : Prop := ∀ i, InField F i → InField G i

theorem within_range {hi lo hi' lo' : Nat} (h : hi ≤ hi') (h' : lo' ≤ lo) :
    Field.Within [(hi, lo)] [(hi', lo')] := by
  intro i hi
  rw [inField_range] at hi ⊢
  omega

theorem within_of_subset (h : ∀ r ∈ F, r ∈ G) : F.Within G := fun _ ⟨r, hr, hi⟩ => ⟨r, h r hr, hi⟩

theorem Agree.mono (h : Agree G x y) (hFG : F.Within G) : Agree F x y := fun i hi => h i (hFG i hi)

theorem Puts.eq_of_not_inField (h : Puts F v x y) (hi : ¬ InField F i) : y.getLsbD i = x.getLsbD i := by
  rw [h i, if_neg hi]

theorem Puts.agree (h : Puts F v x y) (hFG : F.Within G) (hap : G.Apart R) : Agree R x y :=
  fun _ hi => h.eq_of_not_inField fun hF => hap.not_inField (hFG _ hF) hi

theorem puts_nil : Puts [] v x x := fun i => (if_neg (by simp [InField])).symm

/-- Puts into fields that are apart commute. -/
theorem Puts.comm (hap : F.Apart G) (h : Puts F v x x') (h' : Puts G u x' y) (k : Puts G u x y')
    {z : BitVec w} (k' : Puts F v y' z) : y = z := by
  apply BitVec.eq_of_getLsbD_eq
  intro i _
  rw [h' i, k' i, h i, k i]
  by_cases hF : InField F i
  · rw [if_pos hF, if_neg (hap.not_inField hF), if_pos hF]
  · rw [if_neg hF, if_neg hF]

/-! ## Setters and getters -/

/-- `set` puts a value into a part of `F`; on words that agree on `D`, the same one. -/
def Sets (D F : Field) (set : BitVec w → Option (BitVec w)) : Prop :=
  ∀ x x', Agree D x x' → (set x = none ∧ set x' = none) ∨
    ∃ G v y y', set x = some y ∧ set x' = some y' ∧ G.Within F ∧ Puts G v x y ∧ Puts G v x' y'

/-- `get` depends on `R` only. -/
def Reads {β : Type*} (R : Field) (get : BitVec w → β) : Prop := ∀ x y, Agree R x y → get y = get x

variable {set set' : BitVec w → Option (BitVec w)}

theorem sets_of_none (h : ∀ x, set x = none) : Sets D F set := fun x x' _ => Or.inl ⟨h x, h x'⟩

theorem sets_of_some {f : BitVec w → BitVec w} (h : ∀ x, set x = some (f x)) (hGF : G.Within F)
    (hp : ∀ x, Puts G v x (f x)) : Sets D F set :=
  fun x x' _ => Or.inr ⟨G, v, f x, f x', h x, h x', hGF, hp x, hp x'⟩

theorem agree_refl (x : BitVec w) : Agree F x x := fun _ _ => rfl

theorem Sets.agree (h : Sets D F set) (hy : set x = some y) (hap : F.Apart R) : Agree R x y := by
  rcases h x x (agree_refl x) with ⟨hnone, -⟩ | ⟨G, v, y₁, -, hy₁, -, hG, hp, -⟩
  · rw [hnone] at hy
    cases hy
  · obtain rfl : y₁ = y := Option.some.inj (hy₁.symm.trans hy)
    exact hp.agree hG hap

/-- **A setter keeps what a getter of another field reads.** -/
theorem Sets.reads {β : Type*} {get : BitVec w → β} (h : Sets D F set) (hg : Reads R get)
    (hy : set x = some y) (hap : F.Apart R) : get y = get x :=
  hg x y (h.agree hy hap)

/-- **Setters of different fields commute**, assertions included. -/
theorem Sets.comm (h : Sets D F set) (h' : Sets D G set') (hap : F.Apart G) (hF : F.Apart D)
    (hG : G.Apart D) (x : BitVec w) : (set x).bind set' = (set' x).bind set := by
  cases hx : set x with
  | none =>
    cases hx' : set' x with
    | none => rfl
    | some y =>
      rcases h x y (h'.agree hx' hG) with ⟨-, hy⟩ | ⟨_, _, _, _, hsome, _⟩
      · exact hy.symm
      · rw [hx] at hsome
        cases hsome
  | some y =>
    cases hx' : set' x with
    | none =>
      rcases h' x y (h.agree hx hF) with ⟨-, hy⟩ | ⟨_, _, _, _, hsome, _⟩
      · exact hy
      · rw [hx'] at hsome
        cases hsome
    | some z =>
      rcases h x z (h'.agree hx' hG) with ⟨hnone, -⟩ | ⟨F', v, y₁, y₂, hy₁, hy₂, hF', hp, hp'⟩
      · rw [hx] at hnone
        cases hnone
      rcases h' x y (h.agree hx hF) with ⟨hnone, -⟩ | ⟨G', u, z₁, z₂, hz₁, hz₂, hG', hq, hq'⟩
      · rw [hx'] at hnone
        cases hnone
      obtain rfl : y₁ = y := Option.some.inj (hy₁.symm.trans hx)
      obtain rfl : z₁ = z := Option.some.inj (hz₁.symm.trans hx')
      rw [Option.bind_some, Option.bind_some, hz₂, hy₂]
      refine congrArg some (BitVec.eq_of_getLsbD_eq fun i _ => ?_)
      rw [hq' i, hp' i, hp i, hq i]
      by_cases hi : InField F' i
      · have hni : ¬ InField G' i := fun hi' => hap.not_inField (hF' i hi) (hG' i hi')
        rw [if_pos hi, if_neg hni, if_pos hi]
      · rw [if_neg hi, if_neg hi]

/-! ## The operations on bit ranges -/

theorem puts_copyBits {hi lo : Nat} (h : hi < 64) (x y : BitVec 64) :
    Puts [(hi, lo)] y x (copyBits x y hi lo 0) := by
  intro i
  rw [show (copyBits x y hi lo 0).getLsbD i = _ from getLsbD_copyBits h x y i]
  exact if_congr inField_range.symm rfl rfl

/-- A value that fits, put into a range. -/
theorem puts_insertHL {hi lo : Nat} (h : hi < 64) (hlo : lo ≤ hi) {val : BitVec 64}
    (hval : zeroHi64 val (63 - (hi - lo)) = val) (x : BitVec 64) :
    Puts [(hi, lo)] (val <<< lo) x (insertHL x hi lo val) := by
  intro i
  rw [insertHL, BitVec.getLsbD_or, BitVec.getLsbD_and, BitVec.getLsbD_not, getLsbD_maskRange64 h,
    if_congr inField_range rfl rfl]
  by_cases hin : lo ≤ i ∧ i ≤ hi
  · rw [if_pos hin, decide_eq_true hin, Bool.not_true, Bool.and_false, Bool.and_false, Bool.false_or]
  · rw [if_neg hin, decide_eq_false hin, Bool.not_false, Bool.and_true]
    have hout : (val <<< lo).getLsbD i = false := by
      rw [BitVec.getLsbD_shiftLeft, ← hval, getLsbD_zeroHi64]
      rcases Nat.lt_or_ge i lo with hlt | hge
      · simp [hlt]
      · simp [show ¬ 63 - (hi - lo) + (i - lo) < 64 by omega]
    rw [hout, Bool.or_false]
    by_cases hi64 : i < 64
    · rw [decide_eq_true hi64, Bool.and_true]
    · rw [BitVec.getLsbD_of_ge x i (Nat.not_lt.1 hi64), Bool.false_and]

theorem sets_setHL {hi lo : Nat} (h : hi < 64) (hlo : lo ≤ hi) (val : BitVec 64) :
    Sets D [(hi, lo)] fun x => setHL x hi lo val := by
  by_cases hval : zeroHi64 val (63 - (hi - lo)) = val
  · exact sets_of_some (fun x => if_pos hval) (within_of_subset fun _ hr => hr) (puts_insertHL h hlo hval)
  · exact sets_of_none fun x => if_neg hval

theorem reads_getBit {pos : Nat} (h : pos < 64) (hR : InField R pos) : Reads R fun x => getBit x pos := by
  intro x y hagree
  change getBit y pos = getBit x pos
  rw [getBit_eq h, getBit_eq h, hagree pos hR]

theorem reads_getHL {hi lo : Nat} (h : hi < 64) : Reads [(hi, lo)] fun x => getHL x hi lo := by
  intro x y hagree
  apply BitVec.eq_of_getLsbD_eq
  intro i _
  rw [getLsbD_getHL h, getLsbD_getHL h]
  by_cases hle : lo + i ≤ hi
  · rw [hagree _ (inField_range.2 ⟨Nat.le_add_right lo i, hle⟩)]
  · rw [decide_eq_false hle, Bool.false_and, Bool.false_and]

theorem reads_copyBits {hi lo offset : Nat} (h : hi + offset < 64) (dst : BitVec 64) :
    Reads [(hi, lo)] fun src => copyBits dst src hi lo offset := by
  intro x y hagree
  simp only [copyBits, reads_getHL (show hi < 64 by omega) x y hagree]

/-- Bits set one after the other. -/
def setBits (l : List (Nat × Bool)) (x : BitVec 64) : BitVec 64 := l.foldl (fun x q => setBit x q.1 q.2) x

/-- The bits `l` names. -/
def bitsOf (l : List (Nat × Bool)) : Field := l.map fun q => (q.1, q.1)

theorem getLsbD_setBits {l : List (Nat × Bool)} (h : ∀ q ∈ l, q.1 < 64) (x y : BitVec 64) (i : Nat) :
    (setBits l y).getLsbD i = if InField (bitsOf l) i then (setBits l x).getLsbD i else y.getLsbD i := by
  induction l generalizing x y with
  | nil => exact (if_neg (by simp [InField, bitsOf])).symm
  | cons q l ih =>
    obtain ⟨pos, b⟩ := q
    have hpos := h (pos, b) List.mem_cons_self
    have hcons : InField (bitsOf ((pos, b) :: l)) i ↔ i = pos ∨ InField (bitsOf l) i := by
      simp only [bitsOf, InField, List.map_cons, List.mem_cons, exists_eq_or_imp]
      exact or_congr_left (by omega)
    have hrest := ih (fun q hq => h q (List.mem_cons_of_mem _ hq)) (setBit x pos b) (setBit y pos b)
    have hx := ih (fun q hq => h q (List.mem_cons_of_mem _ hq)) (setBit x pos b) (setBit x pos b)
    rw [getLsbD_setBit hpos] at hrest hx
    rw [if_congr hcons rfl rfl]
    refine hrest.trans ?_
    by_cases hl : InField (bitsOf l) i
    · rw [if_pos hl, if_pos (Or.inr hl)]
      rfl
    · rw [if_neg hl] at hx ⊢
      by_cases hi : i = pos
      · rw [if_pos hi, if_pos (Or.inl hi)]
        rw [if_pos hi] at hx
        exact hx.symm
      · rw [if_neg hi, if_neg (not_or.2 ⟨hi, hl⟩)]

/-- What bits are set to does not depend on the word. -/
theorem puts_setBits {l : List (Nat × Bool)} (h : ∀ q ∈ l, q.1 < 64) (x : BitVec 64) :
    Puts (bitsOf l) (setBits l 0) x (setBits l x) := fun i => getLsbD_setBits h 0 x i

end Xmhf.Bitfield
