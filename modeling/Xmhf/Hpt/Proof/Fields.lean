import Xmhf.Hpt.Pmt
import Xmhf.Lib.Field

/-!
# The fields of an entry are independent

`setters_independent`: a setter leaves the getters of the other fields as they were, and setters of different
fields commute, assertions included. Each setter puts something into the bits of its field (`Setter.sets`),
each getter depends on the bits it reads (`Getter.reads`), and none of these overlap (`fieldOf_apart`,
`readsOf_apart`). Bit 7 decides the shape of an entry and belongs to no setter.
-/

namespace Xmhf.Hpt

open Xmhf.Bitfield

variable {t : HptType} {lvl : Nat} {e e' : Pme} {page : Bool}

/-! ## The address by the shape of the entry -/

/-- The bits that an address takes, as `hpt_pme_is_page` decides. -/
def addressRange (t : HptType) (lvl : Nat) (page : Bool) : Nat × Nat :=
  match t with
  | .norm => if lvl = 2 ∧ page then (31, 22) else (31, 12)
  | .pae | .long => if lvl ≠ 1 ∧ page then (51, 13) else (51, 12)
  | .ept | .invalid => (51, 12)

theorem addressRange_fst_le : (addressRange t lvl page).1 ≤ 51 := by
  unfold addressRange
  repeat' split
  all_goals decide

theorem le_addressRange_snd : 12 ≤ (addressRange t lvl page).2 := by
  unfold addressRange
  repeat' split
  all_goals decide

theorem pmeSetAddress_eq (t : HptType) (lvl : Nat) (e : Pme) (a : Pa) :
    pmeSetAddress t lvl e a = (pmeIsPage t lvl e).map fun (page : Bool) =>
      copyBits e a (addressRange t lvl page).1 (addressRange t lvl page).2 0 := by
  rcases lvl with _ | _ | _ | _ | _ | lvl <;> cases t <;>
    simp [pmeSetAddress, pmeIsPage, addressRange] <;> split_ifs <;> rfl

/-- A 4 MB page's address is read from two ranges. -/
theorem pmeGetAddress_eq (t : HptType) (lvl : Nat) (e : Pme) :
    pmeGetAddress t lvl e = (pmeIsPage t lvl e).map fun (page : Bool) =>
      copyBits (if t = .norm ∧ lvl = 2 ∧ page then copyBits 0 e 39 32 19 else 0) e
        (addressRange t lvl page).1 (addressRange t lvl page).2 0 := by
  rcases lvl with _ | _ | _ | _ | _ | lvl <;> cases t <;>
    simp [pmeGetAddress, pmeIsPage, addressRange] <;> split_ifs <;> rfl

theorem pmeIsPage_congr7 (h : e'.getLsbD 7 = e.getLsbD 7) : pmeIsPage t lvl e' = pmeIsPage t lvl e := by
  have hbit : getBit e' 7 = getBit e 7 := by
    rw [getBit_eq (by decide), getBit_eq (by decide), h]
  cases t <;> simp only [pmeIsPage, hbit]

/-- The address is read from the same shape of an entry, above its lowest bit. -/
theorem pmeGetAddress_congr (hpage : pmeIsPage t lvl e = some page) (hpage' : pmeIsPage t lvl e' = some page)
    (h : Agree [(51, (addressRange t lvl page).2)] e e') : pmeGetAddress t lvl e' = pmeGetAddress t lvl e := by
  have hhi : (addressRange t lvl page).1 ≤ 51 := addressRange_fst_le
  have hbig : (if t = .norm ∧ lvl = 2 ∧ page = true then copyBits 0 e' 39 32 19 else 0) =
      if t = .norm ∧ lvl = 2 ∧ page = true then copyBits 0 e 39 32 19 else 0 := by
    by_cases hnorm : t = .norm ∧ lvl = 2 ∧ page = true
    · obtain ⟨rfl, rfl, rfl⟩ := hnorm
      rw [if_pos ⟨rfl, rfl, rfl⟩, if_pos ⟨rfl, rfl, rfl⟩]
      exact reads_copyBits (by decide) 0 e e' (h.mono (within_range (by decide) (by decide)))
    · rw [if_neg hnorm, if_neg hnorm]
  rw [pmeGetAddress_eq, pmeGetAddress_eq, hpage, hpage', Option.map_some, Option.map_some, hbig]
  exact congrArg some (reads_copyBits (by omega) _ e e' (h.mono (within_range hhi (Nat.le_refl _))))

/-! ## Setters and getters -/

/-- The fields with a setter. -/
inductive FieldName
  | address
  | prot
  | user
  | unused
  deriving DecidableEq

/-- A setter, with its argument. -/
inductive Setter
  | address (a : Pa)
  | prot (perms : Prot)
  | user (accessible : Bool)
  | unused (hi lo : Int) (val : Pme)

/-- The call. -/
def Setter.run (t : HptType) (lvl : Nat) : Setter → Pme → Option Pme
  | .address a, e => pmeSetAddress t lvl e a
  | .prot perms, e => pmeSetprot t lvl e perms
  | .user accessible, e => pmeSetuser t lvl e accessible
  | .unused hi lo val, e => pmeSetunused t lvl e hi lo val

/-- The field it sets. -/
def Setter.field : Setter → FieldName
  | .address _ => .address
  | .prot _ => .prot
  | .user _ => .user
  | .unused _ _ _ => .unused

/-- A getter, with its argument. -/
inductive Getter
  | address
  | prot
  | user
  | unused (hi lo : Int)
  | isPage
  | pmt

/-- What it returns. -/
def Getter.Result : Getter → Type
  | .address => Pa
  | .prot => Prot
  | .user => Bool
  | .unused _ _ => Pme
  | .isPage => Bool
  | .pmt => Pmt

/-- The call. -/
def Getter.run (t : HptType) (lvl : Nat) : (g : Getter) → Pme → Option g.Result
  | .address, e => pmeGetAddress t lvl e
  | .prot, e => pmeGetprot t lvl e
  | .user, e => pmeGetuser t lvl e
  | .unused hi lo, e => pmeGetunused t lvl e hi lo
  | .isPage, e => pmeIsPage t lvl e
  | .pmt, e => pmeGetPmt t lvl e

/-- The field it gets, if that has a setter. -/
def Getter.field : Getter → Option FieldName
  | .address => some .address
  | .prot => some .prot
  | .user => some .user
  | .unused _ _ => some .unused
  | .isPage | .pmt => none

/-- The bits of a field, over all levels. -/
def fieldOf (t : HptType) : FieldName → Field
  | .address => [(51, 12)]
  | .prot => if t = .ept then [(2, 0)] else [(0, 0), (1, 1), (63, 63)]
  | .user => if t = .ept then [] else [(2, 2)]
  | .unused => [(11, 9)]

/-- The bits that a getter looks at. -/
def readsOf (t : HptType) : Getter → Field
  | .address => (7, 7) :: fieldOf t .address
  | .prot => fieldOf t .prot
  | .user => fieldOf t .user
  | .unused _ _ => fieldOf t .unused
  | .isPage => [(7, 7)]
  | .pmt => if t = .ept then [(7, 7), (5, 3)] else [(4, 3)]

theorem fieldOf_apart {f f' : FieldName} (h : f ≠ f') : (fieldOf t f).Apart (fieldOf t f') := by
  cases t <;> cases f <;> cases f' <;> first | exact absurd rfl h | decide

theorem fieldOf_apart7 (f : FieldName) : (fieldOf t f).Apart [(7, 7)] := by
  cases t <;> cases f <;> decide

theorem readsOf_apart {f : FieldName} {g : Getter} (h : g.field ≠ some f) :
    (fieldOf t f).Apart (readsOf t g) := by
  cases g with
  | unused hi lo => exact fieldOf_apart fun heq => h (congrArg some heq.symm)
  | address | prot | user | isPage | pmt =>
    cases t <;> cases f <;> first | exact absurd rfl h | decide

/-! ## What they set and read -/

theorem sets_address (a : Pa) :
    Sets [(7, 7)] (fieldOf t .address) (fun e => pmeSetAddress t lvl e a) := by
  intro e e' hagree
  have hpage : pmeIsPage t lvl e' = pmeIsPage t lvl e := pmeIsPage_congr7 (hagree 7 (by decide))
  simp only [pmeSetAddress_eq, hpage]
  cases pmeIsPage t lvl e with
  | none => exact Or.inl ⟨rfl, rfl⟩
  | some page =>
    have hhi : (addressRange t lvl page).1 ≤ 51 := addressRange_fst_le
    exact Or.inr ⟨_, a, _, _, rfl, rfl, within_range hhi le_addressRange_snd, puts_copyBits (by omega) e a,
      puts_copyBits (by omega) e' a⟩

/-- Flags that are set bit by bit. -/
theorem sets_setBits {D F : Field} (l : List (Nat × Bool)) (hl : ∀ q ∈ l, q.1 < 64)
    (hF : ∀ r ∈ bitsOf l, r ∈ F) {set : Pme → Option Pme} (h : ∀ e, set e = some (setBits l e)) :
    Sets D F set :=
  sets_of_some h (within_of_subset hF) (puts_setBits hl)

theorem sets_prot (perms : Prot) : Sets [(7, 7)] (fieldOf t .prot) (fun e => pmeSetprot t lvl e perms) := by
  by_cases hvalid : lvlIsValid t lvl ∧ protIsValid t lvl perms
  · have hflags : ∀ q ∈ [(0, perms.getLsbD 0), (1, perms.getLsbD 1), (63, !perms.getLsbD 2)], q.1 < 64 := by
      simp
    simp only [pmeSetprot, if_pos hvalid]
    cases t with
    | norm => exact sets_setBits [(0, _), (1, _)] (by simp) (by simp [bitsOf, fieldOf]) fun _ => rfl
    | pae =>
      by_cases hlvl : lvl = 2 ∨ lvl = 1
      · simp only [if_pos hlvl]
        exact sets_setBits _ hflags (by simp [bitsOf, fieldOf]) fun _ => rfl
      · simp only [if_neg hlvl]
        exact sets_setBits [(0, _)] (by simp) (by simp [bitsOf, fieldOf]) fun _ => rfl
    | long => exact sets_setBits _ hflags (by simp [bitsOf, fieldOf]) fun _ => rfl
    | ept => exact sets_setHL (by decide) (by decide) perms
    | invalid => exact sets_of_none fun _ => rfl
  · simp only [pmeSetprot, if_neg hvalid]
    exact sets_of_none fun _ => rfl

theorem sets_setBit {pos : Nat} (h : pos < 64) (b : Bool) {set : Pme → Option Pme}
    (hset : ∀ e, set e = some (setBit e pos b)) {D : Field} : Sets D [(pos, pos)] set :=
  sets_setBits [(pos, b)] (by simpa using h) (by simp [bitsOf]) hset

/-- Where an entry has no such bit, the argument is checked only. -/
theorem sets_check (user : Bool) {D F : Field} :
    Sets D F fun e : Pme => if user then some e else none := by
  cases user with
  | false => exact sets_of_none fun _ => rfl
  | true => exact sets_of_some (G := []) (v := 0) (fun _ => rfl) (fun _ ⟨_, h, _⟩ => by cases h) fun _ => puts_nil

theorem sets_user (user : Bool) : Sets [(7, 7)] (fieldOf t .user) (fun e => pmeSetuser t lvl e user) := by
  cases t with
  | norm | long => exact sets_setBit (by decide) user fun _ => rfl
  | pae =>
    by_cases hlvl : lvl = 3
    · simp only [pmeSetuser, if_pos hlvl]
      exact sets_check user
    · simp only [pmeSetuser, if_neg hlvl]
      exact sets_setBit (by decide) user fun _ => rfl
  | ept => exact sets_check user
  | invalid => exact sets_of_none fun _ => rfl

theorem sets_unused (hi lo : Int) (val : Pme) :
    Sets [(7, 7)] (fieldOf t .unused) (fun e => pmeSetunused t lvl e hi lo val) := by
  by_cases hvalid : lo < hi ∧ t ≠ .invalid ∧ hi ≤ 2 ∧ 0 ≤ hi
  · simp only [pmeSetunused, if_pos hvalid]
    have hput : ∀ e : Pme, Puts [((min 2 hi).toNat + 9, (max 0 lo).toNat + 9)] (val <<< 9) e
        (copyBits e val (min 2 hi).toNat (max 0 lo).toNat 9) := fun e => by
      intro i
      rw [getLsbD_copyBits (by omega), if_congr inField_range rfl rfl]
      refine if_ctx_congr Iff.rfl (fun hin => ?_) fun _ => rfl
      rw [BitVec.getLsbD_shiftLeft, decide_eq_true (by omega), decide_eq_false (by omega)]
      simp
    exact sets_of_some (fun _ => rfl) (within_range (by omega) (by omega)) hput
  · simp only [pmeSetunused, if_neg hvalid]
    exact sets_of_none fun _ => rfl

theorem Setter.sets (s : Setter) : Sets [(7, 7)] (fieldOf t s.field) (s.run t lvl) := by
  cases s with
  | address a => exact sets_address a
  | prot perms => exact sets_prot perms
  | user user => exact sets_user user
  | unused hi lo val => exact @sets_unused t lvl hi lo val

theorem reads_isPage : Reads [(7, 7)] (pmeIsPage t lvl) :=
  fun _ _ h => pmeIsPage_congr7 (h 7 (by decide))

theorem reads_address : Reads ((7, 7) :: fieldOf t .address) (pmeGetAddress t lvl) := by
  intro e e' h
  have hpage : pmeIsPage t lvl e' = pmeIsPage t lvl e :=
    reads_isPage e e' (h.mono (within_of_subset (by simp)))
  have hagree : Agree [(51, 12)] e e' := h.mono (within_of_subset (by simp [fieldOf]))
  cases he : pmeIsPage t lvl e with
  | none => simp only [pmeGetAddress_eq, hpage, he, Option.map_none]
  | some page =>
    have hlow : Agree [(51, (addressRange t lvl page).2)] e e' :=
      hagree.mono (within_range (Nat.le_refl 51) le_addressRange_snd)
    exact pmeGetAddress_congr he (hpage.trans he) hlow

theorem reads_prot : Reads (fieldOf t .prot) (pmeGetprot t lvl) := by
  intro e e' h
  cases t with
  | norm | pae | long =>
    simp only [pmeGetprot, h 0 (by decide), h 1 (by decide), h 63 (by decide)]
  | ept => simp only [pmeGetprot, h 0 (by decide), h 1 (by decide), h 2 (by decide)]
  | invalid => rfl

theorem reads_user : Reads (fieldOf t .user) (pmeGetuser t lvl) := by
  intro e e' h
  cases t with
  | norm | pae | long =>
    have hbit : getBit e' 2 = getBit e 2 := reads_getBit (by decide) (by decide) e e' h
    simp only [pmeGetuser, hbit]
  | ept | invalid => rfl

theorem reads_unused (hi lo : Int) : Reads (fieldOf t .unused) (fun e => pmeGetunused t lvl e hi lo) := by
  intro e e' h
  by_cases hvalid : lo < hi ∧ t ≠ .invalid ∧ hi ≤ 2 ∧ 0 ≤ hi
  · have hagree : Agree [((min 2 hi).toNat + 9, (max 0 lo).toNat + 9)] e e' :=
      h.mono (within_range (by omega) (by omega))
    simp only [pmeGetunused, if_pos hvalid, reads_getHL (show (min 2 hi).toNat + 9 < 64 by omega) e e' hagree]
  · simp only [pmeGetunused, if_neg hvalid]

theorem reads_pmt : Reads (readsOf t .pmt) (pmeGetPmt t lvl) := by
  intro e e' h
  cases t with
  | norm | pae | long =>
    have h4 := reads_getBit (show 4 < 64 by decide) (by decide) e e' h
    have h3 := reads_getBit (show 3 < 64 by decide) (by decide) e e' h
    simp only [pmeGetPmt, pmeGetPcd, pmeGetPwt, pmeGetBit, h4, h3]
  | ept =>
    have hpage : pmeIsPage .ept lvl e' = pmeIsPage .ept lvl e := pmeIsPage_congr7 (h 7 (by decide))
    have hmt : getHL e' 5 3 = getHL e 5 3 :=
      reads_getHL (by decide) e e' (h.mono (within_of_subset (by simp [readsOf])))
    simp only [pmeGetPmt, hpage, hmt]
  | invalid => rfl

theorem Getter.reads (g : Getter) : Reads (readsOf t g) (g.run t lvl) := by
  cases g with
  | address => exact reads_address
  | prot => exact reads_prot
  | user => exact reads_user
  | unused hi lo => exact @reads_unused t lvl hi lo
  | isPage => exact reads_isPage
  | pmt => exact reads_pmt

/-- **The fields are independent**: a setter leaves what the getters of other fields return, and commutes with the
setters of other fields. -/
theorem setters_independent (t : HptType) (lvl : Nat) (s : Setter) (e : Pme) :
    (∀ e', s.run t lvl e = some e' → ∀ g : Getter, g.field ≠ some s.field →
      g.run t lvl e' = g.run t lvl e) ∧
    ∀ s' : Setter, s.field ≠ s'.field → (s.run t lvl e).bind (s'.run t lvl) =
      (s'.run t lvl e).bind (s.run t lvl) := by
  constructor
  · intro e' hs g hg
    exact s.sets.reads g.reads hs (readsOf_apart hg)
  · intro s' hne
    exact s.sets.comm s'.sets (fieldOf_apart hne) (fieldOf_apart7 _) (fieldOf_apart7 _) e

/-- A 2 MB page of PAE: a new address leaves its protections, and the user flag may come first. -/
theorem setters_independent_pae :
    (Getter.run .pae 2 .prot 0x8000000000600081 = Getter.run .pae 2 .prot 0x8000000000000081) ∧
      ((Setter.address 0x600000).run .pae 2 0x81).bind ((Setter.user true).run .pae 2) =
        ((Setter.user true).run .pae 2 0x81).bind ((Setter.address 0x600000).run .pae 2) :=
  ⟨(setters_independent .pae 2 (.address 0x600000) 0x8000000000000081).1 _ (by decide +kernel) .prot (by decide),
    (setters_independent .pae 2 (.address 0x600000) 0x81).2 (.user true) (by decide)⟩

end Xmhf.Hpt
