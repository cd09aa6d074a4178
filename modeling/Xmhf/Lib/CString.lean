import Mathlib.Data.List.Infix
import Mathlib.Data.Nat.Digits.Defs

/-!
# Numbers and tokens in strings

Strings of C, as lists of characters without the NUL at the end, in the "C" locale.

* `strtoul` and `atoi` read a number at the front. `number` is the notation of C constants: such a number is read for
  what it is, up to a character that ends it (`strtoul_number`).
* `scanHex`: the conversion `%lx` of `sscanf`, with a field width.
* `tokens`: what `strtok_r` returns, call by call, and how the tokens of a prefix go on (`tokens_append`).
-/

namespace Xmhf.CString

abbrev CStr := List Char

/-! ## Characters -/

/-- `isspace` -/
def isSpace (c : Char) : Bool := c.toNat = 32 || (9 ≤ c.toNat && c.toNat ≤ 13)

/-- The digit or letter `c`, as a digit of a base up to 36 -/
def digitVal (c : Char) : Option Nat :=
  if 48 ≤ c.toNat ∧ c.toNat ≤ 57 then some (c.toNat - 48)
  else if 97 ≤ c.toNat ∧ c.toNat ≤ 122 then some (c.toNat - 87)
  else if 65 ≤ c.toNat ∧ c.toNat ≤ 90 then some (c.toNat - 55)
  else none

/-- The digit `c` of the base -/
def digitIn (base : Nat) (c : Char) : Option Nat := (digitVal c).bind fun d => if d < base then some d else none

/-- The digits at the front of a string, and the rest of it -/
def spanDigits (base : Nat) : CStr → List Nat × CStr
  | [] => ([], [])
  | c :: s =>
    match digitIn base c with
    | some d => (d :: (spanDigits base s).1, (spanDigits base s).2)
    | none => ([], c :: s)

/-- The number with these digits, the first one the most significant -/
def ofDigits (base : Nat) (ds : List Nat) : Nat := Nat.ofDigits base ds.reverse

/-! ## Reading numbers -/

/-- A number that was read: its value, what follows it, and whether it was out of range (`ERANGE`) -/
structure Scanned where
  val : Nat
  rest : CStr
  erange : Bool
  deriving DecidableEq, Repr

/-- An optional sign -/
def sign (s : CStr) : Bool × CStr :=
  if s.head? = some '-' then (true, s.tail)
  else if s.head? = some '+' then (false, s.tail)
  else (false, s)

/-- The string starts with `0x`. -/
def HasHexPrefix (s : CStr) : Prop := s.head? = some '0' ∧ (s[1]? = some 'x' ∨ s[1]? = some 'X')

instance (s : CStr) : Decidable (HasHexPrefix s) := inferInstanceAs (Decidable (_ ∧ _))

/-- The base of a number, and where its digits start: for base 0 by the prefix `0x` or `0`. Base 16 has the prefix
`0x` too. -/
def radix (base : Nat) (s : CStr) : Nat × CStr :=
  if (base = 0 ∨ base = 16) ∧ HasHexPrefix s ∧ ((s[2]?).bind (digitIn 16)).isSome then (16, s.drop 2)
  else if base ≠ 0 then (base, s)
  else if s.head? = some '0' then (8, s)
  else (10, s)

/-- `strtoul` for an `unsigned long` of `bits` bits: without digits nothing is read, a number that does not fit gives
`ULONG_MAX`, and a negative one is taken modulo `2 ^ bits`. -/
def strtoul (bits base : Nat) (s : CStr) : Scanned :=
  let signed := sign (s.dropWhile isSpace)
  let based := radix base signed.2
  match spanDigits based.1 based.2 with
  | ([], _) => { val := 0, rest := s, erange := false }
  | (ds, rest) =>
    let v := ofDigits based.1 ds
    if 2 ^ bits ≤ v then { val := 2 ^ bits - 1, rest, erange := true }
    else { val := if signed.1 then (2 ^ bits - v) % 2 ^ bits else v, rest, erange := false }

/-- `atoi`, which does not define what it makes of a number out of the range of `int` -/
def atoi (s : CStr) : Option Int :=
  let signed := sign (s.dropWhile isSpace)
  let v : Int := ofDigits 10 (spanDigits 10 signed.2).1
  let v := if signed.1 then -v else v
  if -2 ^ 31 ≤ v ∧ v < 2 ^ 31 then some v else none

/-- `%lx` of `sscanf` with a field width: the number and the rest, or `none` for a matching failure -/
def scanHex (bits width : Nat) (s : CStr) : Option (Nat × CStr) :=
  let s := s.dropWhile isSpace
  let scanned := strtoul bits 16 (s.take width)
  if scanned.rest.length < (s.take width).length then some (scanned.val, scanned.rest ++ s.drop width) else none

/-! ## Numbers as they are written -/

/-- A string of digits. -/
def allDigits (base : Nat) (s : CStr) : Option Nat :=
  match spanDigits base s with
  | (d :: ds, []) => some (ofDigits base (d :: ds))
  | _ => none

/-- A number in the notation of C: hexadecimal after `0x`, octal after `0`, else decimal, without a sign. -/
def number (s : CStr) : Option Nat :=
  if HasHexPrefix s then allDigits 16 (s.drop 2)
  else if s.head? = some '0' then allDigits 8 s
  else allDigits 10 s

/-- The string does not go on with a digit, or with the `x` of a prefix. -/
def Ends (r : CStr) : Prop := ∀ c ∈ r.head?, digitIn 16 c = none ∧ c ≠ 'x' ∧ c ≠ 'X'

variable {base bits v : Nat} {s r : CStr} {c : Char} {ds : List Nat}

theorem digitIn_eq_some {d : Nat} : digitIn base c = some d ↔ digitVal c = some d ∧ d < base := by
  unfold digitIn
  cases digitVal c with
  | none => simp
  | some d' =>
    by_cases h : d' < base
    · simp only [Option.bind_some, if_pos h, Option.some.injEq]
      constructor
      · rintro rfl
        exact ⟨rfl, h⟩
      · exact fun h' => h'.1
    · simp only [Option.bind_some, if_neg h, Option.some.injEq]
      constructor
      · intro h'
        cases h'
      · rintro ⟨rfl, h'⟩
        exact absurd h' h

theorem digitIn_none_mono {base' : Nat} (hle : base' ≤ base) (h : digitIn base c = none) :
    digitIn base' c = none := by
  cases hd : digitIn base' c with
  | none => rfl
  | some d =>
    obtain ⟨hval, hlt⟩ := digitIn_eq_some.1 hd
    rw [digitIn_eq_some.2 ⟨hval, Nat.lt_of_lt_of_le hlt hle⟩] at h
    cases h

/-- A digit is neither blank nor a sign. -/
theorem digitVal_some (h : (digitVal c).isSome) : isSpace c = false ∧ c ≠ '-' ∧ c ≠ '+' := by
  have hrange : 48 ≤ c.toNat := by
    unfold digitVal at h
    split_ifs at h
    · omega
    · omega
    · omega
    · cases h
  refine ⟨?_, ?_, ?_⟩
  · have h32 : c.toNat ≠ 32 := by omega
    have h13 : ¬ c.toNat ≤ 13 := by omega
    simp [isSpace, h32, h13]
  · rintro rfl
    exact absurd hrange (by decide)
  · rintro rfl
    exact absurd hrange (by decide)

theorem spanDigits_append (h : spanDigits base s = (ds, [])) (hr : ∀ c ∈ r.head?, digitIn base c = none) :
    spanDigits base (s ++ r) = (ds, r) := by
  induction s generalizing ds with
  | nil =>
    obtain rfl : [] = ds := congrArg Prod.fst h
    cases r with
    | nil => rfl
    | cons c r =>
      have hc : digitIn base c = none := hr c rfl
      rw [List.nil_append, spanDigits, hc]
  | cons c s ih =>
    rw [List.cons_append, spanDigits]
    rw [spanDigits] at h
    cases hc : digitIn base c with
    | none =>
      rw [hc] at h
      cases h
    | some d =>
      rw [hc] at h
      simp only [Prod.mk.injEq] at h ⊢
      obtain ⟨rfl, hrest⟩ := h
      rw [ih (Prod.ext rfl hrest)]
      exact ⟨rfl, rfl⟩

/-- The front of a string of digits. -/
theorem spanDigits_front (h : spanDigits base (s ++ r) = (ds, [])) :
    ∃ ds1 ds2, spanDigits base s = (ds1, []) ∧ ds = ds1 ++ ds2 ∧ ds1.length = s.length := by
  induction s generalizing ds with
  | nil => exact ⟨[], ds, rfl, rfl, rfl⟩
  | cons c s ih =>
    rw [List.cons_append, spanDigits] at h
    rw [spanDigits]
    cases hc : digitIn base c with
    | none =>
      rw [hc] at h
      cases h
    | some d =>
      rw [hc] at h
      simp only [Prod.mk.injEq] at h
      obtain ⟨rfl, hrest⟩ := h
      obtain ⟨ds1, ds2, hspan, hds, hlen⟩ := ih (Prod.ext rfl hrest)
      refine ⟨d :: ds1, ds2, by rw [hspan], congrArg (d :: ·) hds, ?_⟩
      rw [List.length_cons, List.length_cons, hlen]

theorem ofDigits_le_append (base : Nat) (ds1 ds2 : List Nat) (hbase : 0 < base) :
    ofDigits base ds1 ≤ ofDigits base (ds1 ++ ds2) := by
  rw [ofDigits, ofDigits, List.reverse_append, Nat.ofDigits_append]
  exact (Nat.le_mul_of_pos_left _ (Nat.pow_pos hbase)).trans (Nat.le_add_left _ _)

theorem allDigits_eq_some (h : allDigits base s = some v) :
    ∃ d ds, spanDigits base s = (d :: ds, []) ∧ v = ofDigits base (d :: ds) := by
  unfold allDigits at h
  split at h
  · next d ds heq => exact ⟨d, ds, heq, (Option.some.inj h).symm⟩
  · cases h

/-- A string of digits starts with one. -/
theorem allDigits_head (h : allDigits base s = some v) : ∃ c s', s = c :: s' ∧ (digitIn base c).isSome := by
  obtain ⟨d, ds, hspan, -⟩ := allDigits_eq_some h
  cases s with
  | nil => cases hspan
  | cons c s =>
    refine ⟨c, s, rfl, ?_⟩
    rw [spanDigits] at hspan
    cases hc : digitIn base c with
    | none =>
      rw [hc] at hspan
      cases hspan
    | some d => rfl

theorem allDigits_front (hbase : 0 < base) (h : allDigits base (s ++ r) = some v) (hs : s ≠ []) :
    ∃ v', allDigits base s = some v' ∧ v' ≤ v := by
  obtain ⟨d, ds, hspan, rfl⟩ := allDigits_eq_some h
  obtain ⟨ds1, ds2, hspan1, hds, hlen⟩ := spanDigits_front hspan
  cases ds1 with
  | nil => exact absurd (List.eq_nil_of_length_eq_zero hlen.symm) hs
  | cons d1 ds1 =>
    refine ⟨ofDigits base (d1 :: ds1), by rw [allDigits, hspan1], ?_⟩
    rw [hds]
    exact ofDigits_le_append base _ _ hbase

/-- Where the digits of a number start, whatever follows it. -/
theorem radix_number (h : number s = some v) (hr : Ends r) :
    ∃ b s', radix 0 (s ++ r) = (b, s' ++ r) ∧ allDigits b s' = some v ∧ b ≤ 16 := by
  unfold number at h
  by_cases hhex : HasHexPrefix s
  · rw [if_pos hhex] at h
    obtain ⟨c, s', hs, hc⟩ := allDigits_head h
    obtain ⟨a, x, t, rfl⟩ : ∃ a x t, s = a :: x :: t := by
      match s, hs with
      | a :: x :: t, _ => exact ⟨a, x, t, rfl⟩
      | [a], hs => cases hs
      | [], hs => cases hs
    obtain rfl : t = c :: s' := hs
    refine ⟨16, c :: s', ?_, h, Nat.le_refl _⟩
    exact if_pos ⟨Or.inl rfl, hhex, hc⟩
  · rw [if_neg hhex] at h
    have hne : s ≠ [] := by
      rintro rfl
      cases h
    have hhead : (s ++ r).head? = s.head? := by
      cases s with
      | nil => exact absurd rfl hne
      | cons c s => rfl
    have hnot : ¬ HasHexPrefix (s ++ r) := by
      rintro ⟨h0, hx⟩
      rw [hhead] at h0
      match s, hne with
      | [a], _ =>
        cases r with
        | nil => simp at hx
        | cons x r =>
          obtain ⟨-, hx1, hx2⟩ := hr x rfl
          simp [hx1, hx2] at hx
      | a :: x :: t, _ => exact hhex ⟨h0, hx⟩
    have hradix : radix 0 (s ++ r) = if s.head? = some '0' then (8, s ++ r) else (10, s ++ r) := by
      rw [radix, if_neg fun hc => hnot hc.2.1, if_neg (by decide), hhead]
    rw [hradix]
    by_cases h0 : s.head? = some '0'
    · rw [if_pos h0] at h ⊢
      exact ⟨8, s, rfl, h, by decide⟩
    · rw [if_neg h0] at h ⊢
      exact ⟨10, s, rfl, h, by decide⟩

theorem number_head (h : number s = some v) : ∃ c s', s = c :: s' ∧ (digitVal c).isSome := by
  have hdigit : ∀ b, allDigits b s = some v → ∃ c s', s = c :: s' ∧ (digitVal c).isSome := by
    intro b hb
    obtain ⟨c, s', hs, hc⟩ := allDigits_head hb
    obtain ⟨d, hd⟩ := Option.isSome_iff_exists.1 hc
    exact ⟨c, s', hs, Option.isSome_iff_exists.2 ⟨d, (digitIn_eq_some.1 hd).1⟩⟩
  unfold number at h
  split_ifs at h with hhex h0
  · obtain ⟨h0, -⟩ := hhex
    cases s with
    | nil => cases h0
    | cons c s =>
      obtain rfl : c = '0' := Option.some.inj h0
      exact ⟨'0', s, rfl, by decide⟩
  · exact hdigit 8 h
  · exact hdigit 10 h

/-- A number that starts with a digit has no blanks and no sign before it. -/
theorem sign_of_digit {s' : CStr} (hs : s = c :: s') (hc : (digitVal c).isSome) :
    sign ((s ++ r).dropWhile isSpace) = (false, s ++ r) := by
  subst hs
  obtain ⟨hspace, hminus, hplus⟩ := digitVal_some hc
  rw [List.cons_append, List.dropWhile_cons_of_neg (by simp [hspace])]
  simp [sign, hminus, hplus]

theorem ends_cons (hc : digitIn 16 c = none ∧ c ≠ 'x' ∧ c ≠ 'X') : Ends (c :: s) := by
  intro c' hc'
  obtain rfl := Option.some.inj hc'
  exact hc

/-- **A number is read for what it is.** -/
theorem strtoul_number (h : number s = some v) (hv : v < 2 ^ bits) (hr : Ends r) :
    strtoul bits 0 (s ++ r) = { val := v, rest := r, erange := false } := by
  obtain ⟨c, t, hs, hc⟩ := number_head h
  obtain ⟨b, s', hradix, hall, hb⟩ := radix_number h hr
  obtain ⟨d, ds, hspan, rfl⟩ := allDigits_eq_some hall
  have hend : ∀ c ∈ r.head?, digitIn b c = none := fun c hc => digitIn_none_mono hb (hr c hc).1
  have hgo := spanDigits_append hspan hend
  simp only [strtoul, sign_of_digit hs hc, hradix, hgo, if_neg (Nat.not_le.2 hv), Bool.false_eq_true, if_false]

theorem atoi_digits (h : allDigits 10 s = some v) (hv : v < 2 ^ 31) : atoi s = some (v : Int) := by
  obtain ⟨c, t, hs, hc⟩ := allDigits_head h
  obtain ⟨d, hd⟩ := Option.isSome_iff_exists.1 hc
  have hsign := sign_of_digit (r := []) hs (Option.isSome_iff_exists.2 ⟨d, (digitIn_eq_some.1 hd).1⟩)
  obtain ⟨d, ds, hspan, rfl⟩ := allDigits_eq_some h
  rw [List.append_nil] at hsign
  simp only [atoi, hsign, hspan, Bool.false_eq_true, if_false]
  exact if_pos ⟨by omega, by omega⟩

/-! ## Tokens -/

/-- The tokens of a string, the first of which goes on from `acc`. -/
def tokensFrom (dlm : Char → Bool) (acc : CStr) : CStr → List CStr
  | [] => if acc = [] then [] else [acc]
  | c :: s =>
    if dlm c then if acc = [] then tokensFrom dlm [] s else acc :: tokensFrom dlm [] s
    else tokensFrom dlm (acc ++ [c]) s

/-- What `strtok_r` returns for a string and the delimiters, call by call -/
def tokens (dlm : Char → Bool) (s : CStr) : List CStr := tokensFrom dlm [] s

variable {dlm : Char → Bool} {acc : CStr}

/-- The token at the end of a string goes on with what follows. -/
theorem tokensFrom_append (acc s r : CStr) : ∃ ts a, tokensFrom dlm acc s = ts ++ (if a = [] then [] else [a]) ∧
    tokensFrom dlm acc (s ++ r) = ts ++ tokensFrom dlm a r := by
  induction s generalizing acc with
  | nil => exact ⟨[], acc, rfl, rfl⟩
  | cons c s ih =>
    rw [List.cons_append, tokensFrom, tokensFrom]
    by_cases hc : dlm c
    · rw [if_pos hc, if_pos hc]
      obtain ⟨ts, a, h1, h2⟩ := ih []
      by_cases hacc : acc = []
      · rw [if_pos hacc, if_pos hacc]
        exact ⟨ts, a, h1, h2⟩
      · rw [if_neg hacc, if_neg hacc, h1, h2]
        exact ⟨acc :: ts, a, rfl, rfl⟩
    · rw [if_neg hc, if_neg hc]
      exact ih (acc ++ [c])

theorem tokensFrom_of_ne_nil (h : acc ≠ []) (r : CStr) : ∃ x us, tokensFrom dlm acc r = (acc ++ x) :: us := by
  induction r generalizing acc with
  | nil => exact ⟨[], [], by rw [tokensFrom, if_neg h, List.append_nil]⟩
  | cons c r ih =>
    rw [tokensFrom]
    by_cases hc : dlm c
    · rw [if_pos hc, if_neg h]
      exact ⟨[], _, by rw [List.append_nil]⟩
    · rw [if_neg hc]
      obtain ⟨x, us, hx⟩ := ih (show acc ++ [c] ≠ [] by simp)
      exact ⟨c :: x, us, by rw [hx, List.append_assoc]; rfl⟩

/-- The tokens of a prefix: all but the last one are tokens of the string, and that one is the front of one. -/
theorem tokens_append (dlm : Char → Bool) (s r : CStr) : (∃ us, tokens dlm (s ++ r) = tokens dlm s ++ us) ∨
    ∃ ts a x us, a ≠ [] ∧ tokens dlm s = ts ++ [a] ∧ tokens dlm (s ++ r) = ts ++ (a ++ x) :: us := by
  obtain ⟨ts, a, h1, h2⟩ := @tokensFrom_append dlm [] s r
  by_cases ha : a = []
  · rw [if_pos ha, List.append_nil] at h1
    exact Or.inl ⟨_, by rw [tokens, tokens, h2, h1]⟩
  · rw [if_neg ha] at h1
    obtain ⟨x, us, hx⟩ := @tokensFrom_of_ne_nil dlm a ha r
    exact Or.inr ⟨ts, a, x, us, ha, h1, by rw [tokens, h2, hx]⟩

theorem ne_nil_of_mem_tokensFrom {a : CStr} (h : a ∈ tokensFrom dlm acc s) : a ≠ [] := by
  induction s generalizing acc with
  | nil =>
    rw [tokensFrom] at h
    split_ifs at h with hacc
    · cases h
    · rw [List.mem_singleton.1 h]
      exact hacc
  | cons c s ih =>
    rw [tokensFrom] at h
    split_ifs at h with hc hacc
    · exact ih h
    · rcases List.mem_cons.1 h with rfl | h
      · exact hacc
      · exact ih h
    · exact ih h

/-- A token of a prefix is a token of the string, or the front of one. -/
theorem tokens_front {us vs : List CStr} {a : CStr} (h : tokens dlm s = us ++ a :: vs) (r : CStr) :
    ∃ x ws, tokens dlm (s ++ r) = us ++ (a ++ x) :: ws := by
  rcases tokens_append dlm s r with ⟨us', heq⟩ | ⟨ts, a', x, us', -, hs, heq⟩
  · exact ⟨[], vs ++ us', by rw [heq, h, List.append_nil, List.append_assoc, List.cons_append]⟩
  · rw [h] at hs
    rcases List.eq_nil_or_concat vs with rfl | ⟨vs', b, rfl⟩
    · obtain ⟨rfl, hlast⟩ := List.append_inj' hs rfl
      obtain rfl := List.singleton_inj.1 hlast
      exact ⟨x, us', heq⟩
    · have hs' : (us ++ a :: vs') ++ [b] = ts ++ [a'] := by rw [← hs]; simp
      obtain ⟨rfl, -⟩ := List.append_inj' hs' rfl
      exact ⟨[], vs' ++ (a' ++ x) :: us', by rw [heq]; simp⟩

end Xmhf.CString
