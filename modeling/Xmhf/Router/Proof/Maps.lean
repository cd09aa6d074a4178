import Mathlib.Data.Nat.Digits.Lemmas
import Xmhf.Router.Maps

/-!
# The memory map, line by line

`parseProcMap_iff`: for a text that lists `Region`s, the list has just their nodes if no line is longer than the
buffer, no address has more than 8 digits, and `rtemap_` stands in no other lines than those that name such a file.
-/

namespace Xmhf.Router

open CString Lines

/-! ## The text -/

/-- A range of addresses, what is known about it, and the file that it maps. -/
structure Region where
  start : Nat
  stop : Nat
  attrs : CStr
  path : CStr
  blank : attrs.head? = some ' '
  oneLine : '\n' ∉ attrs ++ path

/-- The digits of `%08lx` -/
def hexDigits (n : Nat) : List Nat := (Nat.digits 16 n).reverse.leftpad 8 0

/-- `%08lx` -/
def hex8 (n : Nat) : CStr := (hexDigits n).map Nat.digitChar

/-- The line, without the newline. -/
def Region.body (r : Region) : CStr := hex8 r.start ++ '-' :: (hex8 r.stop ++ (r.attrs ++ r.path))

/-- The line -/
def Region.line (r : Region) : CStr := r.body ++ ['\n']

/-- The text of `/proc/self/maps` -/
def mapsText (rs : List Region) : CStr := rs.flatMap Region.line

/-- The name of the file, without its directories. -/
def baseName (path : CStr) : CStr := (path.reverse.takeWhile (· ≠ '/')).reverse

/-- The line names a file of huge pages. -/
def Region.IsHuge (r : Region) : Prop := "rtemap_".toList <+: baseName r.path

instance (r : Region) : Decidable r.IsHuge := inferInstanceAs (Decidable (_ <+: _))

/-- The node for the line. -/
def Region.node (r : Region) : ProcMap :=
  { startAddr := r.start, endAddr := r.stop, isHugePage := if r.IsHuge then 1 else 0 }

/-- The line is short, its addresses have 8 digits, and it has the prefix of a file of huge pages in its name only. -/
structure Region.Plain (r : Region) : Prop where
  length : r.line.length < 256
  start : r.start < 16 ^ 8
  stop : r.stop < 16 ^ 8
  huge : hasRtemap r.line = true ↔ r.IsHuge

theorem Region.plain_iff (r : Region) : r.Plain ↔
    r.line.length < 256 ∧ r.start < 16 ^ 8 ∧ r.stop < 16 ^ 8 ∧ (hasRtemap r.line = true ↔ r.IsHuge) := by
  constructor
  · exact fun h => ⟨h.length, h.start, h.stop, h.huge⟩
  · rintro ⟨length, start, stop, huge⟩
    exact { length, start, stop, huge }

instance (r : Region) : Decidable r.Plain := decidable_of_iff _ r.plain_iff.symm

variable {bits n : Nat} {r : Region} {rs : List Region} {v : Addresses} {s : CStr}

/-! ## Hexadecimal numbers -/

theorem digitIn_digitChar {d : Nat} (h : d < 16) : digitIn 16 (Nat.digitChar d) = some d := by
  revert d
  decide

theorem hexDigits_lt {d : Nat} (h : d ∈ hexDigits n) : d < 16 := by
  rw [hexDigits, List.leftpad, List.mem_append, List.mem_replicate, List.mem_reverse] at h
  rcases h with ⟨-, rfl⟩ | h
  · decide
  · exact Nat.digits_lt_base (by decide) h

theorem eight_le_length (n : Nat) : 8 ≤ (hexDigits n).length := by
  rw [hexDigits, List.leftpad, List.length_append, List.length_replicate]
  omega

theorem length_hexDigits (h : n < 16 ^ 8) : (hexDigits n).length = 8 := by
  have hle : (Nat.digits 16 n).length ≤ 8 := (Nat.digits_length_le_iff (by decide) n).2 h
  rw [hexDigits, List.leftpad, List.length_append, List.length_replicate, List.length_reverse]
  omega

theorem ofDigits_hexDigits (n : Nat) : ofDigits 16 (hexDigits n) = n := by
  rw [ofDigits, hexDigits, List.leftpad, List.reverse_append, List.reverse_reverse, List.reverse_replicate,
    Nat.ofDigits_append, Nat.ofDigits_digits, Nat.ofDigits_replicate_zero, Nat.mul_zero, Nat.add_zero]

/-- The number in the first 8 digits -/
def frontDigits (n : Nat) : Nat := ofDigits 16 ((hexDigits n).take 8)

theorem frontDigits_lt (n : Nat) : frontDigits n < 16 ^ 8 := by
  have hlen : ((hexDigits n).take 8).reverse.length = 8 := by
    rw [List.length_reverse, List.length_take, Nat.min_eq_left (eight_le_length n)]
  have hlt : frontDigits n < 16 ^ ((hexDigits n).take 8).reverse.length :=
    Nat.ofDigits_lt_base_pow_length (by decide) fun d hd =>
      hexDigits_lt (List.mem_of_mem_take (List.mem_reverse.1 hd))
  rwa [hlen] at hlt

theorem frontDigits_eq_iff : frontDigits n = n ↔ n < 16 ^ 8 := by
  constructor
  · exact fun h => h ▸ frontDigits_lt n
  · intro h
    rw [frontDigits, List.take_of_length_le (Nat.le_of_eq (length_hexDigits h)), ofDigits_hexDigits]

/-! ## Reading the addresses -/

theorem spanDigits_map {ds : List Nat} (h : ∀ d ∈ ds, d < 16) : spanDigits 16 (ds.map Nat.digitChar) = (ds, []) := by
  induction ds with
  | nil => rfl
  | cons d ds ih =>
    rw [List.map_cons, spanDigits, digitIn_digitChar (h d List.mem_cons_self),
      ih fun d hd => h d (List.mem_cons_of_mem _ hd)]

theorem not_hasHexPrefix {ds : List Nat} (h : ∀ d ∈ ds, d < 16) : ¬ HasHexPrefix (ds.map Nat.digitChar) := by
  have hx : ∀ c : Char, digitIn 16 c = none → (ds.map Nat.digitChar)[1]? ≠ some c := by
    intro c hc heq
    obtain ⟨d, hd, rfl⟩ := List.mem_map.1 (List.mem_of_getElem? heq)
    rw [digitIn_digitChar (h d hd)] at hc
    cases hc
  rintro ⟨-, hc | hc⟩
  · exact hx 'x' (by decide) hc
  · exact hx 'X' (by decide) hc

/-- A digit at the front is neither a blank nor a sign. -/
theorem sign_map {d : Nat} {ds : List Nat} (h : d < 16) (s : CStr) :
    ((d :: ds).map Nat.digitChar ++ s).dropWhile isSpace = (d :: ds).map Nat.digitChar ++ s ∧
      sign ((d :: ds).map Nat.digitChar ++ s) = (false, (d :: ds).map Nat.digitChar ++ s) := by
  obtain ⟨hspace, hminus, hplus⟩ := digitVal_some
    (Option.isSome_iff_exists.2 ⟨d, (digitIn_eq_some.1 (digitIn_digitChar h)).1⟩)
  rw [List.map_cons, List.cons_append]
  refine ⟨List.dropWhile_cons_of_neg (by simp [hspace]), ?_⟩
  simp [sign, hminus, hplus]

theorem strtoul_map {d : Nat} {ds : List Nat} (h : ∀ x ∈ d :: ds, x < 16) (hv : ofDigits 16 (d :: ds) < 2 ^ bits) :
    strtoul bits 16 ((d :: ds).map Nat.digitChar) =
      { val := ofDigits 16 (d :: ds), rest := [], erange := false } := by
  obtain ⟨hblank, hsign⟩ := @sign_map d ds (h d List.mem_cons_self) []
  rw [List.append_nil] at hblank hsign
  have hradix : radix 16 ((d :: ds).map Nat.digitChar) = (16, (d :: ds).map Nat.digitChar) := by
    rw [radix, if_neg fun hc => not_hasHexPrefix h hc.2.1, if_pos (by decide)]
  simp only [strtoul, hblank, hsign, hradix, spanDigits_map h, if_neg (Nat.not_le.2 hv), Bool.false_eq_true,
    if_false]

/-- The address is read from its first 8 digits. -/
theorem scanHex_hex8 (hbits : 32 ≤ bits) (n : Nat) (s : CStr) :
    scanHex bits 8 (hex8 n ++ s) = some (frontDigits n, (hex8 n).drop 8 ++ s) := by
  have hmem : ∀ d ∈ (hexDigits n).take 8, d < 16 := fun d hd => hexDigits_lt (List.mem_of_mem_take hd)
  have hlen := eight_le_length n
  have hval : frontDigits n < 2 ^ bits := by
    have hpow : 2 ^ 32 ≤ 2 ^ bits := Nat.pow_le_pow_right (by decide) hbits
    have hlt := frontDigits_lt n
    omega
  rw [frontDigits] at hval ⊢
  rw [hex8]
  cases hds : hexDigits n with
  | nil =>
    rw [hds] at hlen
    cases hlen
  | cons d ds =>
    rw [hds] at hmem hlen hval
    rw [List.take_succ_cons] at hmem hval ⊢
    have h8 : 8 ≤ ((d :: ds).map Nat.digitChar).length := by
      rwa [List.length_map]
    have htake : ((d :: ds).map Nat.digitChar ++ s).take 8 = (d :: ds.take 7).map Nat.digitChar := by
      rw [List.take_append_of_le_length h8, ← List.map_take, List.take_succ_cons]
    rw [scanHex, (sign_map (hmem d List.mem_cons_self) s).1, htake, strtoul_map hmem hval,
      List.drop_append_of_le_length h8]
    rfl

/-- The addresses of the line are read for what they are if they have 8 digits each. -/
theorem scanAddresses_line (hbits : 32 ≤ bits) (r : Region) (v : Addresses) :
    scanAddresses bits r.line v = { startAddress := r.start, endAddress := r.stop } ↔
      r.start < 16 ^ 8 ∧ r.stop < 16 ^ 8 := by
  have hline : r.line = hex8 r.start ++ ('-' :: (hex8 r.stop ++ (r.attrs ++ r.path ++ ['\n']))) := by
    simp [Region.line, Region.body]
  by_cases h : r.start < 16 ^ 8
  · have hdrop : (hex8 r.start).drop 8 = [] := by
      rw [hex8, ← List.map_drop, List.drop_of_length_le (Nat.le_of_eq (length_hexDigits h)), List.map_nil]
    have hscan : scanAddresses bits r.line v = { startAddress := r.start, endAddress := frontDigits r.stop } := by
      rw [scanAddresses, hline, scanHex_hex8 hbits, hdrop, List.nil_append]
      simp only [List.head?_cons, List.tail_cons, if_true, scanHex_hex8 hbits, frontDigits_eq_iff.2 h]
    rw [hscan, Addresses.mk.injEq, frontDigits_eq_iff]
    exact ⟨fun h' => ⟨h, h'.2⟩, fun h' => ⟨rfl, h'.2⟩⟩
  · have hstart : (scanAddresses bits r.line v).startAddress = frontDigits r.start := by
      rw [scanAddresses, hline, scanHex_hex8 hbits]
      simp only
      split_ifs
      · split
        · rfl
        · rfl
      · rfl
    constructor
    · intro heq
      rw [heq] at hstart
      exact absurd (frontDigits_eq_iff.1 hstart.symm) h
    · exact fun h' => absurd h'.1 h

/-! ## The loop -/

/-- The nodes for the buffers, the first one first. -/
def nodesFrom (bits : Nat) (v : Addresses) : List CStr → List ProcMap
  | [] => []
  | line :: rest =>
    let v := scanAddresses bits line v
    { startAddr := v.startAddress, endAddr := v.endAddress, isHugePage := if hasRtemap line then 1 else 0 } ::
      nodesFrom bits v rest

theorem parseLoop_eq (bits : Nat) (v : Addresses) (head : List ProcMap) (ls : List CStr) :
    parseLoop bits v head ls = (nodesFrom bits v ls).reverse ++ head := by
  induction ls generalizing v head with
  | nil => rfl
  | cons l ls ih =>
    rw [parseLoop, nodesFrom, ih, List.reverse_cons, List.append_assoc]
    rfl

theorem length_nodesFrom (bits : Nat) (v : Addresses) (ls : List CStr) :
    (nodesFrom bits v ls).length = ls.length := by
  induction ls generalizing v with
  | nil => rfl
  | cons l ls ih => rw [nodesFrom, List.length_cons, ih, List.length_cons]

theorem newline_not_mem_hex8 (n : Nat) : '\n' ∉ hex8 n := by
  intro h
  obtain ⟨d, hd, heq⟩ := List.mem_map.1 h
  have hdigit := digitIn_digitChar (hexDigits_lt hd)
  rw [heq] at hdigit
  cases hdigit

theorem Region.newline_not_mem (r : Region) : '\n' ∉ r.body := by
  simp only [Region.body, List.mem_append, List.mem_cons]
  rintro (h | h | h | h)
  · exact newline_not_mem_hex8 r.start h
  · cases h
  · exact newline_not_mem_hex8 r.stop h
  · exact r.oneLine (List.mem_append.2 h)

/-- The text, as it is read. -/
theorem fgetsAll_mapsText (size : Nat) (rs : List Region) :
    fgetsAll size (mapsText rs) = rs.flatMap fun r => fgetsAll size r.line := by
  have hlines : lines (mapsText rs) = rs.map Region.line := by
    induction rs with
    | nil => rfl
    | cons r rs ih =>
      have happend : mapsText (r :: rs) = r.body ++ '\n' :: mapsText rs := by
        simp [mapsText, Region.line]
      rw [happend, lines_cons r.newline_not_mem, ih, List.map_cons, Region.line]
  rw [fgetsAll_eq_flatMap, hlines, List.flatMap_map]

/-- A line is read in one piece or in several ones. -/
theorem Region.fgetsAll_line (r : Region) : (r.line.length < 256 ∧ fgetsAll 256 r.line = [r.line]) ∨
    (¬ r.line.length < 256 ∧ 2 ≤ (fgetsAll 256 r.line).length) := by
  by_cases h : r.line.length < 256
  · exact Or.inl ⟨h, Lines.fgetsAll_line ⟨r.body, r.newline_not_mem, Or.inl rfl⟩ h⟩
  · refine Or.inr ⟨h, two_le_length_fgetsAll r.newline_not_mem (by decide) ?_⟩
    rw [Region.line, List.length_append, List.length_singleton] at h
    omega

theorem length_le_pieces (rs : List Region) : rs.length ≤ (rs.flatMap fun r => fgetsAll 256 r.line).length := by
  induction rs with
  | nil => exact Nat.le_refl _
  | cons r rs ih =>
    rw [List.flatMap_cons, List.length_append, List.length_cons]
    rcases r.fgetsAll_line with ⟨-, h⟩ | ⟨-, h⟩
    · rw [h, List.length_singleton]
      omega
    · omega

/-- The node for a line that is read in one piece. -/
theorem node_eq_iff (hbits : 32 ≤ bits) (hlen : r.line.length < 256) :
    ({ startAddr := (scanAddresses bits r.line v).startAddress,
       endAddr := (scanAddresses bits r.line v).endAddress,
       isHugePage := if hasRtemap r.line then 1 else 0 } : ProcMap) = r.node ↔ r.Plain := by
  have hhuge : ((if hasRtemap r.line = true then 1 else 0) = if r.IsHuge then 1 else 0) ↔
      (hasRtemap r.line = true ↔ r.IsHuge) := by
    by_cases h1 : hasRtemap r.line = true <;> by_cases h2 : r.IsHuge <;> simp [h1, h2]
  have haddr := scanAddresses_line hbits r v
  rw [Addresses.ext_iff] at haddr
  rw [Region.node, ProcMap.mk.injEq, hhuge]
  constructor
  · rintro ⟨h1, h2, h3⟩
    obtain ⟨hstart, hstop⟩ := haddr.1 ⟨h1, h2⟩
    exact ⟨hlen, hstart, hstop, h3⟩
  · intro h
    obtain ⟨h1, h2⟩ := haddr.2 ⟨h.start, h.stop⟩
    exact ⟨h1, h2, h.huge⟩

theorem nodesFrom_eq_iff (hbits : 32 ≤ bits) (v : Addresses) (rs : List Region) :
    nodesFrom bits v (rs.flatMap fun r => fgetsAll 256 r.line) = rs.map Region.node ↔ ∀ r ∈ rs, r.Plain := by
  induction rs generalizing v with
  | nil => simp [nodesFrom]
  | cons r rs ih =>
    rw [List.flatMap_cons, List.map_cons, List.forall_mem_cons]
    rcases r.fgetsAll_line with ⟨hlen, hone⟩ | ⟨hlen, htwo⟩
    · rw [hone, List.singleton_append, nodesFrom, List.cons.injEq, node_eq_iff hbits hlen, ih]
    · -- A second piece is a node too many, and the other lines are a node each at least.
      constructor
      · intro heq
        have hcount := congrArg List.length heq
        have hrest := length_le_pieces rs
        rw [length_nodesFrom, List.length_append, List.length_cons, List.length_map] at hcount
        omega
      · exact fun h => absurd h.1.length hlen

/-- **The list is exact for the maps whose lines are short, with short addresses and no misleading names.** -/
theorem parseProcMap_iff (hbits : 32 ≤ bits) (uninit : Addresses) (rs : List Region) :
    parseProcMap bits uninit (mapsText rs) = (rs.map Region.node).reverse ↔ ∀ r ∈ rs, r.Plain := by
  rw [parseProcMap, parseLoop_eq, List.append_nil, fgetsAll_mapsText, List.reverse_inj, nodesFrom_eq_iff hbits]

/-- A program and a file of huge pages -/
def routerMaps : List Region :=
  [{ start := 0x08048000, stop := 0x08049000, attrs := " r-xp 00000000 08:01 1234 ".toList
     path := "/usr/bin/router".toList, blank := by decide, oneLine := by decide },
   { start := 0xb7000000, stop := 0xb7200000, attrs := " rw-s 00000000 00:0d 5678 ".toList
     path := "/mnt/huge/rtemap_0".toList, blank := by decide, oneLine := by decide }]

theorem parseProcMap_iff_routerMaps :
    parseProcMap 32 { startAddress := 0, endAddress := 0 } (mapsText routerMaps) =
      [{ startAddr := 0xb7000000, endAddr := 0xb7200000, isHugePage := 1 },
       { startAddr := 0x08048000, endAddr := 0x08049000, isHugePage := 0 }] :=
  (parseProcMap_iff (by decide) _ routerMaps).2 (by decide +kernel)

/-- A file with a name of 231 characters -/
def longRegion : Region :=
  { start := 0x08048000, stop := 0x08049000, attrs := " r-xp 00000000 08:01 1234 ".toList
    path := '/' :: List.replicate 230 'a', blank := by decide, oneLine := by decide }

/-- A long line is two nodes, the second one with what its characters look like. -/
theorem parseProcMap_long : longRegion.start % 4096 = 0 ∧ longRegion.stop % 4096 = 0 ∧
    longRegion.start < longRegion.stop ∧
    parseProcMap 32 { startAddress := 0, endAddress := 0 } (mapsText [longRegion]) ≠
      ([longRegion].map Region.node).reverse := by
  decide +kernel

end Xmhf.Router
