import Mathlib.Data.List.Basic

/-!
# Lines read through a buffer

`fgetsAll size` is what a loop over `fgets` with a buffer of `size` bytes sees of a file. Each line is cut by itself
(`fgetsAll_eq_flatMap`): a line that fits the buffer is one piece, a longer one is several (`fgetsAll_line`,
`two_le_length_fgetsAll`).
-/

namespace Xmhf.Lines

/-- The pieces of a file, where `acc` is in the buffer already and `room` more characters fit. -/
def pieces (n room : Nat) (acc : List Char) : List Char → List (List Char)
  | [] => if acc = [] then [] else [acc]
  | c :: s =>
    if c = '\n' ∨ room ≤ 1 then (acc ++ [c]) :: pieces n n [] s else pieces n (room - 1) (acc ++ [c]) s

/-- The buffers of `while (fgets(buff, size, fh) != NULL)` -/
def fgetsAll (size : Nat) (text : List Char) : List (List Char) := pieces (size - 1) (size - 1) [] text

/-- The lines of a file, with their newlines, where the first one goes on from `acc`. -/
def linesFrom (acc : List Char) : List Char → List (List Char)
  | [] => if acc = [] then [] else [acc]
  | c :: s => if c = '\n' then (acc ++ [c]) :: linesFrom [] s else linesFrom (acc ++ [c]) s

/-- The lines of a file -/
def lines (text : List Char) : List (List Char) := linesFrom [] text

variable {n room size : Nat} {acc b s text l : List Char}

theorem linesFrom_eq (hb : '\n' ∉ b) : linesFrom acc (b ++ '\n' :: s) = (acc ++ b ++ ['\n']) :: lines s ∧
    linesFrom acc b = if acc ++ b = [] then [] else [acc ++ b] := by
  induction b generalizing acc with
  | nil => exact ⟨by simp [linesFrom, lines], by simp [linesFrom]⟩
  | cons c b ih =>
    have hc : c ≠ '\n' := fun h => hb (h ▸ List.mem_cons_self)
    obtain ⟨h1, h2⟩ := @ih (acc ++ [c]) fun h => hb (List.mem_cons_of_mem c h)
    have hacc : acc ++ [c] ++ b = acc ++ c :: b := by rw [List.append_assoc, List.singleton_append]
    rw [hacc] at h1 h2
    exact ⟨by rw [List.cons_append, linesFrom, if_neg hc, h1], by rw [linesFrom, if_neg hc, h2]⟩

theorem lines_cons (hb : '\n' ∉ b) : lines (b ++ '\n' :: s) = (b ++ ['\n']) :: lines s := by
  rw [lines, (linesFrom_eq hb).1, List.nil_append]

theorem lines_last (hb : '\n' ∉ b) (h : b ≠ []) : lines b = [b] := by
  rw [lines, (linesFrom_eq (s := []) hb).2, List.nil_append, if_neg h]

/-- A file is a line without a newline at most, or a line and a file. -/
theorem file_induction {P : List Char → Prop} (text : List Char) (nil : P [])
    (last : ∀ b, '\n' ∉ b → b ≠ [] → P b) (cons : ∀ b s, '\n' ∉ b → P s → P (b ++ '\n' :: s)) : P text := by
  induction hlen : text.length using Nat.strongRecOn generalizing text with
  | _ k ih =>
    by_cases hmem : '\n' ∈ text
    · obtain ⟨b, s, rfl, hb⟩ := List.eq_append_cons_of_mem hmem
      refine cons b s hb (ih s.length ?_ s rfl)
      rw [← hlen, List.length_append, List.length_cons]
      omega
    · by_cases hnil : text = []
      · exact hnil ▸ nil
      · exact last text hmem hnil

theorem pieces_append (b s : List Char) :
    pieces n room acc (b ++ '\n' :: s) = pieces n room acc (b ++ ['\n']) ++ pieces n n [] s := by
  induction b generalizing room acc with
  | nil => simp [pieces]
  | cons c b ih =>
    rw [List.cons_append, List.cons_append, pieces, pieces]
    by_cases hc : c = '\n' ∨ room ≤ 1
    · rw [if_pos hc, if_pos hc, ih, List.cons_append]
    · rw [if_neg hc, if_neg hc, ih]

/-- **Each line is cut by itself.** -/
theorem fgetsAll_eq_flatMap (size : Nat) (text : List Char) :
    fgetsAll size text = (lines text).flatMap (fgetsAll size) := by
  induction text using file_induction with
  | nil => rfl
  | last b hb hne => rw [lines_last hb hne, List.flatMap_singleton]
  | cons b s hb ih =>
    rw [lines_cons hb, List.flatMap_cons, ← ih]
    exact pieces_append b s

/-! ## Lines -/

/-- A line of a file, with its newline, which only the last line may be without. -/
def IsLine (l : List Char) : Prop := ∃ b, '\n' ∉ b ∧ (l = b ++ ['\n'] ∨ l = b ∧ b ≠ [])

theorem isLine_of_mem (h : l ∈ lines text) : IsLine l := by
  induction text using file_induction with
  | nil => cases h
  | last b hb hne =>
    rw [lines_last hb hne, List.mem_singleton] at h
    exact ⟨b, hb, Or.inr ⟨h, hne⟩⟩
  | cons b s hb ih =>
    rw [lines_cons hb] at h
    rcases List.mem_cons.1 h with rfl | h
    · exact ⟨b, hb, Or.inl rfl⟩
    · exact ih h

theorem IsLine.ne_nil (h : IsLine l) : l ≠ [] := by
  obtain ⟨b, -, rfl | ⟨rfl, hne⟩⟩ := h
  · simp
  · exact hne

theorem pieces_short (hb : '\n' ∉ b) (h : b.length ≤ room) :
    pieces n room acc b = if acc ++ b = [] then [] else [acc ++ b] := by
  induction b generalizing room acc with
  | nil => simp [pieces]
  | cons c b ih =>
    have hc : c ≠ '\n' := fun h => hb (h ▸ List.mem_cons_self)
    have hb' : '\n' ∉ b := fun h => hb (List.mem_cons_of_mem c h)
    rw [List.length_cons] at h
    rw [pieces]
    by_cases hroom : room ≤ 1
    · obtain rfl : b = [] := List.eq_nil_of_length_eq_zero (by omega)
      rw [if_pos (Or.inr hroom)]
      simp [pieces]
    · rw [if_neg (not_or.2 ⟨hc, hroom⟩), ih hb' (by omega), List.append_assoc, List.singleton_append]

theorem pieces_newline_short (hb : '\n' ∉ b) (h : b.length < room) :
    pieces n room acc (b ++ ['\n']) = [acc ++ b ++ ['\n']] := by
  induction b generalizing room acc with
  | nil => simp [pieces]
  | cons c b ih =>
    have hc : c ≠ '\n' := fun h => hb (h ▸ List.mem_cons_self)
    have hb' : '\n' ∉ b := fun h => hb (List.mem_cons_of_mem c h)
    rw [List.length_cons] at h
    rw [List.cons_append, pieces, if_neg (not_or.2 ⟨hc, by omega⟩), ih hb' (by omega)]
    simp

/-- A line that fits the buffer is read in one piece. -/
theorem fgetsAll_line (hl : IsLine l) (h : l.length < size) : fgetsAll size l = [l] := by
  obtain ⟨b, hb, rfl | ⟨rfl, hne⟩⟩ := hl
  · rw [List.length_append, List.length_singleton] at h
    rw [fgetsAll, pieces_newline_short hb (by omega), List.nil_append]
  · rw [fgetsAll, pieces_short hb (by omega), List.nil_append, if_neg hne]

/-- The first piece is the front of the file. -/
theorem pieces_cons (h : acc ++ s ≠ []) :
    ∃ p ps r, pieces n room acc s = p :: ps ∧ acc ++ s = p ++ r ∧ p ≠ [] := by
  induction s generalizing room acc with
  | nil =>
    rw [List.append_nil] at h ⊢
    exact ⟨acc, [], [], by rw [pieces, if_neg h], (List.append_nil acc).symm, h⟩
  | cons c s ih =>
    rw [pieces]
    by_cases hc : c = '\n' ∨ room ≤ 1
    · exact ⟨acc ++ [c], _, s, by rw [if_pos hc], by simp, by simp⟩
    · obtain ⟨p, ps, r, hp, heq, hne⟩ := @ih (room - 1) (acc ++ [c]) (by simp)
      exact ⟨p, ps, r, by rw [if_neg hc, hp], by rw [← heq]; simp, hne⟩

theorem fgetsAll_cons (h : l ≠ []) : ∃ p ps r, fgetsAll size l = p :: ps ∧ l = p ++ r ∧ p ≠ [] :=
  @pieces_cons (size - 1) (size - 1) [] l h

/-- A line that does not fit goes on in another piece. -/
theorem pieces_long (hb : '\n' ∉ b) (h1 : 1 ≤ room) (h : room ≤ b.length) :
    ∃ p, pieces n room acc (b ++ s) = p :: pieces n n [] (b.drop room ++ s) := by
  induction b generalizing room acc with
  | nil => exact absurd (Nat.le_trans h1 h) (by decide)
  | cons c b ih =>
    have hc : c ≠ '\n' := fun h => hb (h ▸ List.mem_cons_self)
    have hb' : '\n' ∉ b := fun h => hb (List.mem_cons_of_mem c h)
    rw [List.length_cons] at h
    rw [List.cons_append, pieces]
    by_cases hroom : room ≤ 1
    · obtain rfl : room = 1 := Nat.le_antisymm hroom h1
      exact ⟨acc ++ [c], by rw [if_pos (Or.inr hroom)]; rfl⟩
    · obtain ⟨k, rfl⟩ : ∃ k, room = k + 1 := ⟨room - 1, by omega⟩
      rw [if_neg (not_or.2 ⟨hc, hroom⟩), List.drop_succ_cons]
      exact ih hb' (by omega) (by omega)

theorem two_le_length_fgetsAll (hb : '\n' ∉ b) (hsize : 2 ≤ size) (h : size ≤ b.length + 1) :
    2 ≤ (fgetsAll size (b ++ ['\n'])).length := by
  obtain ⟨p, hp⟩ := @pieces_long (size - 1) (size - 1) [] b ['\n'] hb (by omega) (by omega)
  obtain ⟨q, qs, r, hq, -⟩ := @pieces_cons (size - 1) (size - 1) [] (b.drop (size - 1) ++ ['\n']) (by simp)
  rw [fgetsAll, hp, hq]
  simp

end Xmhf.Lines
