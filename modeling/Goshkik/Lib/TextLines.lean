import Mathlib.Data.List.Basic

/-!
# Text broken into lines

A text is broken at its newlines, and each of the pieces is cut into lines of a fixed width.  The
lemmas say what one more character does to the last line.
-/

universe u

variable {Symbol : Type u}

/-- A piece of text cut into lines of the given width; without any text it is one empty line. -/
def wrapLine (columns : ℕ) (line : List Symbol) : List (List Symbol) :=
  if columns = 0 ∨ line.length ≤ columns then [line]
  else line.take columns :: wrapLine columns (line.drop columns)
  termination_by line.length
  decreasing_by
    simp only [List.length_drop]
    omega

/-- The lines of a text. -/
def textLines [BEq Symbol] (newline : Symbol) (columns : ℕ) (text : List Symbol) :
    List (List Symbol) :=
  (text.splitOn newline).flatMap (wrapLine columns)

/-- The last of the lines that fit on the rows. -/
def visibleLines (rows : ℕ) (lines : List (List Symbol)) : List (List Symbol) :=
  lines.drop (lines.length - rows)

/-- The symbol in a row and column. -/
def symbolAt (lines : List (List Symbol)) (row column : ℕ) : Option Symbol :=
  lines[row]?.bind (fun symbols => symbols[column]?)

section Wrap

variable {columns : ℕ} {line : List Symbol}

theorem wrapLine_short (short : line.length ≤ columns) : wrapLine columns line = [line] := by
  rw [wrapLine, if_pos (.inr short)]

theorem wrapLine_long (positive : 0 < columns) (long : columns < line.length) :
    wrapLine columns line = line.take columns :: wrapLine columns (line.drop columns) := by
  rw [wrapLine, if_neg (by omega)]

/-- One more symbol goes to the last line, or to a new one when that line is full. -/
theorem wrapLine_snoc (positive : 0 < columns) (line : List Symbol) (symbol : Symbol) :
    ∃ front last, wrapLine columns line = front ++ [last] ∧ last.length ≤ columns ∧
      wrapLine columns (line ++ [symbol]) =
        if last.length = columns then front ++ [last, [symbol]]
          else front ++ [last ++ [symbol]] := by
  by_cases short : line.length ≤ columns
  · refine ⟨[], line, wrapLine_short short, short, ?_⟩
    by_cases full : line.length = columns
    · have long : columns < (line ++ [symbol]).length := by
        rw [List.length_append, List.length_singleton]
        omega
      have taken : (line ++ [symbol]).take columns = line := by
        rw [← full, List.take_left']
        rfl
      have dropped : (line ++ [symbol]).drop columns = [symbol] := by
        rw [← full, List.drop_left']
        rfl
      rw [if_pos full, wrapLine_long positive long, taken, dropped,
        wrapLine_short (by rw [List.length_singleton]; omega)]
      rfl
    · rw [if_neg full, wrapLine_short (by rw [List.length_append, List.length_singleton]; omega)]
      rfl
  · have long : columns < line.length := by omega
    have longer : columns < (line ++ [symbol]).length := by
      rw [List.length_append]
      omega
    have shorter : (line.drop columns).length < line.length := by
      rw [List.length_drop]
      omega
    rcases wrapLine_snoc positive (line.drop columns) symbol with
      ⟨front, last, wrapped, width, extended⟩
    refine ⟨line.take columns :: front, last, ?_, width, ?_⟩
    · rw [wrapLine_long positive long, wrapped]
      rfl
    · rw [wrapLine_long positive longer, List.take_append_of_le_length (by omega),
        List.drop_append_of_le_length (by omega), extended]
      split
      · rfl
      · rfl
  termination_by line.length

end Wrap

section Lines

variable [BEq Symbol] {newline : Symbol} {columns : ℕ}

theorem textLines_nil : textLines newline columns [] = [[]] := by
  simp [textLines, wrapLine]

variable [LawfulBEq Symbol]

/-- A symbol that is no newline extends the last piece. -/
theorem splitOn_snoc {symbol : Symbol} (text : List Symbol) (different : symbol ≠ newline) :
    ∃ front piece, text.splitOn newline = front ++ [piece] ∧
      (text ++ [symbol]).splitOn newline = front ++ [piece ++ [symbol]] := by
  induction text with
  | nil => exact ⟨[], [], rfl, by simp [List.splitOn_cons_eq_if_modifyHead, different]⟩
  | cons first text ih =>
      rcases ih with ⟨front, piece, split, extended⟩
      simp only [List.cons_append, List.splitOn_cons_eq_if_modifyHead, split, extended]
      split
      · exact ⟨[] :: front, piece, rfl, rfl⟩
      · cases front with
        | nil => exact ⟨[], first :: piece, rfl, rfl⟩
        | cons head front => exact ⟨(first :: head) :: front, piece, rfl, rfl⟩

/-- A newline starts an empty line. -/
theorem textLines_newline (text : List Symbol) :
    textLines newline columns (text ++ [newline]) = textLines newline columns text ++ [[]] := by
  rw [textLines, List.splitOn_append_cons_self, List.flatMap_append]
  simp [textLines, wrapLine]

/-- Another symbol goes to the last line, or to a new one when that line is full. -/
theorem textLines_snoc (positive : 0 < columns) {symbol : Symbol} (different : symbol ≠ newline)
    (text : List Symbol) :
    ∃ front last, textLines newline columns text = front ++ [last] ∧ last.length ≤ columns ∧
      textLines newline columns (text ++ [symbol]) =
        if last.length = columns then front ++ [last, [symbol]]
          else front ++ [last ++ [symbol]] := by
  rcases splitOn_snoc text different with ⟨pieces, piece, split, extended⟩
  rcases wrapLine_snoc positive piece symbol with ⟨front, last, wrapped, width, longer⟩
  refine ⟨pieces.flatMap (wrapLine columns) ++ front, last, ?_, width, ?_⟩
  · simp [textLines, split, wrapped]
  · simp only [textLines, extended, List.flatMap_append, List.flatMap_singleton, longer]
    split
    · rw [List.append_assoc]
    · rw [List.append_assoc]

end Lines

section Grid

variable {rows : ℕ} {front lines : List (List Symbol)} {last : List Symbol}

theorem symbolAt_eq_none {row : ℕ} (outside : lines.length ≤ row) (column : ℕ) :
    symbolAt lines row column = none := by
  rw [symbolAt, List.getElem?_eq_none outside]
  rfl

theorem length_visibleLines (rows : ℕ) (lines : List (List Symbol)) :
    (visibleLines rows lines).length = min lines.length rows := by
  rw [visibleLines, List.length_drop]
  omega

theorem symbolAt_append_nil (lines : List (List Symbol)) (row column : ℕ) :
    symbolAt (lines ++ [[]]) row column = symbolAt lines row column := by
  rcases Nat.lt_trichotomy row lines.length with before | here | behind
  · rw [symbolAt, symbolAt, List.getElem?_append_left before]
  · rw [symbolAt_eq_none (Nat.le_of_eq here.symm), symbolAt, here, List.getElem?_concat_length]
    rfl
  · rw [symbolAt_eq_none (Nat.le_of_lt behind), symbolAt_eq_none]
    rw [List.length_append, List.length_singleton]
    omega

/-- While there are rows left, an empty line changes nothing. -/
theorem symbolAt_newline_of_lt (left : lines.length < rows) (row column : ℕ) :
    symbolAt (visibleLines rows (lines ++ [[]])) row column =
      symbolAt (visibleLines rows lines) row column := by
  have all : (lines ++ [[]]).length - rows = 0 := by
    rw [List.length_append, List.length_singleton]
    omega
  have before : lines.length - rows = 0 := by omega
  rw [visibleLines, visibleLines, all, before, List.drop_zero, List.drop_zero, symbolAt_append_nil]

/-- Without a row left, an empty line moves the others up by one. -/
theorem symbolAt_newline_of_le (positive : 0 < rows) (full : rows ≤ lines.length) (row column : ℕ) :
    symbolAt (visibleLines rows (lines ++ [[]])) row column =
      symbolAt (visibleLines rows lines) (row + 1) column := by
  have dropped : visibleLines rows (lines ++ [[]]) = lines.drop (lines.length - rows + 1) ++
      [[]] := by
    rw [visibleLines, List.length_append, List.length_singleton, Nat.sub_add_comm full,
      List.drop_append_of_le_length (by omega)]
  rw [dropped, symbolAt_append_nil, symbolAt, symbolAt, visibleLines, List.getElem?_drop,
    List.getElem?_drop]
  have same : lines.length - rows + 1 + row = lines.length - rows + (row + 1) := by omega
  rw [same]

/-- Behind the last line there is nothing. -/
theorem symbolAt_end (positive : 0 < rows) :
    symbolAt (visibleLines rows (front ++ [last])) (min front.length (rows - 1)) last.length =
      none := by
  have length : (front.drop (front.length + 1 - rows)).length = min front.length (rows - 1) := by
    rw [List.length_drop]
    omega
  rw [visibleLines, List.length_append, List.length_singleton,
    List.drop_append_of_le_length (by omega), symbolAt, ← length, List.getElem?_concat_length,
    Option.bind_some, List.getElem?_eq_none (Nat.le_refl _)]

/-- Another symbol in the last line. -/
theorem symbolAt_snoc (positive : 0 < rows) (symbol : Symbol) (row column : ℕ) :
    symbolAt (visibleLines rows (front ++ [last ++ [symbol]])) row column =
      if row = min front.length (rows - 1) ∧ column = last.length then some symbol
      else symbolAt (visibleLines rows (front ++ [last])) row column := by
  have dropped : ∀ line : List Symbol, visibleLines rows (front ++ [line]) =
      front.drop (front.length + 1 - rows) ++ [line] := by
    intro line
    rw [visibleLines, List.length_append, List.length_singleton,
      List.drop_append_of_le_length (by omega)]
  have length : (front.drop (front.length + 1 - rows)).length = min front.length (rows - 1) := by
    rw [List.length_drop]
    omega
  rw [dropped, dropped, ← length]
  generalize front.drop (front.length + 1 - rows) = above
  rcases Nat.lt_trichotomy row above.length with before | here | behind
  · rw [if_neg (by omega), symbolAt, symbolAt, List.getElem?_append_left before,
      List.getElem?_append_left before]
  · subst here
    simp only [symbolAt, List.getElem?_concat_length, Option.bind_some, true_and]
    by_cases inLine : column = last.length
    · rw [if_pos inLine, inLine, List.getElem?_concat_length]
    · rw [if_neg inLine]
      rcases Nat.lt_or_gt_of_ne inLine with inside | outside
      · rw [List.getElem?_append_left inside]
      · rw [List.getElem?_eq_none (by rw [List.length_append, List.length_singleton]; omega),
          List.getElem?_eq_none (by omega)]
  · rw [if_neg (by omega), symbolAt_eq_none, symbolAt_eq_none]
    · rw [List.length_append, List.length_singleton]
      omega
    · rw [List.length_append, List.length_singleton]
      omega

end Grid
