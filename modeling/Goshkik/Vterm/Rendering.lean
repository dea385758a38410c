import Goshkik.Lib.TextLines
import Goshkik.Vterm.Painting

/-!
# The text on the screen

After `vterm_clear`, what `vterm_print` leaves on the screen is the rendering of the last lines of
the text, broken at newlines and at the width of the screen.
-/

namespace Goshkik

open Vterm

/-- The colour of a pixel when the lines are drawn from the top left corner on. -/
def rendered (defaultFont : ℕ → BitVec 8) (fgColor termColor : BitVec 32)
    (lines : List (List (BitVec 8))) (x y : ℕ) : BitVec 32 :=
  match symbolAt lines (y / 16) (x / 8) with
  | some c => if glyphBit defaultFont c (y % 16) (x % 8) then fgColor else termColor
  | none => termColor

/-- The screen shows the last lines of a text, with the cursor behind the last one. -/
structure Shows (defaultFont : ℕ → BitVec 8) (start vterm : Vterm) (front : List (List (BitVec 8)))
    (last : List (BitVec 8)) : Prop where
  rest : vterm = { start with
    cursorX := 8 * last.length
    cursorY := 16 * min front.length (start.height / 16 - 1)
    memory := vterm.memory }
  short : last.length ≤ start.width / 8
  pixels : ∀ x < start.width, ∀ y < start.height, vterm.pixel x y =
    rendered defaultFont start.fgColor start.termColor
      (visibleLines (start.height / 16) (front ++ [last])) x y

variable {defaultFont : ℕ → BitVec 8} {start vterm : Vterm} {front : List (List (BitVec 8))}
  {last : List (BitVec 8)}

theorem rendered_congr {fgColor termColor : BitVec 32} {lines others : List (List (BitVec 8))}
    {x y : ℕ}
    (same : symbolAt lines (y / 16) (x / 8) = symbolAt others (y / 16) (x / 8)) :
    rendered defaultFont fgColor termColor lines x y =
      rendered defaultFont fgColor termColor others x y := by
  unfold rendered
  rw [same]

theorem rendered_none {fgColor termColor : BitVec 32} {lines : List (List (BitVec 8))} {x y : ℕ}
    (empty : symbolAt lines (y / 16) (x / 8) = none) :
    rendered defaultFont fgColor termColor lines x y = termColor := by
  unfold rendered
  rw [empty]

theorem rendered_some {fgColor termColor : BitVec 32} {lines : List (List (BitVec 8))} {x y : ℕ}
    {c : BitVec 8} (here : symbolAt lines (y / 16) (x / 8) = some c) :
    rendered defaultFont fgColor termColor lines x y =
      if glyphBit defaultFont c (y % 16) (x % 8) then fgColor else termColor := by
  unfold rendered
  rw [here]

/-- Lines that stand one row further up. -/
theorem rendered_shift {fgColor termColor : BitVec 32} {lines others : List (List (BitVec 8))}
    {x y : ℕ}
    (shifted : symbolAt lines (y / 16) (x / 8) = symbolAt others (y / 16 + 1) (x / 8)) :
    rendered defaultFont fgColor termColor lines x y =
      rendered defaultFont fgColor termColor others x (y + 16) := by
  have row : (y + 16) / 16 = y / 16 + 1 := by omega
  have line : (y + 16) % 16 = y % 16 := by omega
  unfold rendered
  rw [shifted, row, line]

namespace Shows

theorem fits (shows : Shows defaultFont start vterm front last) (fits : start.Fits) :
    vterm.Fits := by
  rw [shows.rest]
  exact ⟨fits.size, fits.width, fits.height, fits.aligned, fits.wide, fits.bounded⟩

theorem sameHeight (shows : Shows defaultFont start vterm front last) :
    vterm.height = start.height := by
  rw [shows.rest]

theorem sameWidth (shows : Shows defaultFont start vterm front last) :
    vterm.width = start.width := by
  rw [shows.rest]

theorem column (shows : Shows defaultFont start vterm front last) :
    vterm.cursorX = 8 * last.length := by
  rw [shows.rest]

theorem row (shows : Shows defaultFont start vterm front last) :
    vterm.cursorY = 16 * min front.length (start.height / 16 - 1) := by
  rw [shows.rest]

/-- An empty line is begun, below the last one or in place of it. -/
theorem nextRow (shows : Shows defaultFont start vterm front last) (fits : start.Fits) :
    ∃ after, nextRow vterm = some after ∧ Shows defaultFont start after (front ++ [last]) [] := by
  have limits := fits.cursor_lt
  have high := fits.height
  have lowered : (vterm.cursorY + 16) % 2 ^ 64 = vterm.cursorY + 16 := by
    rw [shows.row]
    omega
  have again : (vterm.cursorY + 16 + 16) % 2 ^ 64 = vterm.cursorY + 16 + 16 := by
    rw [shows.row]
    omega
  have length : (front ++ [last]).length = front.length + 1 := by
    rw [List.length_append, List.length_singleton]
  unfold Goshkik.nextRow
  dsimp only
  rw [lowered, again]
  by_cases left : front.length + 1 < start.height / 16
  · rw [if_neg (by rw [shows.row, shows.sameHeight]; omega)]
    refine ⟨_, rfl, ?_, by simp, ?_⟩
    · rw [shows.row, length, Nat.min_eq_left (by omega), Nat.min_eq_left (by omega)]
      rw [shows.rest]
      simp [Nat.mul_add]
    · intro x inLine y below
      refine Eq.trans (shows.pixels x inLine y below) (rendered_congr ?_)
      exact (symbolAt_newline_of_lt (by omega) _ _).symm
  · rw [if_pos (by rw [shows.row, shows.sameHeight]; omega)]
    have moved : ({ vterm with cursorX := 0, cursorY := vterm.cursorY + 16 } : Vterm).Fits := by
      have holds := shows.fits fits
      exact ⟨holds.size, holds.width, holds.height, holds.aligned, holds.wide, holds.bounded⟩
    rcases vtermScroll_spec moved (Nat.le_add_left _ _) (by dsimp only; rw [shows.row]; omega) with
      ⟨after, scrolled, rest, pixels⟩
    refine ⟨after, scrolled, ?_, by simp, ?_⟩
    · rw [rest]
      dsimp only
      rw [shows.row, length, Nat.add_sub_cancel, Nat.min_eq_right (by omega),
        Nat.min_eq_right (by omega)]
      rw [shows.rest]
      simp
    · intro x inLine y below
      have here := pixels x (by rw [shows.sameWidth]; exact inLine) y
        (by rw [shows.sameHeight]; exact below)
      dsimp only at here
      rw [shows.sameHeight] at here
      have shifted := @symbolAt_newline_of_le _ (start.height / 16) (front ++ [last]) (by omega)
        (by omega)
      refine here.trans ?_
      rw [rendered_shift (shifted (y / 16) (x / 8))]
      by_cases above : y + 16 < start.height
      · rw [if_pos above]
        exact shows.pixels x inLine (y + 16) above
      · have behind := @symbolAt_eq_none _ (visibleLines (start.height / 16) (front ++ [last]))
          ((y + 16) / 16) (by rw [length_visibleLines]; omega) (x / 8)
        rw [if_neg above, rendered_none behind, shows.rest]

/-- A character is drawn behind the last line, where it fits. -/
theorem drawGlyph (shows : Shows defaultFont start vterm front last) (fits : start.Fits)
    (room : last.length < start.width / 8) (c : BitVec 8) :
    ∃ after, drawGlyph defaultFont c vterm = some after ∧
      Shows defaultFont start { after with cursorX := (after.cursorX + 8) % 2 ^ 64 } front
        (last ++ [c]) := by
  have limits := fits.cursor_lt
  have high := fits.height
  have wide : vterm.cursorX + 8 ≤ vterm.width := by
    rw [shows.column, shows.sameWidth]
    omega
  have low : vterm.cursorY + 16 ≤ vterm.height := by
    rw [shows.row, shows.sameHeight]
    omega
  have foreground : vterm.fgColor = start.fgColor := by rw [shows.rest]
  rcases drawGlyph_spec (shows.fits fits) defaultFont c wide low with ⟨after, drew, rest, pixels⟩
  refine ⟨after, drew, ?_, ?_, ?_⟩
  · have column : (8 * last.length + 8) % 2 ^ 64 = 8 * (last ++ [c]).length := by
      rw [List.length_append, List.length_singleton]
      omega
    rw [rest]
    dsimp only
    rw [shows.column, column]
    rw [shows.rest]
  · rw [List.length_append, List.length_singleton]
    omega
  · intro x inLine y below
    have drawn := pixels x (by rw [shows.sameWidth]; exact inLine) y
    rw [shows.column, shows.row, shows.pixels x inLine y below, foreground] at drawn
    have extended := @symbolAt_snoc _ (start.height / 16) front last (by omega) c (y / 16) (x / 8)
    change after.pixel x y = _
    rw [drawn]
    by_cases here : y / 16 = min front.length (start.height / 16 - 1) ∧ x / 8 = last.length
    · have line : y - 16 * min front.length (start.height / 16 - 1) = y % 16 := by omega
      have place : x - 8 * last.length = x % 8 := by omega
      have blank : symbolAt (visibleLines (start.height / 16) (front ++ [last])) (y / 16) (x / 8) =
          none := by
        rw [here.1, here.2]
        exact symbolAt_end (by omega)
      rw [if_pos here] at extended
      rw [rendered_some extended, line, place, rendered_none blank]
      congr 1
      apply propext
      exact ⟨fun within => within.2.2.2.2,
        fun isDot => ⟨by omega, by omega, by omega, by omega, isDot⟩⟩
    · rw [if_neg here] at extended
      rw [if_neg (fun within => here ⟨by omega, by omega⟩)]
      exact rendered_congr extended.symm

end Shows

/-- The screen shows a text. -/
def Displays (defaultFont : ℕ → BitVec 8) (start : Vterm) (text : List (BitVec 8)) (vterm : Vterm) :
    Prop :=
  ∃ front last, textLines newline (start.width / 8) text = front ++ [last] ∧
    Shows defaultFont start vterm front last

theorem vtermPutc_spec {text : List (BitVec 8)} (displays : Displays defaultFont start text vterm)
    (fits : start.Fits) (c : BitVec 8) :
    ∃ after, vtermPutc defaultFont vterm c = some after ∧
      Displays defaultFont start (text ++ [c]) after := by
  have limits := fits.cursor_lt
  have wide := fits.width
  rcases displays with ⟨front, last, lines, shows⟩
  unfold vtermPutc
  by_cases isNewline : c = newline
  · rw [if_pos isNewline]
    rcases shows.nextRow fits with ⟨after, next, empty⟩
    refine ⟨after, next, front ++ [last], [], ?_, empty⟩
    rw [isNewline, textLines_newline, lines]
  · rw [if_neg isNewline]
    rcases @textLines_snoc _ _ newline (start.width / 8) _ (by omega) c isNewline text with
      ⟨above, piece, sameLines, -, extended⟩
    rw [lines] at sameLines
    rcases List.append_inj' sameLines rfl with ⟨rfl, lastEq⟩
    cases lastEq
    have short := shows.short
    have column : (vterm.cursorX + 8) % 2 ^ 64 = 8 * last.length + 8 := by
      rw [shows.column]
      omega
    by_cases full : last.length = start.width / 8
    · rw [if_pos full] at extended
      rcases shows.nextRow fits with ⟨wrapped, next, empty⟩
      rcases empty.drawGlyph fits (Nat.div_pos wide (by omega)) c with ⟨after, drew, drawn⟩
      refine ⟨_, ?_, front ++ [last], [c], ?_, drawn⟩
      · rw [if_pos (by rw [column, shows.sameWidth]; omega), next]
        simp only [Option.bind_eq_bind, Option.bind_some, drew]
        rfl
      · rw [extended, List.append_assoc]
        rfl
    · rw [if_neg full] at extended
      rcases shows.drawGlyph fits (by omega) c with ⟨after, drew, drawn⟩
      refine ⟨_, ?_, front, last ++ [c], extended, drawn⟩
      rw [if_neg (by rw [column, shows.sameWidth]; omega)]
      simp only [Option.bind_eq_bind, Option.bind_some, drew]
      rfl

theorem vtermPrint_spec {text : List (BitVec 8)} (displays : Displays defaultFont start text vterm)
    (fits : start.Fits) (str : List (BitVec 8)) :
    ∃ after, vtermPrint defaultFont vterm str = some after ∧
      Displays defaultFont start (text ++ str) after := by
  induction str generalizing text vterm with
  | nil => exact ⟨vterm, rfl, by rw [List.append_nil]; exact displays⟩
  | cons c str ih =>
      rcases vtermPutc_spec displays fits c with ⟨middle, put, displaysOne⟩
      rcases ih displaysOne with ⟨after, printed, displaysAll⟩
      refine ⟨after, ?_, ?_⟩
      · rw [vtermPrint, put, Option.bind_some, printed]
      · rw [List.append_assoc] at displaysAll
        exact displaysAll

theorem vtermClear_displays (fits : vterm.Fits) :
    ∃ cleared, vtermClear vterm.termColor vterm = some cleared ∧
      Displays defaultFont vterm [] cleared := by
  rcases vtermClear_spec fits vterm.termColor with ⟨cleared, ran, rest, pixels⟩
  refine ⟨cleared, ran, [], [], textLines_nil, ?_, Nat.zero_le _, ?_⟩
  · rw [rest]
    simp
  · intro x inLine y below
    rw [pixels x inLine y below, rendered_none]
    have one := symbolAt_append_nil ([] : List (List (BitVec 8))) (y / 16) (x / 8)
    have high := fits.height
    rw [visibleLines, List.nil_append, List.length_singleton, Nat.sub_eq_zero_of_le (by omega),
      List.drop_zero]
    exact one

/-- Every write stays in the framebuffer, and the screen shows the last lines of the text. -/
theorem vtermPrint_renders (fits : vterm.Fits) (str : List (BitVec 8)) :
    ∃ cleared after, vtermClear vterm.termColor vterm = some cleared ∧
      vtermPrint defaultFont cleared str = some after ∧
      after.framebuffer = vterm.framebuffer ∧ after.pitch = vterm.pitch ∧
      ∀ x < vterm.width, ∀ y < vterm.height, after.pixel x y =
        rendered defaultFont vterm.fgColor vterm.termColor
          (visibleLines (vterm.height / 16) (textLines newline (vterm.width / 8) str)) x y := by
  rcases @vtermClear_displays defaultFont vterm fits with ⟨cleared, ran, empty⟩
  rcases vtermPrint_spec empty fits str with ⟨after, printed, front, last, lines, shows⟩
  refine ⟨cleared, after, ran, printed, by rw [shows.rest], by rw [shows.rest], ?_⟩
  rw [← List.nil_append str, lines]
  exact shows.pixels

/-- A screen of two columns and two rows, with a pixel column and eight lines of pixels left
over. -/
def smallScreen : Vterm where
  framebuffer := 0x1000
  pitch := 72
  width := 17
  height := 40
  cursorX := 0
  cursorY := 0
  termColor := colorBlack
  fgColor := colorWhite
  memory := fun _ => 0#8

theorem smallScreen_fits : smallScreen.Fits := by
  constructor <;> decide

/-- Of the lines "AB", "C" and "D" the first one has left the screen. -/
theorem vtermPrint_renders_smallScreen :
    ∃ cleared after, vtermClear colorBlack smallScreen = some cleared ∧
      vtermPrint (BitVec.ofNat 8) cleared [65#8, 66#8, 67#8, newline, 68#8] = some after ∧
      after.framebuffer = 0x1000 ∧ after.pitch = 72 ∧
      ∀ x < 17, ∀ y < 40, after.pixel x y =
        rendered (BitVec.ofNat 8) colorWhite colorBlack [[67#8], [68#8]] x y := by
  have lines : visibleLines 2 (textLines newline 2 [65#8, 66#8, 67#8, newline, 68#8]) =
      [[67#8], [68#8]] := by
    simp [textLines, wrapLine, visibleLines, newline, List.splitOn_cons_eq_if_modifyHead]
  rw [← lines]
  exact vtermPrint_renders smallScreen_fits [65#8, 66#8, 67#8, newline, 68#8]

end Goshkik
