import Goshkik.Klibc.Printf

/-!
# Formats

A format is cut into its pieces as they are written, and the scanner of `kprintf` is shown to find
these: what it computes for `width` follows from the digits, and every position it reads has been
passed when the piece ends.
-/

namespace Goshkik.Klibc

/-- A piece of a format.  Memory may end within a conversion. -/
inductive Piece where
  | plain (char : UInt8)
  | conversion (digits : List UInt8) (isLong : Bool) (letter : UInt8)
  | unfinished (digits : List UInt8)
  deriving DecidableEq

/-- The conversion behind a `%`, and what follows it. -/
def splitConversion (format : List UInt8) : Piece × List UInt8 :=
  match format.dropWhile isDigit with
  | [] => (.unfinished (format.takeWhile isDigit), [])
  | char :: rest =>
      if char = 'l'.toUInt8 then
        match rest with
        | [] => (.unfinished (format.takeWhile isDigit), [])
        | letter :: rest => (.conversion (format.takeWhile isDigit) true letter, rest)
      else (.conversion (format.takeWhile isDigit) false char, rest)

def splitPiece (char : UInt8) (format : List UInt8) : Piece × List UInt8 :=
  if char = '%'.toUInt8 then splitConversion format else (.plain char, format)

/-- The pieces up to the null. -/
def pieces : ℕ → List UInt8 → List Piece
  | 0, _ => []
  | _ + 1, [] => []
  | fuel + 1, char :: format =>
      if char = 0 then []
      else (splitPiece char format).1 :: pieces fuel (splitPiece char format).2

/-! ## The meaning of a piece -/

/-- A zero in front of the width is the character to pad with. -/
def padOf (digits : List UInt8) : UInt8 :=
  if digits.head? = some '0'.toUInt8 then '0'.toUInt8 else ' '.toUInt8

def widthDigits (digits : List UInt8) : List UInt8 :=
  if digits.head? = some '0'.toUInt8 then digits.tail else digits

/-- The values that are computed for `width` one after the other. -/
def widthsFrom : ℤ → List UInt8 → List ℤ
  | _, [] => []
  | width, char :: digits =>
      (width * 10 + (char.toNat - '0'.toNat)) ::
        widthsFrom (wrapInt (width * 10 + (char.toNat - '0'.toNat))) digits

/-- What `width` holds in the end. -/
def widthFrom (width : ℤ) (digits : List UInt8) : ℤ :=
  digits.foldl (fun width char => wrapInt (width * 10 + (char.toNat - '0'.toNat))) width

namespace Piece

def directive : Piece → Option Directive
  | plain char => some (.literal char)
  | conversion digits isLong letter =>
      some (.conversion (widthFrom 0 (widthDigits digits)) (padOf digits) isLong (.ofChar letter))
  | unfinished _ => none

def digits : Piece → List UInt8
  | plain _ => []
  | conversion digits _ _ => digits
  | unfinished digits => digits

def widths (piece : Piece) : List ℤ := widthsFrom 0 (widthDigits piece.digits)

end Piece

/-! ## The scanner -/

namespace Scanner

/-- The scanner passes from one place of the format to a later one, computing some values for
`width`. Only the place it has reached may have been read and not passed. -/
structure Passes (before : Scanner) (format : List UInt8) (after : Scanner) (rest : List UInt8)
    (values : List ℤ) : Prop where
  position : after.position + rest.length = before.position + format.length
  forward : before.position ≤ after.position
  widths : after.widths = before.widths ++ values
  reads : ∀ place ∈ after.reads, place ∈ before.reads ∨
    place ≤ after.position ∧ place < after.position + rest.length

theorem Passes.trans {first second third : Scanner} {format middle rest : List UInt8}
    {values more : List ℤ}
    (left : Passes first format second middle values)
    (right : Passes second middle third rest more) :
    Passes first format third rest (values ++ more) where
  position := right.position.trans left.position
  forward := left.forward.trans right.forward
  widths := by rw [right.widths, left.widths, List.append_assoc]
  reads place read := by
    rcases right.reads place read with earlier | reached
    · refine (left.reads place earlier).imp_right fun reached => ?_
      have total := right.position
      have forward := right.forward
      omega
    · exact .inr reached

/-- A character is read and passed. -/
theorem Passes.step (scanner : Scanner) (char : UInt8) (format : List UInt8) :
    Passes scanner (char :: format) scanner.read.advance format [] where
  position := by simp [read, advance]; omega
  forward := by simp [read, advance]
  widths := by simp [read, advance]
  reads place included := by
    simp only [read, advance, List.mem_append, List.mem_singleton] at included ⊢
    refine included.imp_right fun same => ?_
    omega

/-- A character is read only. -/
theorem Passes.peek (scanner : Scanner) (char : UInt8) (format : List UInt8) :
    Passes scanner (char :: format) scanner.read (char :: format) [] where
  position := by simp [read]
  forward := by simp [read]
  widths := by simp [read]
  reads place included := by
    simp only [read, List.mem_append, List.mem_singleton] at included
    refine included.imp_right fun same => ?_
    simp [read, same]

theorem Passes.stay (scanner : Scanner) (format : List UInt8) :
    Passes scanner format scanner format [] where
  position := rfl
  forward := le_rfl
  widths := by simp
  reads _ included := .inl included

end Scanner

theorem not_isDigit_null : isDigit 0 = false := by decide

theorem isDigit_zero : isDigit '0'.toUInt8 = true := by decide

theorem scanPad_passes (format : List UInt8) (scanner : Scanner) :
    scanner.Passes format (scanPad format scanner).2.1 (scanPad format scanner).2.2 [] := by
  cases format with
  | nil => exact .stay scanner []
  | cons char format =>
      by_cases zero : char = '0'.toUInt8
      · simpa [scanPad, zero] using Scanner.Passes.step scanner char format
      · simpa [scanPad, zero] using Scanner.Passes.peek scanner char format

/-- The pad is the first digit if it is a zero, and the digits of the width are left. -/
theorem scanPad_spec (format : List UInt8) (scanner : Scanner) :
    (scanPad format scanner).1 = padOf (format.takeWhile isDigit) ∧
      (scanPad format scanner).2.1.width = scanner.width ∧
      (scanPad format scanner).2.2.takeWhile isDigit = widthDigits (format.takeWhile isDigit) ∧
      (scanPad format scanner).2.2.dropWhile isDigit = format.dropWhile isDigit := by
  cases format with
  | nil => simp [scanPad, padOf, widthDigits]
  | cons char format =>
      unfold scanPad padOf widthDigits
      by_cases zero : char = '0'.toUInt8
      · subst zero
        simp [isDigit_zero, Scanner.read, Scanner.advance]
      · have head : ((char :: format).takeWhile isDigit).head? ≠ some '0'.toUInt8 := by
          rw [List.takeWhile_cons]
          split <;> simp [zero]
        simp [zero, head, Scanner.read]

theorem scanWidth_passes (format : List UInt8) (scanner : Scanner) :
    scanner.Passes format (scanWidth format scanner).1 (scanWidth format scanner).2
      (widthsFrom scanner.width (format.takeWhile isDigit)) := by
  induction format generalizing scanner with
  | nil => exact .stay scanner []
  | cons char format hypothesis =>
      rw [scanWidth, List.takeWhile_cons]
      split
      · have step := Scanner.Passes.step scanner char format
        have later := hypothesis (scanner.read.accumulate char).advance
        have digit : Scanner.Passes scanner (char :: format) (scanner.read.accumulate char).advance
          format
            [scanner.width * 10 + (char.toNat - '0'.toNat)] :=
          ⟨step.position, step.forward, by simp [Scanner.accumulate, Scanner.advance, Scanner.read],
            step.reads⟩
        exact digit.trans later
      · exact .peek scanner char format

theorem scanWidth_spec (format : List UInt8) (scanner : Scanner) :
    (scanWidth format scanner).1.width = widthFrom scanner.width (format.takeWhile isDigit) ∧
      (scanWidth format scanner).2 = format.dropWhile isDigit := by
  induction format generalizing scanner with
  | nil => simp [scanWidth, widthFrom]
  | cons char format hypothesis =>
      rw [scanWidth, List.takeWhile_cons, List.dropWhile_cons]
      split
      · exact hypothesis (scanner.read.accumulate char).advance
      · simp [widthFrom, Scanner.read]

theorem scanLong_passes (format : List UInt8) (scanner : Scanner) :
    scanner.Passes format (scanLong format scanner).2.1 (scanLong format scanner).2.2 [] := by
  cases format with
  | nil => exact .stay scanner []
  | cons char format =>
      by_cases letter : char = 'l'.toUInt8
      · simpa [scanLong, letter] using Scanner.Passes.step scanner char format
      · simpa [scanLong, letter] using Scanner.Passes.peek scanner char format

theorem scanLong_width (format : List UInt8) (scanner : Scanner) :
    (scanLong format scanner).2.1.width = scanner.width := by
  cases format with
  | nil => rfl
  | cons char format => by_cases letter :
      char = 'l'.toUInt8 <;> simp [scanLong, letter, Scanner.read, Scanner.advance]

/-- The conversion that is found is the piece as it is written. -/
theorem scanConversion_spec (format : List UInt8) (scanner : Scanner) (fresh : scanner.width = 0) :
    (scanConversion format scanner).2 =
      (splitConversion format).1.directive.map (·, (splitConversion format).2) ∧
      scanner.Passes format (scanConversion format scanner).1 (splitConversion format).2
        (splitConversion format).1.widths := by
  obtain ⟨padEq, padWidth, padDigits, padRest⟩ := scanPad_spec format scanner
  have widthPasses := scanWidth_passes (scanPad format scanner).2.2 (scanPad format scanner).2.1
  obtain ⟨widthEq, widthRest⟩ :=
    scanWidth_spec (scanPad format scanner).2.2 (scanPad format scanner).2.1
  have passed := (scanPad_passes format scanner).trans widthPasses
  rw [padDigits, padWidth, fresh, List.nil_append, widthRest, padRest] at passed
  rw [padWidth, padDigits, fresh] at widthEq
  rw [padRest] at widthRest
  simp only [scanConversion, splitConversion, padEq, widthRest]
  generalize (scanWidth (scanPad format scanner).2.2 (scanPad format scanner).2.1).1 =
    reached at passed widthEq ⊢
  have passedLong := passed.trans (scanLong_passes (format.dropWhile isDigit) reached)
  have longWidth := (scanLong_width (format.dropWhile isDigit) reached).trans widthEq
  rw [List.append_nil] at passedLong
  cases left : format.dropWhile isDigit with
  | nil =>
      rw [left] at passed
      exact ⟨rfl, passed⟩
  | cons char rest =>
      rw [left] at passedLong longWidth
      by_cases letter : char = 'l'.toUInt8
      · simp only [scanLong, letter, ↓reduceIte] at passedLong longWidth ⊢
        cases rest with
        | nil => exact ⟨rfl, passedLong⟩
        | cons letter rest =>
            refine ⟨by simp [Piece.directive, longWidth], ?_⟩
            simpa [Piece.widths, Piece.digits] using passedLong.trans (.step _ letter rest)
      · simp only [scanLong, letter, ↓reduceIte] at passedLong longWidth ⊢
        refine ⟨by simp [Piece.directive, longWidth], ?_⟩
        simpa [Piece.widths, Piece.digits] using passedLong.trans (.step _ char rest)

/-- One round of the loop finds the next piece. -/
theorem scan_spec (char : UInt8) (format : List UInt8) (scanner : Scanner) :
    (scan char format scanner).2 =
      (splitPiece char format).1.directive.map (·, (splitPiece char format).2) ∧
      scanner.Passes (char :: format) (scan char format scanner).1 (splitPiece char format).2
        (splitPiece char format).1.widths := by
  have step := Scanner.Passes.step scanner char format
  unfold scan splitPiece
  split
  · have fresh : scanner.Passes (char :: format) { scanner.read.advance with width := 0 } format
      [] :=
      ⟨step.position, step.forward, step.widths, step.reads⟩
    obtain ⟨found, passed⟩ :=
      scanConversion_spec format { scanner.read.advance with width := 0 } rfl
    exact ⟨found, fresh.trans passed⟩
  · exact ⟨rfl, step⟩

/-! ## The loop -/

/-- A round of the loop takes a piece, and prints it when it is finished. -/
theorem kprintfLoop_round {char : UInt8} (nonzero : char ≠ 0) (format : List UInt8)
    (stack : ℕ → ℕ → UInt8)
    (args : VaList) (fuel : ℕ) (scanner : Scanner) (printing : Printing) :
    ∃ later, scanner.Passes (char :: format) later (splitPiece char format).2
      (splitPiece char format).1.widths ∧
      kprintfLoop stack args (fuel + 1) (char :: format) scanner printing =
        match (splitPiece char format).1.directive with
        | none => ⟨later, printing, false⟩
        | some directive =>
            kprintfLoop stack args fuel (splitPiece char format).2 later
              (printDirective stack args directive printing) := by
  obtain ⟨found, passed⟩ := scan_spec char format scanner.read
  refine ⟨(scan char format scanner.read).1, (Scanner.Passes.peek scanner char format).trans passed,
    ?_⟩
  rw [kprintfLoop, if_neg nonzero]
  rcases result : scan char format scanner.read with ⟨later, directive⟩
  rw [result] at found
  cases written : (splitPiece char format).1.directive with
  | none => simp_all
  | some directive => simp_all

/-- What follows a piece is the end of the format. -/
theorem splitPiece_suffix (char : UInt8) (format : List UInt8) :
    (splitPiece char format).2 <:+ format := by
  have dropped := List.dropWhile_suffix (l := format) isDigit
  unfold splitPiece splitConversion
  split
  · split
    · exact List.nil_suffix
    · rename_i left
      rw [left] at dropped
      split
      · split
        · exact List.nil_suffix
        · exact ((List.suffix_cons _ _).trans (List.suffix_cons _ _)).trans dropped
      · exact (List.suffix_cons _ _).trans dropped
  · exact List.suffix_refl _

theorem splitPiece_length (char : UInt8) (format : List UInt8) :
    (splitPiece char format).2.length ≤ format.length :=
  (splitPiece_suffix char format).length_le

theorem pieces_succ {char : UInt8} (nonzero : char ≠ 0) (fuel : ℕ) (format : List UInt8) :
    pieces (fuel + 1) (char :: format) =
      (splitPiece char format).1 :: pieces fuel (splitPiece char format).2 := by
  rw [pieces, if_neg nonzero]

/-- Fuel does not matter once there is more of it than memory. -/
theorem pieces_fuel {fuel more : ℕ} {memory : List UInt8} (enough : memory.length < fuel)
    (also : memory.length < more) : pieces fuel memory = pieces more memory := by
  induction fuel generalizing more memory with
  | zero => omega
  | succ fuel hypothesis =>
      obtain ⟨more, rfl⟩ := Nat.exists_eq_add_of_lt (Nat.zero_lt_of_lt also)
      cases memory with
      | nil => simp [pieces]
      | cons char format =>
          by_cases null : char = 0
          · simp [pieces, null]
          · have shorter := splitPiece_length char format
            simp only [List.length_cons] at enough also
            rw [pieces_succ null, Nat.zero_add, pieces_succ null,
              hypothesis (show _ < fuel by omega) (show _ < more by omega)]

/-- Memory ends behind an unfinished piece. -/
theorem splitPiece_unfinished {char : UInt8} {format : List UInt8}
    (unfinished : (splitPiece char format).1.directive = none) :
    (splitPiece char format).2 = [] := by
  unfold splitPiece splitConversion at unfinished ⊢
  split at unfinished
  · split at unfinished
    · simp [*]
    · split at unfinished
      · split at unfinished
        · simp [*]
        · simp [Piece.directive] at unfinished
      · simp [Piece.directive] at unfinished
  · simp [Piece.directive] at unfinished

theorem pieces_nil (fuel : ℕ) : pieces fuel [] = [] := by
  cases fuel <;> rfl

/-- The directives of the finished pieces are printed one after the other. -/
theorem kprintfLoop_printing (stack : ℕ → ℕ → UInt8) (args : VaList) (fuel : ℕ)
    (memory : List UInt8)
    (scanner : Scanner) (printing : Printing) :
    (kprintfLoop stack args fuel memory scanner printing).printing =
      ((pieces fuel memory).filterMap Piece.directive).foldl
        (fun printing directive => printDirective stack args directive printing) printing := by
  induction fuel generalizing memory scanner printing with
  | zero => rfl
  | succ fuel hypothesis =>
      cases memory with
      | nil => rfl
      | cons char format =>
          by_cases null : char = 0
          · simp [kprintfLoop, pieces, null]
          · obtain ⟨later, -, round⟩ :=
              kprintfLoop_round null format stack args fuel scanner printing
            rw [round, pieces_succ null]
            cases written : (splitPiece char format).1.directive with
            | none => simp [written, splitPiece_unfinished written, pieces_nil]
            | some directive => simp [written, hypothesis]

/-- The values computed for `width` are those of the pieces. -/
theorem kprintfLoop_widths (stack : ℕ → ℕ → UInt8) (args : VaList) (fuel : ℕ) (memory : List UInt8)
    (scanner : Scanner) (printing : Printing) :
    (kprintfLoop stack args fuel memory scanner printing).scanner.widths =
      scanner.widths ++ (pieces fuel memory).flatMap Piece.widths := by
  induction fuel generalizing memory scanner printing with
  | zero => simp [kprintfLoop, pieces]
  | succ fuel hypothesis =>
      cases memory with
      | nil => simp [kprintfLoop, pieces]
      | cons char format =>
          by_cases null : char = 0
          · simp [kprintfLoop, pieces, null, Scanner.read]
          · obtain ⟨later, passed, round⟩ :=
              kprintfLoop_round null format stack args fuel scanner printing
            rw [round, pieces_succ null, List.flatMap_cons, ← List.append_assoc, ← passed.widths]
            cases written : (splitPiece char format).1.directive with
            | none => simp [splitPiece_unfinished written, pieces_nil]
            | some directive => exact hypothesis _ later _

end Goshkik.Klibc
