import Goshkik.Klibc.PrintfFormat

/-!
# The end of a format

A conversion takes the character behind its width and its `l` as its letter, whatever that is, and
passes it.  A format that stops within a conversion has its null passed in this way.
-/

namespace Goshkik.Klibc

/-- No conversion is left without its letter at the end. -/
def Complete (text : List UInt8) : Prop :=
  ∀ piece ∈ pieces (text.length + 1) text, piece.directive ≠ none

instance (text : List UInt8) : Decidable (Complete text) :=
  inferInstanceAs (Decidable (∀ piece ∈ pieces (text.length + 1) text, piece.directive ≠ none))

/-- More behind a text does not change the digits at its front once something else follows them. -/
theorem takeWhile_append_of_dropWhile {format rest : List UInt8} {char : UInt8}
    (left : format.dropWhile isDigit = char :: rest) (behind : List UInt8) :
    (format ++ behind).takeWhile isDigit = format.takeWhile isDigit ∧
      (format ++ behind).dropWhile isDigit = char :: (rest ++ behind) := by
  have longer : (format.takeWhile isDigit).length ≠ format.length := by
    have total := congrArg List.length
      (List.takeWhile_append_dropWhile (p := isDigit) (l := format))
    rw [left, List.length_append, List.length_cons] at total
    omega
  rw [List.takeWhile_append, if_neg longer, List.dropWhile_append, left]
  simp

/-- A finished piece stays what it is when there is more behind. -/
theorem splitPiece_append {char : UInt8} {format : List UInt8}
    (finished : (splitPiece char format).1.directive ≠ none) (behind : List UInt8) :
    splitPiece char (format ++ behind) =
      ((splitPiece char format).1, (splitPiece char format).2 ++ behind) := by
  unfold splitPiece splitConversion at finished ⊢
  by_cases percent : char = '%'.toUInt8
  · simp only [percent, ↓reduceIte] at finished ⊢
    cases left : format.dropWhile isDigit with
    | nil => simp [left, Piece.directive] at finished
    | cons next rest =>
        obtain ⟨digits, behindDigits⟩ := takeWhile_append_of_dropWhile left behind
        rw [digits, behindDigits]
        by_cases long : next = 'l'.toUInt8
        · cases rest with
          | nil => simp [left, long, Piece.directive] at finished
          | cons letter rest => simp [long]
        · simp [long]
  · simp [percent]

/-- The null becomes the letter of a conversion that has none. -/
theorem splitPiece_null {char : UInt8} {format : List UInt8}
    (unfinished : (splitPiece char format).1.directive = none) (behind : List UInt8) :
    (splitPiece char (format ++ 0 :: behind)).2 = behind := by
  unfold splitPiece splitConversion at unfinished ⊢
  by_cases percent : char = '%'.toUInt8
  · simp only [percent, ↓reduceIte] at unfinished ⊢
    cases left : format.dropWhile isDigit with
    | nil =>
        have nothing : (format ++ 0 :: behind).dropWhile isDigit = 0 :: behind := by
          simp [List.dropWhile_append, left, not_isDigit_null]
        rw [nothing]
        rfl
    | cons next rest =>
        rw [left] at unfinished
        by_cases long : next = 'l'.toUInt8
        · cases rest with
          | nil =>
              rw [(takeWhile_append_of_dropWhile left (0 :: behind)).2]
              simp [long]
          | cons letter rest => simp [long, Piece.directive] at unfinished
        · simp [long, Piece.directive] at unfinished
  · simp [percent, Piece.directive] at unfinished

variable (stack : ℕ → ℕ → UInt8) (args : VaList)

/-- The scanner never goes back. -/
theorem kprintfLoop_forward (fuel : ℕ) (memory : List UInt8) (scanner : Scanner)
    (printing : Printing) :
    scanner.position ≤ (kprintfLoop stack args fuel memory scanner printing).scanner.position := by
  induction fuel generalizing memory scanner printing with
  | zero => exact le_rfl
  | succ fuel hypothesis =>
      cases memory with
      | nil => exact le_rfl
      | cons char format =>
          by_cases null : char = 0
          · simp [kprintfLoop, null, Scanner.read]
          · obtain ⟨later, passed, round⟩ :=
              kprintfLoop_round null format stack args fuel scanner printing
            rw [round]
            cases (splitPiece char format).1.directive with
            | none => exact passed.forward
            | some directive => exact passed.forward.trans (hypothesis _ later _)

/-- A text whose conversions are finished is passed up to its null. -/
theorem kprintfLoop_complete {fuel : ℕ} {text : List UInt8} (enough : text.length < fuel)
    (noNull : 0 ∉ text)
    (complete : ∀ piece ∈ pieces fuel text, piece.directive ≠ none) (behind : List UInt8)
    (scanner : Scanner)
    (printing : Printing) :
    (kprintfLoop stack args fuel (text ++ 0 :: behind) scanner printing).ended = true ∧
      (kprintfLoop stack args fuel (text ++ 0 :: behind) scanner printing).scanner.position =
        scanner.position + text.length ∧
      ∀ place ∈ (kprintfLoop stack args fuel (text ++ 0 :: behind) scanner printing).scanner.reads,
        place ∈ scanner.reads ∨ place ≤ scanner.position + text.length := by
  induction fuel generalizing text scanner printing with
  | zero => omega
  | succ fuel hypothesis =>
      cases text with
      | nil =>
          refine ⟨rfl, rfl, fun place included => ?_⟩
          simp only [kprintfLoop, Scanner.read, List.nil_append, ↓reduceIte, List.mem_append,
            List.mem_singleton] at included
          exact included.imp_right fun same => by simp [same]
      | cons char format =>
          have nonzero : char ≠ 0 := fun null => noNull (by simp [null])
          rw [pieces_succ nonzero] at complete
          have finished := complete _ List.mem_cons_self
          obtain ⟨later, passed, round⟩ :=
            kprintfLoop_round nonzero (format ++ 0 :: behind) stack args fuel scanner printing
          obtain ⟨directive, written⟩ := Option.ne_none_iff_exists'.mp finished
          have shorter := splitPiece_length char format
          rw [splitPiece_append finished] at passed round
          simp only [written] at round
          rw [List.cons_append, round]
          simp only [List.length_cons] at enough
          have clean : 0 ∉ (splitPiece char format).2 := fun member =>
            noNull (List.mem_cons_of_mem _ ((splitPiece_suffix char format).subset member))
          obtain ⟨ended, position, reads⟩ := hypothesis (by omega) clean
            (fun piece member => complete piece (List.mem_cons_of_mem _ member)) later
            (printDirective stack args directive printing)
          have passedLength := passed.position
          simp only [List.length_append, List.length_cons] at passedLength
          refine ⟨ended, by rw [position, List.length_cons]; omega, fun place included => ?_⟩
          rw [List.length_cons]
          rcases reads place included with before | within
          · refine (passed.reads place before).imp_right fun reached => ?_
            omega
          · exact .inr (by omega)

/-- A text that stops within a conversion is passed with its null. -/
theorem kprintfLoop_incomplete {fuel : ℕ} {text : List UInt8} (enough : text.length < fuel)
    (noNull : 0 ∉ text)
    {piece : Piece} (member : piece ∈ pieces fuel text) (unfinished : piece.directive = none)
    (behind : List UInt8) (scanner : Scanner) (printing : Printing) :
    scanner.position + text.length <
      (kprintfLoop stack args fuel (text ++ 0 :: behind) scanner printing).scanner.position := by
  induction fuel generalizing text scanner printing with
  | zero => omega
  | succ fuel hypothesis =>
      cases text with
      | nil => simp [pieces] at member
      | cons char format =>
          have nonzero : char ≠ 0 := fun null => noNull (by simp [null])
          rw [pieces_succ nonzero] at member
          obtain ⟨later, passed, round⟩ :=
            kprintfLoop_round nonzero (format ++ 0 :: behind) stack args fuel scanner printing
          have passedLength := passed.position
          simp only [List.length_append, List.length_cons] at passedLength enough
          rw [List.cons_append, round, List.length_cons]
          cases written : (splitPiece char format).1.directive with
          | none =>
              rw [splitPiece_null written] at passedLength round ⊢
              cases (splitPiece char (format ++ 0 :: behind)).1.directive with
              | none => exact by simp only; omega
              | some directive =>
                  have forward := kprintfLoop_forward stack args fuel behind later
                    (printDirective stack args directive printing)
                  exact lt_of_lt_of_le (by omega) forward
          | some directive =>
              have finished : (splitPiece char format).1.directive ≠ none := by simp [written]
              have shorter := splitPiece_length char format
              rw [splitPiece_append finished] at passedLength ⊢
              simp only [written, List.length_append, List.length_cons] at passedLength ⊢
              have further : piece ∈ pieces fuel (splitPiece char format).2 := by
                refine (List.mem_cons.mp member).resolve_left fun same => ?_
                exact finished (same ▸ unfinished)
              have clean : 0 ∉ (splitPiece char format).2 := fun member =>
                noNull (List.mem_cons_of_mem _ ((splitPiece_suffix char format).subset member))
              have passes := hypothesis (by omega) clean further later
                (printDirective stack args directive printing)
              omega

/-- The pieces of a text are found with any fuel that suffices. -/
theorem complete_iff {fuel : ℕ} {text : List UInt8} (enough : text.length < fuel) :
    Complete text ↔ ∀ piece ∈ pieces fuel text, piece.directive ≠ none := by
  rw [Complete, pieces_fuel (Nat.lt_succ_self _) enough]

/-- The scanner ends at the null, having read nothing behind it, if and only if no conversion is
left without its letter, whatever lies behind the null. -/
theorem format_scanned_iff (text : CString) (behind : List UInt8) :
    ((kprintf stack args (text.1 ++ 0 :: behind)).ended = true ∧
        (kprintf stack args (text.1 ++ 0 :: behind)).scanner.position = text.1.length ∧
        ∀ place ∈ (kprintf stack args (text.1 ++ 0 :: behind)).scanner.reads,
          place ≤ text.1.length) ↔
      Complete text.1 := by
  have enough : text.1.length < (text.1 ++ 0 :: behind).length + 1 := by
    rw [List.length_append]
    omega
  rw [complete_iff enough]
  constructor
  · rintro ⟨-, position, -⟩ piece member unfinished
    have passed := kprintfLoop_incomplete stack args enough text.2 member unfinished behind
      ⟨0, [], 0, []⟩
      ⟨0, 0, [], []⟩
    rw [← kprintf, position] at passed
    simp at passed
  · intro complete
    obtain ⟨ended, position, reads⟩ := kprintfLoop_complete stack args enough text.2 complete behind
      ⟨0, [], 0, []⟩ ⟨0, 0, [], []⟩
    refine ⟨ended, position.trans (Nat.zero_add _), fun place included => ?_⟩
    rcases reads place included with before | within
    · exact absurd before List.not_mem_nil
    · exact within.trans_eq (Nat.zero_add _)

/-- Behind a single `%`, the null is printed and the byte behind it is taken for the next
character. -/
theorem percent_passes_null :
    (kprintf (fun _ _ => 0) .none ['%'.toUInt8, 0, 'A'.toUInt8, 0]).scanner.position = 3 ∧
      (kprintf (fun _ _ => 0) .none ['%'.toUInt8, 0, 'A'.toUInt8, 0]).printing.output =
        ['%'.toUInt8, 0, 'A'.toUInt8] ∧
      2 ∈ (kprintf (fun _ _ => 0) .none ['%'.toUInt8, 0, 'A'.toUInt8, 0]).scanner.reads ∧
      ¬ Complete ['%'.toUInt8] :=
  ⟨rfl, rfl, by decide, by decide⟩

end Goshkik.Klibc
