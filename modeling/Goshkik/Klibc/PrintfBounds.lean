import Mathlib.Data.List.TakeWhile
import Goshkik.Klibc.PrintfFormat
import Goshkik.Klibc.PrintfNumbers

/-!
# The digit buffer

The buffer of `kprintnp` has 32 cells, and no numeral goes past index twenty.  A width is not
checked, neither when it is computed nor when the buffer is padded up to it.
-/

namespace Goshkik.Klibc

/-! ## Widths -/

/-- The number that the digits stand for, behind others that were read before. -/
def decimalFrom (value : ℕ) (digits : List UInt8) : ℕ :=
  digits.foldl (fun value char => value * 10 + (char.toNat - '0'.toNat)) value

def decimal (digits : List UInt8) : ℕ := decimalFrom 0 digits

/-- The bounds of an `int`. -/
def IsInt (value : ℤ) : Prop := -2 ^ 31 ≤ value ∧ value < 2 ^ 31

theorem wrapInt_of_isInt {value : ℤ} (fits : IsInt value) : wrapInt value = value := by
  obtain ⟨lower, upper⟩ := fits
  exact Int.bmod_eq_of_le (by omega) (by omega)

theorem le_decimalFrom (value : ℕ) (digits : List UInt8) : value ≤ decimalFrom value digits := by
  induction digits generalizing value with
  | nil => exact le_rfl
  | cons char digits hypothesis =>
      exact le_trans (by omega) (hypothesis (value * 10 + (char.toNat - '0'.toNat)))

/-- A zero in front does not count. -/
theorem decimal_widthDigits (digits : List UInt8) :
    decimal (widthDigits digits) = decimal digits := by
  unfold widthDigits
  split
  · rename_i zero
    obtain ⟨rest, rfl⟩ := List.head?_eq_some_iff.mp zero
    rfl
  · rfl

theorem zero_le_of_isDigit {char : UInt8} (digit : isDigit char = true) :
    '0'.toNat ≤ char.toNat := by
  simp only [isDigit, Bool.and_eq_true, decide_eq_true_eq] at digit
  exact UInt8.le_iff_toNat_le.mp digit.1

/-- A value grows with each digit, so it stays within an `int` when the last one does. -/
theorem widthsFrom_isInt_iff {digits : List UInt8} (valid : ∀ char ∈ digits, isDigit char = true)
    {value : ℕ}
    (fits : IsInt value) :
    (∀ width ∈ widthsFrom value digits, IsInt width) ↔ decimalFrom value digits < 2 ^ 31 := by
  induction digits generalizing value with
  | nil => simpa [widthsFrom, decimalFrom] using fits.2
  | cons char digits hypothesis =>
      have digit := zero_le_of_isDigit (valid char List.mem_cons_self)
      have next : (value : ℤ) * 10 + (char.toNat - '0'.toNat) =
          (value * 10 + (char.toNat - '0'.toNat) : ℕ) := by omega
      rw [widthsFrom, List.forall_mem_cons, next]
      rw [show decimalFrom value (char :: digits) =
        decimalFrom (value * 10 + (char.toNat - '0'.toNat)) digits from rfl]
      constructor
      · rintro ⟨first, later⟩
        rw [wrapInt_of_isInt first] at later
        exact (hypothesis (fun other member => valid other (List.mem_cons_of_mem _ member))
          first).mp later
      · intro small
        have first : IsInt ((value * 10 + (char.toNat - '0'.toNat) : ℕ) : ℤ) := by
          have below := le_decimalFrom (value * 10 + (char.toNat - '0'.toNat)) digits
          exact ⟨by omega, by omega⟩
        rw [wrapInt_of_isInt first]
        exact ⟨first, (hypothesis (fun other member => valid other (List.mem_cons_of_mem _ member))
          first).mpr
          small⟩

/-- As long as nothing overflows, the width is the number that is written. -/
theorem widthFrom_eq {digits : List UInt8} (valid : ∀ char ∈ digits, isDigit char = true)
    {value : ℕ}
    (small : decimalFrom value digits < 2 ^ 31) :
    widthFrom value digits = decimalFrom value digits := by
  induction digits generalizing value with
  | nil => rfl
  | cons char digits hypothesis =>
      have digit := zero_le_of_isDigit (valid char List.mem_cons_self)
      have next : (value : ℤ) * 10 + (char.toNat - '0'.toNat) =
          (value * 10 + (char.toNat - '0'.toNat) : ℕ) := by omega
      have below := le_decimalFrom (value * 10 + (char.toNat - '0'.toNat)) digits
      have first : IsInt ((value * 10 + (char.toNat - '0'.toNat) : ℕ) : ℤ) :=
        ⟨by omega, by exact_mod_cast lt_of_le_of_lt below small⟩
      rw [widthFrom, List.foldl_cons, next, wrapInt_of_isInt first]
      exact hypothesis (fun other member => valid other (List.mem_cons_of_mem _ member)) small

theorem widthDigits_isDigit {digits : List UInt8} (valid : ∀ char ∈ digits, isDigit char = true) :
    ∀ char ∈ widthDigits digits, isDigit char = true := by
  unfold widthDigits
  split
  · exact fun char member => valid char (List.mem_of_mem_tail member)
  · exact valid

/-- The digits of a piece are digits. -/
theorem splitPiece_digits (char : UInt8) (format : List UInt8) :
    ∀ digit ∈ (splitPiece char format).1.digits, isDigit digit = true := by
  have taken : ∀ digit ∈ format.takeWhile isDigit, isDigit digit = true := fun digit =>
    List.mem_takeWhile_imp
  unfold splitPiece splitConversion
  split
  · split
    · exact taken
    · split
      · split
        · exact taken
        · exact taken
      · exact taken
  · simp [Piece.digits]

theorem pieces_digits {fuel : ℕ} {memory : List UInt8} {piece : Piece}
    (member : piece ∈ pieces fuel memory) :
    ∀ digit ∈ piece.digits, isDigit digit = true := by
  induction fuel generalizing memory with
  | zero => simp [pieces] at member
  | succ fuel hypothesis =>
      cases memory with
      | nil => simp [pieces] at member
      | cons char format =>
          by_cases null : char = 0
          · simp [pieces, null] at member
          · rw [pieces_succ null] at member
            rcases List.mem_cons.mp member with rfl | later
            · exact splitPiece_digits char format
            · exact hypothesis later

/-! ## Indices -/

/-- A call uses the indices up to the number of characters it prints. -/
theorem kprintnp_indices_iff {base num : ℕ} (valid : 1 < base) (fits : num < 2 ^ 64)
    (stack : ℕ → UInt8)
    (uppercase : Bool) (width : ℤ) (pad : UInt8) (bound : ℕ) :
    (∀ index ∈ (kprintnp stack num base uppercase width pad).written ++
        (kprintnp stack num base uppercase width pad).read, index ≤ bound) ↔
      max width (numeral (digitsOf uppercase) base num).length ≤ bound := by
  rw [kprintnp_eq valid fits, ← padded_length width pad]
  have nonempty := padded_ne_nil width pad (numeral_ne_nil (digitsOf uppercase) base num)
  have positive := List.length_pos_iff.mpr nonempty
  generalize (padded width pad (numeral (digitsOf uppercase) base num)).length =
    length at positive ⊢
  simp only [List.mem_append, List.mem_range'_1, List.mem_reverse, List.mem_range, Nat.cast_le]
  constructor
  · intro bounded
    exact bounded length (.inl ⟨positive, by omega⟩)
  · rintro small index (⟨-, written⟩ | read) <;> omega

/-- A numeral of 64 bits has at most twenty digits. -/
theorem numeral_length_le {base num : ℕ} (valid : 10 ≤ base) (fits : num < 2 ^ 64)
    (digits : List UInt8) :
    (numeral digits base num).length ≤ 20 := by
  unfold numeral reversedDigits
  split
  · simp
  · rw [List.length_reverse, List.length_map, Nat.digits_length_le_iff (by omega)]
    calc num < 2 ^ 64 := fits
      _ ≤ 10 ^ 20 := by norm_num
      _ ≤ base ^ 20 := Nat.pow_le_pow_left valid 20

/-- The last index of the buffer. -/
def lastCell : ℕ := 31

/-- A directive that pads has a width that fits the buffer. -/
def Directive.Fits : Directive → Prop
  | .conversion width _ _ .unsigned => width ≤ lastCell
  | .conversion width _ _ .hex => width ≤ lastCell
  | .conversion width _ _ .upperHex => width ≤ lastCell
  | _ => True

theorem VaList.unsigned_lt (args : VaList) (isLong : Bool) (index : ℕ) :
    args.unsigned isLong index < 2 ^ 64 := by
  have word := (args.slots index).toNat_lt
  have half := Nat.mod_le (args.slots index).toNat (2 ^ 32)
  unfold unsigned unsignedInt long
  split <;> omega

theorem number_accesses_iff (printing : Printing) (printed : Printed) :
    (∀ index ∈ (printing.number printed).accesses, index ≤ lastCell) ↔
      (∀ index ∈ printing.accesses, index ≤ lastCell) ∧
        ∀ index ∈ printed.written ++ printed.read, index ≤ lastCell := by
  simp only [Printing.number, List.append_assoc, List.forall_mem_append]

/-- A numeral alone leaves the buffer to the width. -/
theorem kprintnp_fits_iff {base num : ℕ} (valid : 10 ≤ base) (fits : num < 2 ^ 64)
    (stack : ℕ → UInt8)
    (uppercase : Bool) (width : ℤ) (pad : UInt8) :
    (∀ index ∈ (kprintnp stack num base uppercase width pad).written ++
        (kprintnp stack num base uppercase width pad).read, index ≤ lastCell) ↔
          width ≤ lastCell := by
  have short := numeral_length_le valid fits (digitsOf uppercase)
  rw [kprintnp_indices_iff (by omega) fits]
  simp only [lastCell]
  omega

theorem kprintns_fits (stack : ℕ → UInt8) (num : ℤ) :
    ∀ index ∈ (kprintns stack num 10).written ++ (kprintns stack num 10).read,
      index ≤ lastCell := by
  have fits : ((if num < 0 then Int.bmod (-num) (2 ^ 64) else num) % 2 ^ 64).toNat <
    2 ^ 64 := by omega
  have within := (kprintnp_fits_iff (le_refl 10) fits stack false 0 ' '.toUInt8).mpr (by decide)
  unfold kprintns
  by_cases negative : num < 0
  · simpa only [negative, ↓reduceIte] using within
  · simpa only [negative, ↓reduceIte] using within

theorem printDirective_accesses_iff (stack : ℕ → ℕ → UInt8) (args : VaList) (directive : Directive)
    (printing : Printing) :
    (∀ index ∈ (printDirective stack args directive printing).accesses, index ≤ lastCell) ↔
      (∀ index ∈ printing.accesses, index ≤ lastCell) ∧ directive.Fits := by
  have unsigned := fun width pad isLong base uppercase (valid : 10 ≤ base) =>
    kprintnp_fits_iff valid (args.unsigned_lt isLong printing.taken) (stack printing.taken)
      uppercase width pad
  cases directive with
  | literal char => simp [printDirective, Printing.kputc, Printing.counted, Directive.Fits]
  | conversion width pad isLong specifier =>
      cases specifier with
      | character =>
          simp [printDirective, Printing.take, Printing.kputc, Printing.counted,
            Directive.Fits]
      | string =>
          simp [printDirective, Printing.take, Printing.kprints, Printing.counted,
            Directive.Fits]
      | percent => simp [printDirective, Printing.kputc, Printing.counted, Directive.Fits]
      | other char => simp [printDirective, Printing.kputc, Printing.counted, Directive.Fits]
      | signed =>
          refine (number_accesses_iff _ _).trans (and_congr Iff.rfl ?_)
          exact iff_of_true (kprintns_fits _ _) trivial
      | unsigned =>
          refine (number_accesses_iff _ _).trans (and_congr Iff.rfl ?_)
          exact unsigned width pad isLong 10 false (by decide)
      | hex =>
          refine (number_accesses_iff _ _).trans (and_congr Iff.rfl ?_)
          exact unsigned width pad isLong 16 false (by decide)
      | upperHex =>
          refine (number_accesses_iff _ _).trans (and_congr Iff.rfl ?_)
          exact unsigned width pad isLong 16 true (by decide)
      | pointer =>
          refine (number_accesses_iff _ _).trans (and_congr Iff.rfl ?_)
          have fits := (args.slots printing.taken).toNat_lt
          have pointer := kprintnp_fits_iff (show 10 ≤ 16 by decide) fits (stack printing.taken)
            false 16
            '0'.toUInt8
          exact pointer.trans (iff_of_true (by decide) trivial)

theorem foldl_accesses_iff (stack : ℕ → ℕ → UInt8) (args : VaList) (directives : List Directive)
    (printing : Printing) :
    (∀ index ∈ (directives.foldl (fun printing directive =>
      printDirective stack args directive printing)
        printing).accesses, index ≤ lastCell) ↔
      (∀ index ∈ printing.accesses, index ≤ lastCell) ∧ ∀ directive ∈ directives,
        directive.Fits := by
  induction directives generalizing printing with
  | nil => simp
  | cons directive directives hypothesis =>
      rw [List.foldl_cons, hypothesis, printDirective_accesses_iff, List.forall_mem_cons, and_assoc]

/-! ## The condition -/

/-- A width that is written is that of an `int`, and where the buffer is padded up to it, of the
buffer. -/
def Piece.WidthFits : Piece → Prop
  | plain _ => True
  | conversion digits _ letter =>
      decimal digits < 2 ^ 31 ∧
        (letter = 'u'.toUInt8 ∨ letter = 'x'.toUInt8 ∨ letter = 'X'.toUInt8 →
          decimal digits ≤ lastCell)
  | unfinished digits => decimal digits < 2 ^ 31

theorem Piece.widths_isInt_iff {piece : Piece}
    (valid : ∀ digit ∈ piece.digits, isDigit digit = true) :
    (∀ width ∈ piece.widths, IsInt width) ↔ decimal piece.digits < 2 ^ 31 := by
  have start : IsInt ((0 : ℕ) : ℤ) := by simp [IsInt]
  rw [← decimal_widthDigits]
  exact widthsFrom_isInt_iff (widthDigits_isDigit valid) start

/-- Only three letters make use of the width. -/
theorem Directive.fits_ofChar_iff (width : ℤ) (pad : UInt8) (isLong : Bool) (letter : UInt8) :
    (Directive.conversion width pad isLong (.ofChar letter)).Fits ↔
      (letter = 'u'.toUInt8 ∨ letter = 'x'.toUInt8 ∨ letter = 'X'.toUInt8 → width ≤ lastCell) := by
  by_cases padding : letter = 'u'.toUInt8 ∨ letter = 'x'.toUInt8 ∨ letter = 'X'.toUInt8
  · rcases padding with rfl | rfl | rfl
    · simp [show Specifier.ofChar 'u'.toUInt8 = .unsigned by decide, Fits]
    · simp [show Specifier.ofChar 'x'.toUInt8 = .hex by decide, Fits]
    · simp [show Specifier.ofChar 'X'.toUInt8 = .upperHex by decide, Fits]
  · refine iff_of_true ?_ fun member => absurd member padding
    push Not at padding
    unfold Specifier.ofChar
    split_ifs <;> simp_all [Fits]

theorem Piece.fits_iff {piece : Piece} (valid : ∀ digit ∈ piece.digits, isDigit digit = true) :
    piece.WidthFits ↔ (∀ width ∈ piece.widths, IsInt width) ∧
      ∀ directive, piece.directive = some directive → directive.Fits := by
  rw [widths_isInt_iff valid]
  cases piece with
  | plain char => simp [WidthFits, digits, directive, decimal, decimalFrom, Directive.Fits]
  | unfinished digits => simp [WidthFits, Piece.digits, directive]
  | conversion digits isLong letter =>
      simp only [WidthFits, Piece.digits, directive, Option.some.injEq, forall_eq',
        Directive.fits_ofChar_iff]
      refine and_congr_right fun small => ?_
      rw [← decimal_widthDigits] at small ⊢
      have width : widthFrom 0 (widthDigits digits) = decimal (widthDigits digits) :=
        @widthFrom_eq _ (widthDigits_isDigit valid) 0 small
      rw [width, Nat.cast_le]

/-- Every index lies in the buffer and no width overflows if and only if each width of the format is
that of an `int` and, for the three letters that pad, at most 31. -/
theorem kprintf_inBounds_iff (stack : ℕ → ℕ → UInt8) (args : VaList) (memory : List UInt8) :
    ((∀ index ∈ (kprintf stack args memory).printing.accesses, index ≤ lastCell) ∧
        ∀ width ∈ (kprintf stack args memory).scanner.widths, IsInt width) ↔
      ∀ piece ∈ pieces (memory.length + 1) memory, piece.WidthFits := by
  rw [kprintf, kprintfLoop_printing, kprintfLoop_widths, foldl_accesses_iff]
  simp only [List.not_mem_nil, false_implies, implies_true, true_and, List.nil_append,
    List.mem_flatMap, List.mem_filterMap, forall_exists_index, and_imp]
  constructor
  · rintro ⟨directives, widths⟩ piece member
    exact (Piece.fits_iff (pieces_digits member)).mpr
      ⟨fun width included => widths width piece member included,
        fun directive written => directives directive piece member written⟩
  · intro fit
    exact ⟨fun directive piece member written =>
        ((Piece.fits_iff (pieces_digits member)).mp (fit piece member)).2 directive written,
      fun width piece member included =>
        ((Piece.fits_iff (pieces_digits member)).mp (fit piece member)).1 width included⟩

/-- A width of 32 is too much for the buffer. -/
theorem width_leaves_buffer :
    ¬ ((∀ index ∈ (kprintf (fun _ _ =>
      0) .none (['%', '3', '2', 'u'].map Char.toUInt8 ++ [0])).printing.accesses,
        index ≤ lastCell) ∧
      ∀ width ∈ (kprintf (fun _ _ =>
        0) .none (['%', '3', '2', 'u'].map Char.toUInt8 ++ [0])).scanner.widths, IsInt width) := by
  rintro ⟨within, -⟩
  have last := within 32 (by decide +kernel)
  simp [lastCell] at last

end Goshkik.Klibc
