import Mathlib.Data.Nat.Digits.Lemmas
import Goshkik.Klibc.Printf

/-!
# Numerals

The loops of `kprintnp` fill the buffer from index one on, and the last loop prints it from one
index below: the first character is dropped, and what was in `buffer[0]` before is printed at the
end.
-/

namespace Goshkik.Klibc

/-- The digits that a call of `kprintnp` chooses from. -/
def digitsOf (uppercase : Bool) : List UInt8 :=
  if uppercase then digitsUppercase else digitsLowercase

/-- The digits of a number that is not zero, from the least significant one on. -/
def reversedDigits (digits : List UInt8) (base num : ℕ) : List UInt8 :=
  (Nat.digits base num).map fun digit => digits.getD digit 0

/-- The positional representation, from the most significant digit on. -/
def numeral (digits : List UInt8) (base num : ℕ) : List UInt8 :=
  if num = 0 then ['0'.toUInt8] else (reversedDigits digits base num).reverse

/-- A text with padding in front. -/
def padded (width : ℤ) (pad : UInt8) (text : List UInt8) : List UInt8 :=
  List.replicate (width - text.length).toNat pad ++ text

/-- The positional representation of a number with a sign. -/
def signedNumeral (num : ℤ) : List UInt8 :=
  if num < 0 then '-'.toUInt8 :: numeral digitsLowercase 10 num.natAbs
  else numeral digitsLowercase 10 num.natAbs

theorem numeral_ne_nil (digits : List UInt8) (base num : ℕ) : numeral digits base num ≠ [] := by
  unfold numeral reversedDigits
  split
  · simp
  · rename_i nonzero
    simp [Nat.digits_ne_nil_iff_ne_zero, nonzero]

theorem padded_length (width : ℤ) (pad : UInt8) (text : List UInt8) :
    ((padded width pad text).length : ℤ) = max width text.length := by
  simp only [padded, List.length_append, List.length_replicate]
  omega

theorem padded_ne_nil (width : ℤ) (pad : UInt8) {text : List UInt8} (nonempty : text ≠ []) :
    padded width pad text ≠ [] := by
  simp [padded, nonempty]

/-! ## The buffer -/

/-- The buffer after a text was written to it, from index one on. -/
def DigitBuffer.filled (stack : ℕ → UInt8) (text : List UInt8) : DigitBuffer where
  i := text.length
  cells index := if index = 0 then stack 0 else text.getD (index - 1) (stack index)
  written := List.range' 1 text.length

theorem DigitBuffer.filled_nil (stack : ℕ → UInt8) :
    DigitBuffer.filled stack [] = ⟨0, stack, []⟩ := by
  simp only [filled, List.length_nil, List.range'_zero, mk.injEq, true_and, and_true]
  funext index
  by_cases zero : index = 0 <;> simp [zero]

theorem DigitBuffer.push_filled (stack : ℕ → UInt8) (text : List UInt8) (char : UInt8) :
    (DigitBuffer.filled stack text).push char = DigitBuffer.filled stack (text ++ [char]) := by
  simp only [push, filled, List.length_append, List.length_singleton, mk.injEq, true_and]
  refine ⟨?_, ?_⟩
  · funext index
    rcases lt_trichotomy index (text.length + 1) with before | rfl | behind
    · rw [Function.update_of_ne (by omega)]
      by_cases zero : index = 0
      · simp [zero]
      · simp [zero, List.getElem?_append_left (show index - 1 < text.length by omega)]
    · simp
    · rw [Function.update_of_ne (by omega)]
      have zero : index ≠ 0 := by omega
      simp [zero, List.getElem?_eq_none (show text.length ≤ index - 1 by omega),
        List.getElem?_eq_none (show (text ++ [char]).length ≤ index - 1 by simp; omega)]
  · rw [List.range'_concat]
    simp [Nat.add_comm]

theorem pushDigits_filled {base : ℕ} (valid : 1 < base) (digits : List UInt8) (stack : ℕ → UInt8)
    (fuel num : ℕ)
    (text : List UInt8) (enough : num < 2 ^ fuel) :
    pushDigits digits base fuel num (.filled stack text) =
      .filled stack (text ++ reversedDigits digits base num) := by
  induction fuel generalizing num text with
  | zero =>
      have zero : num = 0 := by simpa using enough
      simp [pushDigits, reversedDigits, zero]
  | succ fuel hypothesis =>
      rw [pushDigits]
      split
      · rename_i positive
        have smaller : num / base < 2 ^ fuel := by
          have half : num / base ≤ num / 2 := Nat.div_le_div_left valid (by omega)
          have pow : 2 ^ (fuel + 1) = 2 * 2 ^ fuel := by ring
          omega
        rw [DigitBuffer.push_filled, hypothesis _ _ smaller]
        simp [reversedDigits, Nat.digits_def' valid positive]
      · have zero : num = 0 := by omega
        simp [reversedDigits, zero]

theorem pushPads_filled (pad : UInt8) (count : ℕ) (stack : ℕ → UInt8) (text : List UInt8) :
    pushPads pad count (.filled stack text) = .filled stack (text ++ List.replicate count pad) := by
  induction count generalizing text with
  | zero => simp [pushPads]
  | succ count hypothesis =>
      rw [pushPads, DigitBuffer.push_filled, hypothesis]
      simp [List.replicate_succ]

/-- The characters of a buffer below its index. -/
theorem DigitBuffer.filled_read (stack : ℕ → UInt8) {text : List UInt8} (nonempty : text ≠ []) :
    (List.range text.length).map (DigitBuffer.filled stack text).cells =
      stack 0 :: text.dropLast := by
  have positive : 0 < text.length := List.length_pos_iff.mpr nonempty
  refine List.ext_getElem (by simp; omega) fun index inside behind => ?_
  cases index with
  | zero => simp [filled]
  | succ index =>
      have bound : index < text.length := by simp at inside; omega
      simp [filled, List.getElem?_eq_getElem bound, List.getElem_dropLast]

/-! ## What is printed -/

/-- The buffer is the padded numeral the other way round. -/
theorem kprintnp_eq {base num : ℕ} (valid : 1 < base) (fits : num < 2 ^ 64) (stack : ℕ → UInt8)
    (uppercase : Bool) (width : ℤ) (pad : UInt8) :
    kprintnp stack num base uppercase width pad =
      { output := (padded width pad (numeral (digitsOf uppercase) base num)).tail ++ [stack 0]
        written := List.range' 1 (padded width pad (numeral (digitsOf uppercase) base num)).length
        read := (List.range
          (padded width pad (numeral (digitsOf uppercase) base num)).length).reverse } := by
  have start : (if num = 0 then (DigitBuffer.filled stack []).push '0'.toUInt8
      else pushDigits (digitsOf uppercase) base 64 num (.filled stack [])) =
        .filled stack (numeral (digitsOf uppercase) base num).reverse := by
    unfold numeral
    split
    · exact DigitBuffer.push_filled stack [] _
    · simp [pushDigits_filled valid _ stack 64 num [] fits]
  have whole : ∀ text : List UInt8,
      pushPads pad (width - (DigitBuffer.filled stack text.reverse).i).toNat
        (.filled stack text.reverse) =
        .filled stack (padded width pad text).reverse := by
    intro text
    rw [pushPads_filled]
    simp [padded, DigitBuffer.filled]
  have nonempty : (padded width pad (numeral (digitsOf uppercase) base num)).reverse ≠ [] := by
    simpa using padded_ne_nil _ _ (numeral_ne_nil _ _ _)
  have read := DigitBuffer.filled_read stack nonempty
  unfold kprintnp
  simp only [← DigitBuffer.filled_nil]
  rw [show (if uppercase then digitsUppercase else digitsLowercase) = digitsOf uppercase from rfl,
    start, whole]
  simp only [Printed.mk.injEq, List.map_reverse]
  refine ⟨?_, ?_, ?_⟩
  · rw [show (DigitBuffer.filled stack
      (padded width pad (numeral (digitsOf uppercase) base num)).reverse).i =
      (padded width pad (numeral (digitsOf uppercase) base num)).reverse.length from rfl, read]
    simp [List.dropLast_reverse]
  · simp [DigitBuffer.filled]
  · simp [DigitBuffer.filled]

/-- A text that loses its first character and gains one at the end has not changed only when it is
one character again and again. -/
theorem tail_append_eq_iff {char : UInt8} {text : List UInt8} (nonempty : text ≠ []) :
    text.tail ++ [char] = text ↔ ∀ other ∈ text, other = char := by
  obtain ⟨first, rest, rfl⟩ := List.exists_cons_of_ne_nil nonempty
  clear nonempty
  rw [List.tail_cons]
  induction rest generalizing first with
  | nil => simp [eq_comm]
  | cons second rest hypothesis =>
      simp only [List.cons_append, List.cons.injEq, hypothesis, List.mem_cons, forall_eq_or_imp]
      constructor
      · rintro ⟨rfl, same, others⟩
        exact ⟨same, same, others⟩
      · rintro ⟨rfl, same, others⟩
        exact ⟨same, same, others⟩

/-- The whole call of `kprintnp`: the padded numeral is printed, and no cell is read that was not
written. -/
def PrintsFaithfully (stack : ℕ → UInt8) (num base : ℕ) (uppercase : Bool) (width : ℤ)
    (pad : UInt8) : Prop :=
  (kprintnp stack num base uppercase width pad).output =
      padded width pad (numeral (digitsOf uppercase) base num) ∧
    ∀ index ∈ (kprintnp stack num base uppercase width pad).read,
      index ∈ (kprintnp stack num base uppercase width pad).written

/-- The first cell is read and never written. -/
theorem not_printsFaithfully {base num : ℕ} (valid : 1 < base) (fits : num < 2 ^ 64)
    (stack : ℕ → UInt8)
    (uppercase : Bool) (width : ℤ) (pad : UInt8) :
    ¬ PrintsFaithfully stack num base uppercase width pad := by
  rintro ⟨-, covered⟩
  rw [kprintnp_eq valid fits] at covered
  have nonempty := padded_ne_nil width pad (numeral_ne_nil (digitsOf uppercase) base num)
  have first := covered 0 (by simpa using List.length_pos_iff.mpr nonempty)
  simp at first

theorem kprintnp_output_iff {base num : ℕ} (valid : 1 < base) (fits : num < 2 ^ 64)
    (stack : ℕ → UInt8)
    (uppercase : Bool) (width : ℤ) (pad : UInt8) :
    (kprintnp stack num base uppercase width pad).output =
        padded width pad (numeral (digitsOf uppercase) base num) ↔
      ∀ char ∈ padded width pad (numeral (digitsOf uppercase) base num), char = stack 0 := by
  rw [kprintnp_eq valid fits]
  exact tail_append_eq_iff (padded_ne_nil _ _ (numeral_ne_nil _ _ _))

/-- Without a width there is no padding. -/
theorem padded_zero (pad : UInt8) (text : List UInt8) : padded 0 pad text = text := by
  simp [padded]

/-- The magnitude of a number of 64 bits is found whichever its sign is. -/
theorem kprintns_output (stack : ℕ → UInt8) {num : ℤ} (lower : -2 ^ 63 ≤ num) (upper : num < 2 ^ 63)
    (base : ℕ) :
    (kprintns stack num base).output =
      (if num < 0 then ['-'.toUInt8] else []) ++
        (kprintnp stack num.natAbs base false 0 ' '.toUInt8).output := by
  unfold kprintns
  by_cases negative : num < 0
  · have magnitude : (Int.bmod (-num) (2 ^ 64) % 2 ^ 64).toNat = num.natAbs := by
      have wrapped : Int.bmod (-num) (2 ^ 64) % 2 ^ 64 = -num % 2 ^ 64 := Int.bmod_emod
      rw [wrapped]
      omega
    simp only [negative, ↓reduceIte, magnitude, List.singleton_append]
  · have magnitude : (num % 2 ^ 64).toNat = num.natAbs := by omega
    simp only [negative, ↓reduceIte, magnitude, List.nil_append]

theorem kprintns_output_iff (stack : ℕ → UInt8) {num : ℤ} (lower : -2 ^ 63 ≤ num)
    (upper : num < 2 ^ 63) :
    (kprintns stack num 10).output = signedNumeral num ↔
      ∀ char ∈ numeral digitsLowercase 10 num.natAbs, char = stack 0 := by
  have unsigned := @kprintnp_output_iff 10 num.natAbs (by decide) (by omega) stack false 0
    ' '.toUInt8
  rw [padded_zero, show digitsOf false = digitsLowercase from rfl] at unsigned
  rw [kprintns_output stack lower upper, signedNumeral, ← unsigned]
  split <;> simp

/-- No number is printed faithfully.  Its text comes out all the same when each of its characters is
what was left in the first cell, and for no number is that so whatever was left there. -/
theorem printed_number_iff {base : ℕ} (valid : base = 10 ∨ base = 16) :
    (∀ (stack : ℕ → UInt8) (num : UInt64) (uppercase : Bool) (width : ℤ) (pad : UInt8),
      ¬ PrintsFaithfully stack num.toNat base uppercase width pad) ∧
    (∀ (stack : ℕ → UInt8) (num : UInt64) (uppercase : Bool) (width : ℤ) (pad : UInt8),
      (kprintnp stack num.toNat base uppercase width pad).output =
          padded width pad (numeral (digitsOf uppercase) base num.toNat) ↔
        ∀ char ∈ padded width pad (numeral (digitsOf uppercase) base num.toNat), char = stack 0) ∧
    (∀ (stack : ℕ → UInt8) (num : Int64),
      (kprintns stack num.toInt 10).output = signedNumeral num.toInt ↔
        ∀ char ∈ numeral digitsLowercase 10 num.toInt.natAbs, char = stack 0) ∧
    ∀ num : Int64, ¬ ∀ stack : ℕ → UInt8, (kprintns stack num.toInt 10).output =
      signedNumeral num.toInt := by
  have large : 1 < base := by rcases valid with rfl | rfl <;> decide
  have signed : ∀ (stack : ℕ → UInt8) (num : Int64),
      (kprintns stack num.toInt 10).output = signedNumeral num.toInt ↔
        ∀ char ∈ numeral digitsLowercase 10 num.toInt.natAbs, char = stack 0 :=
    fun stack num => kprintns_output_iff stack num.le_toInt num.toInt_lt
  refine ⟨fun stack num => not_printsFaithfully large num.toNat_lt stack,
    fun stack num => kprintnp_output_iff large num.toNat_lt stack, signed, fun num always => ?_⟩
  obtain ⟨char, rest, numeralIs⟩ :=
    List.exists_cons_of_ne_nil (numeral_ne_nil digitsLowercase 10 num.toInt.natAbs)
  have one : ∀ leftover : UInt8, char = leftover := fun leftover =>
    (signed (fun _ => leftover) num).mp (always _) char (by simp [numeralIs])
  exact absurd ((one 0).symm.trans (one 1)) (by decide)

theorem printed_number_five : ¬ PrintsFaithfully (fun _ => 0) 5 10 false 3 ' '.toUInt8 :=
  (printed_number_iff (.inl rfl)).1 (fun _ => 0) 5 false 3 ' '.toUInt8

/-- Five is printed as the byte that was left in the buffer. -/
theorem five_not_printed :
    (kprintnp (fun _ => 0) 5 10 false 0 ' '.toUInt8).output = [0] ∧
      (kprintns (fun _ => 0) (-5) 10).output = ['-'.toUInt8, 0] ∧
      (kprintnp (fun _ => 0) 5 10 false 0 ' '.toUInt8).read = [0] ∧
      (kprintnp (fun _ => 0) 5 10 false 0 ' '.toUInt8).written = [1] ∧
      ¬ PrintsFaithfully (fun _ => 0) 5 10 false 0 ' '.toUInt8 := by
  have read : (kprintnp (fun _ => 0) 5 10 false 0 ' '.toUInt8).read = [0] := by decide
  have written : (kprintnp (fun _ => 0) 5 10 false 0 ' '.toUInt8).written = [1] := by decide
  refine ⟨by decide, by decide, read, written, fun ⟨_, covered⟩ => ?_⟩
  have first := covered 0 (by rw [read]; decide)
  rw [written] at first
  exact absurd first (by decide)

end Goshkik.Klibc
