import Mathlib.Data.List.Induction
import Goshkik.Klibc.Mem
import Goshkik.Klibc.PrintfBounds

/-!
# The line numbers of assertions

This file models `utoa` of `klibc/assert.c`.  The digits are written from the least significant one
on, and then two pointers move towards each other and exchange what they find until they meet.
-/

namespace Goshkik.Klibc

open MappedBytes

/-- The first loop of `utoa`, with what it leaves in `q`. -/
def utoaDigits : ℕ → UInt32 → ByteAddress → MappedBytes → Option (ByteAddress × MappedBytes)
  | 0, _, _, _ => none
  | fuel + 1, n, q, memory => do
      let memory ← memory.store q (UInt8.ofNat ('0'.toNat + (n % 10).toNat))
      if n / 10 ≠ 0 then utoaDigits fuel (n / 10) (q + 1) memory else return (q + 1, memory)

/-- The second loop of `utoa`. -/
def utoaReverse : ℕ → ByteAddress → ByteAddress → MappedBytes → Option MappedBytes
  | 0, _, _, _ => none
  | fuel + 1, p, q, memory =>
      if p < q then do
        let tmp ← memory.load p
        let char ← memory.load q
        let memory ← memory.store p char
        let memory ← memory.store q tmp
        utoaReverse fuel (p + 1) (q - 1) memory
      else return memory

def utoa (fuel : ℕ) (n : UInt32) (buf : ByteAddress) (memory : MappedBytes) :
    Option (ByteAddress × MappedBytes) := do
  let (q, memory) ← utoaDigits fuel n buf memory
  let memory ← memory.store q 0
  let memory ← utoaReverse fuel buf (q - 1) memory
  return (buf, memory)

variable {memory : MappedBytes} {buf : ByteAddress} {front middle back written : List UInt8}
  {fuel num total : ℕ}
  {n : UInt32}

/-! ## The numeral -/

/-- The decimal representation of a number. -/
def decimalNumeral (num : ℕ) : List UInt8 := numeral digitsLowercase 10 num

theorem digit_char {digit : ℕ} (small : digit < 10) :
    digitsLowercase.getD digit 0 = UInt8.ofNat ('0'.toNat + digit) := by
  revert digit
  decide

theorem decimalNumeral_of_lt (small : num < 10) :
    decimalNumeral num = [UInt8.ofNat ('0'.toNat + num)] := by
  unfold decimalNumeral numeral
  by_cases zero : num = 0
  · subst zero
    rfl
  · rw [if_neg zero, reversedDigits, Nat.digits_of_lt 10 num zero small, ← digit_char small]
    rfl

theorem decimalNumeral_of_ge (large : 10 ≤ num) :
    decimalNumeral num = decimalNumeral (num / 10) ++ [UInt8.ofNat ('0'.toNat + num % 10)] := by
  have nonzero : num ≠ 0 := by omega
  have quotient : num / 10 ≠ 0 := by omega
  rw [decimalNumeral, decimalNumeral, numeral, numeral, if_neg nonzero, if_neg quotient,
    reversedDigits, Nat.digits_def' (by decide) (by omega), List.map_cons, List.reverse_cons,
    digit_char (Nat.mod_lt _ (by decide)), reversedDigits]

theorem length_decimalNumeral_le (count : ℕ) (small : num < 10 ^ (count + 1)) :
    (decimalNumeral num).length ≤ count + 1 := by
  induction count generalizing num with
  | zero => rw [decimalNumeral_of_lt (by simpa using small), List.length_singleton]
  | succ count hypothesis =>
      rcases Nat.lt_or_ge num 10 with digit | large
      · rw [decimalNumeral_of_lt digit, List.length_singleton]
        omega
      · have quotient : num / 10 < 10 ^ (count + 1) := by
          rw [Nat.div_lt_iff_lt_mul (by decide), ← pow_succ]
          exact small
        rw [decimalNumeral_of_ge large, List.length_append, List.length_singleton]
        exact Nat.succ_le_succ (hypothesis quotient)

theorem decimal_append (text : List UInt8) (char : UInt8) :
    decimal (text ++ [char]) = decimal text * 10 + (char.toNat - '0'.toNat) := by
  simp [decimal, decimalFrom]

theorem char_digit {digit : ℕ} (small : digit < 10) :
    (UInt8.ofNat ('0'.toNat + digit)).toNat - '0'.toNat = digit := by
  revert digit
  decide

theorem decimal_decimalNumeral (num : ℕ) : decimal (decimalNumeral num) = num := by
  induction num using Nat.strong_induction_on with
  | _ num hypothesis =>
    rcases Nat.lt_or_ge num 10 with digit | large
    · rw [decimalNumeral_of_lt digit, ← List.nil_append [_], decimal_append, char_digit digit]
      exact Nat.zero_add num
    · rw [decimalNumeral_of_ge large, decimal_append, hypothesis _ (by omega),
        char_digit (Nat.mod_lt _ (by decide))]
      omega

/-- Digits, and none of them a zero in front. -/
structure Canonical (text : List UInt8) : Prop where
  nonempty : text ≠ []
  digits : ∀ char ∈ text, '0'.toUInt8 ≤ char ∧ char ≤ '9'.toUInt8
  noLeadingZero : text.head? = some '0'.toUInt8 → text = ['0'.toUInt8]

theorem char_isDigit {digit : ℕ} (small : digit < 10) :
    '0'.toUInt8 ≤ UInt8.ofNat ('0'.toNat + digit) ∧ UInt8.ofNat ('0'.toNat + digit) ≤
      '9'.toUInt8 := by
  revert digit
  decide

theorem canonical_decimalNumeral (num : ℕ) : Canonical (decimalNumeral num) := by
  induction num using Nat.strong_induction_on with
  | _ num hypothesis =>
    rcases Nat.lt_or_ge num 10 with small | large
    · rw [decimalNumeral_of_lt small]
      refine ⟨by simp, ?_, ?_⟩
      · intro char isChar
        rw [List.mem_singleton.mp isChar]
        exact char_isDigit small
      · rw [List.head?_singleton, Option.some.injEq]
        exact fun zero => congrArg (fun char => [char]) zero
    · have rest := hypothesis (num / 10) (by omega)
      rw [decimalNumeral_of_ge large]
      refine ⟨by simp, ?_, ?_⟩
      · intro char isChar
        rcases List.mem_append.mp isChar with earlier | last
        · exact rest.digits char earlier
        · rw [List.mem_singleton.mp last]
          exact char_isDigit (Nat.mod_lt _ (by decide))
      · intro zero
        rw [List.head?_append_of_ne_nil _ rest.nonempty] at zero
        have value := decimal_decimalNumeral (num / 10)
        rw [rest.noLeadingZero zero, show decimal ['0'.toUInt8] = 0 from rfl] at value
        omega

/-! ## The loops -/

/-- The digits come behind what has been written before. -/
theorem utoaDigits_eq (writable : memory.Mapped buf total)
    (room : written.length + (decimalNumeral n.toNat).length ≤ total)
    (fits : total ≤ 2 ^ 64) (enough : (decimalNumeral n.toNat).length ≤ fuel) :
    utoaDigits fuel n (place buf written.length) (memory.overwrite buf written) =
      some (place buf (written.length + (decimalNumeral n.toNat).length),
        memory.overwrite buf (written ++ (decimalNumeral n.toNat).reverse)) := by
  induction fuel generalizing n written with
  | zero => exact absurd (canonical_decimalNumeral n.toNat).nonempty (by simpa using enough)
  | succ fuel hypothesis =>
      have stores : ∀ char : UInt8, written.length < total →
          (memory.overwrite buf written).store (place buf written.length) char =
            some (memory.overwrite buf (written ++ [char])) := by
        intro char inside
        rw [store_eq (overwrite_eq_some_of_isSome (writable _ inside)), update_overwrite (by omega)]
      have quotient : (n / 10).toNat = n.toNat / 10 := UInt32.toNat_div n 10
      have remainder : (n % 10).toNat = n.toNat % 10 := UInt32.toNat_mod n 10
      rcases Nat.lt_or_ge n.toNat 10 with digit | large
      · have last : n / 10 = 0 := by
          apply UInt32.toNat_inj.mp
          rw [quotient]
          exact Nat.div_eq_of_lt digit
        rw [decimalNumeral_of_lt digit, List.length_singleton] at room ⊢
        rw [utoaDigits, stores _ (by omega), remainder, Nat.mod_eq_of_lt digit]
        simp only [Option.bind_eq_bind, Option.bind_some, last, ne_eq, not_true_eq_false, if_false,
          place_succ, pure, List.reverse_singleton]
      · have goesOn : n / 10 ≠ 0 := by
          intro zero
          rw [zero] at quotient
          have none : (0 : UInt32).toNat = 0 := rfl
          omega
        rw [decimalNumeral_of_ge large, ← quotient, List.length_append,
          List.length_singleton] at room enough ⊢
        have next := @hypothesis (written ++ [UInt8.ofNat ('0'.toNat + n.toNat % 10)]) (n / 10)
          (by rw [List.length_append, List.length_singleton]; omega) (by omega)
        rw [List.length_append, List.length_singleton] at next
        rw [utoaDigits, stores _ (by omega), remainder]
        simp only [Option.bind_eq_bind, Option.bind_some, if_pos goesOn, place_succ, next,
          List.reverse_append, List.reverse_singleton, List.append_assoc, List.singleton_append]
        rw [Nat.add_assoc, Nat.add_comm 1]

/-- What the two pointers have passed is in place, and what lies between them is not. -/
theorem utoaReverse_eq (writable : memory.Mapped buf total)
    (room : (front ++ middle ++ back).length ≤ total)
    (fits : buf.toNat + total ≤ 2 ^ 64) (positive : 0 < front.length + middle.length)
    (ended : 0 < back.length)
    (enough : middle.length < fuel) :
    utoaReverse fuel (place buf front.length) (place buf (front.length + middle.length) - 1)
        (memory.overwrite buf (front ++ middle ++ back)) =
      some (memory.overwrite buf (front ++ middle.reverse ++ back)) := by
  induction middle using List.bidirectionalRec generalizing front back fuel with
  | nil =>
      obtain ⟨fuel, rfl⟩ : ∃ more, fuel = more + 1 := ⟨fuel - 1, by simp at enough; omega⟩
      simp only [List.append_nil, List.length_append] at room
      have passed : ¬ place buf front.length < place buf (front.length + 0) - 1 := by
        simp only [List.length_nil] at positive
        simp only [place]
        bv_omega
      rw [List.length_nil, utoaReverse, if_neg passed]
      rfl
  | singleton char =>
      obtain ⟨fuel, rfl⟩ : ∃ more, fuel = more + 1 := ⟨fuel - 1, by omega⟩
      have meets : ¬ place buf front.length < place buf (front.length + 1) - 1 := by
        simp only [place]
        bv_omega
      rw [List.length_singleton, utoaReverse, if_neg meets]
      rfl
  | cons_append first middle last hypothesis =>
      obtain ⟨fuel, rfl⟩ : ∃ more, fuel = more + 1 := ⟨fuel - 1, by omega⟩
      simp only [List.length_append, List.length_cons, List.length_nil] at room enough
      have higher : place buf (front.length + (first :: (middle ++ [last])).length) - 1 =
          place buf (front.length + 1 + middle.length) := by
        simp only [List.length_append, List.length_cons, List.length_nil, place]
        bv_omega
      have apart : place buf front.length < place buf (front.length + 1 + middle.length) := by
        simp only [place]
        bv_omega
      -- the bytes seen from the lower pointer, and from the higher one
      have low : ∀ char : UInt8, front ++ first :: (middle ++ [char]) ++ back =
          front ++ first :: (middle ++ char :: back) := by simp
      have high : ∀ char other : UInt8, front ++ char :: (middle ++ other :: back) =
          (front ++ char :: middle) ++ other :: back := by simp
      have isHigh : ∀ char :
          UInt8, (front ++ char :: middle).length = front.length + 1 + middle.length := by
        intro char
        simp only [List.length_append, List.length_cons]
        omega
      have readLow : memory.overwrite buf (front ++ first :: (middle ++ [last]) ++ back)
        (place buf front.length) =
          some first := by
        rw [low]
        exact overwrite_middle (by omega)
      have readHigh : memory.overwrite buf (front ++ first :: (middle ++ [last]) ++ back)
          (place buf (front.length + 1 + middle.length)) = some last := by
        rw [low, high, ← isHigh first]
        exact overwrite_middle (by rw [isHigh]; omega)
      have storeLow : (memory.overwrite buf (front ++ first :: (middle ++ [last]) ++ back)).store
          (place buf front.length) last =
            some (memory.overwrite buf (front ++ last :: (middle ++ last :: back))) := by
        rw [store_eq (overwrite_eq_some_of_isSome (writable _ (by omega))), low,
          update_overwrite_middle]
        simp only [List.length_append, List.length_cons]
        omega
      have storeHigh : (memory.overwrite buf (front ++ last :: (middle ++ last :: back))).store
          (place buf (front.length + 1 + middle.length)) first =
            some (memory.overwrite buf ((front ++ [last]) ++ middle ++ (first :: back))) := by
        rw [store_eq (overwrite_eq_some_of_isSome (writable _ (by omega))), high, ← isHigh last,
          update_overwrite_middle]
        · simp
        · simp only [List.length_append, List.length_cons]
          omega
      have next := @hypothesis (front ++ [last]) (first :: back) fuel
        (by simp only [List.length_append, List.length_cons, List.length_nil]; omega)
        (by simp only [List.length_append, List.length_cons]; omega) (Nat.succ_pos _) (by omega)
      rw [List.length_append, List.length_singleton] at next
      rw [higher, utoaReverse, if_pos apart]
      simp only [load, readLow, readHigh, storeLow, storeHigh, Option.bind_eq_bind,
        Option.bind_some, place_succ]
      rw [next]
      simp

/-- `utoa` leaves the decimal representation of its number with a null behind it. -/
theorem utoa_decimal (n : UInt32) (writable : memory.Mapped buf 11) (fits : buf.toNat + 11 ≤ 2 ^ 64)
    (enough : 11 ≤ fuel) :
    ∃ after, utoa fuel n buf memory = some (buf, after) ∧
      after.Holds buf (decimalNumeral n.toNat ++ [0]) ∧
      (decimalNumeral n.toNat ++ [0]).length ≤ 11 ∧
      (∀ address, ¬ Within buf (decimalNumeral n.toNat ++ [0]).length address →
        after address = memory address) ∧
      Canonical (decimalNumeral n.toNat) ∧ decimal (decimalNumeral n.toNat) = n.toNat := by
  have short : (decimalNumeral n.toNat).length ≤ 10 :=
    length_decimalNumeral_le 9 (lt_trans n.toNat_lt (by decide))
  have positive : 0 < (decimalNumeral n.toNat).length :=
    List.length_pos_iff.mpr (canonical_decimalNumeral n.toNat).nonempty
  have whole : (decimalNumeral n.toNat ++ [0]).length ≤ 11 := by
    rw [List.length_append, List.length_singleton]
    omega
  have digits := @utoaDigits_eq memory buf [] fuel 11 n writable (by rw [List.length_nil]; omega)
    (by omega) (by omega)
  rw [List.length_nil, place_zero, overwrite_nil, Nat.zero_add, List.nil_append] at digits
  have reversed : (decimalNumeral n.toNat).reverse.length = (decimalNumeral n.toNat).length :=
    List.length_reverse
  have ends : (memory.overwrite buf (decimalNumeral n.toNat).reverse).store
    (place buf (decimalNumeral n.toNat).length) 0 =
      some (memory.overwrite buf ((decimalNumeral n.toNat).reverse ++ [0])) := by
    rw [store_eq (overwrite_eq_some_of_isSome (writable _ (by omega))), ← reversed,
      update_overwrite (by omega)]
  have turns := @utoaReverse_eq memory buf [] (decimalNumeral n.toNat).reverse [0] fuel 11 writable
    (by rw [List.nil_append, List.length_append, List.length_singleton, reversed]; omega) fits
    (by rw [reversed]; omega) Nat.one_pos (by omega)
  rw [List.length_nil, Nat.zero_add, reversed, place_zero, List.nil_append, List.reverse_reverse,
    List.nil_append] at turns
  refine ⟨memory.overwrite buf (decimalNumeral n.toNat ++ [0]), ?_, holds_overwrite (by omega),
    whole,
    fun address outside => overwrite_of_not_within outside, canonical_decimalNumeral _,
      decimal_decimalNumeral _⟩
  simp only [utoa, digits, ends, turns, Option.bind_eq_bind, Option.bind_some, pure]

theorem utoa_decimal_line : ∃ after, utoa 11 1203 0 (ofBytes (List.replicate 11 7)) =
    some (0, after) ∧
    after.Holds 0 (decimalNumeral 1203 ++ [0]) ∧ (decimalNumeral 1203 ++ [0]).length ≤ 11 ∧
    (∀ address, ¬ Within 0 (decimalNumeral 1203 ++ [0]).length address →
      after address = ofBytes (List.replicate 11 7) address) ∧
    Canonical (decimalNumeral 1203) ∧ decimal (decimalNumeral 1203) = 1203 :=
  @utoa_decimal (ofBytes (List.replicate 11 7)) 0 11 1203 (by decide +kernel) (by decide)
    (by decide)

end Goshkik.Klibc
