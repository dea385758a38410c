import Goshkik.Klibc.PrintfBounds
import Goshkik.Klibc.PrintfScan

/-!
# The count of `kprintf`

A text counts with its length and a number counts as one character, however many are printed for it.
-/

namespace Goshkik.Klibc

/-- The number of arguments that a directive takes. -/
def Directive.takes : Directive → ℕ
  | .literal _ => 0
  | .conversion _ _ _ .percent => 0
  | .conversion _ _ _ (.other _) => 0
  | _ => 1

/-- What a directive adds to the count, where its argument is the one of the index. -/
def Directive.amount (args : VaList) (index : ℕ) : Directive → ℕ
  | .conversion _ _ _ .string => (args.string index).length
  | .conversion _ _ _ (.other _) => 2
  | _ => 1

/-- A number takes a single character. -/
def Directive.Single (args : VaList) (index : ℕ) : Directive → Prop
  | .conversion _ _ isLong .signed => 0 ≤ args.signed isLong index ∧ args.signed isLong index < 10
  | .conversion width _ isLong .unsigned => width ≤ 1 ∧ args.unsigned isLong index < 10
  | .conversion width _ isLong .hex => width ≤ 1 ∧ args.unsigned isLong index < 16
  | .conversion width _ isLong .upperHex => width ≤ 1 ∧ args.unsigned isLong index < 16
  | .conversion _ _ _ .pointer => False
  | _ => True

/-- Each number of the directives takes a single character. -/
def AllSingle (args : VaList) : ℕ → List Directive → Prop
  | _, [] => True
  | index, directive :: directives =>
      directive.Single args index ∧ AllSingle args (index + directive.takes) directives

/-- What the directives add to the count altogether. -/
def totalAmount (args : VaList) : ℕ → List Directive → ℕ
  | _, [] => 0
  | index, directive :: directives =>
      directive.amount args index + totalAmount args (index + directive.takes) directives

/-! ## Lengths -/

theorem numeral_length_pos (digits : List UInt8) (base num : ℕ) :
    0 < (numeral digits base num).length :=
  List.length_pos_iff.mpr (numeral_ne_nil digits base num)

theorem numeral_length_le_one_iff {base : ℕ} (valid : 1 < base) (digits : List UInt8) (num : ℕ) :
    (numeral digits base num).length ≤ 1 ↔ num < base := by
  unfold numeral reversedDigits
  split
  · rename_i zero
    simp [zero]
    omega
  · rw [List.length_reverse, List.length_map, Nat.digits_length_le_iff valid, pow_one]

theorem kprintnp_length {base num : ℕ} (valid : 1 < base) (fits : num < 2 ^ 64) (stack : ℕ → UInt8)
    (uppercase : Bool) (width : ℤ) (pad : UInt8) :
    ((kprintnp stack num base uppercase width pad).output.length : ℤ) =
      max width (numeral (digitsOf uppercase) base num).length := by
  have positive := List.length_pos_iff.mpr
    (padded_ne_nil width pad (numeral_ne_nil (digitsOf uppercase) base num))
  rw [kprintnp_eq valid fits, ← padded_length width pad]
  simp only [List.length_append, List.length_tail, List.length_singleton]
  omega

/-- How far a number is counted. -/
theorem kprintnp_length_iff {base num : ℕ} (valid : 1 < base) (fits : num < 2 ^ 64)
    (stack : ℕ → UInt8)
    (uppercase : Bool) (width : ℤ) (pad : UInt8) :
    1 ≤ (kprintnp stack num base uppercase width pad).output.length ∧
      ((kprintnp stack num base uppercase width pad).output.length = 1 ↔ width ≤ 1 ∧
        num < base) := by
  have length := kprintnp_length valid fits stack uppercase width pad
  have positive := numeral_length_pos (digitsOf uppercase) base num
  rw [← numeral_length_le_one_iff valid (digitsOf uppercase) num]
  omega

theorem VaList.signed_bounds (args : VaList) (isLong : Bool) (index : ℕ) :
    -2 ^ 63 ≤ args.signed isLong index ∧ args.signed isLong index < 2 ^ 63 := by
  unfold signed wrapInt
  split
  · exact ⟨by have := Int.le_bmod (x := args.long index) (m := 2 ^ 64) (by decide); omega,
      by have := Int.bmod_lt (x := args.long index) (m := 2 ^ 64) (by decide); omega⟩
  · exact ⟨by have := Int.le_bmod (x := args.long index) (m := 2 ^ 32) (by decide); omega,
      by have := Int.bmod_lt (x := args.long index) (m := 2 ^ 32) (by decide); omega⟩

theorem kprintns_length_iff (stack : ℕ → UInt8) {num : ℤ} (lower : -2 ^ 63 ≤ num)
    (upper : num < 2 ^ 63) :
    1 ≤ (kprintns stack num 10).output.length ∧
      ((kprintns stack num 10).output.length = 1 ↔ 0 ≤ num ∧ num < 10) := by
  obtain ⟨positive, single⟩ :=
    kprintnp_length_iff (show 1 < 10 by decide) (show num.natAbs < 2 ^ 64 by omega)
    stack false 0 ' '.toUInt8
  rw [kprintns_output stack lower upper, List.length_append]
  split
  · simp only [List.length_singleton]
    omega
  · simp only [List.length_nil]
    omega

/-! ## Directives -/

/-- From one state of the printing to a later one, the count grows by an amount that is at most the
number of characters, and is that number under a condition. -/
structure Printing.Counts (before after : Printing) (takes amount : ℕ) (exact : Prop) : Prop where
  taken : after.taken = before.taken + takes
  count : after.count = wrapInt (before.count + amount)
  output : ∃ more, after.output.length = before.output.length + more ∧ amount ≤ more ∧
    (more = amount ↔ exact)

theorem wrapInt_wrapInt_add (value : ℤ) (more : ℕ) :
    wrapInt (wrapInt value + more) = wrapInt (value + more) := by
  simp [wrapInt]

theorem Printing.Counts.trans {first second third : Printing}
    {takes amount takesLater amountLater : ℕ}
    {exact exactLater : Prop} (left : Counts first second takes amount exact)
    (right : Counts second third takesLater amountLater exactLater) :
    Counts first third (takes + takesLater) (amount + amountLater) (exact ∧ exactLater) where
  taken := by rw [right.taken, left.taken, Nat.add_assoc]
  count := by rw [right.count, left.count, wrapInt_wrapInt_add, Nat.cast_add, add_assoc]
  output := by
    obtain ⟨more, length, least, counted⟩ := left.output
    obtain ⟨moreLater, lengthLater, leastLater, countedLater⟩ := right.output
    refine ⟨more + moreLater, by omega, by omega, ?_⟩
    rw [← counted, ← countedLater]
    omega

/-- A text that is printed and counted. -/
theorem counts_text (printing : Printing) (takes : ℕ) (text : List UInt8) :
    printing.Counts
      { printing with
        taken := printing.taken + takes
        count := wrapInt (printing.count + text.length)
        output := printing.output ++ text } takes text.length True where
  taken := rfl
  count := rfl
  output := ⟨text.length, List.length_append, le_rfl, by simp⟩

/-- A number that is printed and counts as one character. -/
theorem counts_number {printed : Printed} {exact : Prop}
    (length : 1 ≤ printed.output.length ∧ (printed.output.length = 1 ↔ exact))
    (printing : Printing) :
    printing.Counts ((printing.take.number printed).counted 1) 1 1 exact where
  taken := rfl
  count := rfl
  output := ⟨printed.output.length, List.length_append, length.1, length.2⟩

theorem printDirective_counts (stack : ℕ → ℕ → UInt8) (args : VaList) (directive : Directive)
    (printing : Printing) :
    printing.Counts (printDirective stack args directive printing) directive.takes
      (directive.amount args printing.taken) (directive.Single args printing.taken) := by
  cases directive with
  | literal char => exact counts_text printing 0 [char]
  | conversion width pad isLong specifier =>
      have unsigned := fun base uppercase (valid : 1 < base) =>
        kprintnp_length_iff valid (args.unsigned_lt isLong printing.taken) (stack printing.taken)
          uppercase width pad
      cases specifier with
      | character => exact counts_text printing 1 [(args.slots printing.taken).toUInt8]
      | string => exact counts_text printing 1 (args.string printing.taken)
      | signed =>
          obtain ⟨lower, upper⟩ := args.signed_bounds isLong printing.taken
          exact counts_number (kprintns_length_iff (stack printing.taken) lower upper) printing
      | unsigned => exact counts_number (unsigned 10 false (by decide)) printing
      | hex => exact counts_number (unsigned 16 false (by decide)) printing
      | upperHex => exact counts_number (unsigned 16 true (by decide)) printing
      | pointer =>
          have fits := (args.slots printing.taken).toNat_lt
          have positive := (kprintnp_length_iff (show 1 < 16 by decide) fits (stack printing.taken)
            false 16
            '0'.toUInt8).1
          refine ⟨rfl, rfl, (kprintnp (stack printing.taken) (args.long printing.taken) 16 false 16
            '0'.toUInt8).output.length + 2, ?_, Nat.le_add_left_of_le (Nat.le_succ 1), ?_⟩
          · simp [printDirective, Printing.take, Printing.kprints, Printing.number,
              Printing.counted]
          · exact iff_of_false (Nat.ne_of_gt (Nat.lt_add_left _ (Nat.lt_succ_self 1))) not_false
      | percent => exact counts_text printing 0 ['%'.toUInt8]
      | other char =>
          simpa [printDirective, Printing.kputc, Printing.counted, Directive.takes,
            Directive.amount, Directive.Single] using
            counts_text printing 0 ['%'.toUInt8, char]

/-- The directives together. -/
theorem foldl_counts (stack : ℕ → ℕ → UInt8) (args : VaList) (directives : List Directive)
    {printing : Printing} (wrapped : wrapInt printing.count = printing.count) :
    ∃ takes, printing.Counts
      (directives.foldl (fun printing directive => printDirective stack args directive printing)
        printing) takes
      (totalAmount args printing.taken directives) (AllSingle args printing.taken directives) := by
  induction directives generalizing printing with
  | nil => exact ⟨0, rfl, by simp [totalAmount, wrapped], 0, rfl,
      le_rfl, by simp [totalAmount, AllSingle]⟩
  | cons directive directives hypothesis =>
      have first := printDirective_counts stack args directive printing
      have still : wrapInt (printDirective stack args directive printing).count =
          (printDirective stack args directive printing).count := by
        rw [first.count]
        exact Int.bmod_bmod
      obtain ⟨takes, later⟩ := hypothesis still
      rw [first.taken] at later
      exact ⟨directive.takes + takes, first.trans later⟩

/-! ## The result -/

/-- An amount that fits is not changed, and one that does not is no length. -/
theorem wrapInt_eq_iff {amount length : ℕ} (least : amount ≤ length) :
    wrapInt amount = length ↔ length = amount ∧ amount < 2 ^ 31 := by
  have upper : wrapInt amount < 2 ^ 31 := by
    have bound := Int.bmod_lt (x := amount) (m := 2 ^ 32) (by decide)
    unfold wrapInt
    omega
  constructor
  · intro same
    have small : amount < 2 ^ 31 := by omega
    rw [wrapInt_of_isInt ⟨by omega, by exact_mod_cast small⟩] at same
    exact ⟨by exact_mod_cast same.symm, small⟩
  · rintro ⟨rfl, small⟩
    exact wrapInt_of_isInt ⟨by omega, by exact_mod_cast small⟩

/-- The directives of a format, up to the null. -/
def directives (memory : List UInt8) : List Directive :=
  (pieces (memory.length + 1) memory).filterMap Piece.directive

/-- A format whose conversions are finished makes `kprintf` return.  What it returns is the number
of characters if and only if each number takes a single one and there are fewer than `2 ^ 31`. -/
theorem kprintf_result_iff (stack : ℕ → ℕ → UInt8) (args : VaList) (text : CString)
    (behind : List UInt8) :
    (Complete text.1 → (kprintf stack args (text.1 ++ 0 :: behind)).result.isSome = true) ∧
      ∀ returned, (kprintf stack args (text.1 ++ 0 :: behind)).result = some returned →
        (returned = (kprintf stack args (text.1 ++ 0 :: behind)).printing.output.length ↔
          AllSingle args 0 (directives (text.1 ++ 0 :: behind)) ∧
            totalAmount args 0 (directives (text.1 ++ 0 :: behind)) < 2 ^ 31) := by
  refine ⟨fun complete => ?_, fun returned result => ?_⟩
  · have ended := ((format_scanned_iff stack args text behind).mpr complete).1
    simp [KprintfState.result, ended]
  · have count : returned = (kprintf stack args (text.1 ++ 0 :: behind)).printing.count := by
      unfold KprintfState.result at result
      split at result
      · exact (Option.some.inj result).symm
      · exact nomatch result
    obtain ⟨takes, -, counted, more, length, least, exact⟩ := @foldl_counts stack args
      (directives (text.1 ++ 0 :: behind)) ⟨0, 0, [], []⟩ rfl
    rw [count, kprintf, kprintfLoop_printing, ← directives, counted, length, ← exact,
      List.length_nil, zero_add, zero_add]
    exact wrapInt_eq_iff least

/-- The two digits of 42 count as one character. -/
theorem number_counts_once :
    (kprintf (fun _ _ => 0) ⟨fun _ => 42, fun _ => ⟨[], List.not_mem_nil⟩⟩
        (['%', 'u'].map Char.toUInt8 ++ [0])).result = some 1 ∧
      (kprintf (fun _ _ => 0) ⟨fun _ => 42, fun _ => ⟨[], List.not_mem_nil⟩⟩
        (['%', 'u'].map Char.toUInt8 ++ [0])).printing.output.length = 2 := by
  decide +kernel

end Goshkik.Klibc
