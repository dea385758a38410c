import Mathlib.Data.Int.DivMod
import Mathlib.Logic.Function.Basic
import Goshkik.Fs.Bytes

/-!
# Formatted printing

This file models `klibc/printf.c`.  The digit buffer of `kprintnp` holds whatever was on the stack
until it is written, and the indices that are written and read are recorded; an index outside of the
buffer is recorded like any other.  The format pointer of `kprintf` is the list of the bytes from
there to the end of mapped memory, and the positions and the values of `width` are recorded as well.
Variadic arguments take one slot of eight bytes each.
-/

namespace Goshkik.Klibc

def digitsUppercase : List UInt8 :=
  ['0', '1', '2', '3', '4', '5', '6', '7', '8', '9', 'A', 'B', 'C', 'D', 'E', 'F'].map Char.toUInt8

def digitsLowercase : List UInt8 :=
  ['0', '1', '2', '3', '4', '5', '6', '7', '8', '9', 'a', 'b', 'c', 'd', 'e', 'f'].map Char.toUInt8

/-! ## Numbers -/

/-- The buffer of `kprintnp` with the index into it. -/
structure DigitBuffer where
  i : ℕ
  cells : ℕ → UInt8
  written : List ℕ

/-- `buffer[++i] = char`. -/
def DigitBuffer.push (buffer : DigitBuffer) (char : UInt8) : DigitBuffer where
  i := buffer.i + 1
  cells := Function.update buffer.cells (buffer.i + 1) char
  written := buffer.written ++ [buffer.i + 1]

/-- The loop over the digits of a number, of which there are at most 64. -/
def pushDigits (digits : List UInt8) (base : ℕ) : ℕ → ℕ → DigitBuffer → DigitBuffer
  | 0, _, buffer => buffer
  | fuel + 1, num, buffer =>
      if num > 0 then
        pushDigits digits base fuel (num / base) (buffer.push (digits.getD (num % base) 0))
      else buffer

/-- The loop that pads, which is run until the index is the width. -/
def pushPads (pad : UInt8) : ℕ → DigitBuffer → DigitBuffer
  | 0, buffer => buffer
  | count + 1, buffer => pushPads pad count (buffer.push pad)

/-- What a call has sent to `kputc`, and how it has used its buffer. -/
structure Printed where
  output : List UInt8
  written : List ℕ
  read : List ℕ

def kprintnp (stack : ℕ → UInt8) (num base : ℕ) (uppercase : Bool) (width : ℤ) (pad : UInt8) :
    Printed :=
  let digits := if uppercase then digitsUppercase else digitsLowercase
  let empty : DigitBuffer := ⟨0, stack, []⟩
  let buffer := if num = 0 then empty.push '0'.toUInt8 else pushDigits digits base 64 num empty
  let buffer := pushPads pad (width - buffer.i).toNat buffer
  let indices := (List.range buffer.i).reverse
  ⟨indices.map buffer.cells, buffer.written, indices⟩

/-- The number is of 64 bits, and so is its negation. -/
def kprintns (stack : ℕ → UInt8) (num : ℤ) (base : ℕ) : Printed :=
  let magnitude := if num < 0 then Int.bmod (-num) (2 ^ 64) else num
  let printed := kprintnp stack (magnitude % 2 ^ 64).toNat base false 0 ' '.toUInt8
  if num < 0 then { printed with output := '-'.toUInt8 :: printed.output } else printed

/-! ## Reading the format -/

/-- The cases of the `switch` of `kprintf`. -/
inductive Specifier where
  | character
  | string
  | signed
  | unsigned
  | hex
  | upperHex
  | pointer
  | percent
  | other (char : UInt8)
  deriving DecidableEq

def Specifier.ofChar (char : UInt8) : Specifier :=
  if char = 'c'.toUInt8 then .character
  else if char = 's'.toUInt8 then .string
  else if char = 'd'.toUInt8 ∨ char = 'i'.toUInt8 then .signed
  else if char = 'u'.toUInt8 then .unsigned
  else if char = 'x'.toUInt8 then .hex
  else if char = 'X'.toUInt8 then .upperHex
  else if char = 'p'.toUInt8 then .pointer
  else if char = '%'.toUInt8 then .percent
  else .other char

/-- What one round of the loop of `kprintf` finds. -/
inductive Directive where
  | literal (char : UInt8)
  | conversion (width : ℤ) (pad : UInt8) (isLong : Bool) (specifier : Specifier)
  deriving DecidableEq

/-- An `int` of 32 bits. -/
def wrapInt (value : ℤ) : ℤ := Int.bmod value (2 ^ 32)

/-- The position of the format pointer, the positions that were read, `width`, and the values that
were computed for `width`. -/
structure Scanner where
  position : ℕ
  reads : List ℕ
  width : ℤ
  widths : List ℤ

namespace Scanner

/-- `*format`. -/
def read (scanner : Scanner) : Scanner :=
  { scanner with reads := scanner.reads ++ [scanner.position] }

/-- `format++`. -/
def advance (scanner : Scanner) : Scanner := { scanner with position := scanner.position + 1 }

/-- `width = width * 10 + (*format - '0')`. -/
def accumulate (scanner : Scanner) (char : UInt8) : Scanner :=
  let value := scanner.width * 10 + (char.toNat - '0'.toNat)
  { scanner with width := wrapInt value, widths := scanner.widths ++ [value] }

end Scanner

def isDigit (char : UInt8) : Bool := '0'.toUInt8 ≤ char && char ≤ '9'.toUInt8

def scanPad : List UInt8 → Scanner → UInt8 × Scanner × List UInt8
  | [], scanner => (' '.toUInt8, scanner, [])
  | char :: format, scanner =>
      if char = '0'.toUInt8 then ('0'.toUInt8, scanner.read.advance, format)
      else (' '.toUInt8, scanner.read, char :: format)

def scanWidth : List UInt8 → Scanner → Scanner × List UInt8
  | [], scanner => (scanner, [])
  | char :: format, scanner =>
      if isDigit char then scanWidth format (scanner.read.accumulate char).advance
      else (scanner.read, char :: format)

def scanLong : List UInt8 → Scanner → Bool × Scanner × List UInt8
  | [], scanner => (false, scanner, [])
  | char :: format, scanner =>
      if char = 'l'.toUInt8 then (true, scanner.read.advance, format)
      else (false, scanner.read, char :: format)

/-- From the character behind `%` on.  Nothing is found when memory ends. -/
def scanConversion (format : List UInt8) (scanner : Scanner) :
    Scanner × Option (Directive × List UInt8) :=
  let (pad, scanner, format) := scanPad format scanner
  let (scanner, format) := scanWidth format scanner
  let (isLong, scanner, format) := scanLong format scanner
  match format with
  | [] => (scanner, none)
  | char :: format =>
      (scanner.read.advance, some (.conversion scanner.width pad isLong (.ofChar char), format))

/-- One round of the loop, from a character that is not the null. -/
def scan (char : UInt8) (format : List UInt8) (scanner : Scanner) :
    Scanner × Option (Directive × List UInt8) :=
  if char = '%'.toUInt8 then scanConversion format { scanner.read.advance with width := 0 }
  else (scanner.read.advance, some (.literal char, format))

/-! ## Printing -/

/-- The slots of the arguments, and the strings that pointers lead to. -/
structure VaList where
  slots : ℕ → UInt64
  strings : UInt64 → CString

namespace VaList

variable (args : VaList)

/-- `__builtin_va_arg(args, uint64_t)`. -/
def long (index : ℕ) : ℕ := (args.slots index).toNat

/-- `__builtin_va_arg(args, unsigned int)`. -/
def unsignedInt (index : ℕ) : ℕ := args.long index % 2 ^ 32

/-- `__builtin_va_arg(args, int64_t)`, or an `int`. -/
def signed (isLong : Bool) (index : ℕ) : ℤ :=
  if isLong then Int.bmod (args.long index) (2 ^ 64) else wrapInt (args.long index)

/-- `__builtin_va_arg(args, uint64_t)`, or an `unsigned int`. -/
def unsigned (isLong : Bool) (index : ℕ) : ℕ :=
  if isLong then args.long index else args.unsignedInt index

/-- `__builtin_va_arg(args, const char *)`, where the null pointer stands for a text. -/
def string (index : ℕ) : List UInt8 :=
  if args.slots index = 0 then ['(', 'n', 'u', 'l', 'l', ')'].map Char.toUInt8
  else (args.strings (args.slots index)).1

/-- A call without arguments. -/
def none : VaList where
  slots _ := 0
  strings _ := ⟨[], List.not_mem_nil⟩

end VaList

/-- What `kprintf` has printed: the arguments taken, the count, the characters sent to `kputc`, and
the indices used in the digit buffers. -/
structure Printing where
  taken : ℕ
  count : ℤ
  output : List UInt8
  accesses : List ℕ

namespace Printing

variable (printing : Printing)

def take : Printing := { printing with taken := printing.taken + 1 }

def kputc (char : UInt8) : Printing := { printing with output := printing.output ++ [char] }

def kprints (text : List UInt8) : Printing := { printing with output := printing.output ++ text }

def number (printed : Printed) : Printing :=
  { printing with
    output := printing.output ++ printed.output
    accesses := printing.accesses ++ printed.written ++ printed.read }

/-- `count += more`. -/
def counted (more : ℕ) : Printing := { printing with count := wrapInt (printing.count + more) }

end Printing

/-- The body of the loop, once the format has been read. -/
def printDirective (stack : ℕ → ℕ → UInt8) (args : VaList) (directive : Directive)
    (printing : Printing) :
    Printing :=
  let index := printing.taken
  match directive with
  | .literal char => (printing.kputc char).counted 1
  | .conversion width pad isLong specifier =>
      match specifier with
      | .character => (printing.take.kputc (args.slots index).toUInt8).counted 1
      | .string => (printing.take.kprints (args.string index)).counted (args.string index).length
      | .signed => (printing.take.number
          (kprintns (stack index) (args.signed isLong index) 10)).counted 1
      | .unsigned =>
          (printing.take.number
            (kprintnp (stack index) (args.unsigned isLong index) 10 false width pad)).counted 1
      | .hex =>
          (printing.take.number
            (kprintnp (stack index) (args.unsigned isLong index) 16 false width pad)).counted 1
      | .upperHex =>
          (printing.take.number
            (kprintnp (stack index) (args.unsigned isLong index) 16 true width pad)).counted 1
      | .pointer =>
          ((printing.take.kprints (['0', 'x'].map Char.toUInt8)).number
            (kprintnp (stack index) (args.long index) 16 false 16 '0'.toUInt8)).counted 1
      | .percent => (printing.kputc '%'.toUInt8).counted 1
      | .other char => ((printing.kputc '%'.toUInt8).kputc char).counted 2

/-- The state of the loop of `kprintf`, and whether it has ended at a null. -/
structure KprintfState where
  scanner : Scanner
  printing : Printing
  ended : Bool

/-- What `kprintf` returns, if it does. -/
def KprintfState.result (state : KprintfState) : Option ℤ :=
  if state.ended then some state.printing.count else none

/-- The loop of `kprintf`.  A round takes at least one byte of memory. -/
def kprintfLoop (stack : ℕ → ℕ → UInt8) (args : VaList) :
    ℕ → List UInt8 → Scanner → Printing → KprintfState
  | 0, _, scanner, printing => ⟨scanner, printing, false⟩
  | _ + 1, [], scanner, printing => ⟨scanner, printing, false⟩
  | fuel + 1, char :: format, scanner, printing =>
      if char = 0 then ⟨scanner.read, printing, true⟩
      else
        match scan char format scanner.read with
        | (scanner, none) => ⟨scanner, printing, false⟩
        | (scanner, some (directive, format)) =>
            kprintfLoop stack args fuel format scanner
              (printDirective stack args directive printing)

def kprintf (stack : ℕ → ℕ → UInt8) (args : VaList) (memory : List UInt8) : KprintfState :=
  kprintfLoop stack args (memory.length + 1) memory ⟨0, [], 0, []⟩ ⟨0, 0, [], []⟩

end Goshkik.Klibc
