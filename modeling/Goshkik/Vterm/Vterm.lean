import Mathlib.Algebra.Group.Nat.Defs
import Goshkik.Lib.CountedLoop

/-!
# The framebuffer terminal

This file models `vterm/vterm.c` and the `memmove` it scrolls with.  The framebuffer is the range
of `pitch * height` bytes from its address on; an access outside of it is a fault, which the
operations report as `none`.  Addresses, sizes and cursor positions are computed in 64 bits.  The
bytes of the font are a parameter.
-/

namespace Goshkik

/-- The fields of `struct limine_framebuffer` that the terminal reads. -/
structure LimineFramebuffer where
  address : ℕ
  width : ℕ
  height : ℕ
  pitch : ℕ

def colorWhite : BitVec 32 := 0xFFFFFF#32

def colorBlack : BitVec 32 := 0x000000#32

/-- The globals of the terminal, with memory. -/
structure Vterm where
  framebuffer : ℕ
  pitch : ℕ
  width : ℕ
  height : ℕ
  cursorX : ℕ
  cursorY : ℕ
  termColor : BitVec 32
  fgColor : BitVec 32
  memory : ℕ → BitVec 8

namespace Vterm

/-- The bytes from an address on lie in the framebuffer. -/
def Inside (vterm : Vterm) (address bytes : ℕ) : Prop :=
  vterm.framebuffer ≤ address ∧
    address + bytes ≤ vterm.framebuffer + vterm.pitch * vterm.height

instance (vterm : Vterm) (address bytes : ℕ) : Decidable (vterm.Inside address bytes) :=
  inferInstanceAs (Decidable (_ ∧ _))

/-- Copy one byte. -/
def copyByte (vterm : Vterm) (dest src : ℕ) : Option Vterm :=
  if vterm.Inside src 1 ∧ vterm.Inside dest 1 then
    some { vterm with
      memory := fun address => if address = dest then vterm.memory src else vterm.memory address }
  else none

/-- Write four bytes, the lowest first. -/
def storeWord (vterm : Vterm) (address : ℕ) (word : BitVec 32) : Option Vterm :=
  if vterm.Inside address 4 then
    some { vterm with
      memory := fun other =>
        if address ≤ other ∧ other < address + 4 then
          BitVec.ofNat 8 (word.toNat / 256 ^ (other - address))
        else vterm.memory other }
  else none

/-- The element `y * (pitch / 4) + x` of an array of words. -/
def wordAddress (vterm : Vterm) (array y x : ℕ) : ℕ :=
  (array + 4 * ((y * (vterm.pitch / 4) + x) % 2 ^ 64)) % 2 ^ 64

end Vterm

def memmove (vterm : Vterm) (dest src count : ℕ) : Option Vterm :=
  if src > dest then
    forRange (fun i vterm => vterm.copyByte ((dest + i) % 2 ^ 64) ((src + i) % 2 ^ 64)) count vterm
  else if src < dest then
    forRange (fun i vterm => vterm.copyByte ((dest + (count - i - 1)) % 2 ^ 64)
      ((src + (count - i - 1)) % 2 ^ 64)) count vterm
  else some vterm

def vtermSetFgColor (color : BitVec 32) (vterm : Vterm) : Vterm := { vterm with fgColor := color }

def vtermSetTermColor (color : BitVec 32) (vterm : Vterm) : Vterm :=
  { vterm with termColor := color }

def vtermClear (color : BitVec 32) (vterm : Vterm) : Option Vterm := do
  let vterm ← forRange (fun y => forRange (fun x vterm =>
    vterm.storeWord (vterm.wordAddress vterm.framebuffer y x) color) vterm.width) vterm.height vterm
  return { vterm with cursorX := 0, cursorY := 0 }

def vtermInit (fb : LimineFramebuffer) (vterm : Vterm) : Option Vterm :=
  let vterm := { vterm with
    framebuffer := fb.address
    pitch := fb.pitch
    width := fb.width
    height := fb.height }
  let vterm := vtermSetFgColor colorWhite vterm
  let vterm := vtermSetTermColor colorBlack vterm
  vtermClear vterm.termColor vterm

def vtermScroll (vterm : Vterm) : Option Vterm := do
  let rowSize := vterm.pitch * 16 % 2 ^ 64
  let screenSize := vterm.pitch * vterm.height % 2 ^ 64
  let visibleSize := (screenSize + 2 ^ 64 - rowSize) % 2 ^ 64
  let vterm ← memmove vterm vterm.framebuffer ((vterm.framebuffer + rowSize) % 2 ^ 64) visibleSize
  let lastRow := (vterm.framebuffer + visibleSize) % 2 ^ 64
  let vterm ← forRange (fun y => forRange (fun x vterm =>
    vterm.storeWord (vterm.wordAddress lastRow y x) vterm.termColor) vterm.width) 16 vterm
  return { vterm with cursorY := (vterm.cursorY + 2 ^ 64 - 16) % 2 ^ 64 }

/-- To the start of the next row, which is the statement sequence that `vterm_putc` contains for a
newline and for a full row. -/
def nextRow (vterm : Vterm) : Option Vterm :=
  let vterm := { vterm with cursorX := 0, cursorY := (vterm.cursorY + 16) % 2 ^ 64 }
  if (vterm.cursorY + 16) % 2 ^ 64 > vterm.height then vtermScroll vterm else some vterm

def newline : BitVec 8 := 10#8

/-- The bit of a glyph that is drawn at a place. -/
def glyphBit (defaultFont : ℕ → BitVec 8) (c : BitVec 8) (y x : ℕ) : Bool :=
  (defaultFont (c.toNat * 16 + y) >>> (7 - x)) &&& 1#8 ≠ 0#8

def drawGlyph (defaultFont : ℕ → BitVec 8) (c : BitVec 8) (vterm : Vterm) : Option Vterm :=
  forRange (fun y => forRange (fun x vterm =>
    if glyphBit defaultFont c y x then
      vterm.storeWord (vterm.wordAddress vterm.framebuffer ((vterm.cursorY + y) % 2 ^ 64)
        ((vterm.cursorX + x) % 2 ^ 64)) vterm.fgColor
    else some vterm) 8) 16 vterm

def vtermPutc (defaultFont : ℕ → BitVec 8) (vterm : Vterm) (c : BitVec 8) : Option Vterm :=
  if c = newline then nextRow vterm
  else do
    let vterm ← if (vterm.cursorX + 8) % 2 ^ 64 > vterm.width then nextRow vterm else some vterm
    let vterm ← drawGlyph defaultFont c vterm
    return { vterm with cursorX := (vterm.cursorX + 8) % 2 ^ 64 }

/-- The characters up to the terminating zero. -/
def vtermPrint (defaultFont : ℕ → BitVec 8) (vterm : Vterm) : List (BitVec 8) → Option Vterm
  | [] => some vterm
  | c :: str => (vtermPutc defaultFont vterm c).bind (fun vterm => vtermPrint defaultFont vterm str)

end Goshkik
