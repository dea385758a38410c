import Mathlib.Tactic.Ring
import Goshkik.Vterm.Vterm

/-!
# Painting and scrolling

What the loops of the terminal do to the words of the framebuffer: a loop that stores one colour
paints a set of words, and `vterm_scroll` moves the pixels up by one row of text.
-/

namespace Goshkik

namespace Vterm

/-- The word of the framebuffer with a number. -/
def wordAt (vterm : Vterm) (index : ℕ) : BitVec 32 :=
  BitVec.ofNat 32 ((vterm.memory (vterm.framebuffer + 4 * index)).toNat +
    256 * (vterm.memory (vterm.framebuffer + 4 * index + 1)).toNat +
    256 ^ 2 * (vterm.memory (vterm.framebuffer + 4 * index + 2)).toNat +
    256 ^ 3 * (vterm.memory (vterm.framebuffer + 4 * index + 3)).toNat)

def pixel (vterm : Vterm) (x y : ℕ) : BitVec 32 := vterm.wordAt (y * (vterm.pitch / 4) + x)

/-- A framebuffer with room for a character, with whole words in a line of pixels. -/
structure Fits (vterm : Vterm) : Prop where
  size : vterm.pitch * vterm.height < 2 ^ 64
  width : 8 ≤ vterm.width
  height : 16 ≤ vterm.height
  aligned : 4 ∣ vterm.pitch
  wide : 4 * vterm.width ≤ vterm.pitch
  bounded : vterm.framebuffer + vterm.pitch * vterm.height ≤ 2 ^ 64

/-- Only memory has changed: the words of a set have got a colour. -/
structure Painted (before after : Vterm) (color : BitVec 32) (drawn : ℕ → Prop) : Prop where
  rest : after = { before with memory := after.memory }
  on : ∀ index, drawn index → after.wordAt index = color
  off : ∀ index, ¬ drawn index → after.wordAt index = before.wordAt index

variable {vterm start : Vterm} {color : BitVec 32}

theorem Fits.area (fits : vterm.Fits) :
    vterm.pitch * vterm.height = 4 * (vterm.height * (vterm.pitch / 4)) := by
  have whole := Nat.div_mul_cancel fits.aligned
  calc vterm.pitch * vterm.height = vterm.pitch / 4 * 4 * vterm.height := by rw [whole]
    _ = 4 * (vterm.height * (vterm.pitch / 4)) := by ring

theorem Fits.width_le (fits : vterm.Fits) : vterm.width ≤ vterm.pitch / 4 := by
  have wide := fits.wide
  omega

theorem Fits.congr {before after : Vterm} {memory : ℕ → BitVec 8} (fits : before.Fits)
    (rest : after = { before with memory := memory }) : after.Fits := by
  subst rest
  exact ⟨fits.size, fits.width, fits.height, fits.aligned, fits.wide, fits.bounded⟩

/-- Positions in the framebuffer are far from wrapping around. -/
theorem Fits.cursor_lt (fits : vterm.Fits) :
    32 * vterm.height < 2 ^ 64 ∧ 64 * vterm.width < 2 ^ 64 := by
  have size := fits.size
  have wide := fits.wide
  have width := fits.width
  have tall := Nat.mul_le_mul_right vterm.height (show 32 ≤ vterm.pitch by omega)
  have broad := Nat.mul_le_mul_left vterm.pitch fits.height
  omega

/-- The words of a line of pixels lie before the words of the next one. -/
theorem wordIndex_lt {y x stride height : ℕ} (below : y < height) (inLine : x < stride) :
    y * stride + x < height * stride := by
  have next := Nat.mul_le_mul_right stride (Nat.succ_le_of_lt below)
  rw [Nat.succ_mul] at next
  omega

/-- The words of different pixels are different. -/
theorem wordIndex_inj {y x otherY otherX stride : ℕ} (inLine : x < stride)
    (otherInLine : otherX < stride)
    (same : y * stride + x = otherY * stride + otherX) : y = otherY ∧ x = otherX := by
  have lines := congrArg (· / stride) same
  have columns := congrArg (· % stride) same
  have positive : 0 < stride := by omega
  simp only [Nat.mul_comm _ stride, Nat.mul_add_div positive, Nat.div_eq_of_lt inLine,
    Nat.div_eq_of_lt otherInLine, Nat.mul_add_mod, Nat.mod_eq_of_lt inLine,
    Nat.mod_eq_of_lt otherInLine, Nat.add_zero] at lines columns
  exact ⟨lines, columns⟩

/-! ## Stores -/

/-- The four bytes of a word make it up. -/
theorem word_of_bytes (word : BitVec 32) :
    BitVec.ofNat 32 ((BitVec.ofNat 8 (word.toNat / 256 ^ 0)).toNat +
      256 * (BitVec.ofNat 8 (word.toNat / 256 ^ 1)).toNat +
      256 ^ 2 * (BitVec.ofNat 8 (word.toNat / 256 ^ 2)).toNat +
      256 ^ 3 * (BitVec.ofNat 8 (word.toNat / 256 ^ 3)).toNat) = word := by
  apply BitVec.eq_of_toNat_eq
  have small := word.isLt
  rw [BitVec.toNat_ofNat, BitVec.toNat_ofNat, BitVec.toNat_ofNat, BitVec.toNat_ofNat,
    BitVec.toNat_ofNat]
  omega

/-- A store changes one word. -/
theorem storeWord_spec (fits : vterm.Fits) {index : ℕ}
    (inside : index < vterm.height * (vterm.pitch / 4)) (color : BitVec 32) :
    ∃ after, vterm.storeWord (vterm.framebuffer + 4 * index) color = some after ∧
      Painted vterm after color (· = index) := by
  have area := fits.area
  have isInside : vterm.Inside (vterm.framebuffer + 4 * index) 4 := by
    unfold Inside
    omega
  refine ⟨_, if_pos isInside, rfl, ?_, ?_⟩
  · rintro _ rfl
    refine Eq.trans ?_ (word_of_bytes color)
    unfold wordAt
    dsimp only
    rw [if_pos (by omega), if_pos (by omega), if_pos (by omega), if_pos (by omega), Nat.sub_self,
      Nat.add_sub_cancel_left, Nat.add_sub_cancel_left, Nat.add_sub_cancel_left]
  · intro other different
    simp only [wordAt]
    rw [if_neg (by omega), if_neg (by omega), if_neg (by omega), if_neg (by omega)]

theorem wordAddress_eq {array y x : ℕ}
    (small : array + 4 * (y * (vterm.pitch / 4) + x) < 2 ^ 64) :
    vterm.wordAddress array y x = array + 4 * (y * (vterm.pitch / 4) + x) := by
  unfold wordAddress
  omega

/-- A loop whose rounds paint with one colour. -/
theorem forRange_painted {body : ℕ → Vterm → Option Vterm} {drawn : ℕ → ℕ → Prop} {count : ℕ}
    (rounds : ∀ round < count, ∀ vterm, vterm = { start with memory := vterm.memory } →
      ∃ after, body round vterm = some after ∧ Painted vterm after color (drawn round)) :
    ∃ last, forRange body count start = some last ∧
      Painted start last color (fun index => ∃ round < count, drawn round index) := by
  apply @forRange_spec _ body start
    (fun done vterm => Painted start vterm color (fun index => ∃ round < done, drawn round index))
  · exact ⟨rfl, by simp, fun _ _ => rfl⟩
  · intro round below vterm painted
    rcases rounds round below vterm painted.rest with ⟨after, ran, drew⟩
    refine ⟨after, ran, ?_, ?_, ?_⟩
    · rw [drew.rest, painted.rest]
    · rintro index ⟨earlier, before, isDrawn⟩
      by_cases now : drawn round index
      · exact drew.on index now
      · rw [drew.off index now]
        refine painted.on index ⟨earlier, ?_, isDrawn⟩
        have different : earlier ≠ round := by
          rintro rfl
          exact now isDrawn
        omega
    · intro index notDrawn
      rw [drew.off index (fun now => notDrawn ⟨round, Nat.lt_succ_self round, now⟩)]
      exact painted.off index (fun ⟨earlier, before, isDrawn⟩ =>
        notDrawn ⟨earlier, Nat.lt_succ_of_lt before, isDrawn⟩)

/-- The words that a rectangle of pixels is drawn with, of which only the dots are stored. -/
theorem rectangle_painted (fits : start.Fits) {left top columns rows : ℕ} {dot : ℕ → ℕ → Bool}
    {body : ℕ → ℕ → Vterm → Option Vterm} (wide : left + columns ≤ start.width)
    (high : top + rows ≤ start.height)
    (draws : ∀ y < rows, ∀ x < columns, ∀ vterm, vterm = { start with memory := vterm.memory } →
      body y x vterm =
        if dot y x then
          vterm.storeWord (vterm.framebuffer + 4 * ((top + y) * (vterm.pitch / 4) + (left + x)))
            color
        else some vterm) :
    ∃ after, forRange (fun y => forRange (body y) columns) rows start = some after ∧
      after = { start with memory := after.memory } ∧
      ∀ x < start.width, ∀ y, after.pixel x y =
        if left ≤ x ∧ x < left + columns ∧ top ≤ y ∧ y < top + rows ∧ dot (y - top) (x - left) then
          color
        else start.pixel x y := by
  have stride := fits.width_le
  have painted : ∃ after, forRange (fun y => forRange (body y) columns) rows start = some after ∧
      Painted start after color (fun index => ∃ y < rows, ∃ x < columns,
        dot y x ∧ index = (top + y) * (start.pitch / 4) + (left + x)) := by
    apply forRange_painted
    intro y below lineStart lineRest
    have lineFits : lineStart.Fits := fits.congr lineRest
    have pitch : lineStart.pitch = start.pitch := by rw [lineRest]
    have height : lineStart.height = start.height := by rw [lineRest]
    apply forRange_painted
    intro x inLine vterm rest
    have sameRest : vterm = { start with memory := vterm.memory } := by
      rw [rest, lineRest]
    have samePitch : vterm.pitch = start.pitch := by rw [sameRest]
    have sameHeight : vterm.height = start.height := by rw [sameRest]
    rw [draws y below x inLine vterm sameRest]
    by_cases isDot : dot y x
    · rw [if_pos isDot]
      have inside : (top + y) * (vterm.pitch / 4) + (left + x) <
          vterm.height * (vterm.pitch / 4) := by
        rw [samePitch, sameHeight]
        exact wordIndex_lt (by omega) (by omega)
      rcases storeWord_spec (fits.congr sameRest) inside color with ⟨after, stored, drew⟩
      rw [samePitch] at drew
      refine ⟨after, stored, drew.rest, ?_, ?_⟩
      · rintro index ⟨-, same⟩
        exact drew.on index same
      · intro index notDrawn
        exact drew.off index (fun same => notDrawn ⟨isDot, same⟩)
    · rw [if_neg isDot]
      exact ⟨vterm, rfl, rfl, fun index drawn => absurd drawn.1 isDot, fun _ _ => rfl⟩
  rcases painted with ⟨after, ran, drew⟩
  refine ⟨after, ran, drew.rest, ?_⟩
  intro x inLine y
  have pitch : after.pitch = start.pitch := by rw [drew.rest]
  unfold pixel
  rw [pitch]
  split
  case isTrue within =>
    rcases within with ⟨fromLeft, toRight, fromTop, toBottom, isDot⟩
    refine drew.on _ ⟨y - top, by omega, x - left, by omega, isDot, ?_⟩
    rw [Nat.add_sub_cancel' fromTop, Nat.add_sub_cancel' fromLeft]
  case isFalse outside =>
    apply drew.off
    rintro ⟨dotY, below, dotX, inRectangle, isDot, same⟩
    rcases wordIndex_inj (by omega) (by omega) same with ⟨rfl, rfl⟩
    apply outside
    rw [Nat.add_sub_cancel_left, Nat.add_sub_cancel_left]
    exact ⟨by omega, by omega, by omega, by omega, isDot⟩

/-- Whole lines of pixels are filled. -/
theorem lines_painted (fits : start.Fits) {top rows : ℕ} {body : ℕ → ℕ → Vterm → Option Vterm}
    (high : top + rows ≤ start.height)
    (stores : ∀ y < rows, ∀ x < start.width, ∀ vterm, vterm =
      { start with memory := vterm.memory } →
      body y x vterm =
        vterm.storeWord (vterm.framebuffer + 4 * ((top + y) * (vterm.pitch / 4) + x)) color) :
    ∃ after, forRange (fun y => forRange (body y) start.width) rows start = some after ∧
      after = { start with memory := after.memory } ∧
      ∀ x < start.width, ∀ y, after.pixel x y =
        if top ≤ y ∧ y < top + rows then color else start.pixel x y := by
  have painted := @rectangle_painted start color fits 0 top start.width rows (fun _ _ => true) body
    (by omega) high
  rcases painted (fun y below x inLine vterm rest => by
      rw [stores y below x inLine vterm rest, if_pos rfl, Nat.zero_add x]) with
        ⟨after, ran, rest, pixels⟩
  refine ⟨after, ran, rest, ?_⟩
  intro x inLine y
  rw [pixels x inLine y]
  congr 1
  apply propext
  exact ⟨fun ⟨_, _, fromTop, toBottom, _⟩ => ⟨fromTop, toBottom⟩,
    fun ⟨fromTop, toBottom⟩ => ⟨by omega, by omega, fromTop, toBottom, rfl⟩⟩

theorem Fits.address_lt (fits : vterm.Fits) {y x : ℕ} (below : y < vterm.height)
    (inLine : x < vterm.width) :
    vterm.framebuffer + 4 * (y * (vterm.pitch / 4) + x) < 2 ^ 64 := by
  have area := fits.area
  have bounded := fits.bounded
  have inside := wordIndex_lt below (Nat.lt_of_lt_of_le inLine fits.width_le)
  omega

end Vterm

open Vterm

variable {vterm : Vterm}

theorem vtermClear_spec (fits : vterm.Fits) (color : BitVec 32) :
    ∃ after, vtermClear color vterm = some after ∧
      after = { vterm with cursorX := 0, cursorY := 0, memory := after.memory } ∧
      ∀ x < vterm.width, ∀ y < vterm.height, after.pixel x y = color := by
  have stores : ∀ y < vterm.height, ∀ x < vterm.width, ∀ middle : Vterm,
      middle = { vterm with memory := middle.memory } →
      middle.storeWord (middle.wordAddress middle.framebuffer y x) color =
        middle.storeWord (middle.framebuffer + 4 * ((0 + y) * (middle.pitch / 4) + x)) color := by
    intro y below x inLine middle rest
    have small : middle.framebuffer + 4 * (y * (middle.pitch / 4) + x) < 2 ^ 64 := by
      rw [rest]
      exact fits.address_lt below inLine
    rw [wordAddress_eq small, Nat.zero_add]
  rcases @lines_painted vterm color fits 0 vterm.height
    (fun y x middle => middle.storeWord (middle.wordAddress middle.framebuffer y x) color)
      (by omega)
    stores with ⟨middle, ran, rest, pixels⟩
  refine ⟨{ middle with cursorX := 0, cursorY := 0 }, ?_, ?_, ?_⟩
  · rw [vtermClear, ran]
    rfl
  · rw [rest]
  · intro x inLine y below
    exact (pixels x inLine y).trans (if_pos (by omega))

/-! ## Scrolling -/

/-- The first bytes of the framebuffer are those that were further on by a distance. -/
structure Moved (before after : Vterm) (shift count : ℕ) : Prop where
  rest : after = { before with memory := after.memory }
  bytes : ∀ address, after.memory address =
    if before.framebuffer ≤ address ∧ address < before.framebuffer + count then
      before.memory (address + shift)
    else before.memory address

theorem moved_zero (vterm : Vterm) (shift : ℕ) : Moved vterm vterm shift 0 := by
  refine ⟨rfl, ?_⟩
  intro address
  rw [if_neg (by omega)]

/-- One more byte is copied, from where nothing has been written yet. -/
theorem Moved.copyByte {middle : Vterm} {shift count i : ℕ} (moved : Moved vterm middle shift i)
    (positive : 0 < shift) (below : i < count) (room : shift + count ≤ vterm.pitch * vterm.height) :
    ∃ after, middle.copyByte (vterm.framebuffer + i) (vterm.framebuffer + shift + i) = some after ∧
      Moved vterm after shift (i + 1) := by
  have inside : middle.Inside (vterm.framebuffer + shift + i) 1 ∧
      middle.Inside (vterm.framebuffer + i) 1 := by
    rw [moved.rest]
    unfold Inside
    dsimp only
    omega
  refine ⟨_, if_pos inside, ?_, ?_⟩
  · rw [moved.rest]
  · intro address
    dsimp only
    by_cases here : address = vterm.framebuffer + i
    · rw [if_pos here, moved.bytes, if_neg (by omega), if_pos (by omega), here]
      congr 1
      omega
    · rw [if_neg here, moved.bytes]
      congr 1
      apply propext
      omega

/-- Copying to a lower address keeps what was there, also when the ranges overlap. -/
theorem memmove_spec (fits : vterm.Fits) {shift count : ℕ} (positive : 0 < shift)
    (room : shift + count ≤ vterm.pitch * vterm.height) :
    ∃ after, memmove vterm vterm.framebuffer ((vterm.framebuffer + shift) % 2 ^ 64) count =
      some after ∧
      Moved vterm after shift count := by
  have bounded := fits.bounded
  rcases Nat.eq_zero_or_pos count with rfl | anything
  · refine ⟨vterm, ?_, moved_zero vterm shift⟩
    unfold memmove
    split
    · rfl
    · split <;> rfl
  · have source : (vterm.framebuffer + shift) % 2 ^ 64 = vterm.framebuffer + shift := by omega
    rw [source, memmove, if_pos (by omega)]
    apply forRange_spec (moved_zero vterm shift)
    intro i below middle moved
    have dest : (vterm.framebuffer + i) % 2 ^ 64 = vterm.framebuffer + i := by omega
    have src : (vterm.framebuffer + shift + i) % 2 ^ 64 = vterm.framebuffer + shift + i := by omega
    rw [dest, src]
    exact moved.copyByte positive below room

theorem Moved.wordAt {after : Vterm} {words count : ℕ}
    (moved : Moved vterm after (4 * words) (4 * count))
    (index : ℕ) :
    after.wordAt index = if index < count then vterm.wordAt (index + words)
      else vterm.wordAt index := by
  have base : after.framebuffer = vterm.framebuffer := by rw [moved.rest]
  unfold Vterm.wordAt
  rw [base, moved.bytes, moved.bytes, moved.bytes, moved.bytes]
  split
  case isTrue within =>
    have further : vterm.framebuffer + 4 * (index + words) =
        vterm.framebuffer + 4 * index + 4 * words := by
      omega
    rw [if_pos (by omega), if_pos (by omega), if_pos (by omega), if_pos (by omega), further,
      Nat.add_right_comm _ 1, Nat.add_right_comm _ 2, Nat.add_right_comm _ 3]
  case isFalse behind =>
    rw [if_neg (by omega), if_neg (by omega), if_neg (by omega), if_neg (by omega)]

theorem vtermScroll_spec (fits : vterm.Fits) (low : 16 ≤ vterm.cursorY)
    (bounded : vterm.cursorY < 2 ^ 64) :
    ∃ after, vtermScroll vterm = some after ∧
      after = { vterm with cursorY := vterm.cursorY - 16, memory := after.memory } ∧
      ∀ x < vterm.width, ∀ y < vterm.height, after.pixel x y =
        if y + 16 < vterm.height then vterm.pixel x (y + 16) else vterm.termColor := by
  have high := fits.height
  have size := fits.size
  have limit := fits.bounded
  have stride := Nat.div_mul_cancel fits.aligned
  have wide := fits.wide
  have pixelsWide := fits.width
  generalize words : vterm.pitch / 4 = columns at stride
  have rowWords : vterm.pitch * 16 = 4 * (16 * columns) := by
    rw [← stride]
    ring
  have visibleWords : vterm.pitch * (vterm.height - 16) = 4 * ((vterm.height - 16) * columns) := by
    rw [← stride]
    ring
  have screen : vterm.pitch * vterm.height =
      vterm.pitch * 16 + vterm.pitch * (vterm.height - 16) := by
    rw [← Nat.mul_add, Nat.add_sub_cancel' high]
  have rowSize : vterm.pitch * 16 % 2 ^ 64 = 4 * (16 * columns) := by omega
  have visibleSize : (vterm.pitch * vterm.height % 2 ^ 64 + 2 ^ 64 - 4 * (16 * columns)) % 2 ^ 64 =
      4 * ((vterm.height - 16) * columns) := by
    omega
  have lastRow : (vterm.framebuffer + 4 * ((vterm.height - 16) * columns)) % 2 ^ 64 =
      vterm.framebuffer + 4 * ((vterm.height - 16) * columns) := by
    omega
  rcases @memmove_spec vterm fits (4 * (16 * columns)) (4 * ((vterm.height - 16) * columns))
    (by omega)
    (by omega) with ⟨moved, copied, isMoved⟩
  have movedFits : moved.Fits := fits.congr isMoved.rest
  have movedBase : moved.framebuffer = vterm.framebuffer := by rw [isMoved.rest]
  have movedPitch : moved.pitch = vterm.pitch := by rw [isMoved.rest]
  have movedHeight : moved.height = vterm.height := by rw [isMoved.rest]
  have movedWidth : moved.width = vterm.width := by rw [isMoved.rest]
  have stores : ∀ y < 16, ∀ x < moved.width, ∀ middle : Vterm,
      middle = { moved with memory := middle.memory } →
      middle.storeWord (middle.wordAddress
          (vterm.framebuffer + 4 * ((vterm.height - 16) * columns)) y x) middle.termColor =
        middle.storeWord (middle.framebuffer +
          4 * ((vterm.height - 16 + y) * (middle.pitch / 4) + x)) vterm.termColor := by
    intro y below x inLine middle rest
    have color : middle.termColor = vterm.termColor := by rw [rest, isMoved.rest]
    have base : middle.framebuffer = vterm.framebuffer := by rw [rest, isMoved.rest]
    have pitch : middle.pitch / 4 = columns := by rw [rest, isMoved.rest, words]
    have address : vterm.framebuffer + 4 * ((vterm.height - 16) * columns) + 4 * (y * columns + x) =
        vterm.framebuffer + 4 * ((vterm.height - 16 + y) * columns + x) := by
      ring
    have small : vterm.framebuffer + 4 * ((vterm.height - 16 + y) * columns + x) < 2 ^ 64 := by
      rw [← words]
      exact fits.address_lt (by omega) (by omega)
    rw [wordAddress_eq (by rw [pitch, address]; exact small), color, base, pitch, address]
  rcases @lines_painted moved vterm.termColor movedFits (vterm.height - 16) 16
    (fun y x middle => middle.storeWord (middle.wordAddress
      (vterm.framebuffer + 4 * ((vterm.height - 16) * columns)) y x) middle.termColor) (by omega)
    stores with ⟨blanked, ran, rest, pixels⟩
  have cursor : (blanked.cursorY + 2 ^ 64 - 16) % 2 ^ 64 = vterm.cursorY - 16 := by
    rw [rest, isMoved.rest]
    dsimp only
    omega
  refine ⟨{ blanked with cursorY := vterm.cursorY - 16 }, ?_, ?_, ?_⟩
  · simp only [vtermScroll, rowSize, visibleSize, copied, movedBase, lastRow, Option.bind_eq_bind,
      Option.bind_some]
    rw [ran, Option.bind_some, cursor]
    rfl
  · rw [rest, isMoved.rest]
  · intro x inLine y below
    have blankedPixel := pixels x (by omega) y
    have inStride : x < columns := by omega
    change blanked.pixel x y = _
    rw [blankedPixel]
    by_cases above : y + 16 < vterm.height
    · have before : y * columns + x < (vterm.height - 16) * columns :=
        wordIndex_lt (by omega) inStride
      have further : y * columns + x + 16 * columns = (y + 16) * columns + x := by ring
      rw [if_neg (by omega), if_pos above, pixel, pixel, movedPitch, words, isMoved.wordAt,
        if_pos before, further]
    · rw [if_pos (by omega), if_neg above]

/-! ## Glyphs -/

theorem drawGlyph_spec (fits : vterm.Fits) (defaultFont : ℕ → BitVec 8) (c : BitVec 8)
    (wide : vterm.cursorX + 8 ≤ vterm.width) (high : vterm.cursorY + 16 ≤ vterm.height) :
    ∃ after, drawGlyph defaultFont c vterm = some after ∧
      after = { vterm with memory := after.memory } ∧
      ∀ x < vterm.width, ∀ y, after.pixel x y =
        if vterm.cursorX ≤ x ∧ x < vterm.cursorX + 8 ∧ vterm.cursorY ≤ y ∧ y < vterm.cursorY + 16 ∧
            glyphBit defaultFont c (y - vterm.cursorY) (x - vterm.cursorX) then
          vterm.fgColor
        else vterm.pixel x y := by
  refine @rectangle_painted vterm vterm.fgColor fits vterm.cursorX vterm.cursorY 8 16
    (glyphBit defaultFont c) _ wide high ?_
  intro y below x inLine middle rest
  have color : middle.fgColor = vterm.fgColor := by rw [rest]
  have column : middle.cursorX = vterm.cursorX := by rw [rest]
  have row : middle.cursorY = vterm.cursorY := by rw [rest]
  have small := fits.address_lt (y := vterm.cursorY + y) (x := vterm.cursorX + x) (by omega)
    (by omega)
  have sameSmall : middle.framebuffer +
      4 * ((vterm.cursorY + y) * (middle.pitch / 4) + (vterm.cursorX + x)) < 2 ^ 64 := by
    rw [rest]
    exact small
  have narrow := fits.cursor_lt
  rw [color, column, row, Nat.mod_eq_of_lt (by omega), Nat.mod_eq_of_lt (by omega),
    wordAddress_eq sameSmall]

end Goshkik
