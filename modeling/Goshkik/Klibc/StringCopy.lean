import Goshkik.Klibc.String

/-!
# Copying strings

`stpncpy` passes the pointer that `memcpy` returns on to `memset`.  That is the start of the buffer
and not the place behind the copied characters, so the padding lands on the copy, and what `stpncpy`
returns is the start as well.
-/

namespace Goshkik.Klibc

open MappedBytes

variable {memory : MappedBytes} {s dest src : ByteAddress} {chars old : List UInt8} {text : CString}
  {fuel len : ℕ}
  {n : SizeT}

/-! ## Measuring -/

theorem ofNat_succ (len : ℕ) : BitVec.ofNat 64 len + 1 = BitVec.ofNat 64 (len + 1) := by
  rw [BitVec.ofNat_add]
  rfl

theorem noNull_cons {char : UInt8} : 0 ∉ char :: chars ↔ char ≠ 0 ∧ 0 ∉ chars := by
  rw [List.mem_cons, not_or, ne_comm]

theorem StringAt.characters (isString : StringAt memory s text) : memory.Holds s text.1 :=
  (holds_append.mp isString).1

theorem StringAt.null (isString : StringAt memory s text) :
    memory (place s text.1.length) = some 0 :=
  (holds_cons.mp (holds_append.mp isString).2).1

/-- A string is shorter than the address space, or its null would be one of its characters. -/
theorem StringAt.length_lt (isString : StringAt memory s text) : text.1.length < 2 ^ 64 := by
  by_contra long
  obtain ⟨index, isLength⟩ : ∃ index, text.1.length = index + 2 ^ 64 :=
    ⟨text.1.length - 2 ^ 64, (Nat.sub_add_cancel (Nat.not_lt.mp long)).symm⟩
  have inside : index < text.1.length := by omega
  have null := isString.null
  rw [isLength, place_add_period, isString.characters index inside, Option.some.injEq] at null
  exact text.2 (List.mem_of_getElem null)

theorem strlenFrom_eq (holds : memory.Holds (place s len) (chars ++ [0])) (noNull : 0 ∉ chars)
    (enough : chars.length < fuel) :
    strlenFrom memory s fuel (BitVec.ofNat 64 len) =
      some (BitVec.ofNat 64 (len + chars.length)) := by
  induction chars generalizing len fuel with
  | nil =>
      obtain ⟨fuel, rfl⟩ : ∃ more, fuel = more + 1 := ⟨fuel - 1, by simp at enough; omega⟩
      have null := (holds_cons.mp holds).1
      simp only [place] at null
      simp [strlenFrom, load, null]
  | cons char chars hypothesis =>
      obtain ⟨fuel, rfl⟩ : ∃ more, fuel = more + 1 := ⟨fuel - 1, by omega⟩
      rcases holds_cons.mp holds with ⟨first, rest⟩
      rcases noNull_cons.mp noNull with ⟨nonzero, noNull⟩
      rw [place_place] at rest
      simp only [place] at first
      have next := hypothesis rest noNull (by simpa using enough)
      rw [← ofNat_succ] at next
      simp only [strlenFrom, load, first, Option.bind_eq_bind, Option.bind_some, if_pos nonzero,
        next, List.length_cons]
      congr 2
      omega

theorem strlen_eq (isString : StringAt memory s text) (enough : text.1.length < fuel) :
    strlen fuel memory s = some (BitVec.ofNat 64 text.1.length) := by
  have loop := @strlenFrom_eq memory s text.1 fuel 0 (by rwa [place_zero]) text.2 enough
  rwa [Nat.zero_add] at loop

/-- The characters of a buffer before its first null. -/
def beforeNull (chars : List UInt8) : List UInt8 := chars.takeWhile (· ≠ 0)

theorem length_beforeNull_le (chars : List UInt8) : (beforeNull chars).length ≤ chars.length :=
  (List.takeWhile_prefix _).length_le

/-- Only as many bytes need to be there as come before a null or fit the bound. -/
theorem strnlenFrom_eq (holds : memory.Holds (place s len) chars) (bounded : len ≤ n.toNat)
    (known : 0 ∈ chars ∨ n.toNat ≤ len + chars.length) (enough : chars.length < fuel) :
    strnlenFrom memory s n fuel (BitVec.ofNat 64 len) =
      some (BitVec.ofNat 64 (min (len + (beforeNull chars).length) n.toNat)) := by
  induction chars generalizing len fuel with
  | nil =>
      obtain ⟨fuel, rfl⟩ : ∃ more, fuel = more + 1 := ⟨fuel - 1, by simp at enough; omega⟩
      have full : ¬ BitVec.ofNat 64 len < n := by
        simp at known
        bv_omega
      rw [strnlenFrom, if_neg full]
      simp only [beforeNull, List.takeWhile_nil, List.length_nil, Nat.add_zero,
        Nat.min_eq_left bounded]
      rfl
  | cons char chars hypothesis =>
      obtain ⟨fuel, rfl⟩ : ∃ more, fuel = more + 1 := ⟨fuel - 1, by omega⟩
      rcases holds_cons.mp holds with ⟨first, rest⟩
      rw [place_place] at rest
      simp only [place] at first
      rw [strnlenFrom]
      by_cases room : BitVec.ofNat 64 len < n
      · rw [if_pos room]
        simp only [load, first, Option.bind_eq_bind, Option.bind_some]
        by_cases null : char = 0
        · subst null
          simp [beforeNull, Nat.min_eq_left bounded]
        · have below : len + 1 ≤ n.toNat := by
            have small := n.isLt
            bv_omega
          have next := hypothesis rest below ?_ (by simpa using enough)
          · rw [if_pos null, ofNat_succ, next]
            simp only [beforeNull, List.takeWhile_cons, null, ne_eq, not_false_eq_true, decide_true,
              if_true, List.length_cons]
            congr 3
            omega
          · simp only [List.mem_cons, List.length_cons] at known
            rcases known with (same | later) | covered
            · exact absurd same.symm null
            · exact .inl later
            · exact .inr (by omega)
      · have full : n.toNat = len := by
          have small := n.isLt
          bv_omega
        rw [if_neg room, full, Nat.min_eq_right (Nat.le_add_right _ _)]
        rfl

theorem strnlen_eq (holds : memory.Holds s chars) (known : 0 ∈ chars ∨ n.toNat ≤ chars.length)
    (enough : chars.length < fuel) :
    strnlen fuel memory s n = some (BitVec.ofNat 64 (min (beforeNull chars).length n.toNat)) := by
  have loop := @strnlenFrom_eq memory s chars fuel 0 n (by rwa [place_zero]) (Nat.zero_le _)
    (by simpa using known)
    enough
  rwa [Nat.zero_add] at loop

theorem beforeNull_string (text : CString) (more : List UInt8) :
    beforeNull (text.1 ++ 0 :: more) = text.1 := by
  rw [beforeNull, List.takeWhile_append_of_pos]
  · simp
  · intro char isChar
    simpa using fun null : char = 0 => text.2 (null ▸ isChar)

/-! ## Copying and padding -/

/-- The zeros are put at the start of the buffer. -/
theorem stpncpy_eq (isString : StringAt memory src text) (writable : memory.Mapped dest n.toNat)
    (apart : Apart src (min (text.1.length + 1) n.toNat) dest n.toNat)
    (enough : text.1.length + 1 < fuel) :
    stpncpy fuel dest src n memory =
      some (dest, (memory.overwrite dest (text.1.take n.toNat)).overwrite dest
        (List.replicate (n.toNat - text.1.length) 0)) := by
  have small := n.isLt
  have shorter : min text.1.length n.toNat ≤ n.toNat := Nat.min_le_right _ _
  have measured : strnlen fuel memory src n =
      some (BitVec.ofNat 64 (min text.1.length n.toNat)) := by
    have length := strnlen_eq isString (n := n) (.inl (by simp)) (by simpa using enough)
    rwa [beforeNull_string] at length
  have isLength : (BitVec.ofNat 64 (min text.1.length n.toNat)).toNat = min text.1.length n.toNat :=
    Nat.mod_eq_of_lt (by omega)
  have copied : memcpy dest src (BitVec.ofNat 64 (min text.1.length n.toNat)) memory =
      some (dest, memory.overwrite dest (text.1.take n.toNat)) := by
    refine memcpy_eq ?_ (isString.characters.take _) ?_ ?_
    · rw [isLength, List.length_take, Nat.min_comm]
    · exact writable.mono (isLength.le.trans shorter)
    · rw [isLength]
      exact apart.mono (by omega) shorter
  have rest : (n - BitVec.ofNat 64 (min text.1.length n.toNat)).toNat =
      n.toNat - text.1.length := by
    rw [BitVec.toNat_sub_of_le (by rw [BitVec.le_def, isLength]; exact shorter), isLength]
    omega
  have padded := @memset_eq (memory.overwrite dest (text.1.take n.toNat)) dest
    (n - BitVec.ofNat 64 (min text.1.length n.toNat)) 0
      (mapped_overwrite (writable.mono (by omega)))
  rw [rest] at padded
  simp only [stpncpy, measured, copied, Option.bind_eq_bind, Option.bind_some]
  exact padded

/-- What a call of `strncpy` is to leave: the characters that fit, and zeros behind them. -/
def Pads (memory after : MappedBytes) (dest : ByteAddress) (text : List UInt8) (count : ℕ) : Prop :=
  after.Holds dest (text.take count ++ List.replicate (count - text.length) 0) ∧
    ∀ address, ¬ Within dest count address → after address = memory address

/-- The zeros behind a text that the buffer has room for destroy its first character. -/
theorem pads_iff (small : n.toNat < 2 ^ 64) :
    Pads memory ((memory.overwrite dest (text.1.take n.toNat)).overwrite dest
        (List.replicate (n.toNat - text.1.length) 0)) dest text.1 n.toNat ↔
      text.1 = [] ∨ n.toNat ≤ text.1.length := by
  have frame : ∀ address, ¬ Within dest n.toNat address →
      (memory.overwrite dest (text.1.take n.toNat)).overwrite dest
        (List.replicate (n.toNat - text.1.length) 0) address = memory address := by
    intro address outside
    rw [overwrite_of_not_within, overwrite_of_not_within]
    · exact fun within => outside (within.mono (by rw [List.length_take]; omega))
    · exact fun within => outside (within.mono (by rw [List.length_replicate]; omega))
  constructor
  · rintro ⟨holds, -⟩
    by_contra neither
    rw [not_or, Nat.not_le] at neither
    obtain ⟨first, rest, isText⟩ := List.exists_cons_of_ne_nil neither.1
    obtain ⟨zeros, isCount⟩ : ∃ zeros, n.toNat - text.1.length = zeros + 1 :=
      ⟨n.toNat - text.1.length - 1, by omega⟩
    obtain ⟨count, isBound⟩ : ∃ count, n.toNat = count + 1 := ⟨n.toNat - 1, by omega⟩
    rw [isCount, isBound, isText, List.take_succ_cons, List.cons_append, holds_cons] at holds
    have padded := @holds_overwrite (memory.overwrite dest (first :: rest.take count)) dest
      (List.replicate (zeros + 1) 0) (by rw [List.length_replicate]; omega)
    rw [List.replicate_succ, holds_cons] at padded
    have null := holds.1.symm.trans padded.1
    rw [Option.some.injEq] at null
    exact text.2 (by rw [isText, null]; exact List.mem_cons_self)
  · rintro (empty | short)
    · refine ⟨?_, frame⟩
      rw [empty, List.take_nil, List.nil_append]
      exact holds_overwrite (by rw [List.length_replicate]; simp; omega)
    · refine ⟨?_, frame⟩
      rw [Nat.sub_eq_zero_of_le short, List.replicate_zero, List.append_nil, overwrite_nil]
      exact holds_overwrite (by rw [List.length_take]; omega)

/-- `strncpy` copies and pads and `stpncpy` returns the place behind the copy exactly when there is
nothing to copy.  What `strncpy` leaves is also right when there is nothing to pad. -/
theorem strncpy_pads_iff (isString : StringAt memory src text)
    (writable : memory.Mapped dest n.toNat)
    (apart : Apart src (min (text.1.length + 1) n.toNat) dest n.toNat)
    (enough : text.1.length + 1 < fuel) :
    ((∃ after, strncpy fuel dest src n memory = some (dest, after) ∧
      Pads memory after dest text.1 n.toNat) ∧
        (∃ after, stpncpy fuel dest src n memory =
          some (place dest (min text.1.length n.toNat), after)) ↔
      text.1 = [] ∨ n.toNat = 0) ∧
    ((∃ after, strncpy fuel dest src n memory = some (dest, after) ∧
      Pads memory after dest text.1 n.toNat) ↔
      text.1 = [] ∨ n.toNat ≤ text.1.length) := by
  have small := n.isLt
  have runs := stpncpy_eq isString writable apart enough
  have contents : (∃ after, strncpy fuel dest src n memory = some (dest, after) ∧
      Pads memory after dest text.1 n.toNat) ↔ text.1 = [] ∨ n.toNat ≤ text.1.length := by
    rw [← @pads_iff memory dest text n small]
    simp only [strncpy, runs, Option.bind_eq_bind, Option.bind_some, pure, Option.some.injEq,
      Prod.mk.injEq, true_and, exists_eq_left']
  have returned : (∃ after, stpncpy fuel dest src n memory =
    some (place dest (min text.1.length n.toNat), after)) ↔
      text.1 = [] ∨ n.toNat = 0 := by
    simp only [runs, Option.some.injEq, Prod.mk.injEq, exists_and_left, exists_eq', and_true]
    constructor
    · intro same
      have none : 0 = min text.1.length n.toNat :=
        place_inj (by omega) (by omega) ((place_zero dest).trans same)
      rw [← List.length_eq_zero_iff]
      omega
    · intro nothing
      rw [← List.length_eq_zero_iff] at nothing
      rw [show min text.1.length n.toNat = 0 by omega, place_zero]
  refine ⟨?_, contents⟩
  rw [contents, returned]
  constructor
  · exact fun both => both.2
  · rintro (empty | none)
    · exact ⟨.inl empty, .inl empty⟩
    · exact ⟨.inr (by omega), .inr none⟩

/-- A string of two characters, and four bytes behind it. -/
def twoAndFour : MappedBytes := ofBytes [97, 98, 0, 7, 7, 7, 7]

theorem strncpy_pads_none :
    (∃ after, strncpy 9 3 0 0 twoAndFour = some (3, after) ∧ Pads twoAndFour after 3 [97, 98] 0) ∧
      ∃ after, stpncpy 9 3 0 0 twoAndFour = some (place 3 0, after) :=
  (@strncpy_pads_iff twoAndFour 3 0 ⟨[97, 98], by decide⟩ 9 0 (by unfold StringAt; decide +kernel)
    (by decide)
    (apart_of_le (by decide) (by decide)) (by decide)).1.mpr (.inr rfl)

/-- Two characters are copied to a buffer of four bytes, and lost. -/
theorem strncpy_pads_front : StringAt twoAndFour 0 ⟨[97, 98], by decide⟩ ∧ twoAndFour.Mapped 3 4 ∧
    Apart 0 (min 3 4) 3 4 ∧
    (strncpy 9 3 0 4 twoAndFour).map (fun copied =>
      (List.range 4).map (fun i => copied.2 (place 3 i))) =
      some [some 0, some 0, some 7, some 7] ∧
    ¬ ((∃ after, strncpy 9 3 0 4 twoAndFour = some (3, after) ∧
      Pads twoAndFour after 3 [97, 98] 4) ∧
      ∃ after, stpncpy 9 3 0 4 twoAndFour = some (place 3 2, after)) := by
  have contents : (strncpy 9 3 0 4 twoAndFour).map (fun copied =>
    (List.range 4).map (fun i => copied.2 (place 3 i))) =
      some [some 0, some 0, some 7, some 7] := by
    decide +kernel
  refine ⟨by unfold StringAt; decide +kernel, by decide +kernel, apart_of_le (by decide)
    (by decide), contents, ?_⟩
  rintro ⟨⟨after, copies, holds, -⟩, -⟩
  have first : (strncpy 9 3 0 4 twoAndFour).map (fun copied => copied.2 (place 3 0)) =
      some (some 0) := by
    decide +kernel
  rw [copies, Option.map_some, Option.some.injEq] at first
  exact absurd (first.symm.trans (holds 0 (by decide))) (by decide)

end Goshkik.Klibc
