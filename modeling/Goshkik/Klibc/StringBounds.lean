import Mathlib.Data.List.TakeWhile
import Goshkik.Klibc.StringCopy

/-!
# Bounded copies

`strlcpy` and `strlcat` leave as much of a string as the buffer has room for, always with a null
behind it, and return the length that they would have needed.  What they leave in the buffer is what
the list of its bytes says in the model of the filesystem.
-/

namespace Goshkik.Klibc

open MappedBytes

variable {memory : MappedBytes} {dst src : ByteAddress} {text : CString} {old : List UInt8}
  {size : SizeT}
  {fuel k : ℕ}

/-! ## Copying -/

/-- The loop of `strlcpy`, when some characters have been copied. -/
theorem strlcpyFrom_eq (isString : StringAt memory src text)
    (writable : memory.Mapped dst size.toNat)
    (apart : Apart src (text.1.length + 1) dst size.toNat) (copied : k ≤ text.1.length)
    (room : k < size.toNat)
    (enough : text.1.length < k + fuel) :
    strlcpyFrom fuel (size - BitVec.ofNat 64 k) (place dst k) (place src k)
        (memory.overwrite dst (text.1.take k)) =
      if size.toNat - 1 ≤ text.1.length then
        some (0, place dst (size.toNat - 1), place src (size.toNat - 1),
          memory.overwrite dst (text.1.take (size.toNat - 1)))
      else
        some (size - BitVec.ofNat 64 (text.1.length + 1), place dst (text.1.length + 1),
          place src (text.1.length + 1), memory.overwrite dst (text.1 ++ [0])) := by
  have short := isString.length_lt
  have small := size.isLt
  induction fuel generalizing k with
  | zero => omega
  | succ fuel hypothesis =>
      have written : (text.1.take k).length = k := List.length_take_of_le copied
      have further : size - BitVec.ofNat 64 k - 1 = size - BitVec.ofNat 64 (k + 1) := by bv_omega
      rw [strlcpyFrom]
      by_cases last : k + 1 = size.toNat
      · rw [if_neg (by bv_omega), if_pos (by omega), show size.toNat - 1 = k by omega]
        simp only [pure, Option.some.injEq, Prod.mk.injEq, and_true]
        bv_omega
      · have source : memory.overwrite dst (text.1.take k) (place src k) =
          memory (place src k) := by
          apply overwrite_of_not_within
          refine fun within => apart _ (within_place (by omega) (by omega)) (within.mono ?_)
          omega
        have stores : ∀ char :
          UInt8, (memory.overwrite dst (text.1.take k)).store (place dst k) char =
            some (memory.overwrite dst (text.1.take k ++ [char])) := by
          intro char
          have next := @update_overwrite memory dst (text.1.take k) char (by omega)
          rw [written] at next
          rw [store_eq (overwrite_eq_some_of_isSome (writable k room)), next]
        rw [if_pos (by bv_omega), load, source]
        by_cases atNull : k = text.1.length
        · subst atNull
          rw [List.take_length] at stores
          simp only [isString.null, Option.bind_eq_bind, Option.bind_some, List.take_length, stores,
            if_true, pure, place_succ, further]
          rw [if_neg (by omega)]
        · have inside : k < text.1.length := by omega
          have isChar := isString.characters k inside
          have nonzero : text.1[k] ≠ 0 := fun null => text.2 (List.mem_of_getElem null)
          have next := hypothesis (by omega : k + 1 ≤ text.1.length) (by omega) (by omega)
          simp only [isChar, Option.bind_eq_bind, Option.bind_some, stores, if_neg nonzero,
            place_succ, further, List.take_append_getElem inside]
          exact next

theorem skipString_eq {s : ByteAddress} {chars : List UInt8} (holds : memory.Holds s (chars ++ [0]))
    (noNull : 0 ∉ chars) (enough : chars.length < fuel) :
    skipString memory fuel s = some (place s (chars.length + 1)) := by
  induction chars generalizing s fuel with
  | nil =>
      obtain ⟨fuel, rfl⟩ : ∃ more, fuel = more + 1 := ⟨fuel - 1, by simp at enough; omega⟩
      have null := (holds_cons.mp holds).1
      simp [skipString, load, null, place]
  | cons char chars hypothesis =>
      obtain ⟨fuel, rfl⟩ : ∃ more, fuel = more + 1 := ⟨fuel - 1, by omega⟩
      rcases holds_cons.mp holds with ⟨first, rest⟩
      rcases noNull_cons.mp noNull with ⟨nonzero, noNull⟩
      have next := hypothesis rest noNull (by simpa using enough)
      simp only [skipString, load, first, Option.bind_eq_bind, Option.bind_some, if_pos nonzero]
      rw [place_one, next, place_place, List.length_cons, Nat.add_comm 1]

/-- The difference of the pointers behind the null. -/
theorem place_sub (src : ByteAddress) (count : ℕ) :
    place src (count + 1) - src - 1 = BitVec.ofNat 64 count := by
  simp only [place]
  bv_omega

theorem strlcpy_eq (isString : StringAt memory src text) (writable : memory.Mapped dst size.toNat)
    (apart : Apart src (text.1.length + 1) dst size.toNat) (enough : text.1.length < fuel) :
    strlcpy fuel dst src size memory =
      some (BitVec.ofNat 64 text.1.length,
        if size = 0 then memory
          else memory.overwrite dst (text.1.take (size.toNat - 1) ++ [0])) := by
  have short := isString.length_lt
  have small := size.isLt
  by_cases none : size = 0
  · subst none
    have skips := skipString_eq isString text.2 enough
    simp only [strlcpy, ne_eq, not_true_eq_false, if_false, if_true, Option.bind_eq_bind,
      Option.bind_some, skips, pure, place_sub]
  · have positive : 0 < size.toNat := by bv_omega
    have loop := strlcpyFrom_eq isString writable apart (Nat.zero_le _) positive
      (by simpa using enough)
    rw [List.take_zero, overwrite_nil, place_zero, place_zero,
      show size - BitVec.ofNat 64 0 = size by bv_omega] at loop
    by_cases truncated : size.toNat - 1 ≤ text.1.length
    · rw [if_pos truncated] at loop
      have written : (text.1.take (size.toNat - 1)).length = size.toNat - 1 :=
        List.length_take_of_le truncated
      have stores : (memory.overwrite dst (text.1.take (size.toNat - 1))).store
        (place dst (size.toNat - 1)) 0 =
          some (memory.overwrite dst (text.1.take (size.toNat - 1) ++ [0])) := by
        have next := @update_overwrite memory dst (text.1.take (size.toNat - 1)) 0 (by omega)
        rw [written] at next
        rw [store_eq (overwrite_eq_some_of_isSome (writable _ (by omega))), next]
      have rest : (memory.overwrite dst (text.1.take (size.toNat - 1) ++ [0])).Holds
        (place src (size.toNat - 1))
          (text.1.drop (size.toNat - 1) ++ [0]) := by
        have still := Holds.overwrite isString (by simp; omega)
          (apart.mono (by simp) (show (text.1.take (size.toNat - 1) ++ [0]).length ≤
            _ by simp; omega))
        have dropped := still.drop (show size.toNat - 1 ≤ _ by simp; omega)
        rwa [List.drop_append_of_le_length truncated] at dropped
      have remaining : (text.1.drop (size.toNat - 1)).length < fuel := by
        rw [List.length_drop]
        omega
      have skips := skipString_eq rest (fun null => text.2 (List.mem_of_mem_drop null)) remaining
      rw [place_place, List.length_drop,
        show size.toNat - 1 + (text.1.length - (size.toNat - 1) + 1) =
        text.1.length + 1 by omega] at skips
      simp only [strlcpy, ne_eq, none, not_false_eq_true, if_true, if_false, loop,
        Option.bind_eq_bind, Option.bind_some, stores, skips, pure, place_sub]
    · rw [if_neg truncated] at loop
      have left : size - BitVec.ofNat 64 (text.1.length + 1) ≠ 0 := by bv_omega
      have whole : text.1.take (size.toNat - 1) = text.1 := List.take_of_length_le (by omega)
      simp only [strlcpy, if_pos none, loop, Option.bind_eq_bind, Option.bind_some, left, if_false,
        place_sub, whole, pure, if_neg none]

/-- The list of the bytes of a buffer, when some of it is replaced. -/
theorem strlcpy_list (text : List UInt8) (old : List UInt8) (positive : 0 < old.length) :
    Goshkik.strlcpy old text =
      (text.take (old.length - 1) ++ [0]) ++
        old.drop (text.take (old.length - 1) ++ [0]).length := by
  fun_induction Goshkik.strlcpy old text with
  | case1 text => simp at positive
  | case2 last text => simp
  | case3 first next old => simp
  | case4 first next old char text ih =>
      rw [ih (by simp)]
      simp

/-- The memory of the filesystem's model is what `strlcpy` leaves in the buffer. -/
theorem strlcpy_refines (isString : StringAt memory src text) (buffer : memory.Holds dst old)
    (sized : old.length = size.toNat) (apart : Apart src (text.1.length + 1) dst size.toNat)
    (enough : text.1.length < fuel) :
    ∃ after, strlcpy fuel dst src size memory = some (BitVec.ofNat 64 text.1.length, after) ∧
      after.Holds dst (Goshkik.strlcpy old text.1) := by
  have small := size.isLt
  refine ⟨_, strlcpy_eq isString (sized ▸ buffer.mapped) apart enough, ?_⟩
  by_cases none : size = 0
  · have empty : old = [] := List.length_eq_zero_iff.mp (by rw [sized, none]; rfl)
    rw [empty, Goshkik.strlcpy]
    exact holds_nil
  · have positive : 0 < size.toNat := by bv_omega
    rw [if_neg none, strlcpy_list text.1 old (by omega), sized, holds_append]
    have written : (text.1.take (size.toNat - 1) ++ [0]).length ≤ old.length := by
      simp only [List.length_append, List.length_take, List.length_singleton]
      omega
    generalize text.1.take (size.toNat - 1) ++ [0] = bytes at written ⊢
    refine ⟨holds_overwrite (by omega), (buffer.drop written).overwrite
      (by rw [List.length_drop]; omega) ?_⟩
    intro address behind before
    rw [List.length_drop] at behind
    simp only [Within, distance, place] at behind before
    bv_omega

/-! ## Appending -/

theorem beforeNull_eq_take (old : List UInt8) : beforeNull old = old.take (beforeNull old).length :=
  List.prefix_iff_eq_take.mp (List.takeWhile_prefix _)

theorem beforeNull_of_notMem (noNull : 0 ∉ old) : beforeNull old = old := by
  apply List.takeWhile_eq_self_iff.mpr
  intro char isChar
  simpa using fun null : char = 0 => noNull (null ▸ isChar)

theorem length_beforeNull_lt (hasNull : 0 ∈ old) : (beforeNull old).length < old.length := by
  rcases (length_beforeNull_le old).lt_or_eq with less | same
  · exact less
  · have all := beforeNull_eq_take old
    rw [same, List.take_length] at all
    have nonzero := List.takeWhile_eq_self_iff.mp all 0 hasNull
    simp at nonzero

theorem strlcat_full (isString : StringAt memory src text) (buffer : memory.Holds dst old)
    (sized : old.length = size.toNat) (noNull : 0 ∉ old) (enough : text.1.length < fuel)
    (enough' : size.toNat < fuel) :
    strlcat fuel dst src size memory = some (size + BitVec.ofNat 64 text.1.length, memory) := by
  have measured := @strnlen_eq memory dst old fuel size buffer (.inr sized.ge) (by omega)
  rw [beforeNull_of_notMem noNull, sized, Nat.min_self, BitVec.ofNat_toNat,
    BitVec.setWidth_eq] at measured
  simp only [strlcat, measured, strlen_eq isString enough, Option.bind_eq_bind, Option.bind_some,
    if_true, pure]

/-- The copy starts at the null of the buffer. -/
theorem strlcat_append (isString : StringAt memory src text) (buffer : memory.Holds dst old)
    (sized : old.length = size.toNat) (hasNull : 0 ∈ old)
    (apart : Apart src (text.1.length + 1) dst size.toNat)
    (enough : text.1.length < fuel) (enough' : size.toNat < fuel) :
    strlcat fuel dst src size memory =
      some (BitVec.ofNat 64 (beforeNull old).length + BitVec.ofNat 64 text.1.length,
        memory.overwrite dst ((beforeNull old ++ text.1).take (size.toNat - 1) ++ [0])) := by
  have small := size.isLt
  have short := isString.length_lt
  have room := length_beforeNull_lt hasNull
  have measured := @strnlen_eq memory dst old fuel size buffer (.inl hasNull) (by omega)
  have isPrefix : memory.Holds dst (beforeNull old) := by
    rw [beforeNull_eq_take]
    exact buffer.take _
  have writable : memory.Mapped dst size.toNat := sized ▸ buffer.mapped
  generalize isLength : (beforeNull old).length = d at measured room ⊢
  rw [Nat.min_eq_left (by omega)] at measured
  obtain ⟨copy, isCopy⟩ : ∃ copy, copy = min (size.toNat - d - 1) text.1.length := ⟨_, rfl⟩
  have chosen : (if size - BitVec.ofNat 64 d - 1 > BitVec.ofNat 64 text.1.length then
    BitVec.ofNat 64 text.1.length
      else size - BitVec.ofNat 64 d - 1) = BitVec.ofNat 64 copy := by
    split <;> bv_omega
  have copyNat : (BitVec.ofNat 64 copy).toNat = copy := Nat.mod_eq_of_lt (by omega)
  have taken : (text.1.take copy).length = copy := List.length_take_of_le (by omega)
  have copies : memcpy (place dst d) src (BitVec.ofNat 64 copy) memory =
      some (place dst d, memory.overwrite (place dst d) (text.1.take copy)) := by
    refine memcpy_eq (by rw [taken, copyNat]) (isString.characters.take _) ?_ ?_
    · rw [copyNat]
      exact (writable.mono (by omega : d + copy ≤ size.toNat)).drop
    · rw [copyNat]
      intro address within within'
      exact apart address (within.mono (by omega)) ((within'.of_place (by omega)).mono (by omega))
  have stores : (memory.overwrite (place dst d) (text.1.take copy)).store
      (dst + (BitVec.ofNat 64 d + BitVec.ofNat 64 copy)) 0 =
        some (memory.overwrite dst ((beforeNull old ++ text.1).take (size.toNat - 1) ++ [0])) := by
    have here : dst + (BitVec.ofNat 64 d + BitVec.ofNat 64 copy) = place (place dst d) copy := by
      rw [place_place, place, BitVec.ofNat_add]
    have last := @update_overwrite memory (place dst d) (text.1.take copy) 0 (by omega)
    have wanted : (beforeNull old ++ text.1).take (size.toNat - 1) =
        beforeNull old ++ text.1.take copy := by
      rw [List.take_append, isLength, List.take_of_length_le (by omega)]
      congr 1
      rcases Nat.le_total text.1.length (size.toNat - d - 1) with whole | part
      · rw [List.take_of_length_le (by omega), List.take_of_length_le (by omega)]
      · rw [show copy = size.toNat - 1 - d by omega]
    rw [taken] at last
    have inParts := @overwrite_append memory dst (beforeNull old) (text.1.take copy ++ [0])
      (by rw [List.length_append, taken, List.length_singleton, isLength]; omega)
    rw [overwrite_of_holds isPrefix, isLength] at inParts
    rw [here, store_eq, last, wanted, List.append_assoc, inParts]
    rw [place_place]
    exact overwrite_eq_some_of_isSome (writable _ (by omega))
  have partly : BitVec.ofNat 64 d ≠ size := by bv_omega
  simp only [strlcat, measured, strlen_eq isString enough, Option.bind_eq_bind, Option.bind_some,
    if_neg partly, chosen]
  rw [show dst + BitVec.ofNat 64 d = place dst d from rfl, copies]
  simp only [Option.bind_some, stores, pure]

/-- `strlcpy` and `strlcat` leave what there is room for with a null behind it, and return what they
would have needed.  The whole buffer is then what the filesystem's model of `strlcpy` says. -/
theorem strlcpy_strlcat_bounded (isString : StringAt memory src text)
    (buffer : memory.Holds dst old)
    (sized : old.length = size.toNat) (apart : Apart src (text.1.length + 1) dst size.toNat)
    (enough : text.1.length < fuel) (enough' : size.toNat < fuel) :
    (∃ ret after, strlcpy fuel dst src size memory = some (ret, after) ∧ ret.toNat = text.1.length ∧
      (1 ≤ size.toNat → after.Holds dst (text.1.take (size.toNat - 1) ++ [0])) ∧
      after.Holds dst (Goshkik.strlcpy old text.1) ∧
      ∀ address, ¬ Within dst (min (text.1.length + 1) size.toNat) address →
        after address = memory address) ∧
    ∃ ret after, strlcat fuel dst src size memory = some (ret, after) ∧
      (0 ∈ old → ret.toNat = (beforeNull old).length + text.1.length ∧
        after.Holds dst ((beforeNull old ++ text.1).take (size.toNat - 1) ++ [0]) ∧
        ∀ address, ¬ Within dst size.toNat address → after address = memory address) ∧
      (0 ∉ old → ret.toNat = size.toNat + text.1.length ∧ after = memory) := by
  have small := size.isLt
  have short := isString.length_lt
  have writable : memory.Mapped dst size.toNat := sized ▸ buffer.mapped
  have together : 0 < size.toNat → text.1.length + 1 + size.toNat ≤ 2 ^ 64 :=
    fun positive => apart.add_le (Nat.succ_pos _) positive
  have copies := strlcpy_eq isString writable apart enough
  rcases strlcpy_refines isString buffer sized apart enough with ⟨after, copied, refined⟩
  have same := (Prod.mk.inj (Option.some.inj (copied.symm.trans copies))).2
  refine ⟨⟨_, _, copies, ?_, ?_, same ▸ refined, ?_⟩, ?_⟩
  · exact Nat.mod_eq_of_lt short
  · intro positive
    rw [if_neg (by bv_omega)]
    exact holds_overwrite (by simp; omega)
  · intro address outside
    split
    · rfl
    · refine overwrite_of_not_within fun within => outside (within.mono ?_)
      simp only [List.length_append, List.length_take, List.length_singleton]
      bv_omega
  · by_cases hasNull : 0 ∈ old
    · refine ⟨_, _, strlcat_append isString buffer sized hasNull apart enough enough', ?_,
        fun noNull => absurd hasNull noNull⟩
      have room := length_beforeNull_lt hasNull
      refine fun _ => ⟨by bv_omega, holds_overwrite (by simp; omega), fun address outside => ?_⟩
      refine overwrite_of_not_within fun within => outside (within.mono ?_)
      simp only [List.length_append, List.length_take, List.length_singleton]
      omega
    · refine ⟨_, _, strlcat_full isString buffer sized hasNull enough enough',
        fun null => absurd null hasNull, fun _ => ⟨?_, rfl⟩⟩
      bv_omega

/-- A buffer of four bytes that holds one character. -/
theorem strlcpy_strlcat_small :
    (∃ ret after, strlcpy 9 3 0 4 (ofBytes [97, 98, 0, 99, 0, 7, 7]) = some (ret, after) ∧
      ret.toNat = 2 ∧
      after.Holds 3 [97, 98, 0]) ∧
    ∃ ret after, strlcat 9 3 0 4 (ofBytes [97, 98, 0, 99, 0, 7, 7]) = some (ret, after) ∧
      ret.toNat = 1 + 2 ∧
      after.Holds 3 [99, 97, 98, 0] := by
  have bounded := @strlcpy_strlcat_bounded (ofBytes [97, 98, 0, 99, 0, 7, 7]) 3 0
    ⟨[97, 98], by decide⟩ [99, 0, 7, 7]
    4 9 (by unfold StringAt; decide +kernel) (by decide +kernel) rfl
      (apart_of_le (by decide) (by decide)) (by decide)
    (by decide)
  rcases bounded with ⟨⟨ret, after, copies, length, holds, -⟩, ⟨total, last, appends, hasNull, -⟩⟩
  rcases hasNull (by decide) with ⟨sum, together, -⟩
  exact ⟨⟨ret, after, copies, length, holds (by decide)⟩, ⟨total, last, appends, sum, together⟩⟩

end Goshkik.Klibc
