import Mathlib.Algebra.Order.Ring.Nat
import Mathlib.Data.Nat.Notation

/-!
# Words and strings as bytes

The keys of the filesystem's hash tables are byte strings: pointers and numbers
as they lie in memory, and C strings with the null that ends them.
-/

namespace Goshkik

/-- The bytes of a C string before its null. -/
abbrev CString := { bytes : List UInt8 // 0 ∉ bytes }

/-- `dst` is a buffer of the given size; the null that ends `src` is not listed. -/
def strlcpy : List UInt8 → List UInt8 → List UInt8
  | [], _ => []
  | [_], _ => [0]
  | _ :: next :: dst, [] => 0 :: next :: dst
  | _ :: next :: dst, char :: src => char :: strlcpy (next :: dst) src

/-- The bytes of a word in memory. -/
def wordBytes (word : UInt64) : List UInt8 :=
  (List.range 8).map (fun index => UInt8.ofNat (word.toNat / 256 ^ index))

theorem strlcpy_eq {buffer name : List UInt8} (fits : name.length < buffer.length) :
    strlcpy buffer name = name ++ 0 :: buffer.drop (name.length + 1) := by
  fun_induction strlcpy buffer name with
  | case1 name => simp at fits
  | case2 last name =>
      have empty : name = [] := by
        simpa using fits
      simp [empty]
  | case3 first next buffer => simp
  | case4 first next buffer char name ih =>
      have rest := ih (by simpa using fits)
      simp [rest]

theorem length_strlcpy (buffer name : List UInt8) :
    (strlcpy buffer name).length = buffer.length := by
  fun_induction strlcpy buffer name with
  | case1 name => rfl
  | case2 last name => rfl
  | case3 first next buffer => rfl
  | case4 first next buffer char name ih => simpa using ih

theorem length_wordBytes (word : UInt64) : (wordBytes word).length = 8 := by
  simp [wordBytes]

/-- Numbers with the same bytes are equal. -/
theorem eq_of_bytes (count : ℕ) {first second : ℕ} (firstBound : first < 256 ^ count)
    (secondBound : second < 256 ^ count)
    (same : ∀ index < count, first / 256 ^ index % 256 = second / 256 ^ index % 256) :
    first = second := by
  induction count generalizing first second with
  | zero =>
      rw [pow_zero] at firstBound secondBound
      omega
  | succ count ih =>
      have lowest := same 0 (Nat.succ_pos count)
      rw [pow_succ] at firstBound secondBound
      have higher : first / 256 = second / 256 := by
        apply ih (by omega) (by omega)
        intro index inside
        have next := same (index + 1) (by omega)
        rw [pow_succ'] at next
        rw [Nat.div_div_eq_div_mul, Nat.div_div_eq_div_mul]
        exact next
      simp only [pow_zero, Nat.div_one] at lowest
      omega

theorem wordBytes_injective {first second : UInt64} (same : wordBytes first = wordBytes second) :
    first = second := by
  apply UInt64.toNat_inj.mp
  apply eq_of_bytes 8
  · exact first.toNat_lt
  · exact second.toNat_lt
  · intro index inside
    have bytes := List.map_inj_left.mp same index (List.mem_range.mpr inside)
    simpa [← UInt8.toNat_inj] using bytes

/-- Strings that end at their null are equal if their buffers are. -/
theorem append_null_inj {first second firstRest secondRest : List UInt8} (firstEnds : 0 ∉ first)
    (secondEnds : 0 ∉ second) (same : first ++ 0 :: firstRest = second ++ 0 :: secondRest) :
    first = second ∧ firstRest = secondRest := by
  induction first generalizing second with
  | nil =>
      cases second with
      | nil => simpa using same
      | cons char second =>
          simp only [List.nil_append, List.cons_append, List.cons.injEq] at same
          simp [← same.1] at secondEnds
  | cons char first ih =>
      cases second with
      | nil =>
          simp only [List.nil_append, List.cons_append, List.cons.injEq] at same
          simp [same.1] at firstEnds
      | cons other second =>
          simp only [List.cons_append, List.cons.injEq] at same
          have rest := ih (List.not_mem_of_not_mem_cons firstEnds)
            (List.not_mem_of_not_mem_cons secondEnds) same.2
          simp [same.1, rest]

end Goshkik
