import Mathlib.Data.List.Infix
import Goshkik.Klibc.StringCopy

/-!
# Searching for a string

The inner loop of `strstr` stops at the null of the needle exactly if the needle is a prefix of what
is left of the haystack, also when that ends first.  An offset that the outer loop has left behind
is therefore no occurrence.
-/

namespace Goshkik.Klibc

open MappedBytes

variable {memory : MappedBytes} {h n haystack needle : ByteAddress} {rest chars : List UInt8}
  {text pattern : CString}
  {fuel : ℕ}

/-- The needle stands at an offset of the haystack, and at no smaller one. -/
structure FirstOccurrence (pattern text : List UInt8) (offset : ℕ) : Prop where
  occurs : pattern <+: text.drop offset
  first : ∀ earlier < offset, ¬ pattern <+: text.drop earlier

theorem FirstOccurrence.contained {offset : ℕ} (occurrence : FirstOccurrence chars rest offset) :
    chars <:+: rest :=
  occurrence.occurs.isInfix.trans (List.drop_suffix offset rest).isInfix

/-- How far the two strings agree. -/
theorem matchFrom_eq (haystackAt : memory.Holds h (rest ++ [0]))
    (needleAt : memory.Holds n (chars ++ [0]))
    (restNoNull : 0 ∉ rest) (noNull : 0 ∉ chars) (enough : chars.length < fuel) :
    ∃ count ≤ chars.length, matchFrom memory fuel h n = some (place n count) ∧
      (count = chars.length ↔ chars <+: rest) := by
  induction chars generalizing rest h n fuel with
  | nil =>
      obtain ⟨fuel, rfl⟩ : ∃ more, fuel = more + 1 := ⟨fuel - 1, by simp at enough; omega⟩
      have null := (holds_cons.mp needleAt).1
      refine ⟨0, le_rfl, ?_, by simp⟩
      cases rest with
      | nil =>
          have ended := (holds_cons.mp haystackAt).1
          simp [matchFrom, load, ended]
      | cons char rest =>
          have first := (holds_cons.mp haystackAt).1
          simp [matchFrom, load, first, null]
  | cons char chars hypothesis =>
      obtain ⟨fuel, rfl⟩ : ∃ more, fuel = more + 1 := ⟨fuel - 1, by omega⟩
      rcases holds_cons.mp needleAt with ⟨needleFirst, needleRest⟩
      rcases noNull_cons.mp noNull with ⟨nonzero, noNull⟩
      cases rest with
      | nil =>
          have ended := (holds_cons.mp haystackAt).1
          exact ⟨0, Nat.zero_le _, by simp [matchFrom, load, ended], by simp⟩
      | cons other rest =>
          rcases holds_cons.mp haystackAt with ⟨haystackFirst, haystackRest⟩
          rcases noNull_cons.mp restNoNull with ⟨otherNonzero, restNoNull⟩
          simp only [matchFrom, load, haystackFirst, needleFirst, Option.bind_eq_bind,
            Option.bind_some, if_pos otherNonzero]
          by_cases same : other = char
          · rcases hypothesis haystackRest needleRest restNoNull noNull (by simpa using enough) with
              ⟨count, bound, agrees, whole⟩
            refine ⟨count + 1, by simpa using bound, ?_, ?_⟩
            · rw [if_pos ⟨nonzero, same⟩, place_one, place_one, agrees, place_place, Nat.add_comm 1]
            · rw [same, List.prefix_cons_inj, ← whole, List.length_cons, Nat.add_right_cancel_iff]
          · refine ⟨0, Nat.zero_le _, ?_, ?_⟩
            · rw [if_neg (fun both => same both.2), place_zero]
              rfl
            · rw [List.cons_prefix_cons, List.length_cons]
              exact ⟨fun zero => absurd zero.symm (Nat.succ_ne_zero _), fun both =>
                absurd both.1.symm same⟩

/-- The null is the only byte of a string that is zero. -/
theorem StringAt.zero_iff (isString : StringAt memory n text) {count : ℕ}
    (bound : count ≤ text.1.length) :
    ∃ char, memory (place n count) = some char ∧ (char = 0 ↔ count = text.1.length) := by
  rcases bound.lt_or_eq with inside | rfl
  · refine ⟨text.1[count], isString.characters count inside, ?_⟩
    exact ⟨fun null => absurd (List.mem_of_getElem null) text.2, fun same => absurd same inside.ne⟩
  · exact ⟨0, isString.null, by simp⟩

/-- From an offset of the haystack on. -/
theorem strstrFrom_eq (haystackAt : memory.Holds h (rest ++ [0]))
    (needleAt : StringAt memory needle pattern)
    (restNoNull : 0 ∉ rest) (nonempty : pattern.1 ≠ [])
    (enough : rest.length + pattern.1.length + 1 < fuel) :
    (∃ offset, strstrFrom memory needle fuel h = some (some (place h offset)) ∧
      FirstOccurrence pattern.1 rest offset) ∨
    (strstrFrom memory needle fuel h = some none ∧ ¬ pattern.1 <:+: rest) := by
  induction rest generalizing h fuel with
  | nil =>
      obtain ⟨fuel, rfl⟩ : ∃ more, fuel = more + 1 := ⟨fuel - 1, by omega⟩
      have ended := (holds_cons.mp haystackAt).1
      exact .inr ⟨by simp [strstrFrom, load, ended], by simpa using nonempty⟩
  | cons char rest hypothesis =>
      obtain ⟨fuel, rfl⟩ : ∃ more, fuel = more + 1 := ⟨fuel - 1, by omega⟩
      rw [List.length_cons] at enough
      rcases matchFrom_eq haystackAt needleAt restNoNull pattern.2
        (show pattern.1.length < fuel by omega) with
        ⟨count, bound, agrees, whole⟩
      rcases needleAt.zero_iff bound with ⟨next, isNext, atNull⟩
      rcases holds_cons.mp haystackAt with ⟨haystackFirst, haystackRest⟩
      rcases noNull_cons.mp restNoNull with ⟨nonzero, restNoNull⟩
      simp only [strstrFrom, load, haystackFirst, Option.bind_eq_bind, Option.bind_some,
        if_pos nonzero, agrees, isNext]
      by_cases here : pattern.1 <+: char :: rest
      · rw [if_pos (atNull.mpr (whole.mpr here))]
        exact .inl ⟨0, by rw [place_zero]; rfl, here, fun _ earlier =>
          absurd earlier (Nat.not_lt_zero _)⟩
      · rw [if_neg (fun null => here (whole.mp (atNull.mp null))), place_one]
        have remaining : rest.length + pattern.1.length + 1 < fuel := by omega
        rcases hypothesis haystackRest restNoNull remaining with
          ⟨offset, found, occurrence⟩ | ⟨missing, absent⟩
        · refine .inl ⟨offset + 1, ?_, occurrence.occurs, ?_⟩
          · rw [found, place_place, Nat.add_comm 1]
          · intro earlier smaller
            cases earlier with
            | zero => exact here
            | succ earlier => exact occurrence.first earlier (Nat.lt_of_succ_lt_succ smaller)
        · refine .inr ⟨missing, ?_⟩
          rw [List.infix_cons_iff, not_or]
          exact ⟨here, absent⟩

/-- `strstr` finds the first occurrence of the needle, if there is one.  The memory need not map any
byte behind the nulls of the two strings. -/
theorem strstr_finds_first (haystackAt : StringAt memory haystack text)
    (needleAt : StringAt memory needle pattern)
    (enough : text.1.length + pattern.1.length + 1 < fuel) :
    ∃ result, strstr fuel memory haystack needle = some result ∧
      (∀ found, result = some found ↔
        ∃ offset ≤ text.1.length, found = place haystack offset ∧
          FirstOccurrence pattern.1 text.1 offset) ∧
      (result = none ↔ ¬ pattern.1 <:+: text.1) := by
  have unique : ∀ {first second : ℕ}, FirstOccurrence pattern.1 text.1 first →
      FirstOccurrence pattern.1 text.1 second → first = second := by
    intro first second isFirst isSecond
    rcases Nat.lt_trichotomy first second with less | same | greater
    · exact absurd isFirst.occurs (isSecond.first first less)
    · exact same
    · exact absurd isSecond.occurs (isFirst.first second greater)
  have inside : ∀ {offset : ℕ}, FirstOccurrence pattern.1 text.1 offset →
      offset ≤ text.1.length := by
    intro offset occurrence
    by_contra beyond
    have atEnd := occurrence.occurs
    rw [List.drop_eq_nil_of_le (by omega), List.prefix_nil] at atEnd
    exact occurrence.first text.1.length (by omega) (atEnd ▸ List.nil_prefix)
  have found : ∀ offset, FirstOccurrence pattern.1 text.1 offset → ∀ found,
      some (place haystack offset) = some found ↔
        ∃ offset ≤ text.1.length, found = place haystack offset ∧
          FirstOccurrence pattern.1 text.1 offset := by
    intro offset occurrence found
    rw [Option.some.injEq]
    constructor
    · exact fun same => ⟨offset, inside occurrence, same.symm, occurrence⟩
    · rintro ⟨other, -, rfl, isOther⟩
      rw [unique occurrence isOther]
  rcases needleAt.zero_iff (Nat.zero_le _) with ⟨first, isFirst, empty⟩
  rw [place_zero] at isFirst
  simp only [strstr, load, isFirst, Option.bind_eq_bind, Option.bind_some]
  by_cases none : first = 0
  · have isEmpty : pattern.1 = [] := List.length_eq_zero_iff.mp (empty.mp none).symm
    have occurrence : FirstOccurrence pattern.1 text.1 0 :=
      ⟨isEmpty ▸ List.nil_prefix, fun _ earlier => absurd earlier (Nat.not_lt_zero _)⟩
    rw [if_pos none]
    refine ⟨some haystack, rfl, ?_, ?_⟩
    · have finds := found 0 occurrence
      rwa [place_zero] at finds
    · simp [occurrence.contained]
  · have nonempty : pattern.1 ≠ [] := fun isEmpty => none (empty.mpr (by rw [isEmpty]; rfl))
    rw [if_neg none]
    rcases strstrFrom_eq haystackAt needleAt text.2 nonempty enough with
      ⟨offset, finds, occurrence⟩ | ⟨missing, absent⟩
    · exact ⟨_, finds, found offset occurrence, by simp [occurrence.contained]⟩
    · refine ⟨_, missing, fun found => ?_, by simp [absent]⟩
      simp only [reduceCtorEq, false_iff, not_exists, not_and]
      exact fun offset _ _ occurrence => absent occurrence.contained

/-- The needle begins once in vain. -/
theorem strstr_finds_second : ∃ result, strstr 9 (ofBytes [97, 97, 98, 0, 97, 98, 0]) 0 4 =
    some result ∧
    (∀ found, result = some found ↔
      ∃ offset ≤ 3, found = place 0 offset ∧ FirstOccurrence [97, 98] [97, 97, 98] offset) ∧
    (result = none ↔ ¬ [(97 : UInt8), 98] <:+: [97, 97, 98]) :=
  @strstr_finds_first (ofBytes [97, 97, 98, 0, 97, 98, 0]) 0 4 ⟨[97, 97, 98], by decide⟩
    ⟨[97, 98], by decide⟩ 9
    (by unfold StringAt; decide +kernel) (by unfold StringAt; decide +kernel) (by decide)

end Goshkik.Klibc
