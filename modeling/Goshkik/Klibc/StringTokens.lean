import Goshkik.Klibc.StringSearch
import Goshkik.Lib.MaximalRun

/-!
# Cutting a string into tokens

A token is a maximal run of characters that are no delimiters.  `strtok_r` finds the start of each
of them, one call after the other, but the call that is given the string returns null, and no call
writes to the string.  So a token ends with a null only where the string does.
-/

namespace Goshkik.Klibc

open MappedBytes

variable {memory : MappedBytes} {s str delim saved : ByteAddress} {chars : List UInt8}
  {text delims : CString}
  {fuel start stop : ℕ}

/-! ## One call -/

theorem strchr_eq (holds : memory.Holds s (chars ++ [0])) (noNull : 0 ∉ chars) (c : UInt8)
    (enough : chars.length < fuel) :
    ∃ found, strchr memory c fuel s = some found ∧ (found.isSome ↔ c ∈ chars) := by
  induction chars generalizing s fuel with
  | nil =>
      obtain ⟨fuel, rfl⟩ : ∃ more, fuel = more + 1 := ⟨fuel - 1, by simp at enough; omega⟩
      have null := (holds_cons.mp holds).1
      exact ⟨none, by simp [strchr, load, null], by simp⟩
  | cons char chars hypothesis =>
      obtain ⟨fuel, rfl⟩ : ∃ more, fuel = more + 1 := ⟨fuel - 1, by omega⟩
      rcases holds_cons.mp holds with ⟨first, rest⟩
      rcases noNull_cons.mp noNull with ⟨nonzero, noNull⟩
      simp only [strchr, load, first, Option.bind_eq_bind, Option.bind_some, if_pos nonzero]
      by_cases same : char = c
      · exact ⟨some s, by rw [if_pos same]; rfl, by simp [same]⟩
      · rcases hypothesis rest noNull (by simpa using enough) with ⟨found, finds, isFound⟩
        refine ⟨found, by rw [if_neg same, place_one, finds], ?_⟩
        rw [isFound, List.mem_cons, or_iff_right (Ne.symm same)]

/-- A character of a text that is a delimiter. -/
def Delimits (delims text : List UInt8) (index : ℕ) : Prop :=
  ∃ char ∈ delims, text[index]? = some char

/-- What the loops of `strtok_r` find out about a character. -/
theorem strchr_text (isString : StringAt memory str text) (delimsAt : StringAt memory delim delims)
    (inside : start ≤ text.1.length) (enough : delims.1.length < fuel) :
    ∃ char found, memory (place str start) = some char ∧ strchr memory char fuel delim =
      some found ∧
      (char = 0 ↔ start = text.1.length) ∧ (found.isSome ↔ Delimits delims.1 text.1 start) := by
  rcases isString.zero_iff inside with ⟨char, isChar, isNull⟩
  rcases strchr_eq delimsAt delims.2 char enough with ⟨found, finds, isFound⟩
  refine ⟨char, found, isChar, finds, isNull, ?_⟩
  rw [isFound]
  rcases inside.lt_or_eq with before | atEnd
  · have here : text.1[start]? = some char := by
      rw [List.getElem?_eq_getElem before, ← isString.characters start before, isChar]
    simp only [Delimits, here, Option.some.injEq, exists_eq_right']
  · have null : char = 0 := isNull.mpr atEnd
    rw [null, Delimits, atEnd, List.getElem?_eq_none le_rfl]
    simp [delims.2]

/-- The delimiters in front of a token are skipped. -/
theorem skipDelimiters_eq (isString : StringAt memory str text)
    (delimsAt : StringAt memory delim delims)
    (inside : start ≤ text.1.length) (enough : text.1.length - start + delims.1.length + 1 < fuel) :
    ∃ first, start ≤ first ∧ first ≤ text.1.length ∧
      skipDelimiters memory delim fuel (place str start) = some (place str first) ∧
      (∀ index, start ≤ index → index < first → Delimits delims.1 text.1 index) ∧
      ¬ Delimits delims.1 text.1 first := by
  induction fuel generalizing start with
  | zero => omega
  | succ fuel hypothesis =>
      rcases strchr_text isString delimsAt inside (by omega : delims.1.length < fuel) with
        ⟨char, found, isChar, finds, isNull, isFound⟩
      simp only [skipDelimiters, load, isChar, finds, Option.bind_eq_bind, Option.bind_some]
      by_cases delimits : Delimits delims.1 text.1 start
      · have before : start < text.1.length := by
          rcases delimits with ⟨other, _, here⟩
          exact (List.getElem?_eq_some_iff.mp here).1
        rcases hypothesis (by omega : start + 1 ≤ text.1.length) (by omega) with
          ⟨first, lower, upper, skips, skipped, stops⟩
        refine ⟨first, by omega, upper, ?_, ?_, stops⟩
        · rw [if_pos (isFound.mpr delimits), place_succ, skips]
        · intro index above below
          rcases above.eq_or_lt with rfl | further
          · exact delimits
          · exact skipped index further below
      · refine ⟨start, le_rfl, inside, ?_, fun index above below =>
          absurd below (by omega), delimits⟩
        rw [if_neg (fun isSome => delimits (isFound.mp isSome))]
        rfl

/-- The characters of a token are skipped. -/
theorem skipToken_eq (isString : StringAt memory str text) (delimsAt : StringAt memory delim delims)
    (inside : start ≤ text.1.length) (enough : text.1.length - start + delims.1.length + 1 < fuel) :
    ∃ last, start ≤ last ∧ last ≤ text.1.length ∧
      skipToken memory delim fuel (place str start) = some (place str last) ∧
      (∀ index, start ≤ index → index < last → ¬ Delimits delims.1 text.1 index) ∧
      (last = text.1.length ∨ Delimits delims.1 text.1 last) := by
  induction fuel generalizing start with
  | zero => omega
  | succ fuel hypothesis =>
      rcases strchr_text isString delimsAt inside (by omega : delims.1.length < fuel) with
        ⟨char, found, isChar, finds, isNull, isFound⟩
      simp only [skipToken, load, isChar, finds, Option.bind_eq_bind, Option.bind_some]
      by_cases goesOn : found.isNone ∧ char ≠ 0
      · have unmarked : ¬ Delimits delims.1 text.1 start := by
          rw [← isFound]
          simpa using goesOn.1
        have before : start ≠ text.1.length := fun same => goesOn.2 (isNull.mpr same)
        rcases hypothesis (by omega : start + 1 ≤ text.1.length) (by omega) with
          ⟨last, lower, upper, skips, skipped, stops⟩
        refine ⟨last, by omega, upper, ?_, ?_, stops⟩
        · rw [if_pos goesOn, place_succ, skips]
        · intro index above below
          rcases above.eq_or_lt with rfl | further
          · exact unmarked
          · exact skipped index further below
      · refine ⟨start, le_rfl, inside, ?_, fun index above below => absurd below (by omega), ?_⟩
        · rw [if_neg goesOn]
          rfl
        · rw [not_and_or] at goesOn
          rcases goesOn with isSome | null
          · exact .inr (isFound.mp (Option.isNone_eq_false_iff.mp (Bool.eq_false_iff.mpr isSome)))
          · exact .inl (isNull.mp (by simpa using null))

/-- A call with the saved pointer skips the delimiters and returns what comes behind them. -/
theorem strtokR_eq (isString : StringAt memory str text) (delimsAt : StringAt memory delim delims)
    (inside : start ≤ text.1.length) (enough : text.1.length + delims.1.length + 1 < fuel) :
    ∃ first last, start ≤ first ∧ first ≤ last ∧ last ≤ text.1.length ∧
      strtokR fuel memory none delim (place str start) =
        some (if first = text.1.length then none else some (place str first), place str last) ∧
      (∀ index, start ≤ index → index < first → Delimits delims.1 text.1 index) ∧
      ¬ Delimits delims.1 text.1 first ∧
      (∀ index, first ≤ index → index < last → ¬ Delimits delims.1 text.1 index) ∧
      (last = text.1.length ∨ Delimits delims.1 text.1 last) := by
  have remaining : ∀ index, text.1.length - index + delims.1.length + 1 < fuel :=
    fun index => by omega
  rcases skipDelimiters_eq isString delimsAt inside (remaining start) with
    ⟨first, lower, bound, skips, skipped, unmarked⟩
  rcases skipToken_eq isString delimsAt bound (remaining first) with
    ⟨last, lower', bound', skips', skipped', stops⟩
  rcases isString.zero_iff bound with ⟨char, isChar, isNull⟩
  refine ⟨first, last, lower, lower', bound', ?_, skipped, unmarked, skipped', stops⟩
  simp only [strtokR, skips, skips', load, isChar, Option.bind_eq_bind, Option.bind_some, isNull,
    pure]

/-! ## A sequence of calls -/

/-- The results of a first call with the given string, or with null, and of calls with null after
it. -/
def strtokSequence (fuel : ℕ) (memory : MappedBytes) (delim : ByteAddress) :
    Option ByteAddress → ByteAddress → ℕ → Option (Option ByteAddress)
  | str, saved, 0 => (strtokR fuel memory str delim saved).map Prod.fst
  | str, saved, call + 1 =>
      (strtokR fuel memory str delim saved).bind (fun answer =>
        strtokSequence fuel memory delim none answer.2 call)

/-- The place where a token starts, and the one behind it. -/
def IsToken (delims text : List UInt8) (token : ℕ × ℕ) : Prop :=
  MaximalRun (Delimits delims text) text.length token.1 token.2

/-- The calls return the tokens in order, each with a null behind it, and then null. -/
def Tokenizes (memory : MappedBytes) (str : ByteAddress) (delims text : List UInt8)
    (results : ℕ → Option (Option ByteAddress)) : Prop :=
  ∃ tokens : List (ℕ × ℕ), tokens.Pairwise (fun first second => first.2 ≤ second.1) ∧
    (∀ token, token ∈ tokens ↔ IsToken delims text token) ∧
    (∀ call, results call = some ((tokens[call]?).map fun token => place str token.1)) ∧
    ∀ token ∈ tokens, memory (place str token.2) = some 0

/-- Where only delimiters are left, every call returns null. -/
theorem strtokSequence_none (isString : StringAt memory str text)
    (delimsAt : StringAt memory delim delims)
    (inside : start ≤ text.1.length) (enough : text.1.length + delims.1.length + 1 < fuel)
    (rest : ∀ index, start ≤ index → index < text.1.length → Delimits delims.1 text.1 index)
    (call : ℕ) :
    strtokSequence fuel memory delim none (place str start) call = some none := by
  induction call generalizing start with
  | zero =>
      rcases strtokR_eq isString delimsAt inside enough with
        ⟨first, last, lower, upper, bound, call, -, unmarked, -⟩
      have atEnd : first = text.1.length := by
        by_contra before
        exact unmarked (rest first lower (by omega))
      rw [strtokSequence, call, if_pos atEnd, Option.map_some]
  | succ call hypothesis =>
      rcases strtokR_eq isString delimsAt inside enough with
        ⟨first, last, lower, upper, bound, answers, -⟩
      rw [strtokSequence, answers, Option.bind_some]
      exact hypothesis bound fun index above below => rest index (by omega) below

/-- The calls with the saved pointer return the starts of the tokens from there on. -/
theorem strtokSequence_starts (isString : StringAt memory str text)
    (delimsAt : StringAt memory delim delims)
    (inside : start ≤ text.1.length) (enough : text.1.length + delims.1.length + 1 < fuel)
    (between : start = 0 ∨ start = text.1.length ∨ Delimits delims.1 text.1 start) :
    ∃ tokens : List (ℕ × ℕ), tokens.Pairwise (fun first second => first.2 ≤ second.1) ∧
      (∀ token, token ∈ tokens ↔ start ≤ token.1 ∧ IsToken delims.1 text.1 token) ∧
      ∀ call, strtokSequence fuel memory delim none (place str start) call =
        some ((tokens[call]?).map fun token => place str token.1) := by
  induction isRest : text.1.length - start using Nat.strong_induction_on generalizing start with
  | _ remaining hypothesis =>
    subst isRest
    rcases strtokR_eq isString delimsAt inside enough with
      ⟨first, last, lower, upper, bound, answers, skipped, unmarked, free, stops⟩
    by_cases atEnd : first = text.1.length
    · subst atEnd
      refine ⟨[], .nil, fun token => ?_, fun call => ?_⟩
      · simp only [List.not_mem_nil, false_iff, not_and]
        intro above isToken
        have nonempty := isToken.nonempty
        have short := isToken.inside
        exact isToken.free token.1 le_rfl nonempty (skipped token.1 above (by omega))
      · rw [strtokSequence_none isString delimsAt inside enough skipped]
        rfl
    · have further : first < last := by
        rcases upper.lt_or_eq with less | same
        · exact less
        · rcases stops with ended | marked
          · omega
          · exact absurd (same ▸ marked) unmarked
      have isToken : IsToken delims.1 text.1 (first, last) := by
        refine ⟨further, bound, free, ?_, stops⟩
        by_cases same : first = start
        · rcases between with zero | ended | marked
          · exact .inl (same.trans zero)
          · omega
          · exact absurd (same ▸ marked) unmarked
        · exact .inr (skipped (first - 1) (by omega) (by omega))
      rcases hypothesis (text.1.length - last) (by omega) bound (.inr stops) rfl with
        ⟨tokens, sorted, members, starts⟩
      refine ⟨(first, last) :: tokens, ?_, fun token => ?_, fun call => ?_⟩
      · exact List.pairwise_cons.mpr ⟨fun token isLater => ((members token).mp isLater).1, sorted⟩
      · rw [List.mem_cons, members]
        constructor
        · rintro (rfl | ⟨later, isOther⟩)
          · exact ⟨lower, isToken⟩
          · exact ⟨by omega, isOther⟩
        · rintro ⟨above, isOther⟩
          by_cases later : last ≤ token.1
          · exact .inr ⟨later, isOther⟩
          · have nonempty := isOther.nonempty
            have notBefore : first ≤ token.1 := by
              by_contra before
              exact isOther.free token.1 le_rfl nonempty (skipped token.1 above (by omega))
            have same := isOther.eq_of_meets isToken (by omega) (by omega)
            exact .inl (Prod.ext same.1 same.2)
      · cases call with
        | zero =>
            rw [strtokSequence, answers, if_neg atEnd]
            rfl
        | succ call =>
            rw [strtokSequence, answers, Option.bind_some, starts]
            rfl

/-- `strtok_r` tokenises when there is no token.  Without its first call it also does so when there
is one and nothing comes behind it. -/
theorem strtokR_tokenizes_iff (isString : StringAt memory str text)
    (delimsAt : StringAt memory delim delims)
    (enough : text.1.length + delims.1.length + 1 < fuel) :
    (Tokenizes memory str delims.1 text.1 (strtokSequence fuel memory delim (some str) saved) ↔
      ∀ char ∈ text.1, char ∈ delims.1) ∧
    (Tokenizes memory str delims.1 text.1
        (fun call => strtokSequence fuel memory delim (some str) saved (call + 1)) ↔
      ∀ later, Delimits delims.1 text.1 later →
        ∀ index < later, Delimits delims.1 text.1 index) := by
  have marked_iff : ∀ index, ∀ inside : index < text.1.length,
      (Delimits delims.1 text.1 index ↔ text.1[index] ∈ delims.1) := by
    intro index inside
    simp only [Delimits, List.getElem?_eq_getElem inside, Option.some.injEq, exists_eq_right']
  have later : ∀ call, strtokSequence fuel memory delim (some str) saved (call + 1) =
      strtokSequence fuel memory delim none (place str 0) call := by
    intro call
    rw [place_zero]
    rfl
  rcases strtokSequence_starts isString delimsAt (Nat.zero_le _) enough (.inl rfl) with
    ⟨tokens, sorted, members, starts⟩
  simp only [Nat.zero_le, true_and] at members
  refine ⟨⟨?_, ?_⟩, ⟨?_, ?_⟩⟩
  · rintro ⟨listed, -, isListed, results, -⟩ char isChar
    rcases List.getElem_of_mem isChar with ⟨index, inside, rfl⟩
    by_contra other
    rcases MaximalRun.exists_of_unmarked inside (fun marked =>
      other ((marked_iff index inside).mp marked)) with
      ⟨start, stop, -, -, run⟩
    have first := results 0
    simp only [strtokSequence, strtokR, Option.map_some, Option.some.injEq] at first
    have none : listed = [] := by
      rw [eq_comm, Option.map_eq_none_iff, List.getElem?_eq_none_iff] at first
      exact List.length_eq_zero_iff.mp (Nat.le_zero.mp first)
    have mem := (isListed (start, stop)).mpr run
    rw [none] at mem
    exact List.not_mem_nil mem
  · intro all
    have marked : ∀ index, 0 ≤ index → index < text.1.length → Delimits delims.1 text.1 index :=
      fun index _ inside => (marked_iff index inside).mpr (all _ (List.getElem_mem inside))
    refine ⟨[], .nil, fun token => ?_, fun call => ?_, fun token isToken =>
      absurd isToken List.not_mem_nil⟩
    · simp only [List.not_mem_nil, false_iff]
      intro isToken
      have short := isToken.inside
      have nonempty := isToken.nonempty
      exact isToken.free token.1 le_rfl nonempty (marked token.1 (Nat.zero_le _) (by omega))
    · cases call with
      | zero => rfl
      | succ call =>
          rw [later, strtokSequence_none isString delimsAt (Nat.zero_le _) enough marked]
          rfl
  · rintro ⟨listed, -, isListed, -, ended⟩ last marked index before
    by_contra unmarked
    have inside : last < text.1.length := by
      rcases marked with ⟨char, _, here⟩
      exact (List.getElem?_eq_some_iff.mp here).1
    rcases MaximalRun.exists_of_unmarked (by omega : index < text.1.length) unmarked with
      ⟨start, stop, lower, beyond, run⟩
    have null := ended (start, stop) ((isListed (start, stop)).mpr run)
    rcases isString.zero_iff run.inside with ⟨char, isChar, isNull⟩
    rw [isChar, Option.some.injEq, isNull] at null
    exact run.free last (by omega) (by omega) marked
  · intro trailing
    refine ⟨tokens, sorted, members, fun call =>
      (later call).trans (starts call), fun token isListed => ?_⟩
    have run := (members token).mp isListed
    rcases run.behind with atEnd | marked
    · rw [atEnd, isString.null]
    · exact absurd (trailing token.2 marked token.1 run.nonempty)
        (run.free token.1 le_rfl run.nonempty)

/-- Two commas in a row, cut at commas. -/
theorem strtokR_tokenizes_commas :
    Tokenizes (ofBytes [44, 44, 0, 44, 0]) 0 [44] [44, 44]
      (strtokSequence 9 (ofBytes [44, 44, 0, 44, 0]) 3 (some 0) 0) :=
  (@strtokR_tokenizes_iff (ofBytes [44, 44, 0, 44, 0]) 0 3 0 ⟨[44, 44], by decide⟩
    ⟨[44], by decide⟩ 9 (by unfold StringAt; decide +kernel) (by unfold StringAt; decide +kernel)
    (by decide)).1.mpr (by simp)

/-- Two letters with a comma in between, cut at commas: the first call returns null, and the token
that the second call returns is followed by the comma. -/
theorem strtokR_keeps_comma :
    StringAt (ofBytes [97, 44, 98, 0, 44, 0]) 0 ⟨[97, 44, 98], by decide⟩ ∧
    StringAt (ofBytes [97, 44, 98, 0, 44, 0]) 4 ⟨[44], by decide⟩ ∧
    (List.range 4).map (strtokSequence 9 (ofBytes [97, 44, 98, 0, 44, 0]) 4 (some 0) 0) =
      [some none, some (some 0), some (some 2), some none] ∧
    ofBytes [97, 44, 98, 0, 44, 0] (place 0 1) = some 44 ∧
    ¬ Tokenizes (ofBytes [97, 44, 98, 0, 44, 0]) 0 [44] [97, 44, 98]
      (strtokSequence 9 (ofBytes [97, 44, 98, 0, 44, 0]) 4 (some 0) 0) ∧
    ¬ Tokenizes (ofBytes [97, 44, 98, 0, 44, 0]) 0 [44] [97, 44, 98]
      (fun call => strtokSequence 9 (ofBytes [97, 44, 98, 0, 44, 0]) 4 (some 0) 0 (call + 1)) := by
  have marked : Delimits [44] [97, 44, 98] 1 := ⟨44, by decide, rfl⟩
  have unmarked : ¬ Delimits [44] [97, 44, 98] 0 := by
    rintro ⟨char, isDelim, here⟩
    rw [List.mem_singleton] at isDelim
    subst isDelim
    exact absurd here (by decide)
  have token : IsToken [44] [97, 44, 98] (0, 1) :=
    ⟨by decide, by decide, fun index _ below => by rwa [Nat.lt_one_iff.mp below], .inl rfl,
      .inr marked⟩
  refine ⟨by unfold StringAt; decide +kernel, by unfold StringAt; decide +kernel, by decide +kernel,
    by decide +kernel, ?_, ?_⟩
  all_goals
    rintro ⟨tokens, -, members, -, ended⟩
    exact absurd (ended (0, 1) ((members (0, 1)).mpr token)) (by decide +kernel)

end Goshkik.Klibc
