import Goshkik.Klibc.StringBounds

/-!
# Joining and comparing strings

`strcmp` and `strncmp` return the difference of the first characters that differ, where the null
behind a string counts as a character and the characters as unsigned.  Its sign is the order of the
strings as words.
-/

namespace Goshkik.Klibc

open MappedBytes

/-! ## Joining -/

def stpcpy (fuel : ℕ) (dest src : ByteAddress) (memory : MappedBytes) :
    Option (ByteAddress × MappedBytes) := do
  let len ← strlen fuel memory src
  let (p, memory) ← mempcpy dest src len memory
  let memory ← memory.store p 0
  return (p, memory)

def strcpy (fuel : ℕ) (dest src : ByteAddress) (memory : MappedBytes) :
    Option (ByteAddress × MappedBytes) := do
  let (_, memory) ← stpcpy fuel dest src memory
  return (dest, memory)

def strcat (fuel : ℕ) (dest src : ByteAddress) (memory : MappedBytes) :
    Option (ByteAddress × MappedBytes) := do
  let len ← strlen fuel memory dest
  let (_, memory) ← stpcpy fuel (dest + len) src memory
  return (dest, memory)

/-! ## Comparing -/

/-- Both characters are read in every round, by the condition of the loop or behind it. -/
def strcmp (memory : MappedBytes) : ℕ → ByteAddress → ByteAddress → Option ℤ
  | 0, _, _ => none
  | fuel + 1, a, b => do
      let left ← memory.load a
      let right ← memory.load b
      if left ≠ 0 ∧ left = right then strcmp memory fuel (a + 1) (b + 1)
      else return (left.toNat : ℤ) - right.toNat

def strncmp (memory : MappedBytes) : ℕ → ByteAddress → ByteAddress → SizeT → Option ℤ
  | 0, _, _, _ => none
  | fuel + 1, a, b, n =>
      if n ≠ 0 then do
        let left ← memory.load a
        let right ← memory.load b
        if left ≠ 0 ∧ left = right then strncmp memory fuel (a + 1) (b + 1) (n - 1)
        else return (left.toNat : ℤ) - right.toNat
      else return 0

/-- The difference of the first characters that differ in two texts with a null behind each. -/
def difference : List UInt8 → List UInt8 → ℤ
  | [], [] => 0
  | [], right :: _ => -(right.toNat : ℤ)
  | left :: _, [] => left.toNat
  | left :: lefts, right :: rights =>
      if left = right then difference lefts rights else (left.toNat : ℤ) - right.toNat

variable {memory : MappedBytes} {a b dest src src' other : ByteAddress} {chars others : List UInt8}
  {text text' third : CString} {fuel : ℕ} {n : SizeT}

theorem toNat_pos_iff {char : UInt8} : 0 < char.toNat ↔ char ≠ 0 := by
  rw [Nat.pos_iff_ne_zero, ne_eq, ne_eq, ← UInt8.toNat_inj]
  rfl

theorem difference_neg_iff (noNull : 0 ∉ chars) (noNull' : 0 ∉ others) :
    difference chars others < 0 ↔ chars < others := by
  induction chars generalizing others with
  | nil =>
      cases others with
      | nil => simp [difference]
      | cons right rights =>
          have positive := toNat_pos_iff.mpr (noNull_cons.mp noNull').1
          simp only [difference, List.nil_lt_cons, iff_true]
          omega
  | cons left lefts hypothesis =>
      cases others with
      | nil =>
          simp only [difference, List.not_lt_nil, iff_false]
          omega
      | cons right rights =>
          rw [difference, List.cons_lt_cons_iff]
          by_cases same : left = right
          · rw [if_pos same, hypothesis (noNull_cons.mp noNull).2 (noNull_cons.mp noNull').2]
            simp [same]
          · rw [if_neg same, or_iff_left (fun both => same both.1), UInt8.lt_iff_toNat_lt]
            omega

theorem difference_eq_zero_iff (noNull : 0 ∉ chars) (noNull' : 0 ∉ others) :
    difference chars others = 0 ↔ chars = others := by
  induction chars generalizing others with
  | nil =>
      cases others with
      | nil => simp [difference]
      | cons right rights =>
          have positive := toNat_pos_iff.mpr (noNull_cons.mp noNull').1
          simp only [difference, reduceCtorEq, iff_false]
          omega
  | cons left lefts hypothesis =>
      cases others with
      | nil =>
          have positive := toNat_pos_iff.mpr (noNull_cons.mp noNull).1
          simp only [difference, reduceCtorEq, iff_false]
          omega
      | cons right rights =>
          rw [difference, List.cons.injEq]
          by_cases same : left = right
          · rw [if_pos same, hypothesis (noNull_cons.mp noNull).2 (noNull_cons.mp noNull').2]
            simp [same]
          · have differs : left.toNat ≠ right.toNat := fun equal => same (UInt8.toNat_inj.mp equal)
            rw [if_neg same]
            simp only [same, false_and, iff_false]
            omega

/-- The loop of `strcmp` ends at the first difference. -/
theorem strcmp_eq (left : memory.Holds a (chars ++ [0])) (right : memory.Holds b (others ++ [0]))
    (noNull : 0 ∉ chars) (noNull' : 0 ∉ others) (enough : chars.length < fuel) :
    strcmp memory fuel a b = some (difference chars others) := by
  induction chars generalizing others a b fuel with
  | nil =>
      obtain ⟨fuel, rfl⟩ : ∃ more, fuel = more + 1 := ⟨fuel - 1, by simp at enough; omega⟩
      have first := (holds_cons.mp left).1
      cases others with
      | nil => simp [strcmp, load, first, (holds_cons.mp right).1, difference]
      | cons char chars => simp [strcmp, load, first, (holds_cons.mp right).1, difference]
  | cons char chars hypothesis =>
      obtain ⟨fuel, rfl⟩ : ∃ more, fuel = more + 1 := ⟨fuel - 1, by omega⟩
      rcases holds_cons.mp left with ⟨first, rest⟩
      rcases noNull_cons.mp noNull with ⟨nonzero, noNull⟩
      cases others with
      | nil => simp [strcmp, load, first, (holds_cons.mp right).1, difference]
      | cons char' chars' =>
          rcases holds_cons.mp right with ⟨first', rest'⟩
          rcases noNull_cons.mp noNull' with ⟨nonzero', noNull'⟩
          simp only [strcmp, load, first, first', Option.bind_eq_bind, Option.bind_some, difference]
          by_cases same : char = char'
          · rw [if_pos ⟨nonzero, same⟩, if_pos same, place_one, place_one]
            exact hypothesis rest rest' noNull noNull' (by simpa using enough)
          · rw [if_neg (fun both => same both.2), if_neg same]
            rfl

/-- Two buffers that differ in their first character, or have no other one. -/
theorem difference_beforeNull {char char' : UInt8} {chars' : List UInt8} {count : ℕ}
    (differs : ¬ (char ≠ 0 ∧ char = char')) :
    difference ((beforeNull (char :: chars)).take (count + 1))
      ((beforeNull (char' :: chars')).take (count + 1)) = (char.toNat : ℤ) - char'.toNat := by
  by_cases null : char = 0
  · by_cases null' : char' = 0 <;> simp [beforeNull, null, null', difference]
  · have apart : char ≠ char' := fun same => differs ⟨null, same⟩
    by_cases null' : char' = 0 <;> simp [beforeNull, null, null', difference, apart]

/-- The loop of `strncmp` needs a null only in a buffer with fewer than `n` characters. -/
theorem strncmp_eq (left : memory.Holds a chars) (right : memory.Holds b others)
    (known : 0 ∈ chars ∨ n.toNat ≤ chars.length) (known' : 0 ∈ others ∨ n.toNat ≤ others.length)
    (enough : chars.length < fuel) :
    strncmp memory fuel a b n =
      some (difference ((beforeNull chars).take n.toNat) ((beforeNull others).take n.toNat)) := by
  induction chars generalizing others a b fuel n with
  | nil =>
      obtain ⟨fuel, rfl⟩ : ∃ more, fuel = more + 1 := ⟨fuel - 1, by simp at enough; omega⟩
      obtain rfl : n = 0 := by
        rcases known with null | short
        · cases null
        · exact BitVec.eq_of_toNat_eq (Nat.le_zero.mp short)
      simp [strncmp, difference]
  | cons char chars hypothesis =>
      obtain ⟨fuel, rfl⟩ : ∃ more, fuel = more + 1 := ⟨fuel - 1, by omega⟩
      by_cases ends : n = 0
      · simp [strncmp, ends, difference]
      obtain ⟨count, isCount⟩ : ∃ count, n.toNat = count + 1 := ⟨n.toNat - 1, by bv_omega⟩
      have fewer : (n - 1).toNat = count := by bv_omega
      cases others with
      | nil =>
          rcases known' with null | short
          · cases null
          · rw [isCount] at short
            cases short
      | cons char' chars' =>
          rcases holds_cons.mp left with ⟨first, rest⟩
          rcases holds_cons.mp right with ⟨first', rest'⟩
          simp only [strncmp, load, first, first', Option.bind_eq_bind, Option.bind_some,
            if_pos ends]
          rw [isCount]
          by_cases equal : char ≠ 0 ∧ char = char'
          · rcases equal with ⟨nonzero, rfl⟩
            have later := @hypothesis (a + 1) (b + 1) chars' fuel (n - 1) rest rest'
              (known.imp (fun null => (List.mem_cons.mp null).resolve_left nonzero.symm)
                (fun short => by rw [fewer]; simp at short; omega))
              (known'.imp (fun null => (List.mem_cons.mp null).resolve_left nonzero.symm)
                (fun short => by rw [fewer]; simp at short; omega))
              (by simpa using enough)
            rw [if_pos ⟨nonzero, rfl⟩, later, fewer]
            simp [beforeNull, nonzero, difference]
          · rw [if_neg equal, difference_beforeNull equal]
            rfl

/-! ## Copies -/

/-- The copy ends with a null. -/
theorem stpcpy_eq (isString : StringAt memory src text)
    (writable : memory.Mapped dest (text.1.length + 1))
    (apart : Apart src (text.1.length + 1) dest (text.1.length + 1))
    (enough : text.1.length < fuel) :
    stpcpy fuel dest src memory =
      some (place dest text.1.length, memory.overwrite dest (text.1 ++ [0])) := by
  have small := isString.length_lt
  have len : (BitVec.ofNat 64 text.1.length).toNat = text.1.length := Nat.mod_eq_of_lt small
  have copies := @mempcpy_eq memory dest src (BitVec.ofNat 64 text.1.length) text.1 len.symm
    isString.characters (by rw [len]; exact writable.mono (Nat.le_succ _))
    (by rw [len]; exact apart.mono (Nat.le_succ _) (Nat.le_succ _))
  have stores : (memory.overwrite dest text.1).store (place dest text.1.length) 0 =
      some (memory.overwrite dest (text.1 ++ [0])) := by
    rw [store_eq (overwrite_eq_some_of_isSome (writable _ (Nat.lt_succ_self _))),
      update_overwrite small]
  have here : dest + BitVec.ofNat 64 text.1.length = place dest text.1.length := rfl
  rw [here] at copies
  simp only [stpcpy, strlen_eq isString enough, copies, Option.bind_eq_bind, Option.bind_some,
    stores, pure]

/-- Bytes side by side have none in common. -/
theorem apart_place {index count : ℕ} (fits : index + count ≤ 2 ^ 64) :
    Apart dest index (place dest index) count := by
  intro address within within'
  simp only [Within, distance, place] at within within'
  bv_omega

/-- What `strcpy` and `strcat` leave in a buffer with room for both strings. -/
theorem strcpy_strcat_eq (isFirst : StringAt memory src text)
    (isSecond : StringAt memory src' text')
    (writable : memory.Mapped dest (text.1.length + text'.1.length + 1))
    (apart : Apart src (text.1.length + 1) dest (text.1.length + text'.1.length + 1))
    (apart' : Apart src' (text'.1.length + 1) dest (text.1.length + text'.1.length + 1))
    (enough : text.1.length + text'.1.length + 1 < fuel) :
    ∃ copied after, strcpy fuel dest src memory = some (dest, copied) ∧
      strcat fuel dest src' copied = some (dest, after) ∧
      after.Holds dest (text.1 ++ text'.1 ++ [0]) ∧
      ∀ address, ¬ Within dest (text.1.length + text'.1.length + 1) address →
        after address = memory address := by
  have fits : text'.1.length + 1 + (text.1.length + text'.1.length + 1) ≤ 2 ^ 64 :=
    apart'.add_le (Nat.succ_pos _) (Nat.succ_pos _)
  have copies := stpcpy_eq isFirst (writable.mono (by omega))
    (apart.mono (Nat.le_refl _) (by omega)) (by omega : text.1.length < fuel)
  generalize isCopied : memory.overwrite dest (text.1 ++ [0]) = copied at copies
  have sized : (text.1 ++ [0]).length = text.1.length + 1 := List.length_append
  have sized' : (text'.1 ++ [0]).length = text'.1.length + 1 := List.length_append
  have copy : StringAt copied dest text := by
    rw [← isCopied]
    exact holds_overwrite (by rw [sized]; omega)
  have source : StringAt copied src' text' := by
    rw [← isCopied]
    refine Holds.overwrite isSecond (by rw [sized']; omega) ?_
    rw [sized, sized']
    exact apart'.mono (Nat.le_refl _) (by omega)
  have room : copied.Mapped (place dest text.1.length) (text'.1.length + 1) := by
    rw [← isCopied]
    exact mapped_overwrite (Mapped.drop (by rwa [← Nat.add_assoc]))
  have behind : Apart src' (text'.1.length + 1) (place dest text.1.length)
      (text'.1.length + 1) := by
    intro address within within'
    exact apart' address within ((within'.of_place (by omega)).mono (by omega))
  have appends := stpcpy_eq source room behind (by omega : text'.1.length < fuel)
  have measured := strlen_eq copy (by omega : text.1.length < fuel)
  have here : dest + BitVec.ofNat 64 text.1.length = place dest text.1.length := rfl
  refine ⟨copied, copied.overwrite (place dest text.1.length) (text'.1 ++ [0]), ?_, ?_, ?_, ?_⟩
  · simp only [strcpy, copies, Option.bind_eq_bind, Option.bind_some, pure]
  · simp only [strcat, measured, here, appends, Option.bind_eq_bind, Option.bind_some, pure]
  · rw [List.append_assoc]
    refine holds_append.mpr ⟨?_, holds_overwrite (by rw [sized']; omega)⟩
    exact copy.characters.overwrite (by omega) (apart_place (by rw [sized']; omega))
  · intro address outside
    rw [overwrite_of_not_within, ← isCopied, overwrite_of_not_within]
    · rw [sized]
      exact fun within => outside (within.mono (by omega))
    · rw [sized']
      exact fun within => outside ((within.of_place (by omega)).mono (by omega))

/-- The order of the joined string and any other one, as a whole and in the first characters. -/
theorem strcat_strcmp_ordered (isFirst : StringAt memory src text)
    (isSecond : StringAt memory src' text') (isThird : StringAt memory other third)
    (writable : memory.Mapped dest (text.1.length + text'.1.length + 1))
    (apart : Apart src (text.1.length + 1) dest (text.1.length + text'.1.length + 1))
    (apart' : Apart src' (text'.1.length + 1) dest (text.1.length + text'.1.length + 1))
    (apart'' : Apart other (third.1.length + 1) dest (text.1.length + text'.1.length + 1))
    (enough : text.1.length + text'.1.length + 1 < fuel) :
    ∃ copied after, strcpy fuel dest src memory = some (dest, copied) ∧
      strcat fuel dest src' copied = some (dest, after) ∧
      after.Holds dest (text.1 ++ text'.1 ++ [0]) ∧
      (∀ address, ¬ Within dest (text.1.length + text'.1.length + 1) address →
        after address = memory address) ∧
      (∃ result, strcmp after fuel dest other = some result ∧
        (result < 0 ↔ text.1 ++ text'.1 < third.1) ∧
        (result = 0 ↔ text.1 ++ text'.1 = third.1)) ∧
      ∀ n : SizeT, ∃ result, strncmp after fuel dest other n = some result ∧
        (result < 0 ↔ (text.1 ++ text'.1).take n.toNat < third.1.take n.toNat) ∧
        (result = 0 ↔ (text.1 ++ text'.1).take n.toNat = third.1.take n.toNat) := by
  rcases strcpy_strcat_eq isFirst isSecond writable apart apart' enough with
    ⟨copied, after, copies, appends, joined, others⟩
  have stays : StringAt after other third := by
    intro index inside
    rw [others, isThird index inside]
    have small := isThird.length_lt
    have bound : index < third.1.length + 1 := by simpa using inside
    exact apart'' _ (within_place bound (by omega))
  have noNull : 0 ∉ text.1 ++ text'.1 := by
    rw [List.mem_append, not_or]
    exact ⟨text.2, text'.2⟩
  have taken : ∀ (chars : List UInt8) (n : ℕ), 0 ∉ chars → 0 ∉ chars.take n :=
    fun chars n none mem => none (List.mem_of_mem_take mem)
  refine ⟨copied, after, copies, appends, joined, others, ?_, fun n => ?_⟩
  · refine ⟨_, strcmp_eq joined stays noNull third.2 ?_, difference_neg_iff noNull third.2,
      difference_eq_zero_iff noNull third.2⟩
    rw [List.length_append]
    omega
  · have loop := @strncmp_eq after dest other _ _ fuel n joined stays
      (.inl (List.mem_append_right _ List.mem_cons_self))
      (.inl (List.mem_append_right _ List.mem_cons_self))
      (by simp only [List.length_append, List.length_singleton]; omega)
    rw [beforeNull_string ⟨_, noNull⟩, beforeNull_string third] at loop
    exact ⟨_, loop, difference_neg_iff (taken _ _ noNull) (taken _ _ third.2),
      difference_eq_zero_iff (taken _ _ noNull) (taken _ _ third.2)⟩

/-- A character above 127 comes behind a letter. -/
theorem strcat_strcmp_ordered_unsigned : ∃ copied after,
    strcpy 9 8 0 (ofBytes [97, 0, 98, 0, 97, 200, 0, 7, 7, 7, 7]) = some (8, copied) ∧
      strcat 9 8 2 copied = some (8, after) ∧ after.Holds 8 [97, 98, 0] ∧
      ∃ result, strcmp after 9 8 4 = some result ∧ result < 0 := by
  rcases @strcat_strcmp_ordered (ofBytes [97, 0, 98, 0, 97, 200, 0, 7, 7, 7, 7]) 8 0 2 4
    ⟨[97], by decide⟩ ⟨[98], by decide⟩ ⟨[97, 200], by decide⟩ 9
    (by unfold StringAt; decide +kernel) (by unfold StringAt; decide +kernel)
    (by unfold StringAt; decide +kernel) (by decide +kernel)
    (apart_of_le (by decide) (by decide)) (apart_of_le (by decide) (by decide))
    (apart_of_le (by decide) (by decide)) (by decide) with
    ⟨copied, after, copies, appends, joined, _, ⟨result, compares, isLess, _⟩, _⟩
  exact ⟨copied, after, copies, appends, joined, result, compares, isLess.mpr (by decide)⟩

end Goshkik.Klibc
