import Mathlib.Data.BitVec
import Mathlib.Data.List.Basic
import Mathlib.Logic.Function.Basic

/-!
# Mapped bytes behind 64-bit addresses

A memory maps some addresses to bytes.  A load or a store at any other address is a fault, so a
program that succeeds in a memory which maps a few bytes only has not touched any other byte.
Addresses are added modulo `2 ^ 64`, and an index into an object is turned into an address by
`place`.

The bytes of an object are a list: `Holds` says that the list lies at an address, and `overwrite`
is the memory after a list has been put there.
-/

abbrev ByteAddress := BitVec 64

/-- The bytes that are mapped. -/
abbrev MappedBytes := ByteAddress → Option UInt8

namespace MappedBytes

variable {memory other : MappedBytes} {base address : ByteAddress} {bytes more : List UInt8}
  {byte : UInt8}
  {index count : ℕ}

def load (memory : MappedBytes) (address : ByteAddress) : Option UInt8 := memory address

def store (memory : MappedBytes) (address : ByteAddress) (byte : UInt8) : Option MappedBytes :=
  if (memory address).isSome then some (Function.update memory address (some byte)) else none

/-- The address of an element of an array of bytes. -/
def place (base : ByteAddress) (index : ℕ) : ByteAddress := base + BitVec.ofNat 64 index

/-- How far an address lies behind the start of an object. -/
def distance (base address : ByteAddress) : ℕ := (address - base).toNat

/-- The address is one of the bytes of an object. -/
def Within (base : ByteAddress) (count : ℕ) (address : ByteAddress) : Prop :=
  distance base address < count

instance (base : ByteAddress) (count : ℕ) (address : ByteAddress) :
    Decidable (Within base count address) :=
  inferInstanceAs (Decidable (_ < _))

/-- Two objects have no byte in common. -/
def Apart (base : ByteAddress) (count : ℕ) (base' : ByteAddress) (count' : ℕ) : Prop :=
  ∀ address, Within base count address → ¬ Within base' count' address

/-- The bytes at an address. -/
def Holds (memory : MappedBytes) (base : ByteAddress) (bytes : List UInt8) : Prop :=
  ∀ index, ∀ inside : index < bytes.length, memory (place base index) = some bytes[index]

/-- All bytes of an object are mapped. -/
def Mapped (memory : MappedBytes) (base : ByteAddress) (count : ℕ) : Prop :=
  ∀ index < count, (memory (place base index)).isSome

/-- The memory after bytes have been put at an address. -/
def overwrite (memory : MappedBytes) (base : ByteAddress) (bytes : List UInt8) : MappedBytes :=
  fun address => (bytes[distance base address]?).or (memory address)

instance (memory : MappedBytes) (base : ByteAddress) (bytes : List UInt8) :
    Decidable (memory.Holds base bytes) :=
  inferInstanceAs (Decidable (∀ index, ∀ _ : index < bytes.length, _))

instance (memory : MappedBytes) (base : ByteAddress) (count : ℕ) :
    Decidable (memory.Mapped base count) :=
  inferInstanceAs (Decidable (∀ index < count, _))

/-- A memory that maps a few bytes from address zero on. -/
def ofBytes (bytes : List UInt8) : MappedBytes := overwrite (fun _ => none) 0 bytes

/-! ## Addresses -/

@[simp]
theorem place_zero (base : ByteAddress) : place base 0 = base := by simp [place]

theorem place_place (base : ByteAddress) (first second : ℕ) :
    place (place base first) second = place base (first + second) := by
  simp only [place, BitVec.ofNat_add, BitVec.add_assoc]

theorem place_succ (base : ByteAddress) (index : ℕ) :
    place base index + 1 = place base (index + 1) := by
  rw [← place_place base index 1]
  rfl

theorem place_one (base : ByteAddress) : base + 1 = place base 1 := rfl

/-- Addresses come again behind the last one. -/
theorem place_add_period (base : ByteAddress) (index : ℕ) :
    place base (index + 2 ^ 64) = place base index := by
  simp only [place]
  bv_omega

theorem distance_place (base : ByteAddress) (small : index < 2 ^ 64) :
    distance base (place base index) = index := by
  simp only [distance, place]
  bv_omega

theorem place_distance (base address : ByteAddress) :
    place base (distance base address) = address := by
  simp only [distance, place]
  bv_omega

theorem within_place (inside : index < count) (small : index < 2 ^ 64) :
    Within base count (place base index) := by
  rw [Within, distance_place base small]
  exact inside

/-- Elements of one array have different addresses. -/
theorem place_inj {first second : ℕ} (firstSmall : first < 2 ^ 64) (secondSmall : second < 2 ^ 64)
    (same : place base first = place base second) : first = second := by
  rw [← distance_place base firstSmall, same, distance_place base secondSmall]

theorem Within.mono {larger : ℕ} (within : Within base count address) (smaller : count ≤ larger) :
    Within base larger address :=
  Nat.lt_of_lt_of_le within smaller

/-- The bytes of an object from some byte on. -/
theorem Within.of_place (within : Within (place base index) count address)
    (fits : index + count ≤ 2 ^ 64) :
    Within base (index + count) address := by
  simp only [Within, distance, place] at within ⊢
  bv_omega

theorem Apart.mono {base' : ByteAddress} {larger larger' count' : ℕ}
    (apart : Apart base larger base' larger')
    (smaller : count ≤ larger) (smaller' : count' ≤ larger') : Apart base count base' count' :=
  fun address within within' => apart address (within.mono smaller) (within'.mono smaller')

theorem apart_of_le {base' : ByteAddress} {count' : ℕ} (before : base.toNat + count ≤ base'.toNat)
    (fits : base'.toNat + count' ≤ 2 ^ 64) : Apart base count base' count' := by
  intro address within within'
  simp only [Within, distance] at within within'
  bv_omega

/-- Two objects that have no byte in common fit into the address space side by side. -/
theorem Apart.add_le {base' : ByteAddress} {count' : ℕ} (apart : Apart base count base' count')
    (positive : 0 < count) (positive' : 0 < count') : count + count' ≤ 2 ^ 64 := by
  have first := apart base (by simpa [Within, distance] using positive)
  have second : ¬ Within base count base' := fun within =>
    apart base' within (by simpa [Within, distance] using positive')
  simp only [Within, distance] at first second
  bv_omega

/-! ## Objects -/

theorem holds_nil : memory.Holds base [] := fun _ inside => absurd inside (Nat.not_lt_zero _)

theorem holds_cons : memory.Holds base (byte :: bytes) ↔
    memory base = some byte ∧ memory.Holds (place base 1) bytes := by
  constructor
  · intro holds
    have first := holds 0 (Nat.succ_pos _)
    rw [place_zero] at first
    refine ⟨first, fun index inside => ?_⟩
    rw [place_place, Nat.add_comm 1 index]
    exact holds (index + 1) (Nat.succ_lt_succ inside)
  · rintro ⟨first, rest⟩ index inside
    cases index with
    | zero =>
        rw [place_zero]
        exact first
    | succ index =>
        have next := rest index (Nat.lt_of_succ_lt_succ inside)
        rw [place_place, Nat.add_comm 1 index] at next
        exact next

theorem holds_append : memory.Holds base (bytes ++ more) ↔
    memory.Holds base bytes ∧ memory.Holds (place base bytes.length) more := by
  induction bytes generalizing base with
  | nil => simp [holds_nil]
  | cons byte bytes hypothesis =>
      rw [List.cons_append, holds_cons, holds_cons, hypothesis, place_place, List.length_cons,
        Nat.add_comm 1, and_assoc]

theorem Holds.drop (holds : memory.Holds base bytes) (inside : index ≤ bytes.length) :
    memory.Holds (place base index) (bytes.drop index) := by
  rw [← List.take_append_drop index bytes, holds_append, List.length_take_of_le inside] at holds
  exact holds.2

theorem Holds.take (holds : memory.Holds base bytes) (index : ℕ) :
    memory.Holds base (bytes.take index) := by
  rw [← List.take_append_drop index bytes, holds_append] at holds
  exact holds.1

theorem Holds.mapped (holds : memory.Holds base bytes) : memory.Mapped base bytes.length :=
  fun index inside => by rw [holds index inside, Option.isSome_some]

/-- Mapped bytes are the bytes of a list. -/
theorem Mapped.exists_holds (mapped : memory.Mapped base count) :
    ∃ bytes, bytes.length = count ∧ memory.Holds base bytes := by
  refine ⟨(List.range count).map fun index => (memory (place base index)).getD 0, by simp, ?_⟩
  intro index inside
  have small : index < count := by simpa using inside
  rcases Option.isSome_iff_exists.mp (mapped index small) with ⟨byte, isByte⟩
  simp [isByte]

theorem Mapped.drop (mapped : memory.Mapped base (index + count)) :
    memory.Mapped (place base index) count := by
  intro later inside
  rw [place_place]
  exact mapped _ (Nat.add_lt_add_left inside index)

theorem Mapped.mono {larger : ℕ} (mapped : memory.Mapped base larger) (smaller : count ≤ larger) :
    memory.Mapped base count :=
  fun index inside => mapped index (Nat.lt_of_lt_of_le inside smaller)

/-! ## Overwriting -/

theorem overwrite_place (small : index < 2 ^ 64) : memory.overwrite base bytes (place base index) =
    (bytes[index]?).or (memory (place base index)) := by
  rw [overwrite, distance_place base small]

theorem overwrite_of_not_within (outside : ¬ Within base bytes.length address) :
    memory.overwrite base bytes address = memory address := by
  rw [overwrite, List.getElem?_eq_none (Nat.not_lt.mp outside), Option.none_or]

@[simp]
theorem overwrite_nil (memory : MappedBytes) (base : ByteAddress) :
    memory.overwrite base [] = memory := by
  funext address
  rfl

/-- Bytes that are there already are put there. -/
theorem overwrite_of_holds (holds : memory.Holds base bytes) :
    memory.overwrite base bytes = memory := by
  funext address
  by_cases inside : Within base bytes.length address
  · have here := holds (distance base address) inside
    rw [place_distance] at here
    rw [overwrite, List.getElem?_eq_getElem inside, Option.some_or, here]
  · exact overwrite_of_not_within inside

theorem holds_overwrite (fits : bytes.length ≤ 2 ^ 64) :
    (memory.overwrite base bytes).Holds base bytes := by
  intro index inside
  rw [overwrite_place (Nat.lt_of_lt_of_le inside fits), List.getElem?_eq_getElem inside,
    Option.some_or]

/-- What is put elsewhere leaves an object alone. -/
theorem Holds.overwrite {start : ByteAddress} (holds : memory.Holds base bytes)
    (fits : bytes.length ≤ 2 ^ 64)
    (apart : Apart base bytes.length start more.length) :
    (memory.overwrite start more).Holds base bytes := by
  intro index inside
  rw [overwrite_of_not_within (apart _ (within_place inside (Nat.lt_of_lt_of_le inside fits)))]
  exact holds index inside

theorem mapped_overwrite {start : ByteAddress} (mapped : memory.Mapped start count) :
    (memory.overwrite base bytes).Mapped start count := by
  intro index inside
  rw [overwrite, Option.isSome_or, mapped index inside, Bool.or_true]

theorem overwrite_eq_some_of_isSome (mapped : (memory address).isSome) :
    (memory.overwrite base bytes address).isSome := by
  rw [overwrite, Option.isSome_or, mapped, Bool.or_true]

/-- Bytes are put there in two parts. -/
theorem overwrite_append (fits : bytes.length + more.length ≤ 2 ^ 64) :
    memory.overwrite base (bytes ++ more) =
      (memory.overwrite base bytes).overwrite (place base bytes.length) more := by
  funext address
  simp only [overwrite]
  by_cases first : distance base address < bytes.length
  · have behind : more.length ≤ distance (place base bytes.length) address := by
      simp only [distance, place] at first ⊢
      bv_omega
    rw [List.getElem?_append_left first, List.getElem?_eq_none behind, Option.none_or]
  · have further : distance base address =
      bytes.length + distance (place base bytes.length) address := by
      simp only [distance, place] at first ⊢
      bv_omega
    rw [List.getElem?_append_right (Nat.not_lt.mp first),
      List.getElem?_eq_none (Nat.not_lt.mp first), Option.none_or, further, Nat.add_sub_cancel_left]

/-- Bytes are put there from the lowest address on. -/
theorem update_overwrite (fits : bytes.length < 2 ^ 64) :
    Function.update (memory.overwrite base bytes) (place base bytes.length) (some byte) =
      memory.overwrite base (bytes ++ [byte]) := by
  funext address
  by_cases here : address = place base bytes.length
  · subst here
    rw [Function.update_self, overwrite_place fits, List.getElem?_concat_length, Option.some_or]
  · rw [Function.update_of_ne here, overwrite, overwrite]
    have elsewhere : distance base address ≠ bytes.length := by
      intro same
      apply here
      rw [← same, place_distance]
    congr 1
    rcases Nat.lt_or_gt_of_ne elsewhere with before | behind
    · rw [List.getElem?_append_left before]
    · rw [List.getElem?_eq_none behind.le, List.getElem?_eq_none]
      rw [List.length_append]
      exact behind

/-- Bytes are put there from the highest address on. -/
theorem update_overwrite_cons :
    Function.update (memory.overwrite (place base 1) bytes) base (some byte) =
      memory.overwrite base (byte :: bytes) := by
  funext address
  by_cases here : address = base
  · subst here
    have none : distance address address = 0 := by simp [distance]
    rw [Function.update_self, overwrite, none]
    rfl
  · rw [Function.update_of_ne here, overwrite, overwrite]
    have behind : distance base address = distance (place base 1) address + 1 := by
      simp only [distance, place] at here ⊢
      bv_omega
    rw [behind, List.getElem?_cons_succ]

/-- A byte in the middle of the bytes that were put there. -/
theorem overwrite_middle (fits : bytes.length < 2 ^ 64) :
    memory.overwrite base (bytes ++ byte :: more) (place base bytes.length) = some byte := by
  rw [overwrite_place fits]
  simp

theorem update_overwrite_middle {old : UInt8} (fits : (bytes ++ old :: more).length ≤ 2 ^ 64) :
    Function.update (memory.overwrite base (bytes ++ old :: more)) (place base bytes.length)
      (some byte) =
      memory.overwrite base (bytes ++ byte :: more) := by
  rw [List.length_append, List.length_cons] at fits
  funext address
  by_cases here : address = place base bytes.length
  · subst here
    rw [Function.update_self, overwrite_middle (by omega)]
  · rw [Function.update_of_ne here, overwrite, overwrite]
    have elsewhere : distance base address ≠ bytes.length := by
      intro same
      apply here
      rw [← same, place_distance]
    congr 1
    rcases Nat.lt_or_gt_of_ne elsewhere with before | behind
    · rw [List.getElem?_append_left before, List.getElem?_append_left before]
    · obtain ⟨later, isLater⟩ : ∃ later, distance base address = bytes.length + (later + 1) :=
        ⟨distance base address - bytes.length - 1, by omega⟩
      rw [isLater, List.getElem?_append_right (by omega), List.getElem?_append_right (by omega),
        Nat.add_sub_cancel_left, List.getElem?_cons_succ, List.getElem?_cons_succ]

end MappedBytes
