import Goshkik.Lib.CountedLoop
import Goshkik.Lib.MappedBytes

/-!
# Copying memory

This file models the functions of `klibc/kmem/mem.c` that write memory.  They return the pointer
that they were given, or one behind it, together with the memory they leave.  An access to a byte
that is not mapped is a fault, for which the functions return `none`.

The loops copy one byte after the other, so what `memmove` leaves depends on which byte is
overwritten first.  The lemmas about its two loops therefore ask that no byte of the source is
overwritten before it has been read, and the direction that `memmove` chooses provides for that.
-/

namespace Goshkik.Klibc

open MappedBytes

abbrev SizeT := BitVec 64

/-- `pdest[i] = psrc[i]`. -/
def copyByte (dest src : ByteAddress) (i : ℕ) (memory : MappedBytes) : Option MappedBytes :=
  (memory.load (place src i)).bind (memory.store (place dest i))

def memcpy (dest src : ByteAddress) (n : SizeT) (memory : MappedBytes) :
    Option (ByteAddress × MappedBytes) :=
  (forRange (copyByte dest src) n.toNat memory).map (fun memory => (dest, memory))

def mempcpy (dest src : ByteAddress) (len : SizeT) (memory : MappedBytes) :
    Option (ByteAddress × MappedBytes) :=
  (memcpy dest src len memory).map (fun copied => (copied.1 + len, copied.2))

def memset (s : ByteAddress) (c : ℤ) (n : SizeT) (memory : MappedBytes) :
    Option (ByteAddress × MappedBytes) :=
  (forRange (fun i memory => memory.store (place s i) (UInt8.ofInt c)) n.toNat memory).map
    (fun memory => (s, memory))

def memmove (dest src : ByteAddress) (n : SizeT) (memory : MappedBytes) :
    Option (ByteAddress × MappedBytes) :=
  (if src > dest then forRange (copyByte dest src) n.toNat memory
    else if src < dest then forRange (fun round => copyByte dest src (n.toNat - round - 1)) n.toNat
      memory
    else some memory).map (fun memory => (dest, memory))

variable {memory : MappedBytes} {dest src address : ByteAddress} {n : SizeT} {bytes : List UInt8}
  {byte : UInt8}
  {i : ℕ}

/-! ## One byte -/

theorem store_eq (mapped : (memory address).isSome) (byte : UInt8) :
    memory.store address byte = some (Function.update memory address (some byte)) :=
  if_pos mapped

theorem copyByte_eq (holds : memory (place src i) = some byte)
    (mapped : (memory (place dest i)).isSome) :
    copyByte dest src i memory = some (Function.update memory (place dest i) (some byte)) := by
  rw [copyByte, load, holds, Option.bind_some, store_eq mapped]

/-- A byte that has not been overwritten yet is copied. -/
theorem copyByte_overwrite {start : ByteAddress} {written : List UInt8}
    (holds : memory (place src i) = some byte)
    (mapped : (memory (place dest i)).isSome)
    (unwritten : ¬ Within start written.length (place src i)) :
    copyByte dest src i (memory.overwrite start written) =
      some (Function.update (memory.overwrite start written) (place dest i) (some byte)) := by
  apply copyByte_eq
  · rw [overwrite_of_not_within unwritten, holds]
  · exact overwrite_eq_some_of_isSome mapped

/-! ## The loops -/

/-- From the lowest byte on.  After a number of rounds as many bytes have been put in place. -/
theorem forRange_copyByte (holds : memory.Holds src bytes) (fits : bytes.length ≤ 2 ^ 64)
    (mapped : memory.Mapped dest bytes.length)
    (safe : ∀ i < bytes.length, ¬ Within dest i (place src i)) :
    forRange (copyByte dest src) bytes.length memory = some (memory.overwrite dest bytes) := by
  have rounds := @forRange_spec _ (copyByte dest src) memory
    (fun round state => state = memory.overwrite dest (bytes.take round)) bytes.length
    (by rw [List.take_zero, overwrite_nil]) ?_
  · rcases rounds with ⟨last, loops, rfl⟩
    rw [loops, List.take_length]
  · rintro round below state rfl
    have written : (bytes.take round).length = round := List.length_take_of_le below.le
    refine ⟨_, copyByte_overwrite (holds round below) (mapped round below) ?_, ?_⟩
    · rw [written]
      exact safe round below
    · have next := @update_overwrite memory dest (bytes.take round) bytes[round] (by omega)
      rw [written, List.take_append_getElem below] at next
      exact next

/-- From the highest byte on. -/
theorem forRange_copyByte_down (holds : memory.Holds src bytes)
    (mapped : memory.Mapped dest bytes.length)
    (safe : ∀ i < bytes.length, ¬ Within (place dest (i + 1)) (bytes.length - (i + 1))
      (place src i)) :
    forRange (fun round => copyByte dest src (bytes.length - round - 1)) bytes.length memory =
      some (memory.overwrite dest bytes) := by
  have rounds := @forRange_spec _ (fun round => copyByte dest src (bytes.length - round - 1)) memory
    (fun round state => state =
      memory.overwrite (place dest (bytes.length - round)) (bytes.drop (bytes.length - round)))
        bytes.length
    (by rw [Nat.sub_zero, List.drop_length, overwrite_nil]) ?_
  · rcases rounds with ⟨last, loops, rfl⟩
    rw [loops, Nat.sub_self, List.drop_zero, place_zero]
  · rintro round below state rfl
    obtain ⟨i, isIndex⟩ : ∃ i, bytes.length - round = i + 1 := ⟨bytes.length - round - 1, by omega⟩
    have inside : i < bytes.length := by omega
    rw [isIndex, show i + 1 - 1 = i from rfl, show bytes.length - (round + 1) = i by omega]
    refine ⟨_, copyByte_overwrite (holds i inside) (mapped i inside) ?_, ?_⟩
    · rw [List.length_drop]
      exact safe i inside
    · rw [List.drop_eq_getElem_cons inside, ← place_place dest i 1]
      exact update_overwrite_cons

theorem forRange_store (fits : n.toNat = bytes.length) (same : ∀ other ∈ bytes, other = byte)
    (mapped : memory.Mapped dest bytes.length) :
    forRange (fun i memory => memory.store (place dest i) byte) n.toNat memory =
      some (memory.overwrite dest bytes) := by
  have rounds := @forRange_spec _ (fun i memory => memory.store (place dest i) byte) memory
    (fun round state => state = memory.overwrite dest (bytes.take round)) bytes.length
    (by rw [List.take_zero, overwrite_nil]) ?_
  · rcases rounds with ⟨last, loops, rfl⟩
    rw [fits, loops, List.take_length]
  · rintro round below state rfl
    have written : (bytes.take round).length = round := List.length_take_of_le below.le
    refine ⟨_, store_eq (overwrite_eq_some_of_isSome (mapped round below)) byte, ?_⟩
    have small := n.isLt
    have next := @update_overwrite memory dest (bytes.take round) bytes[round] (by omega)
    rw [written, List.take_append_getElem below] at next
    rw [← next, same _ (List.getElem_mem below)]

/-! ## The functions -/

theorem memcpy_eq (sized : bytes.length = n.toNat) (holds : memory.Holds src bytes)
    (mapped : memory.Mapped dest n.toNat) (apart : Apart src n.toNat dest n.toNat) :
    memcpy dest src n memory = some (dest, memory.overwrite dest bytes) := by
  have small := n.isLt
  rw [← sized] at mapped apart
  have loops := forRange_copyByte holds (by omega) mapped ?_
  · rw [memcpy, ← sized, loops, Option.map_some]
  · intro i inside overwritten
    refine apart (place src i) (within_place inside (by omega)) ?_
    exact lt_trans overwritten inside

theorem mempcpy_eq (sized : bytes.length = n.toNat) (holds : memory.Holds src bytes)
    (mapped : memory.Mapped dest n.toNat) (apart : Apart src n.toNat dest n.toNat) :
    mempcpy dest src n memory = some (dest + n, memory.overwrite dest bytes) := by
  rw [mempcpy, memcpy_eq sized holds mapped apart, Option.map_some]

theorem memset_eq (c : ℤ) (mapped : memory.Mapped dest n.toNat) :
    memset dest c n memory =
      some (dest, memory.overwrite dest (List.replicate n.toNat (UInt8.ofInt c))) := by
  have loops := @forRange_store memory dest n (List.replicate n.toNat (UInt8.ofInt c))
    (UInt8.ofInt c)
    List.length_replicate.symm (fun _ isByte => List.eq_of_mem_replicate isByte)
    (by rwa [List.length_replicate])
  rw [memset, loops, Option.map_some]

theorem memmove_eq (destFits : dest.toNat + n.toNat ≤ 2 ^ 64)
    (srcFits : src.toNat + n.toNat ≤ 2 ^ 64)
    (sized : bytes.length = n.toNat) (holds : memory.Holds src bytes)
    (mapped : memory.Mapped dest n.toNat) :
    memmove dest src n memory = some (dest, memory.overwrite dest bytes) := by
  have small := n.isLt
  rw [← sized] at destFits srcFits mapped
  rw [memmove, ← sized]
  split
  · -- every byte that has been written lies below the one that is read
    rename_i above
    rw [forRange_copyByte holds (by omega) mapped, Option.map_some]
    intro i inside overwritten
    simp only [Within, distance, place] at overwritten
    bv_omega
  · split
    · -- every byte that has been written lies above the one that is read
      rename_i below
      rw [forRange_copyByte_down holds mapped, Option.map_some]
      intro i inside overwritten
      simp only [Within, distance, place] at overwritten
      bv_omega
    · have same : src = dest := by bv_omega
      subst same
      rw [overwrite_of_holds holds, Option.map_some]

/-- `memmove` moves the bytes that were at the source, and no others change, whatever the
overlap. -/
theorem memmove_moves (destFits : dest.toNat + n.toNat ≤ 2 ^ 64)
    (srcFits : src.toNat + n.toNat ≤ 2 ^ 64)
    (readable : memory.Mapped src n.toNat) (writable : memory.Mapped dest n.toNat) :
    ∃ after, memmove dest src n memory = some (dest, after) ∧
      (∀ i < n.toNat, after (place dest i) = memory (place src i)) ∧
      ∀ address, ¬ Within dest n.toNat address → after address = memory address := by
  rcases readable.exists_holds with ⟨bytes, sized, holds⟩
  have small := n.isLt
  refine ⟨_, memmove_eq destFits srcFits sized holds writable, ?_, ?_⟩
  · intro i inside
    rw [← sized] at inside
    rw [holds_overwrite (by omega) i inside, holds i inside]
  · intro address outside
    rw [← sized] at outside
    exact overwrite_of_not_within outside

/-- Four bytes are moved to a place two bytes further on. -/
theorem memmove_moves_up : ∃ after, memmove 2 0 4 (ofBytes [1, 2, 3, 4, 5, 6]) = some (2, after) ∧
    (∀ i < 4, after (place 2 i) = ofBytes [1, 2, 3, 4, 5, 6] (place 0 i)) ∧
    ∀ address, ¬ Within 2 4 address → after address = ofBytes [1, 2, 3, 4, 5, 6] address :=
  @memmove_moves (ofBytes [1, 2, 3, 4, 5, 6]) 2 0 4 (by decide) (by decide) (by decide +kernel)
    (by decide +kernel)

end Goshkik.Klibc
