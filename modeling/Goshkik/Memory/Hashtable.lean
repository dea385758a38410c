import Mathlib.Data.Finset.Erase
import Mathlib.Data.Finset.Insert
import Mathlib.Logic.Function.Basic
import Goshkik.Lib.Linked

/-!
# The chained hash table

This file models `klibc/kmem/hashtable.c` at the level of its pointers.  An entry
is a record behind an address, the null pointer is `none`, and the buckets are
the array that `hashtable_init` obtains from `kmalloc`.  Reading or writing the
array outside its bounds is a fault, which the operations report as `none`.

The outcomes of `slab_alloc` and `kmalloc` are arguments of the operations, and
so is whatever the slab allocator leaves in an entry it takes back.  `allocated`
records the entries that the slab allocator has handed out.  The loop of
`get_entry` runs on fuel.
-/

namespace Goshkik

def fnv1Prime : UInt64 := 0x100000001b3

def fnv1Offset : UInt64 := 0xcbf29ce484222325

/-- The hash of a byte string. -/
def fnv1ahash (key : List UInt8) : UInt64 :=
  key.foldl (fun hash byte => (hash ^^^ byte.toUInt64) * fnv1Prime) fnv1Offset

/-- An entry of a bucket; `key` is the content of its copy of the key. -/
structure HashEntry (Value : Type) where
  next : Option ℕ
  prev : Option ℕ
  hash : UInt64
  keySize : ℕ
  key : List UInt8
  value : Value

structure Hashtable (Value : Type) where
  entryCount : ℕ
  capacity : UInt64
  entries : List (Option ℕ)
  heap : ℕ → HashEntry Value
  allocated : Finset ℕ

namespace Hashtable

variable {Value : Type}

/-- Update the entry behind a pointer. -/
def modify (table : Hashtable Value) (entry : ℕ)
    (update : HashEntry Value → HashEntry Value) : Hashtable Value :=
  { table with heap := Function.update table.heap entry (update (table.heap entry)) }

/-- Update the entry behind a pointer unless it is null. -/
def modifyIf (table : Hashtable Value) (entry : Option ℕ)
    (update : HashEntry Value → HashEntry Value) : Hashtable Value :=
  match entry with
  | none => table
  | some entry => table.modify entry update

/-- Write a bucket head. -/
def writeBucket (table : Hashtable Value) (offset : ℕ) (head : Option ℕ) :
    Option (Hashtable Value) :=
  if offset < table.entries.length then
    some { table with entries := table.entries.set offset head }
  else none

/-- The slab allocator takes an entry back and leaves `freed` in it. -/
def slabFree (table : Hashtable Value) (entry : ℕ) (freed : HashEntry Value) : Hashtable Value :=
  { table.modify entry (fun _ => freed) with allocated := table.allocated.erase entry }

/-- The index of a hash in the array of buckets. -/
def tableOffset (table : Hashtable Value) (hash : UInt64) : ℕ := (hash % table.capacity).toNat

end Hashtable

variable {Value : Type}

/-- The comparison of `get_entry`. -/
def HashEntry.holds (entry : HashEntry Value) (key : List UInt8) (hash : UInt64) : Bool :=
  entry.keySize == key.length && entry.hash == hash && entry.key.take key.length == key

def getEntry (fuel : ℕ) (table : Hashtable Value) (key : List UInt8) (hash : UInt64) :
    Option (Option ℕ) := do
  let head ← table.entries[table.tableOffset hash]?
  let (_, entry) ← scan (fun entry => (table.heap entry).next)
    (fun entry => (table.heap entry).holds key hash) fuel none head
  return entry

/-- The branch of `hashtable_set` that links a new entry in front of its bucket. -/
def insertEntry (table : Hashtable Value) (value : Value) (key : List UInt8) (hash : UInt64)
    (entry : ℕ) : Option (Hashtable Value) := do
  let head ← table.entries[table.tableOffset hash]?
  let table := table.modify entry (fun _ =>
    { next := head, prev := none, hash := hash, keySize := key.length, key := key, value := value })
  let table := table.modifyIf head (fun next => { next with prev := some entry })
  let table ← table.writeBucket (table.tableOffset hash) (some entry)
  return { table with
    entryCount := table.entryCount + 1
    allocated := insert entry table.allocated }

/-- The result is the returned code with the table afterwards. -/
def hashtableSet (fuel : ℕ) (table : Hashtable Value) (value : Value) (key : List UInt8)
    (slabAlloc : Option ℕ) (kmalloc : Bool) (freed : HashEntry Value) :
    Option (ℤ × Hashtable Value) := do
  let hash := fnv1ahash key
  match ← getEntry fuel table key hash with
  | some entry => return (0, table.modify entry (fun old => { old with value := value }))
  | none =>
      match slabAlloc with
      | none => return (-1, table)
      | some entry =>
          if kmalloc then
            return (0, ← insertEntry table value key hash entry)
          else
            return (-1, table.slabFree entry freed)

/-- The result is the returned code with what `*value` holds afterwards. -/
def hashtableGet (fuel : ℕ) (table : Hashtable Value) (value : Value) (key : List UInt8) :
    Option (ℤ × Value) := do
  let hash := fnv1ahash key
  match ← getEntry fuel table key hash with
  | none => return (-1, value)
  | some entry => return (0, (table.heap entry).value)

/-- The unlinking done by `hashtable_remove`. -/
def unlinkEntry (table : Hashtable Value) (offset entry : ℕ) : Option (Hashtable Value) := do
  let next := (table.heap entry).next
  let prev := (table.heap entry).prev
  let table ←
    match prev with
    | some prev => some (table.modify prev (fun old => { old with next := next }))
    | none => table.writeBucket offset next
  return table.modifyIf next (fun old => { old with prev := prev })

def hashtableRemove (fuel : ℕ) (table : Hashtable Value) (key : List UInt8)
    (freed : HashEntry Value) : Option (ℤ × Hashtable Value) := do
  let hash := fnv1ahash key
  match ← getEntry fuel table key hash with
  | none => return (-1, table)
  | some entry =>
      let table ← unlinkEntry table (table.tableOffset hash) entry
      let table := table.slabFree entry freed
      return (0, { table with entryCount := table.entryCount - 1 })

/-- `kmalloc` says which request sizes the heap serves; `cache` whether the
entry cache exists already and `slabCacheCreate` whether it can be created. -/
def hashtableInit (table : Hashtable Value) (size : UInt64) (cache slabCacheCreate : Bool)
    (kmalloc : UInt64 → Bool) : ℤ × Hashtable Value :=
  if !cache && !slabCacheCreate then (-1, table)
  else
    let table := { table with capacity := size }
    if !kmalloc (size * 8) then (-1, { table with entries := [] })
    else
      (0, { table with
        entries := List.replicate ((size * 8).toNat / 8) none
        entryCount := 0 })

end Goshkik
