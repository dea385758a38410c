import Goshkik.Fs.Bytes
import Goshkik.Klibc.Mem

/-!
# Strings

This file models the functions of `klibc/kmem/string.c` that the kernel measures, copies, searches
and cuts its strings with.  A loop runs as long as its condition holds, for which it takes fuel, and
an access to a byte that is not mapped ends a function with `none`.
-/

namespace Goshkik.Klibc

open MappedBytes

/-! ## Measuring -/

/-- The loop of `strlen`. -/
def strlenFrom (memory : MappedBytes) (s : ByteAddress) : ℕ → SizeT → Option SizeT
  | 0, _ => none
  | fuel + 1, len => do
      let char ← memory.load (s + len)
      if char ≠ 0 then strlenFrom memory s fuel (len + 1) else return len

def strlen (fuel : ℕ) (memory : MappedBytes) (s : ByteAddress) : Option SizeT :=
  strlenFrom memory s fuel 0

/-- The loop of `strnlen`. -/
def strnlenFrom (memory : MappedBytes) (s : ByteAddress) (max : SizeT) : ℕ → SizeT → Option SizeT
  | 0, _ => none
  | fuel + 1, len =>
      if len < max then do
        let char ← memory.load (s + len)
        if char ≠ 0 then strnlenFrom memory s max fuel (len + 1) else return len
      else return len

def strnlen (fuel : ℕ) (memory : MappedBytes) (s : ByteAddress) (max : SizeT) : Option SizeT :=
  strnlenFrom memory s max fuel 0

/-! ## Copying -/

def stpncpy (fuel : ℕ) (dest src : ByteAddress) (n : SizeT) (memory : MappedBytes) :
    Option (ByteAddress × MappedBytes) := do
  let len ← strnlen fuel memory src n
  let (copied, memory) ← memcpy dest src len memory
  memset copied 0 (n - len) memory

def strncpy (fuel : ℕ) (dest src : ByteAddress) (n : SizeT) (memory : MappedBytes) :
    Option (ByteAddress × MappedBytes) := do
  let (_, memory) ← stpncpy fuel dest src n memory
  return (dest, memory)

/-- The first loop of `strlcpy`, with what it leaves in `n`, `dst` and `s`. -/
def strlcpyFrom : ℕ → SizeT → ByteAddress → ByteAddress → MappedBytes →
    Option (SizeT × ByteAddress × ByteAddress × MappedBytes)
  | 0, _, _, _, _ => none
  | fuel + 1, n, dst, s, memory =>
      if n - 1 ≠ 0 then do
        let char ← memory.load s
        let memory ← memory.store dst char
        if char = 0 then return (n - 1, dst + 1, s + 1, memory)
        else strlcpyFrom fuel (n - 1) (dst + 1) (s + 1) memory
      else return (n - 1, dst, s, memory)

/-- The loop `while (*s++)`. -/
def skipString (memory : MappedBytes) : ℕ → ByteAddress → Option ByteAddress
  | 0, _ => none
  | fuel + 1, s => do
      let char ← memory.load s
      if char ≠ 0 then skipString memory fuel (s + 1) else return s + 1

def strlcpy (fuel : ℕ) (dst src : ByteAddress) (size : SizeT) (memory : MappedBytes) :
    Option (SizeT × MappedBytes) := do
  let (n, dst, s, memory) ←
    if size ≠ 0 then strlcpyFrom fuel size dst src memory else some (size, dst, src, memory)
  if n = 0 then
    let memory ← if size ≠ 0 then memory.store dst 0 else some memory
    let s ← skipString memory fuel s
    return (s - src - 1, memory)
  else return (s - src - 1, memory)

def strlcat (fuel : ℕ) (dst src : ByteAddress) (size : SizeT) (memory : MappedBytes) :
    Option (SizeT × MappedBytes) := do
  let dlen ← strnlen fuel memory dst size
  let slen ← strlen fuel memory src
  if dlen = size then return (size + slen, memory)
  else
    let copy := size - dlen - 1
    let copy := if copy > slen then slen else copy
    let (_, memory) ← memcpy (dst + dlen) src copy memory
    let memory ← memory.store (dst + (dlen + copy)) 0
    return (dlen + slen, memory)

/-! ## Searching -/

/-- `strchr`, with `c` converted to `char`. -/
def strchr (memory : MappedBytes) (c : UInt8) : ℕ → ByteAddress → Option (Option ByteAddress)
  | 0, _ => none
  | fuel + 1, s => do
      let char ← memory.load s
      if char ≠ 0 then
        if char = c then return some s else strchr memory c fuel (s + 1)
      else return none

/-- The inner loop of `strstr`, with what it leaves in `n`. -/
def matchFrom (memory : MappedBytes) : ℕ → ByteAddress → ByteAddress → Option ByteAddress
  | 0, _, _ => none
  | fuel + 1, h, n => do
      let haystackChar ← memory.load h
      if haystackChar ≠ 0 then
        let needleChar ← memory.load n
        if needleChar ≠ 0 ∧ haystackChar = needleChar then matchFrom memory fuel (h + 1) (n + 1)
          else return n
      else return n

/-- The outer loop of `strstr`. -/
def strstrFrom (memory : MappedBytes) (needle : ByteAddress) : ℕ → ByteAddress →
    Option (Option ByteAddress)
  | 0, _ => none
  | fuel + 1, haystack => do
      let char ← memory.load haystack
      if char ≠ 0 then
        let n ← matchFrom memory fuel haystack needle
        let ended ← memory.load n
        if ended = 0 then return some haystack else strstrFrom memory needle fuel (haystack + 1)
      else return none

def strstr (fuel : ℕ) (memory : MappedBytes) (haystack needle : ByteAddress) :
    Option (Option ByteAddress) := do
  let first ← memory.load needle
  if first = 0 then return some haystack else strstrFrom memory needle fuel haystack

/-! ## Cutting -/

/-- The first loop of `strtok_r`, over `*save_ptr`.  The test of `save_ptr` comes behind its use. -/
def skipDelimiters (memory : MappedBytes) (delim : ByteAddress) : ℕ → ByteAddress →
    Option ByteAddress
  | 0, _ => none
  | fuel + 1, saved => do
      let char ← memory.load saved
      let found ← strchr memory char fuel delim
      if found.isSome then skipDelimiters memory delim fuel (saved + 1) else return saved

/-- The second loop of `strtok_r`. -/
def skipToken (memory : MappedBytes) (delim : ByteAddress) : ℕ → ByteAddress → Option ByteAddress
  | 0, _ => none
  | fuel + 1, saved => do
      let char ← memory.load saved
      let found ← strchr memory char fuel delim
      if found.isNone ∧ char ≠ 0 then skipToken memory delim fuel (saved + 1) else return saved

/-- `strtok_r`: what it returns, and what it leaves in `*save_ptr`. -/
def strtokR (fuel : ℕ) (memory : MappedBytes) (str : Option ByteAddress)
    (delim saved : ByteAddress) :
    Option (Option ByteAddress × ByteAddress) :=
  match str with
  | some str => some (none, str)
  | none => do
      let ret ← skipDelimiters memory delim fuel saved
      let saved ← skipToken memory delim fuel ret
      let first ← memory.load ret
      return (if first = 0 then none else some ret, saved)

/-! ## What lies in memory -/

/-- A string with its null. -/
def StringAt (memory : MappedBytes) (s : ByteAddress) (text : CString) : Prop :=
  memory.Holds s (text.1 ++ [0])

end Goshkik.Klibc
