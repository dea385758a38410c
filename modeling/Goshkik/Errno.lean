import Mathlib.Data.Int.Notation

/-!
# Error codes

The codes of `sysroot/usr/include/errno.h` that the modelled functions return.
-/

namespace Goshkik

def eperm : ℤ := 1

def enoent : ℤ := 2

def esrch : ℤ := 3

def eio : ℤ := 5

def echild : ℤ := 10

def eexist : ℤ := 17

def einval : ℤ := 22

def enosys : ℤ := 88

end Goshkik
