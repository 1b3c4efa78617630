import Mathlib

/-!
# Strings of C

A string is a sequence of characters other than the zero byte that terminates it.
-/

structure CString where
  chars : List UInt8
  zero_notMem : 0 ∉ chars
deriving DecidableEq

namespace CString

def tolower (c : UInt8) : UInt8 :=
  if 'A'.toUInt8 ≤ c ∧ c ≤ 'Z'.toUInt8 then c + 32 else c

end CString
