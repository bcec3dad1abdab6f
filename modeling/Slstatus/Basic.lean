import Mathlib.Data.List.Basic

/-! Bytes, C strings and the ways a run of the program can go wrong. A C string
is the list of its bytes before the terminator; an array is the list of all its
bytes. -/

namespace Slstatus

abbrev Bytes := List UInt8

def lit (s : String) : Bytes := s.toUTF8.data.toList

/-- What the C standard leaves undefined, where the program can reach it, and a loop
that does not end. -/
inductive Fault
  | divByZero
  | nullPointer
  | outOfBounds
  | undefinedFormat
  | badArraySize
  | endlessLoop
  | unassigned
  | overflow
  deriving DecidableEq, Repr

end Slstatus
