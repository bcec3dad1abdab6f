import Mathlib.Algebra.Group.Int.Defs
import Mathlib.Algebra.Group.Nat.Defs
import Slstatus.Lib.Lines
import Slstatus.Printf

/-! The integer conversions of the scanf family: the number that a text begins with and
what the variable of the conversion receives. -/

namespace Slstatus

def isSpace (c : UInt8) : Bool := c = 32 || (9 ≤ c && c ≤ 13)

inductive Scanned
  | eof
  | mismatch
  | number (z : Int)
  deriving DecidableEq

def digitsValue (digits : Bytes) : Nat := digits.foldl (fun n c => n * 10 + digitValue c) 0

def scanDigits (sign : Int) (s : Bytes) : Scanned :=
  let digits := s.takeWhile isDigit
  if digits = [] then .mismatch else .number (sign * digitsValue digits)

def scanNumber (s : Bytes) : Scanned :=
  match s.dropWhile isSpace with
  | [] => .eof
  | 45 :: s => scanDigits (-1) s
  | 43 :: s => scanDigits 1 s
  | s => scanDigits 1 s

/-- `%ld`, where a number beyond the type becomes the nearest one of the type. -/
def toLong (z : Int) : Int64 := Int64.ofInt (max (-2 ^ 63) (min z (2 ^ 63 - 1)))

/-- `%ju`, where a negative number is taken modulo `2 ^ 64` and one beyond the type
becomes the largest one of the type. -/
def toUintmax (z : Int) : UInt64 :=
  if 2 ^ 64 ≤ z.natAbs then UInt64.ofNat (2 ^ 64 - 1) else UInt64.ofInt z

/-- What a stream delivers before it ends, and whether it ends with a read error. -/
structure File where
  content : Bytes
  error : Bool := false

/-- What `fgets` delivers with room for `size` bytes. A read error takes the line it
interrupts with it. -/
def File.fgetsLines (size : Nat) (f : File) : List Bytes :=
  (Lines.fgetsLines size size f.content).filter
    (fun line => !f.error || decide (Lines.Terminated line) || decide (size ≤ line.length))

/-- `lscanf(fp, key, "%ju kB", &n)`, which rewinds the file at its end. -/
def lscanf (f : File) (key : Bytes) : Option UInt64 :=
  match (f.fgetsLines 255).find? key.isPrefixOf with
  | none => none
  | some line =>
    match scanNumber (line.drop key.length) with
    | .number z => some (toUintmax z)
    | _ => none

example : scanNumber (lit "  2097148 kB\n") = .number 2097148 ∧ toUintmax (-1) = 2 ^ 64 - 1 := by
  decide +kernel

end Slstatus
