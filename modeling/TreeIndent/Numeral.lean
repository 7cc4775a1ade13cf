import TreeIndent.Text.Basic

/-!
# Decimal numerals

Numbers as they are written in attributes, configuration files and arguments: ASCII digits, any number of
leading zeros, a sign where the reader allows one, and a range that the value must lie in.
-/

namespace TreeIndent.Numeral

/-- The number that a list of digits denotes. -/
def value (digits : Text) : Nat :=
  digits.foldl (fun n c => 10 * n + (c.toNat - '0'.toNat)) 0

/-- One or more ASCII digits. -/
def natural? (t : Text) : Option Nat :=
  if !t.isEmpty && t.all Char.isDigit then some (value t) else none

/-- A natural number with an optional sign before it. -/
def integer? : Text → Option Int
  | '-' :: t => (natural? t).map fun n => -(n : Int)
  | '+' :: t => (natural? t).map Int.ofNat
  | t => (natural? t).map Int.ofNat

/-- An integer of 32 bits with an optional sign. -/
def int32? (t : Text) : Option Int :=
  (integer? t).filter fun n => -2147483648 ≤ n && n ≤ 2147483647

/-- A natural number of 64 bits. -/
def word? (t : Text) : Option UInt64 :=
  (natural? t).bind fun n => if n < UInt64.size then some (UInt64.ofNat n) else none

/-- A natural number of 64 bits, with a plus sign allowed before it. -/
def plusWord? : Text → Option UInt64
  | '+' :: t => word? t
  | t => word? t

end TreeIndent.Numeral
