import TreeIndent.Text.Basic

/-!
# JSON literals

The forms of the scalar literals of JSON, and the characters that a string literal stands for.

- `isNumber`: the number literals. Their size and precision are not limited.
- `isWellEscaped`: the texts that may stand between the quotes of a string literal. An escape of a surrogate
  is well formed by itself.
- `unescape?`: the characters that such a text stands for. A surrogate must be one half of a pair here.
-/

namespace TreeIndent.Json

/-! ## Numbers -/

/-- An exponent, or nothing. -/
def isExponent : Text → Bool
  | [] => true
  | mark :: t =>
    let digits := match t with
      | '+' :: digits => digits
      | '-' :: digits => digits
      | digits => digits
    (mark == 'e' || mark == 'E') && !digits.isEmpty && digits.all Char.isDigit

/-- A fraction and an exponent, either of which may be missing. -/
def isFraction : Text → Bool
  | '.' :: t => !(t.takeWhile Char.isDigit).isEmpty && isExponent (t.dropWhile Char.isDigit)
  | t => isExponent t

/-- A number without its sign: no zero stands before another digit. -/
def isUnsigned : Text → Bool
  | '0' :: t => isFraction t
  | c :: t => c.isDigit && isFraction (t.dropWhile Char.isDigit)
  | [] => false

/-- A number literal. -/
def isNumber : Text → Bool
  | '-' :: t => isUnsigned t
  | t => isUnsigned t

/-! ## Strings -/

/-- The value of a hexadecimal digit. -/
def hexDigit? (c : Char) : Option Nat :=
  if c.isDigit then some (c.toNat - '0'.toNat)
  else if 'a' ≤ c ∧ c ≤ 'f' then some (c.toNat - 'a'.toNat + 10)
  else if 'A' ≤ c ∧ c ≤ 'F' then some (c.toNat - 'A'.toNat + 10)
  else none

/-- The value of four hexadecimal digits. -/
def hexUnit? (a b c d : Char) : Option Nat := do
  return ((← hexDigit? a) * 16 + (← hexDigit? b)) * 256 + ((← hexDigit? c) * 16 + (← hexDigit? d))

/-- The character that a one-letter escape stands for. -/
def shortEscape? : Char → Option Char
  | '"' => some '"'
  | '\\' => some '\\'
  | '/' => some '/'
  | 'b' => some '\x08'
  | 'f' => some '\x0c'
  | 'n' => some '\n'
  | 'r' => some '\r'
  | 't' => some '\t'
  | _ => none

/-- Whether a text may stand between the quotes of a string literal: every backslash starts an escape, and no
control character stands for itself. -/
def isWellEscaped : Text → Bool
  | [] => true
  | '\\' :: 'u' :: a :: b :: c :: d :: t => (hexUnit? a b c d).isSome && isWellEscaped t
  | '\\' :: c :: t => (shortEscape? c).isSome && isWellEscaped t
  | c :: t => c != '\\' && 0x20 ≤ c.toNat && isWellEscaped t

/-- The first half of a surrogate pair. -/
def isHighSurrogate (unit : Nat) : Bool :=
  0xD800 ≤ unit && unit < 0xDC00

/-- The second half of a surrogate pair. -/
def isLowSurrogate (unit : Nat) : Bool :=
  0xDC00 ≤ unit && unit < 0xE000

/-- The character of a surrogate pair. -/
def pairChar (high low : Nat) : Char :=
  Char.ofNat (0x10000 + (high - 0xD800) * 0x400 + (low - 0xDC00))

/-- The characters that the text between the quotes of a string literal stands for. -/
def unescape? : Text → Option Text
  | [] => some []
  | '\\' :: 'u' :: a :: b :: c :: d :: t => do
    let unit ← hexUnit? a b c d
    if isHighSurrogate unit then
      match t with
      | '\\' :: 'u' :: a :: b :: c :: d :: t =>
        let low ← hexUnit? a b c d
        if isLowSurrogate low then return pairChar unit low :: (← unescape? t) else none
      | _ => none
    else if isLowSurrogate unit then none
    else return Char.ofNat unit :: (← unescape? t)
  | '\\' :: c :: t => return (← shortEscape? c) :: (← unescape? t)
  | c :: t => return c :: (← unescape? t)

end TreeIndent.Json
