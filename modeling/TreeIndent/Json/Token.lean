import TreeIndent.Text.Basic

/-!
# JSON tokens

The tokens of a JSON text. A string token holds the text between its quotes as it is written; any other run of
characters that are neither blanks nor punctuation is a scalar token. Whether such a run is a number or a
word of JSON is decided where the value is read.

The lexer goes through the text once, character by character, so a text of any depth of nesting is cut into
tokens in one fold.
-/

namespace TreeIndent.Json

/-- A token of a JSON text. -/
inductive Token where
  | openBrace
  | closeBrace
  | openBracket
  | closeBracket
  | colon
  | comma
  /-- A string: the text between its quotes. -/
  | string (literal : Text)
  /-- A number or a word. -/
  | scalar (literal : Text)
deriving DecidableEq, Repr

/-- The blanks that may stand between tokens. -/
def isBlank (c : Char) : Bool :=
  c == ' ' || c == '\t' || c == '\n' || c == '\r'

/-- The token that a punctuation character is. -/
def punctuation? : Char → Option Token
  | '\x7b' => some .openBrace
  | '\x7d' => some .closeBrace
  | '[' => some .openBracket
  | ']' => some .closeBracket
  | ':' => some .colon
  | ',' => some .comma
  | _ => none

/-- Whether a character can be part of a scalar token. -/
def isScalarChar (c : Char) : Bool :=
  !isBlank c && c != '"' && (punctuation? c).isNone

/-- What the lexer is in the middle of; the characters seen are kept last first. -/
inductive Mode where
  | between
  | inScalar (seen : Text)
  | inString (seen : Text)
  /-- Inside a string, after a backslash. -/
  | escaped (seen : Text)
deriving DecidableEq, Repr

/-- The lexer: its mode, and the tokens so far, last first. -/
structure Lexer where
  mode : Mode := .between
  tokens : List Token := []
deriving DecidableEq, Repr

namespace Lexer

/-- A character that does not go on with a token. -/
def start (tokens : List Token) (c : Char) : Lexer :=
  if isBlank c then ⟨.between, tokens⟩
  else if c = '"' then ⟨.inString [], tokens⟩
  else
    match punctuation? c with
    | some token => ⟨.between, token :: tokens⟩
    | none => ⟨.inScalar [c], tokens⟩

/-- The lexer after one more character. -/
def next (lexer : Lexer) (c : Char) : Lexer :=
  match lexer.mode with
  | .between => start lexer.tokens c
  | .inScalar seen =>
    if isScalarChar c then ⟨.inScalar (c :: seen), lexer.tokens⟩
    else start (.scalar seen.reverse :: lexer.tokens) c
  | .inString seen =>
    if c = '"' then ⟨.between, .string seen.reverse :: lexer.tokens⟩
    else if c = '\\' then ⟨.escaped (c :: seen), lexer.tokens⟩
    else ⟨.inString (c :: seen), lexer.tokens⟩
  | .escaped seen => ⟨.inString (c :: seen), lexer.tokens⟩

/-- The tokens at the end of the text, where no string may be left open. -/
def finish? (lexer : Lexer) : Option (List Token) :=
  match lexer.mode with
  | .between => some lexer.tokens.reverse
  | .inScalar seen => some (.scalar seen.reverse :: lexer.tokens).reverse
  | .inString _ | .escaped _ => none

end Lexer

/-- The tokens of a text. -/
def tokens? (t : Text) : Option (List Token) :=
  (t.foldl Lexer.next {}).finish?

end TreeIndent.Json
