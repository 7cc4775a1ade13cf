import TreeIndent.Text.Indentation

/-!
# Patterns for delimiters

Whether a text holds only the characters of a delimiter is asked of a regular expression: a class of white space and
the delimiter's characters, each of them escaped, any number of times. `Patterns` is what is used of the library of
regular expressions. It is known of it how it reads such a class once it has compiled it; that it compiles it is not.
Without a compiled pattern only white space is accepted.

`Patterns.classes` reads the classes that are asked for here and no other patterns.
-/

namespace TreeIndent

/-- How the pattern of a class of white space and more ends. -/
def classEnd : Text :=
  [']', '*', '$']

/-- The pattern of the texts that are made of white space and some characters, however these are escaped. -/
def classPattern (escape : Char → Text) (chars : Text) : Text :=
  ['^', '[', '\\', 's'] ++ (chars.flatMap escape ++ classEnd)

/-- A library of regular expressions. -/
structure Patterns where
  /-- The pattern that stands for one character. -/
  escape : Char → Text
  /-- The test for the texts that a pattern matches, if the pattern compiles. -/
  compile? : Text → Option (Text → Bool)
  /-- A class that compiles matches the texts that are made of it. -/
  test_eq : ∀ (chars : Text) (test : Text → Bool), compile? (classPattern escape chars) = some test →
    ∀ t, test t = t.all fun c => Text.isSpace c || chars.contains c

namespace Patterns

/-- The test for the texts that are made of white space and characters of a delimiter, if its pattern compiles. -/
def delimiterTest? (patterns : Patterns) (delimiter : String) : Option (Text → Bool) :=
  patterns.compile? (classPattern patterns.escape delimiter.toList)

/-- Whether a text holds only white space and characters of a delimiter. Where the pattern of the delimiter does not
compile, the text must be blank. -/
def onlyDelimiter (patterns : Patterns) (delimiter : String) (t : Text) : Bool :=
  match patterns.delimiterTest? delimiter with
  | some test => test t
  | none => t.isBlank

/-- The characters of a delimiter that are looked for: all of them, and none where its pattern does not compile. -/
def charsOf (patterns : Patterns) (delimiter : String) : Text :=
  if (patterns.delimiterTest? delimiter).isSome then delimiter.toList else []

/-- With and without a compiled pattern, a text is looked at one character after the other. -/
theorem onlyDelimiter_eq_all (patterns : Patterns) (delimiter : String) (t : Text) :
    patterns.onlyDelimiter delimiter t
      = t.all fun c => Text.isSpace c || (patterns.charsOf delimiter).contains c := by
  unfold onlyDelimiter charsOf
  cases htest : patterns.delimiterTest? delimiter with
  | some test => exact patterns.test_eq _ test htest t
  | none => simp [Text.isBlank]

theorem onlyDelimiter_append (patterns : Patterns) (delimiter : String) (s t : Text) :
    patterns.onlyDelimiter delimiter (s ++ t)
      = (patterns.onlyDelimiter delimiter s && patterns.onlyDelimiter delimiter t) := by
  simp only [onlyDelimiter_eq_all, List.all_append]

theorem onlyDelimiter_of_isBlank (patterns : Patterns) (delimiter : String) {t : Text} (h : t.isBlank = true) :
    patterns.onlyDelimiter delimiter t = true := by
  rw [onlyDelimiter_eq_all, List.all_eq_true]
  intro c hc
  rw [List.all_eq_true.1 h c hc, Bool.true_or]

/-! ## Classes -/

/-- The characters that mean something in a pattern. -/
def special : List Char :=
  "\\.+*?()|[]\x7b\x7d^$#&-~".toList

/-- A character as it is written in a class. -/
def escapeSpecial (c : Char) : Text :=
  if special.contains c then ['\\', c] else [c]

/-- The characters of a class, read up to the end of its pattern. -/
def readClass? : Text → Option Text
  | [] => none
  | '\\' :: rest =>
    match rest with
    | [] => none
    | c :: rest => (readClass? rest).map (c :: ·)
  | c :: rest =>
    if c :: rest = classEnd then some []
    else if special.contains c then none
    else (readClass? rest).map (c :: ·)

/-- The test for a pattern that is a class of white space and escaped characters. -/
def compileClass? (pattern : Text) : Option (Text → Bool) :=
  if ['^', '[', '\\', 's'].isPrefixOf pattern then
    (readClass? (pattern.drop 4)).map fun chars t => t.all fun c => Text.isSpace c || chars.contains c
  else none

/-- A class that was written is read back. -/
theorem readClass?_written (chars : Text) :
    readClass? (chars.flatMap escapeSpecial ++ classEnd) = some chars := by
  induction chars with
  | nil => rfl
  | cons c chars ih =>
    rw [List.flatMap_cons, List.append_assoc]
    by_cases hspecial : special.contains c = true
    · have hescaped : escapeSpecial c = ['\\', c] := if_pos hspecial
      rw [hescaped]
      exact congrArg (Option.map (c :: ·)) ih
    · have hplain : escapeSpecial c = [c] := if_neg hspecial
      have hbackslash : c ≠ '\\' := by
        rintro rfl
        exact hspecial (by decide)
      have hend : c :: (chars.flatMap escapeSpecial ++ classEnd) ≠ classEnd := by
        intro heq
        have hbracket : c = ']' := (List.cons.inj heq).1
        exact hspecial (by rw [hbracket]; decide)
      rw [hplain, List.singleton_append, readClass?, if_neg hend, if_neg hspecial, ih, Option.map_some]
      exact hbackslash

/-- The pattern of a class compiles to the test for the texts that are made of the class. -/
theorem compileClass?_written (chars : Text) :
    compileClass? (classPattern escapeSpecial chars)
      = some fun t => t.all fun c => Text.isSpace c || chars.contains c := by
  have hstarts : ['^', '[', '\\', 's'].isPrefixOf (classPattern escapeSpecial chars) = true :=
    List.isPrefixOf_iff_prefix.2 (List.prefix_append ..)
  have hread : (classPattern escapeSpecial chars).drop 4 = chars.flatMap escapeSpecial ++ classEnd := rfl
  unfold compileClass?
  rw [if_pos hstarts, hread, readClass?_written, Option.map_some]

/-- The library that knows the classes of white space and escaped characters. -/
def classes : Patterns where
  escape := escapeSpecial
  compile? := compileClass?
  test_eq chars test htest t := by
    rw [compileClass?_written, Option.some.injEq] at htest
    rw [← htest]

/-- It has a pattern for every delimiter, whatever characters the delimiter has. -/
theorem charsOf_classes (delimiter : String) : classes.charsOf delimiter = delimiter.toList := by
  have htest : (classes.delimiterTest? delimiter).isSome = true :=
    Option.isSome_iff_exists.2 ⟨_, compileClass?_written delimiter.toList⟩
  exact if_pos htest

/-- Brackets and dashes stand for themselves. -/
example : classes.onlyDelimiter "]a-z[" " ]- z".toList = true ∧ classes.onlyDelimiter "]a-z[" "b".toList = false := by
  decide

end Patterns

end TreeIndent
