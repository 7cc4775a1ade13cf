import TreeIndent.Json.Literal
import TreeIndent.Numeral
import Mathlib.Tactic.Common

/-!
# The grammar of JSON literals

What may stand between the quotes of a string and what may stand for a number, as rules, and what the readers
of literals make of it.

* A character is written as itself, by a letter after a backslash, by four hexadecimal digits, or by the two
  halves of its surrogate pair. Every such spelling is read as the character (`Spelling.unescape?`), and every
  text has one (`spelling_escape`).
* Also an escape of half a surrogate pair may stand in a string that is passed over
  (`StringLiteral.isWellEscaped`).
* A number has a sign, a whole part, a fraction and an exponent (`NumberLiteral.isNumber`). The decimal digits
  of a word of 64 bits are one, and they are read as the word (`word?_decimal`).
-/

namespace TreeIndent.Json

/-! ## Escapes -/

/-- A hexadecimal digit with its value, in small or in capital letters. -/
def HexDigit (c : Char) (value : Nat) : Prop :=
  "0123456789abcdef".toList[value]? = some c ∨ "0123456789ABCDEF".toList[value]? = some c

/-- Four hexadecimal digits with the number that they denote. -/
inductive HexUnit : Text → Nat → Prop where
  | digits {a b c d : Char} {w x y z : Nat} (ha : HexDigit a w) (hb : HexDigit b x) (hc : HexDigit c y)
      (hd : HexDigit d z) : HexUnit [a, b, c, d] (((w * 16 + x) * 16 + y) * 16 + z)

/-- The letters that stand after a backslash for one character, each with that character. -/
def shortEscapes : List (Char × Char) :=
  [('"', '"'), ('\\', '\\'), ('/', '/'), ('b', '\x08'), ('f', '\x0c'), ('n', '\n'), ('r', '\r'), ('t', '\t')]

lemma HexDigit.hexDigit? {c : Char} {value : Nat} (h : HexDigit c value) :
    Json.hexDigit? c = some value := by
  have hsmall : ∀ v < 16, ("0123456789abcdef".toList[v]?).all (fun c => Json.hexDigit? c == some v) := by
    decide
  have hcapital : ∀ v < 16, ("0123456789ABCDEF".toList[v]?).all (fun c => Json.hexDigit? c == some v) := by
    decide
  rcases h with h | h
  · have hlt : value < 16 := (List.getElem?_eq_some_iff.1 h).1
    have hall := hsmall value hlt
    rw [h] at hall
    simpa using hall
  · have hlt : value < 16 := (List.getElem?_eq_some_iff.1 h).1
    have hall := hcapital value hlt
    rw [h] at hall
    simpa using hall

lemma HexDigit.plain {c : Char} {value : Nat} (h : HexDigit c value) : c ≠ '"' ∧ c ≠ '\\' := by
  have hvalue := h.hexDigit?
  constructor
  · rintro rfl
    cases hvalue
  · rintro rfl
    cases hvalue

lemma HexUnit.eq {digits : Text} {value : Nat} (h : HexUnit digits value) :
    ∃ a b c d, digits = [a, b, c, d] ∧ hexUnit? a b c d = some value := by
  cases h with
  | @digits a b c d w x y z ha hb hc hd =>
    refine ⟨a, b, c, d, rfl, ?_⟩
    unfold hexUnit?
    rw [ha.hexDigit?, hb.hexDigit?, hc.hexDigit?, hd.hexDigit?]
    show some ((w * 16 + x) * 256 + (y * 16 + z)) = some (((w * 16 + x) * 16 + y) * 16 + z)
    congr 1
    omega

/-- One way to write a character between the quotes of a string. -/
inductive CharSpelling : Text → Char → Prop where
  /-- The character itself, if it is not a quote, a backslash or a control character. -/
  | plain {c : Char} (hquote : c ≠ '"') (hslash : c ≠ '\\') (hcontrol : 0x20 ≤ c.toNat) : CharSpelling [c] c
  | short {letter c : Char} (h : (letter, c) ∈ shortEscapes) : CharSpelling ['\\', letter] c
  | unit {digits : Text} {c : Char} (h : HexUnit digits c.toNat) : CharSpelling ('\\' :: 'u' :: digits) c
  /-- A character past the first 65536, by the two halves of its surrogate pair. -/
  | pair {high low : Text} {c : Char} (hc : 0x10000 ≤ c.toNat)
      (hhigh : HexUnit high (0xD800 + (c.toNat - 0x10000) / 0x400))
      (hlow : HexUnit low (0xDC00 + (c.toNat - 0x10000) % 0x400)) :
      CharSpelling ('\\' :: 'u' :: high ++ '\\' :: 'u' :: low) c

/-- One way to write some characters between the quotes of a string. -/
inductive Spelling : Text → Text → Prop where
  | nil : Spelling [] []
  | cons {piece literal characters : Text} {c : Char} (hc : CharSpelling piece c)
      (h : Spelling literal characters) : Spelling (piece ++ literal) (c :: characters)

/-- A text between the quotes of a string. Besides the spellings of characters it may have any escape of four
digits, also of half a surrogate pair. -/
inductive StringLiteral : Text → Prop where
  | nil : StringLiteral []
  | character {piece literal : Text} {c : Char} (hc : CharSpelling piece c) (h : StringLiteral literal) :
      StringLiteral (piece ++ literal)
  | unit {digits literal : Text} {value : Nat} (hdigits : HexUnit digits value) (h : StringLiteral literal) :
      StringLiteral ('\\' :: 'u' :: digits ++ literal)

lemma Spelling.stringLiteral {literal characters : Text} (h : Spelling literal characters) :
    StringLiteral literal := by
  induction h with
  | nil => exact .nil
  | cons hc _ ih => exact .character hc ih

lemma isWellEscaped_unit {digits : Text} {value : Nat} (h : HexUnit digits value) (t : Text) :
    isWellEscaped ('\\' :: 'u' :: digits ++ t) = isWellEscaped t := by
  cases h with
  | digits ha hb hc hd =>
    simp [isWellEscaped, hexUnit?, ha.hexDigit?, hb.hexDigit?, hc.hexDigit?, hd.hexDigit?]

lemma shortEscape?_of_mem {letter c : Char} (h : (letter, c) ∈ shortEscapes) :
    shortEscape? letter = some c ∧ letter ≠ 'u' := by
  have hall : ∀ entry ∈ shortEscapes, shortEscape? entry.1 = some entry.2 ∧ entry.1 ≠ 'u' := by decide
  exact hall _ h

lemma isWellEscaped_append {piece : Text} {c : Char} (h : CharSpelling piece c) (t : Text) :
    isWellEscaped (piece ++ t) = isWellEscaped t := by
  cases h with
  | plain hquote hslash hcontrol => simp [isWellEscaped, hslash, hcontrol]
  | @short letter c h =>
    obtain ⟨hletter, hne⟩ := shortEscape?_of_mem h
    simp [isWellEscaped, hletter, hne]
  | unit h => exact isWellEscaped_unit h t
  | pair hc hhigh hlow =>
    rw [List.append_assoc]
    exact (isWellEscaped_unit hhigh _).trans (isWellEscaped_unit hlow t)

lemma StringLiteral.isWellEscaped {literal : Text} (h : StringLiteral literal) :
    Json.isWellEscaped literal = true := by
  induction h with
  | nil => rfl
  | character hc _ ih => rw [isWellEscaped_append hc, ih]
  | unit hdigits _ ih => rw [isWellEscaped_unit hdigits, ih]

/-- A character is not a half of a surrogate pair. -/
lemma not_surrogate (c : Char) : isHighSurrogate c.toNat = false ∧ isLowSurrogate c.toNat = false := by
  have hvalid : c.toNat < 0xD800 ∨ 0xDFFF < c.toNat ∧ c.toNat < 0x110000 := c.valid
  unfold isHighSurrogate isLowSurrogate
  constructor
  · simp; omega
  · simp; omega

lemma isHighSurrogate_add {high : Nat} (h : high < 0x400) : isHighSurrogate (0xD800 + high) = true := by
  unfold isHighSurrogate
  simp only [Bool.and_eq_true, decide_eq_true_eq]
  omega

lemma isLowSurrogate_add {low : Nat} (h : low < 0x400) : isLowSurrogate (0xDC00 + low) = true := by
  unfold isLowSurrogate
  simp only [Bool.and_eq_true, decide_eq_true_eq]
  omega

lemma pairChar_add (high low : Nat) :
    pairChar (0xD800 + high) (0xDC00 + low) = Char.ofNat (0x10000 + high * 0x400 + low) := by
  unfold pairChar
  rw [Nat.add_sub_cancel_left, Nat.add_sub_cancel_left]

/-- The halves of the surrogate pair of a character give it back. -/
lemma pairChar_of_le {c : Char} (hc : 0x10000 ≤ c.toNat) :
    pairChar (0xD800 + (c.toNat - 0x10000) / 0x400) (0xDC00 + (c.toNat - 0x10000) % 0x400) = c := by
  have hnumber : 0x10000 + (c.toNat - 0x10000) / 0x400 * 0x400 + (c.toNat - 0x10000) % 0x400 = c.toNat := by
    omega
  rw [pairChar_add, hnumber, Char.ofNat_toNat]

/-- The two halves of a surrogate pair are read as one character. -/
lemma unescape?_pair {high low : Text} {unit next : Nat} (hunit : HexUnit high unit) (hnext : HexUnit low next)
    (hhigh : isHighSurrogate unit = true) (hlow : isLowSurrogate next = true) (t : Text) :
    unescape? ('\\' :: 'u' :: high ++ '\\' :: 'u' :: low ++ t) =
      (unescape? t).map (pairChar unit next :: ·) := by
  obtain ⟨a, b, c, d, rfl, hfirst⟩ := hunit.eq
  obtain ⟨a', b', c', d', rfl, hsecond⟩ := hnext.eq
  cases hrest : unescape? t with
  | none => simp [unescape?, hfirst, hsecond, hhigh, hrest]
  | some text => simp [unescape?, hfirst, hsecond, hhigh, hlow, hrest]

/-- A spelling of a character is read as that character. -/
lemma unescape?_append {piece : Text} {c : Char} (h : CharSpelling piece c) (t : Text) :
    unescape? (piece ++ t) = (unescape? t).map (c :: ·) := by
  cases h with
  | plain hquote hslash hcontrol =>
    cases hrest : unescape? t with
    | none => simp [unescape?, hslash, hrest]
    | some text => simp [unescape?, hslash, hrest]
  | short h =>
    obtain ⟨hletter, hne⟩ := shortEscape?_of_mem h
    cases hrest : unescape? t with
    | none => simp [unescape?, hletter, hne, hrest]
    | some text => simp [unescape?, hletter, hne, hrest]
  | unit h =>
    obtain ⟨a, b, d, e, rfl, hunit⟩ := h.eq
    obtain ⟨hhigh, hlow⟩ := not_surrogate c
    cases hrest : unescape? t with
    | none => simp [unescape?, hunit, hhigh, hrest]
    | some text => simp [unescape?, hunit, hhigh, hlow, hrest, Char.ofNat_toNat]
  | pair hc hhigh hlow =>
    have hvalid : c.toNat < 0xD800 ∨ 0xDFFF < c.toNat ∧ c.toNat < 0x110000 := c.valid
    have hpair := unescape?_pair hhigh hlow (isHighSurrogate_add (by omega)) (isLowSurrogate_add (by omega)) t
    rwa [pairChar_of_le hc] at hpair

/-- A spelling of some characters is read as these characters. -/
lemma Spelling.unescape? {literal characters : Text} (h : Spelling literal characters) :
    Json.unescape? literal = some characters := by
  induction h with
  | nil => rfl
  | cons hc _ ih => rw [unescape?_append hc, ih, Option.map_some]

/-! ## Escaping as little as possible -/

/-- The hexadecimal digit of a number below sixteen. -/
def hexChar (value : Nat) : Char :=
  "0123456789abcdef".toList[value]?.getD '0'

/-- A character as it is written where only what must be escaped is. -/
def escapeChar (c : Char) : Text :=
  if c = '"' then ['\\', '"']
  else if c = '\\' then ['\\', '\\']
  else if c.toNat < 0x20 then ['\\', 'u', '0', '0', hexChar (c.toNat / 16), hexChar (c.toNat % 16)]
  else [c]

/-- Some characters as they are written where only what must be escaped is. -/
def escape (characters : Text) : Text :=
  characters.flatMap escapeChar

lemma hexDigit_hexChar {value : Nat} (h : value < 16) : HexDigit (hexChar value) value := by
  left
  unfold hexChar
  have hlength : value < "0123456789abcdef".toList.length := h
  rw [List.getElem?_eq_getElem hlength, Option.getD_some]

lemma charSpelling_escapeChar (c : Char) : CharSpelling (escapeChar c) c := by
  unfold escapeChar
  split
  · next hquote =>
    subst hquote
    exact .short (by decide)
  · next hquote =>
    split
    · next hslash =>
      subst hslash
      exact .short (by decide)
    · next hslash =>
      split
      · next hcontrol =>
        have hunit : HexUnit ['0', '0', hexChar (c.toNat / 16), hexChar (c.toNat % 16)]
            (((0 * 16 + 0) * 16 + c.toNat / 16) * 16 + c.toNat % 16) :=
          .digits (Or.inl rfl) (Or.inl rfl) (hexDigit_hexChar (by omega)) (hexDigit_hexChar (by omega))
        have hvalue : ((0 * 16 + 0) * 16 + c.toNat / 16) * 16 + c.toNat % 16 = c.toNat := by omega
        rw [hvalue] at hunit
        exact .unit hunit
      · next hcontrol => exact .plain hquote hslash (by omega)

lemma spelling_escape (characters : Text) : Spelling (escape characters) characters := by
  induction characters with
  | nil => exact .nil
  | cons c characters ih =>
    unfold escape
    rw [List.flatMap_cons]
    exact .cons (charSpelling_escapeChar c) ih

/-! ## Numbers -/

/-- One or more digits. -/
def IsDigits (t : Text) : Prop :=
  t ≠ [] ∧ ∀ c ∈ t, c.isDigit = true

/-- A whole number: no zero stands before another digit. -/
inductive WholeLiteral : Text → Prop where
  | zero : WholeLiteral ['0']
  | digits {c : Char} {t : Text} (hc : c.isDigit = true) (hzero : c ≠ '0') (ht : ∀ d ∈ t, d.isDigit = true) :
      WholeLiteral (c :: t)

/-- A fraction, or nothing. -/
inductive FractionLiteral : Text → Prop where
  | none : FractionLiteral []
  | digits {t : Text} (h : IsDigits t) : FractionLiteral ('.' :: t)

/-- An exponent, or nothing. -/
inductive ExponentLiteral : Text → Prop where
  | none : ExponentLiteral []
  | digits {mark : Char} {sign t : Text} (hmark : mark ∈ ['e', 'E']) (hsign : sign ∈ [[], ['+'], ['-']])
      (h : IsDigits t) : ExponentLiteral (mark :: (sign ++ t))

/-- A number of any size and precision. -/
inductive NumberLiteral : Text → Prop where
  | parts {sign whole fraction exponent : Text} (hsign : sign ∈ [[], ['-']]) (hwhole : WholeLiteral whole)
      (hfraction : FractionLiteral fraction) (hexponent : ExponentLiteral exponent) :
      NumberLiteral (sign ++ (whole ++ (fraction ++ exponent)))

lemma ExponentLiteral.isExponent {t : Text} (h : ExponentLiteral t) : Json.isExponent t = true := by
  cases h with
  | none => rfl
  | @digits mark sign t hmark hsign h =>
    obtain ⟨hne, hdigits⟩ := h
    have hmarks : (mark == 'e' || mark == 'E') = true := by simpa using hmark
    have hall : t.all Char.isDigit = true := List.all_eq_true.2 hdigits
    have hempty : t.isEmpty = false := by simpa using hne
    simp only [List.mem_cons, List.not_mem_nil, or_false] at hsign
    rcases hsign with rfl | rfl | rfl
    · simp only [Json.isExponent, List.nil_append, hmarks, Bool.true_and]
      -- Without a sign the first digit is not taken for one.
      split
      · exact absurd (hdigits '+' (List.mem_cons_self ..)) (by decide)
      · exact absurd (hdigits '-' (List.mem_cons_self ..)) (by decide)
      · rw [hall, hempty]
        rfl
    · simp [Json.isExponent, hmarks, hall, hempty]
    · simp [Json.isExponent, hmarks, hall, hempty]

/-- An exponent does not go on with digits. -/
lemma ExponentLiteral.takeWhile_isDigit {t : Text} (h : ExponentLiteral t) (digits : Text)
    (hdigits : ∀ c ∈ digits, c.isDigit = true) :
    (digits ++ t).takeWhile Char.isDigit = digits ∧ (digits ++ t).dropWhile Char.isDigit = t := by
  have hstop : t.takeWhile Char.isDigit = [] ∧ t.dropWhile Char.isDigit = t := by
    cases h with
    | none => exact ⟨rfl, rfl⟩
    | @digits mark sign t hmark hsign h =>
      have hmark : mark.isDigit = false := by
        simp only [List.mem_cons, List.not_mem_nil, or_false] at hmark
        rcases hmark with rfl | rfl
        · rfl
        · rfl
      simp [hmark]
  rw [List.takeWhile_append_of_pos hdigits, List.dropWhile_append_of_pos hdigits, hstop.1, hstop.2]
  simp

lemma isFraction_append {fraction exponent : Text} (hfraction : FractionLiteral fraction)
    (hexponent : ExponentLiteral exponent) : isFraction (fraction ++ exponent) = true := by
  cases hfraction with
  | none =>
    rw [List.nil_append]
    unfold isFraction
    split
    · cases hexponent with
      | digits hmark _ _ => exact absurd hmark (by decide)
    · exact hexponent.isExponent
  | @digits t h =>
    obtain ⟨hne, hdigits⟩ := h
    obtain ⟨htake, hdrop⟩ := hexponent.takeWhile_isDigit t hdigits
    have hempty : t.isEmpty = false := by simpa using hne
    rw [List.cons_append, isFraction, htake, hdrop, hexponent.isExponent, hempty]
    rfl

/-- A fraction or an exponent does not start with a digit. -/
lemma dropWhile_isDigit_append {whole fraction exponent : Text} (hwhole : ∀ c ∈ whole, c.isDigit = true)
    (hfraction : FractionLiteral fraction) (hexponent : ExponentLiteral exponent) :
    (whole ++ (fraction ++ exponent)).dropWhile Char.isDigit = fraction ++ exponent := by
  cases hfraction with
  | none => exact (hexponent.takeWhile_isDigit whole hwhole).2
  | digits h =>
    rw [List.dropWhile_append_of_pos hwhole, List.cons_append, List.dropWhile_cons_of_neg (by decide)]

lemma isUnsigned_append {whole fraction exponent : Text} (hwhole : WholeLiteral whole)
    (hfraction : FractionLiteral fraction) (hexponent : ExponentLiteral exponent) :
    isUnsigned (whole ++ (fraction ++ exponent)) = true := by
  have hrest := isFraction_append hfraction hexponent
  cases hwhole with
  | zero => exact hrest
  | @digits c t hc hzero ht =>
    have hdrop := dropWhile_isDigit_append ht hfraction hexponent
    rw [List.cons_append]
    unfold isUnsigned
    split
    · next heq =>
      cases heq
      exact absurd rfl hzero
    · next heq =>
      cases heq
      rw [hc, hdrop, hrest]
      rfl
    · next heq => cases heq

lemma WholeLiteral.head {whole : Text} (h : WholeLiteral whole) : ∃ c t, whole = c :: t ∧ c.isDigit = true := by
  cases h with
  | zero => exact ⟨'0', [], rfl, rfl⟩
  | @digits c t hc _ _ => exact ⟨c, t, rfl, hc⟩

lemma NumberLiteral.isNumber {literal : Text} (h : NumberLiteral literal) : Json.isNumber literal = true := by
  cases h with
  | @parts sign whole fraction exponent hsign hwhole hfraction hexponent =>
    have hunsigned := isUnsigned_append hwhole hfraction hexponent
    simp only [List.mem_cons, List.not_mem_nil, or_false] at hsign
    rcases hsign with rfl | rfl
    · -- A digit is not taken for a sign.
      obtain ⟨c, t, rfl, hc⟩ := hwhole.head
      rw [List.nil_append, List.cons_append] at *
      unfold Json.isNumber
      split
      · next heq =>
        cases heq
        cases hc
      · exact hunsigned
    · exact hunsigned

/-! ## Words in decimal digits -/

/-- A word of 64 bits in decimal digits. -/
def decimal (n : UInt64) : Text :=
  Nat.toDigits 10 n.toNat

/-- The first digit of a positive number is not zero. -/
lemma toDigits_of_pos {n : Nat} (h : 0 < n) : ∃ c t, Nat.toDigits 10 n = c :: t ∧ c ≠ '0' := by
  induction n using Nat.strongRecOn with
  | ind n ih =>
    rw [Nat.toDigits_eq_if (by omega)]
    by_cases hlt : n < 10
    · rw [if_pos hlt]
      refine ⟨n.digitChar, [], rfl, ?_⟩
      rw [Ne, Nat.digitChar_eq_zero]
      omega
    · obtain ⟨c, t, heq, hc⟩ := ih (n / 10) (by omega) (by omega)
      rw [if_neg hlt, heq]
      exact ⟨c, _, rfl, hc⟩

lemma isDigit_of_mem_decimal {n : UInt64} {c : Char} (h : c ∈ decimal n) : c.isDigit = true :=
  Nat.isDigit_of_mem_toDigits (by omega) (by omega) h

lemma wholeLiteral_decimal (n : UInt64) : WholeLiteral (decimal n) := by
  have hdigits : ∀ c ∈ decimal n, c.isDigit = true := fun c hc => isDigit_of_mem_decimal hc
  unfold decimal at *
  rcases Nat.eq_zero_or_pos n.toNat with hzero | hpos
  · rw [hzero]
    exact .zero
  · obtain ⟨c, t, heq, hc⟩ := toDigits_of_pos hpos
    rw [heq] at hdigits ⊢
    exact .digits (hdigits c (List.mem_cons_self ..)) hc fun d hd => hdigits d (List.mem_cons_of_mem c hd)

lemma numberLiteral_decimal (n : UInt64) : NumberLiteral (decimal n) := by
  have hparts := NumberLiteral.parts (List.mem_cons_self ..) (wholeLiteral_decimal n) .none .none
  rwa [List.nil_append, List.append_nil, List.append_nil] at hparts

/-- The digits of a word are read as the word. -/
lemma word?_decimal (n : UInt64) : Numeral.word? (decimal n) = some n := by
  have hempty : (decimal n).isEmpty = false := by
    rw [List.isEmpty_eq_false_iff]
    exact Nat.toDigits_ne_nil
  have hall : (decimal n).all Char.isDigit = true :=
    List.all_eq_true.2 fun c hc => isDigit_of_mem_decimal hc
  have hvalue : Numeral.value (decimal n) = n.toNat := Nat.ofDigitChars_ten_toDigits
  have hnatural : Numeral.natural? (decimal n) = some n.toNat := by
    unfold Numeral.natural?
    rw [hempty, hall, hvalue]
    rfl
  unfold Numeral.word?
  rw [hnatural, Option.bind_some, if_pos n.toNat_lt_size, UInt64.ofNat_toNat]

end TreeIndent.Json
