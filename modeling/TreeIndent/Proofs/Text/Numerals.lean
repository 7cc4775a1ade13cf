import TreeIndent.Numeral
import TreeIndent.Text.Indentation
import Mathlib.Data.List.DropRight
import Mathlib.Data.List.Induction
import Mathlib.Tactic.Common

/-!
# The grammar of numerals

What a text must look like for a number to be read from it, as rules, and that the readers take exactly these texts.

* `Digits`: one or more digits and the number that they denote. They are the digits in which the number is printed,
  after any number of zeros (`digits_iff`).
* `Signed`: a sign, where there is one, and digits.
* `PaddedInt32`: a signed number of 32 bits with white space on both sides. Trimming leaves the number
  (`trim_padded`), since no part of it is white space (`Signed.not_isSpace`).
-/

namespace TreeIndent

/-! ## Trimming -/

namespace Text

/-- Trimming takes blanks off both ends of a text. -/
lemma exists_padded (t : Text) :
    ∃ before after : Text, t = before ++ t.trim ++ after ∧ before.isBlank = true ∧ after.isBlank = true := by
  have htrim : t.trim = (t.dropWhile isSpace).rdropWhile isSpace := rfl
  refine ⟨t.takeWhile isSpace, (t.dropWhile isSpace).rtakeWhile isSpace, ?_, List.all_takeWhile, ?_⟩
  · rw [htrim, List.append_assoc, List.rdropWhile_append_rtakeWhile, List.takeWhile_append_dropWhile]
  · exact List.all_eq_true.2 fun c hc => List.mem_rtakeWhile_imp hc

lemma dropWhile_of_dense {t : Text} (h : ∀ c ∈ t, isSpace c = false) : t.dropWhile isSpace = t := by
  cases t with
  | nil => rfl
  | cons c t =>
    apply List.dropWhile_cons_of_neg
    rw [h c (List.mem_cons_self ..)]
    decide

/-- Trimming leaves a text without white space that stands between blanks. -/
lemma trim_padded {before t after : Text} (hbefore : before.isBlank = true) (hafter : after.isBlank = true)
    (h : ∀ c ∈ t, isSpace c = false) : (before ++ t ++ after).trim = t := by
  have hreverse : ∀ c ∈ after.reverse, isSpace c = true :=
    fun c hc => List.all_eq_true.1 hafter c (List.mem_reverse.1 hc)
  unfold trim
  rw [List.append_assoc, List.dropWhile_append_of_pos (List.all_eq_true.1 hbefore)]
  cases t with
  | nil =>
    have hnil : after.dropWhile isSpace = [] := List.dropWhile_eq_nil_iff.2 (List.all_eq_true.1 hafter)
    rw [List.nil_append, hnil]
    rfl
  | cons c t =>
    -- What is left starts with a character of the text, so that only the blanks at the end go.
    have hc : ¬ isSpace c = true := by
      rw [h c (List.mem_cons_self ..)]
      decide
    have hdense : ∀ d ∈ (c :: t).reverse, isSpace d = false := fun d hd => h d (List.mem_reverse.1 hd)
    rw [List.cons_append, List.dropWhile_cons_of_neg hc, ← List.cons_append, List.reverse_append,
      List.dropWhile_append_of_pos hreverse, dropWhile_of_dense hdense, List.reverse_reverse]

end Text

namespace Numeral

/-! ## Digits -/

/-- One or more ASCII digits and the number that they denote in base ten. -/
inductive Digits : Text → Nat → Prop where
  | single {d : Nat} (hd : d < 10) : Digits [d.digitChar] d
  | concat {t : Text} {n d : Nat} (h : Digits t n) (hd : d < 10) : Digits (t ++ [d.digitChar]) (10 * n + d)

/-- The character of a digit is that of its value. -/
lemma exists_digitChar {c : Char} (h : c.isDigit = true) : ∃ d, d < 10 ∧ c = d.digitChar := by
  obtain ⟨hlow, hhigh⟩ := Char.isDigit_iff_toNat.1 h
  have hzero : '0'.toNat = 48 := rfl
  have hnine : '9'.toNat = 57 := rfl
  have hlt : c.toNat - '0'.toNat < 10 := by omega
  refine ⟨c.toNat - '0'.toNat, hlt, ?_⟩
  apply Char.toNat_inj.1
  rw [Nat.toNat_digitChar_of_lt_ten hlt]
  omega

lemma value_eq_ofDigitChars (t : Text) : value t = Nat.ofDigitChars 10 t 0 := rfl

lemma value_concat (t : Text) {d : Nat} (hd : d < 10) : value (t ++ [d.digitChar]) = 10 * value t + d := by
  rw [value_eq_ofDigitChars, value_eq_ofDigitChars, Nat.ofDigitChars_append,
    Nat.ofDigitChars_cons_digitChar_of_lt_ten hd, Nat.ofDigitChars_nil]

lemma value_single {d : Nat} (hd : d < 10) : value [d.digitChar] = d :=
  (value_concat [] hd).trans (Nat.zero_add d)

/-- Digits denote their value. -/
lemma digits_value {t : Text} (hne : t ≠ []) (h : ∀ c ∈ t, c.isDigit = true) : Digits t (value t) := by
  induction t using List.reverseRecOn with
  | nil => exact absurd rfl hne
  | append_singleton t c ih =>
    obtain ⟨d, hd, rfl⟩ := exists_digitChar (h c (List.mem_append_right t (List.mem_singleton.2 rfl)))
    cases t with
    | nil =>
      rw [List.nil_append, value_single hd]
      exact .single hd
    | cons e t =>
      rw [value_concat _ hd]
      exact .concat (ih (List.cons_ne_nil e t) fun x hx => h x (List.mem_append_left _ hx)) hd

lemma isDigit_digitChar {d : Nat} (hd : d < 10) : d.digitChar.isDigit = true := by
  rw [Nat.isDigit_digitChar]
  exact decide_eq_true hd

lemma Digits.isDigit {t : Text} {n : Nat} (h : Digits t n) : ∀ c ∈ t, c.isDigit = true := by
  induction h with
  | single hd =>
    intro c hc
    rw [List.mem_singleton.1 hc]
    exact isDigit_digitChar hd
  | concat h hd ih =>
    intro c hc
    rcases List.mem_append.1 hc with hc | hc
    · exact ih c hc
    · rw [List.mem_singleton.1 hc]
      exact isDigit_digitChar hd

lemma Digits.ne_nil {t : Text} {n : Nat} (h : Digits t n) : t ≠ [] := by
  cases h with
  | single hd => exact List.cons_ne_nil _ _
  | concat h hd => exact List.append_ne_nil_of_right_ne_nil _ (List.cons_ne_nil _ _)

lemma Digits.value_eq {t : Text} {n : Nat} (h : Digits t n) : value t = n := by
  induction h with
  | single hd => exact value_single hd
  | concat h hd ih => rw [value_concat _ hd, ih]

/-- Digits, and nothing else, are read as the number that they denote. -/
lemma natural?_eq_some_iff {t : Text} {n : Nat} : natural? t = some n ↔ Digits t n := by
  have hdigits : (!t.isEmpty && t.all Char.isDigit) = true ↔ t ≠ [] ∧ ∀ c ∈ t, c.isDigit = true := by
    simp
  unfold natural?
  constructor
  · intro h
    split at h
    · next hall =>
      obtain ⟨hne, hall⟩ := hdigits.1 hall
      rw [← Option.some.inj h]
      exact digits_value hne hall
    · cases h
  · intro h
    rw [if_pos (hdigits.2 ⟨h.ne_nil, h.isDigit⟩), h.value_eq]

/-- The digits of a number are those in which it is printed, after any number of zeros. -/
lemma digits_iff {t : Text} {n : Nat} :
    Digits t n ↔ ∃ zeros, t = List.replicate zeros '0' ++ Nat.toDigits 10 n := by
  constructor
  · intro h
    induction h with
    | @single d hd => exact ⟨0, (Nat.toDigits_of_lt_base hd).symm⟩
    | @concat t n d h hd ih =>
      obtain ⟨zeros, rfl⟩ := ih
      rcases Nat.eq_zero_or_pos n with rfl | hpos
      · -- All digits before the last are zeros.
        refine ⟨zeros + 1, ?_⟩
        rw [Nat.mul_zero, Nat.zero_add, Nat.toDigits_of_lt_base hd, Nat.toDigits_zero, List.replicate_succ']
      · refine ⟨zeros, ?_⟩
        rw [← Nat.toDigits_append_toDigits (by omega) hpos hd, Nat.toDigits_of_lt_base hd, List.append_assoc]
  · rintro ⟨zeros, rfl⟩
    have hvalue : value (List.replicate zeros '0' ++ Nat.toDigits 10 n) = n := by
      rw [value_eq_ofDigitChars, Nat.ofDigitChars_append, Nat.ofDigitChars_replicate_zero, Nat.mul_zero,
        Nat.ofDigitChars_ten_toDigits]
    have hall : ∀ c ∈ List.replicate zeros '0' ++ Nat.toDigits 10 n, c.isDigit = true := by
      intro c hc
      rcases List.mem_append.1 hc with hc | hc
      · rw [List.eq_of_mem_replicate hc]
        rfl
      · exact Nat.isDigit_of_mem_toDigits (by omega) (by omega) hc
    have hdigits := digits_value (List.append_ne_nil_of_right_ne_nil _ Nat.toDigits_ne_nil) hall
    rwa [hvalue] at hdigits

/-! ## Signs -/

/-- An integer in digits, with an optional sign before them. -/
inductive Signed : Text → Int → Prop where
  | bare {t : Text} {n : Nat} (h : Digits t n) : Signed t n
  | plus {t : Text} {n : Nat} (h : Digits t n) : Signed ('+' :: t) n
  | minus {t : Text} {n : Nat} (h : Digits t n) : Signed ('-' :: t) (-n)

lemma integer?_of_digits {t : Text} {n : Nat} (h : Digits t n) : integer? t = some (n : Int) := by
  have hnatural : (natural? t).map Int.ofNat = some (n : Int) := by
    rw [natural?_eq_some_iff.2 h]
    rfl
  unfold integer?
  split
  · exact absurd (h.isDigit '-' (List.mem_cons_self ..)) (by decide)
  · exact absurd (h.isDigit '+' (List.mem_cons_self ..)) (by decide)
  · exact hnatural

/-- Integers are read from digits with an optional sign, and from nothing else. -/
lemma integer?_eq_some_iff {t : Text} {n : Int} : integer? t = some n ↔ Signed t n := by
  constructor
  · intro h
    unfold integer? at h
    split at h
    · obtain ⟨m, hm, rfl⟩ := Option.map_eq_some_iff.1 h
      -- The number is taken as an integer first, and then negated.
      obtain ⟨k, hk, hkm⟩ := Option.bind_eq_some_iff.1 hm
      cases hkm
      exact .minus (natural?_eq_some_iff.1 hk)
    · obtain ⟨m, hm, rfl⟩ := Option.map_eq_some_iff.1 h
      exact .plus (natural?_eq_some_iff.1 hm)
    · obtain ⟨m, hm, rfl⟩ := Option.map_eq_some_iff.1 h
      exact .bare (natural?_eq_some_iff.1 hm)
  · intro h
    cases h with
    | bare h => exact integer?_of_digits h
    | plus h =>
      rw [integer?, natural?_eq_some_iff.2 h]
      rfl
    | minus h =>
      rw [integer?, natural?_eq_some_iff.2 h]
      rfl

lemma Digits.not_isSpace {t : Text} {n : Nat} (h : Digits t n) : ∀ c ∈ t, Text.isSpace c = false := by
  have hdigit : ∀ d < 10, Text.isSpace d.digitChar = false := by decide
  intro c hc
  obtain ⟨d, hd, rfl⟩ := exists_digitChar (h.isDigit c hc)
  exact hdigit d hd

/-- There is no white space in an integer. -/
lemma Signed.not_isSpace {t : Text} {n : Int} (h : Signed t n) : ∀ c ∈ t, Text.isSpace c = false := by
  cases h with
  | bare h => exact h.not_isSpace
  | plus h => exact List.forall_mem_cons.2 ⟨by decide, h.not_isSpace⟩
  | minus h => exact List.forall_mem_cons.2 ⟨by decide, h.not_isSpace⟩

/-! ## Integers of 32 bits -/

/-- An integer of 32 bits with white space on both sides. -/
def PaddedInt32 (t : Text) (n : Int) : Prop :=
  ∃ before numeral after : Text, t = before ++ numeral ++ after ∧ before.isBlank = true ∧ after.isBlank = true ∧
    Signed numeral n ∧ -2147483648 ≤ n ∧ n ≤ 2147483647

lemma int32?_eq_some_iff {t : Text} {n : Int} :
    int32? t = some n ↔ Signed t n ∧ -2147483648 ≤ n ∧ n ≤ 2147483647 := by
  unfold int32?
  rw [Option.filter_eq_some_iff, integer?_eq_some_iff]
  simp

/-- The integer of a trimmed text is the one that is written in the text with white space around it. -/
lemma int32?_trim_eq_some_iff {t : Text} {n : Int} : int32? t.trim = some n ↔ PaddedInt32 t n := by
  rw [int32?_eq_some_iff]
  constructor
  · rintro ⟨hsigned, hrange⟩
    obtain ⟨before, after, ht, hbefore, hafter⟩ := t.exists_padded
    exact ⟨before, t.trim, after, ht, hbefore, hafter, hsigned, hrange⟩
  · rintro ⟨before, numeral, after, rfl, hbefore, hafter, hsigned, hrange⟩
    rw [Text.trim_padded hbefore hafter hsigned.not_isSpace]
    exact ⟨hsigned, hrange⟩

end Numeral

end TreeIndent
