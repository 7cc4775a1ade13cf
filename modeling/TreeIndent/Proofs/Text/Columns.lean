import TreeIndent.Proofs.Text.Reindented
import Mathlib.Data.List.Infix
import Mathlib.Data.List.TakeWhile

/-!
# Columns of a line

Where a line can be cut, and the column of its last character that is not white space. On a line that is not blank
the indentation does not reach behind that column (`indentLength_le_lastColumn?`). What is cut off a line that
starts with code behind its first character is not blank (`isBlank_of_longer_part`).
-/

namespace TreeIndent.Text

/-- The first side of a cut is as long as the cut says. -/
lemma byteLength_of_splitAtByte? {t before after : Text} {offset : Nat}
    (h : t.splitAtByte? offset = some (before, after)) : before.byteLength = offset := by
  fun_induction splitAtByte? t offset generalizing before after with
  | case1 t =>
    simp only [Option.some.injEq, Prod.mk.injEq] at h
    rw [← h.1]
    rfl
  | case2 => cases h
  | case3 c t n hle ih =>
    obtain ⟨⟨b, a⟩, hcut, heq⟩ := Option.map_eq_some_iff.1 h
    simp only [Prod.mk.injEq] at heq
    rw [← heq.1, byteLength_cons, ih hcut]
    omega
  | case4 => cases h

lemma byteLength_eq_zero {t : Text} (h : t.byteLength = 0) : t = [] := by
  cases t with
  | nil => rfl
  | cons c t =>
    have hpos : 0 < c.utf8Size := c.utf8Size_pos
    rw [byteLength_cons] at h
    omega

/-- A first part of a text that is as long as the text is the text. -/
lemma eq_of_isPrefix_of_byteLength {s t : Text} (h : s <+: t) (hlength : s.byteLength = t.byteLength) : s = t := by
  obtain ⟨rest, rfl⟩ := h
  rw [byteLength_append] at hlength
  have hrest : rest = [] := byteLength_eq_zero (by omega)
  rw [hrest, List.append_nil]

/-- Of two first parts of a text the one that is no longer is a first part of the other. -/
lemma isPrefix_of_byteLength_le {s t u : Text} (hs : s <+: u) (ht : t <+: u)
    (hle : s.byteLength ≤ t.byteLength) : s <+: t := by
  rcases List.prefix_or_prefix_of_prefix hs ht with hst | hts
  · exact hst
  · have hge : t.byteLength ≤ s.byteLength := by
      obtain ⟨rest, rfl⟩ := hts
      rw [byteLength_append]
      omega
    rw [eq_of_isPrefix_of_byteLength hts (Nat.le_antisymm hge hle)]

lemma dropBytes?_eq_some_iff {t after : Text} {offset : Nat} :
    t.dropBytes? offset = some after ↔ ∃ before : Text, t = before ++ after ∧ before.byteLength = offset := by
  constructor
  · intro h
    obtain ⟨⟨before, rest⟩, hcut, rfl⟩ := Option.map_eq_some_iff.1 h
    exact ⟨before, (append_of_splitAtByte? hcut).symm, byteLength_of_splitAtByte? hcut⟩
  · rintro ⟨before, rfl, rfl⟩
    unfold dropBytes?
    rw [splitAtByte?_append]
    rfl

lemma isPrefix_of_takeBytes? {t before : Text} {offset : Nat} (h : t.takeBytes? offset = some before) :
    before <+: t := by
  obtain ⟨⟨b, after⟩, hcut, rfl⟩ := Option.map_eq_some_iff.1 h
  exact ⟨after, append_of_splitAtByte? hcut⟩

lemma byteLength_of_takeBytes? {t before : Text} {offset : Nat} (h : t.takeBytes? offset = some before) :
    before.byteLength = offset := by
  obtain ⟨⟨b, after⟩, hcut, rfl⟩ := Option.map_eq_some_iff.1 h
  exact byteLength_of_splitAtByte? hcut

lemma isBlank_of_mem_code {t : Text} {c : Char} (hmem : c ∈ t) (hc : isSpace c = false) : t.isBlank = false := by
  rw [Bool.eq_false_iff]
  intro hblank
  have hspace := List.all_eq_true.1 hblank c hmem
  rw [hc] at hspace
  cases hspace

/-- A line has a last character that is not white space just if it is not blank. -/
lemma lastColumn?_eq_none_iff {t : Text} : t.lastColumn? = none ↔ t.isBlank = true := by
  induction t with
  | nil => exact ⟨fun _ => rfl, fun _ => rfl⟩
  | cons c t ih =>
    have hcons : isBlank (c :: t) = (isSpace c && isBlank t) := rfl
    rw [lastColumn?, hcons, Bool.and_eq_true, ← ih]
    cases lastColumn? t with
    | some column => simp
    | none => simp

lemma lastColumn?_lt {t : Text} {column : Nat} (h : t.lastColumn? = some column) : column < t.byteLength := by
  induction t generalizing column with
  | nil => cases h
  | cons c t ih =>
    have hpos : 0 < c.utf8Size := c.utf8Size_pos
    rw [lastColumn?] at h
    rw [byteLength_cons]
    split at h
    · next last hlast =>
      have hlt := ih hlast
      cases h
      omega
    · split at h
      · cases h
      · cases h
        omega

/-- The last column is not before a character that is not white space. -/
lemma byteLength_le_lastColumn? {s t : Text} {c : Char} (hc : isSpace c = false) {column : Nat}
    (h : lastColumn? (s ++ c :: t) = some column) : s.byteLength ≤ column := by
  induction s generalizing column with
  | nil => exact Nat.zero_le _
  | cons d s ih =>
    rw [List.cons_append, lastColumn?] at h
    split at h
    · next last hlast =>
      have hle := ih hlast
      cases h
      rw [byteLength_cons]
      omega
    · next hnone =>
      -- The rest is not blank, because of that character.
      have hmem : c ∈ s ++ c :: t := List.mem_append_right s (List.mem_cons_self ..)
      have hcode := isBlank_of_mem_code hmem hc
      rw [lastColumn?_eq_none_iff.1 hnone] at hcode
      cases hcode

/-! ## Leading white space -/

/-- The indentation of a line is the spaces and tabs at the start of its leading white space. -/
lemma indentation_eq_takeWhile_leading (t : Text) :
    t.takeWhile isIndentChar = (t.takeWhile isSpace).takeWhile isIndentChar := by
  rw [List.takeWhile_takeWhile]
  congr 1
  funext c
  rw [Bool.eq_iff_iff, decide_eq_true_iff]
  exact ⟨fun hc => ⟨hc, isSpace_of_isIndentChar hc⟩, And.left⟩

lemma indentation_prefix (t : Text) : t.takeWhile isIndentChar <+: t.takeWhile isSpace := by
  rw [indentation_eq_takeWhile_leading]
  exact List.takeWhile_prefix _

lemma byteLength_indentation (t : Text) : byteLength (t.takeWhile isIndentChar) = t.indentLength :=
  byteLength_of_indent t.isIndentChar_of_mem_takeWhile

/-- Behind the leading white space of a line that is not blank stands a character that is not white space. -/
lemma exists_code_of_not_blank {t : Text} (h : t.isBlank = false) :
    ∃ c after, t = t.takeWhile isSpace ++ c :: after ∧ isSpace c = false := by
  have hparts : t.takeWhile isSpace ++ t.dropWhile isSpace = t := List.takeWhile_append_dropWhile
  have hstop := List.head?_dropWhile_not isSpace t
  cases hrest : t.dropWhile isSpace with
  | nil =>
    have hblank : t.isBlank = true := List.all_eq_true.2 (List.dropWhile_eq_nil_iff.1 hrest)
    rw [h] at hblank
    cases hblank
  | cons c after =>
    rw [hrest] at hparts hstop
    exact ⟨c, after, hparts.symm, hstop⟩

/-- The last character of a line that is not blank does not stand in the indentation. -/
lemma indentLength_le_lastColumn? {t : Text} (h : t.isBlank = false) :
    ∃ column, t.lastColumn? = some column ∧ t.indentLength ≤ column := by
  obtain ⟨c, after, ht, hc⟩ := exists_code_of_not_blank h
  cases hlast : t.lastColumn? with
  | none =>
    rw [lastColumn?_eq_none_iff.1 hlast] at h
    cases h
  | some column =>
    refine ⟨column, rfl, ?_⟩
    obtain ⟨rest, hrest⟩ := t.indentation_prefix
    have hlength := congrArg byteLength hrest
    have hle : byteLength (t.takeWhile isSpace) ≤ column := by
      rw [ht] at hlast
      exact byteLength_le_lastColumn? hc hlast
    rw [byteLength_append, byteLength_indentation] at hlength
    omega

/-! ## Lines that start with code -/

/-- Whether the indentation of a line is followed by a character that is not white space. -/
def startsWithCode (t : Text) : Bool :=
  t.body.head?.any fun c => !isSpace c

lemma exists_of_startsWithCode {t : Text} (h : t.startsWithCode = true) :
    ∃ c rest, isSpace c = false ∧ t = t.takeWhile isIndentChar ++ c :: rest := by
  unfold startsWithCode at h
  cases hbody : t.body with
  | nil =>
    rw [hbody] at h
    cases h
  | cons c rest =>
    rw [hbody, List.head?_cons, Option.any_some, Bool.not_eq_true'] at h
    refine ⟨c, rest, h, ?_⟩
    rw [← hbody]
    exact (indentation_append_body t).symm

lemma isBlank_of_startsWithCode {t : Text} (h : t.startsWithCode = true) : t.isBlank = false := by
  obtain ⟨c, rest, hc, ht⟩ := exists_of_startsWithCode h
  have hmem : c ∈ t := by
    rw [ht]
    exact List.mem_append_right _ (List.mem_cons_self ..)
  exact isBlank_of_mem_code hmem hc

/-- A first part of such a line that is longer than the indentation is not blank. -/
lemma isBlank_of_longer_part {t before : Text} (h : t.startsWithCode = true) (hpart : before <+: t)
    (hlong : t.indentLength < before.byteLength) : before.isBlank = false := by
  obtain ⟨c, rest, hc, ht⟩ := exists_of_startsWithCode h
  have hcode : t.takeWhile isIndentChar ++ [c] <+: t := ⟨rest, by rw [List.append_assoc]; exact ht.symm⟩
  have hmem : c ∈ before := by
    rcases List.prefix_or_prefix_of_prefix hcode hpart with hinside | houtside
    · exact hinside.mem (by simp)
    · rcases List.prefix_concat_iff.1 houtside with heq | hindent
      · rw [heq]
        simp
      · -- All of it would be indentation, and it is longer than that.
        obtain ⟨more, hmore⟩ := hindent
        have hlength := congrArg byteLength hmore
        rw [byteLength_append, byteLength_indentation] at hlength
        omega
  exact isBlank_of_mem_code hmem hc

end TreeIndent.Text
