import TreeIndent.Proofs.Marking.LastWriter
import TreeIndent.Proofs.Text.Numerals
import Mathlib.Data.List.Dedup

/-!
# Assignments and merges of attributes

An assignment is made as a whole or not at all, and it is about one field. Merging is a choice field by field, so
that it has the laws of such a choice.

* `set?_eq_none_iff`: an assignment is refused where no field with its key can read its text. Otherwise the field
  gets what it reads, and all others stay (`exists_field_of_set?`).
* `increment?_eq_some_iff`: the texts that can be read as an increment.
* `merged`: a sequence of attributes merged in order. It can be merged in groups (`merged_flatten`), attributes
  that set nothing can be left out (`merged_filter`), and of attributes that occur again only the last occurrence
  counts (`merged_dedup`).
-/

namespace TreeIndent.Attributes

/-! ## Assignments -/

/-- The key of a field is known, and the field decides whether the text is refused. -/
lemma set?_key_eq_none_iff {α : Type} (field : Field α) (attrs : Attributes) (value : Option String) :
    attrs.set? field.key value = none ↔ field.read value = none := by
  cases field with
  | increment =>
    show (increment? value).map _ = none ↔ (increment? value).map some = none
    rw [Option.map_eq_none_iff, Option.map_eq_none_iff]
  | immediate | propagate | startAtSameLine | alignHanging | avoidLastMatchingNext | openDelimiter | closeDelimiter =>
    simp [set?, Field.key, Field.read]

/-- A key that is no field's is refused. -/
lemma set?_eq_none_of_no_field {key : String} (h : ∀ {α : Type} (field : Field α), field.key ≠ key)
    (attrs : Attributes) (value : Option String) : attrs.set? key value = none := by
  unfold set?
  split
  · exact absurd rfl (h .immediate)
  · exact absurd rfl (h .propagate)
  · exact absurd rfl (h .startAtSameLine)
  · exact absurd rfl (h .alignHanging)
  · exact absurd rfl (h .avoidLastMatchingNext)
  · exact absurd rfl (h .increment)
  · exact absurd rfl (h .openDelimiter)
  · exact absurd rfl (h .closeDelimiter)
  · rfl

/-- An assignment is refused just if no field with its key can read its text. -/
lemma set?_eq_none_iff {attrs : Attributes} {key : String} {value : Option String} :
    attrs.set? key value = none ↔ ∀ {α : Type} (field : Field α), field.key = key → field.read value = none := by
  constructor
  · rintro h α field rfl
    exact (set?_key_eq_none_iff field attrs value).1 h
  · intro h
    by_cases hkey : ∃ (α : Type) (field : Field α), field.key = key
    · obtain ⟨α, field, rfl⟩ := hkey
      exact (set?_key_eq_none_iff field attrs value).2 (h field rfl)
    · exact set?_eq_none_of_no_field (fun field hfield => hkey ⟨_, field, hfield⟩) attrs value

lemma set_of_set? {attrs new : Attributes} {key : String} {value : Option String}
    (h : attrs.set? key value = some new) : attrs.set key value = new := by
  unfold set
  rw [h, Option.getD_some]

/-- Fields with the same key are the same. -/
lemma Field.heq_of_key_eq {α β : Type} {field : Field α} {other : Field β} (h : other.key = field.key) :
    HEq other field := by
  cases field <;> cases other <;> simp_all [Field.key]

/-- An assignment that is made gives the field with its key what this field reads, and leaves all others. -/
lemma exists_field_of_set? {attrs new : Attributes} {key : String} {value : Option String}
    (h : attrs.set? key value = some new) :
    ∃ (α : Type) (field : Field α), field.key = key ∧ field.read value = some (new.get field) ∧
      ∀ {β : Type} (other : Field β), ¬ HEq other field → new.get other = attrs.get other := by
  have hread : ∃ (α : Type) (field : Field α), field.key = key ∧ field.read value ≠ none := by
    by_contra hnone
    push Not at hnone
    have hrefused : attrs.set? key value = none := set?_eq_none_iff.2 fun field hkey => hnone _ field hkey
    rw [h] at hrefused
    cases hrefused
  obtain ⟨α, field, rfl, hsome⟩ := hread
  obtain ⟨read, hread⟩ := Option.ne_none_iff_exists'.1 hsome
  refine ⟨α, field, rfl, ?_, ?_⟩
  · rw [← set_of_set? h, get_set, if_pos rfl, hread, Option.getD_some]
  · intro β other hother
    have hkey : field.key ≠ other.key := fun hkey => hother (Field.heq_of_key_eq hkey.symm)
    rw [← set_of_set? h, get_set, if_neg hkey, Option.getD_none]

/-! ## Increments -/

/-- An increment is read from an integer of 32 bits with white space around it, and from nothing else. -/
lemma increment?_eq_some_iff {value : Option String} {n : Int} :
    increment? value = some n ↔ ∃ text, value = some text ∧ Numeral.PaddedInt32 text.toList n := by
  unfold increment?
  rw [Option.bind_eq_some_iff]
  simp only [Numeral.int32?_trim_eq_some_iff]

lemma set?_increment_eq_some_iff {attrs new : Attributes} {value : Option String} :
    attrs.set? "indent.increment" value = some new ↔
      ∃ text n, value = some text ∧ Numeral.PaddedInt32 text.toList n ∧
        new = { attrs with increment := some n } := by
  show (increment? value).map _ = some new ↔ _
  rw [Option.map_eq_some_iff]
  simp only [increment?_eq_some_iff]
  constructor
  · rintro ⟨n, ⟨text, hvalue, hn⟩, rfl⟩
    exact ⟨text, n, hvalue, hn, rfl⟩
  · rintro ⟨text, n, hvalue, hn, rfl⟩
    exact ⟨n, ⟨text, hvalue, hn⟩, rfl⟩

/-! ## Merges -/

/-- Attributes are their fields. -/
lemma ext_get {a b : Attributes} (h : ∀ {α : Type} (field : Field α), a.get field = b.get field) : a = b := by
  cases a
  cases b
  rw [mk.injEq]
  exact ⟨h .immediate, h .increment, h .propagate, h .startAtSameLine, h .alignHanging, h .avoidLastMatchingNext,
    h .openDelimiter, h .closeDelimiter⟩

lemma merge_empty (attrs : Attributes) : attrs.merge {} = attrs := by
  apply ext_get
  intro α field
  rw [get_merge, get_empty, Option.none_or]

lemma merge_self (attrs : Attributes) : attrs.merge attrs = attrs := by
  apply ext_get
  intro α field
  rw [get_merge, Option.or_self]

/-- What is merged again at the end need not be there at the start. -/
lemma merge_merge_self (a b : Attributes) : a.merge (b.merge a) = b.merge a := by
  apply ext_get
  intro α field
  rw [get_merge, get_merge]
  cases a.get field with
  | none => rw [Option.none_or, Option.or_none]
  | some x => rfl

/-- Attributes merged in order, starting from none set. -/
def merged (all : List Attributes) : Attributes :=
  all.foldl merge {}

lemma merged_append (earlier later : List Attributes) :
    merged (earlier ++ later) = (merged earlier).merge (merged later) := by
  calc merged (earlier ++ later)
      = later.foldl merge ((merged earlier).merge {}) := by rw [merge_empty, merged, List.foldl_append, merged]
    _ = (merged earlier).merge (merged later) := List.foldl_assoc

lemma merged_cons (attrs : Attributes) (rest : List Attributes) :
    merged (attrs :: rest) = attrs.merge (merged rest) := by
  have hone : merged [attrs] = attrs := empty_merge attrs
  rw [← List.singleton_append, merged_append, hone]

/-- Sequences can be merged one by one, and then what they give. -/
lemma merged_flatten (groups : List (List Attributes)) : merged groups.flatten = merged (groups.map merged) := by
  induction groups with
  | nil => rfl
  | cons group groups ih => rw [List.flatten_cons, merged_append, ih, List.map_cons, merged_cons]

/-- Attributes that set nothing can be left out. -/
lemma merged_filter (all : List Attributes) : merged (all.filter (· ≠ {})) = merged all := by
  induction all with
  | nil => rfl
  | cons attrs rest ih =>
    rw [merged_cons, List.filter_cons]
    split
    · rw [merged_cons, ih]
    · next hempty =>
      have hattrs : attrs = {} := by simpa using hempty
      rw [ih, hattrs, empty_merge]

/-- Attributes that occur in a sequence need not be merged before it. -/
lemma merge_merged_of_mem {attrs : Attributes} {all : List Attributes} (h : attrs ∈ all) :
    attrs.merge (merged all) = merged all := by
  induction all with
  | nil => cases h
  | cons first rest ih =>
    rw [merged_cons]
    rcases List.mem_cons.1 h with rfl | hrest
    · rw [← merge_assoc, merge_self]
    · calc attrs.merge (first.merge (merged rest))
          = attrs.merge (first.merge (attrs.merge (merged rest))) := by rw [ih hrest]
        _ = (attrs.merge (first.merge attrs)).merge (merged rest) := by rw [merge_assoc, merge_assoc]
        _ = first.merge (attrs.merge (merged rest)) := by rw [merge_merge_self, merge_assoc]
        _ = first.merge (merged rest) := by rw [ih hrest]

/-- Of attributes that occur more than once only the last occurrence counts. -/
lemma merged_dedup (all : List Attributes) : merged all.dedup = merged all := by
  induction all with
  | nil => rfl
  | cons attrs rest ih =>
    rw [merged_cons]
    by_cases hmem : attrs ∈ rest
    · rw [List.dedup_cons_of_mem hmem, ih, merge_merged_of_mem hmem]
    · rw [List.dedup_cons_of_notMem hmem, merged_cons, ih]

/-- Assignments are made as a whole, about one field, and exact on numbers; merges are choices field by field.

An assignment that is refused changes nothing. It is refused just if no field with its key can read its text. One
that is made gives the field with its key what this field reads and leaves all others. The increment is assigned
just if there is a text that is an integer of 32 bits in decimal digits, with an optional sign before them and white
space around it, and it becomes that integer. The digits are those in which the number is printed, after any number
of zeros.

Merging is associative, attributes that set nothing are its identity, and attributes merged with themselves stay.
So a sequence gives the same merged in groups, without the attributes that set nothing, and with each of its
attributes only where it occurs last. -/
theorem set_changes_one_field_and_merge_laws :
    (∀ attrs key value, set? attrs key value = none → set attrs key value = attrs) ∧
    (∀ attrs key value, set? attrs key value = none ↔
      ∀ {α : Type} (field : Field α), field.key = key → field.read value = none) ∧
    (∀ attrs key value new, set? attrs key value = some new →
      set attrs key value = new ∧
      ∃ (α : Type) (field : Field α), field.key = key ∧ field.read value = some (new.get field) ∧
        ∀ {β : Type} (other : Field β), ¬ HEq other field → new.get other = attrs.get other) ∧
    (∀ attrs value new, set? attrs "indent.increment" value = some new ↔
      ∃ text n, value = some text ∧ Numeral.PaddedInt32 text.toList n ∧
        new = { attrs with increment := some n }) ∧
    (∀ t n, Numeral.Digits t n ↔ ∃ zeros, t = List.replicate zeros '0' ++ Nat.toDigits 10 n) ∧
    (∀ a b c, merge (merge a b) c = merge a (merge b c)) ∧
    (∀ attrs, merge {} attrs = attrs ∧ merge attrs {} = attrs ∧ merge attrs attrs = attrs) ∧
    (∀ groups : List (List Attributes), merged groups.flatten = merged (groups.map merged)) ∧
    ∀ all : List Attributes, merged (all.filter (· ≠ {})) = merged all ∧ merged all.dedup = merged all := by
  refine ⟨?_, fun _ _ _ => set?_eq_none_iff, ?_, fun _ _ _ => set?_increment_eq_some_iff,
    fun _ _ => Numeral.digits_iff, merge_assoc, ?_, merged_flatten, ?_⟩
  · intro attrs key value hrefused
    unfold set
    rw [hrefused, Option.getD_none]
  · intro attrs key value new hnew
    exact ⟨set_of_set? hnew, exists_field_of_set? hnew⟩
  · exact fun attrs => ⟨empty_merge attrs, merge_empty attrs, merge_self attrs⟩
  · exact fun all => ⟨merged_filter all, merged_dedup all⟩

/-- The lowest increment, written with zeros between an ideographic and a plain space. The number above the highest one
is refused, and so is a sign alone. -/
example :
    set? { propagate := some true } "indent.increment" (some "\u3000-0002147483648 ")
        = some { propagate := some true, increment := some (-2147483648) } ∧
      set? {} "indent.increment" (some "+2147483648") = none ∧ set? {} "indent.increment" (some "+") = none := by
  decide +kernel

end TreeIndent.Attributes
