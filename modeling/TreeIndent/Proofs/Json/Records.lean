import TreeIndent.Json.Record
import TreeIndent.Proofs.Json.Reading
import Mathlib.Data.List.Forall2

/-!
# Records as they are written

The objects that may be written for a record whose fields have given values (`RecordWritten`): the fields in any
order, each of them once or, where it has its default value, not at all, and between them any members with
other names. A name is written in any spelling.

From every such object, the value of each field is taken as it was written, and a field is missed only where it may
be (`fields?_of_written`).
-/

namespace TreeIndent.Json

/-! ## Names -/

/-- Members of an object with the names that theirs are spellings of. -/
def Spelled (members : List (Text × Json)) (named : List (String × Json)) : Prop :=
  List.Forall₂ (fun member entry => Spelling member.1 entry.1.toList ∧ member.2 = entry.2) members named

/-- Members with their names escaped as little as possible. -/
def escapeNames (named : List (String × Json)) : List (Text × Json) :=
  named.map fun entry => (escape entry.1.toList, entry.2)

lemma spelled_escapeNames (named : List (String × Json)) : Spelled (escapeNames named) named := by
  unfold Spelled escapeNames
  rw [List.forall₂_map_left_iff, List.forall₂_same]
  exact fun entry _ => ⟨spelling_escape entry.1.toList, rfl⟩

/-- All results of a reader are there if each of them is. -/
lemma mapM_of_forall₂ {α β : Type} {read : α → Option β} {as : List α} {bs : List β}
    (h : List.Forall₂ (fun a b => read a = some b) as bs) : as.mapM read = some bs := by
  induction h with
  | nil => rfl
  | cons hab _ ih =>
    rw [List.mapM_cons, hab, ih]
    rfl

lemma members?_of_spelled {members : List (Text × Json)} {named : List (String × Json)}
    (h : Spelled members named) : members? (.object members) = some named := by
  apply mapM_of_forall₂
  refine h.imp ?_
  rintro ⟨literal, json⟩ ⟨name, value⟩ ⟨hname, rfl⟩
  rw [hname.unescape?, Option.map_some, String.ofList_toList]

lemma Spelled.wellFormed {members : List (Text × Json)} {named : List (String × Json)} (h : Spelled members named)
    (hvalues : ∀ entry ∈ named, WellFormed entry.2) : WellFormed (.object members) := by
  have hmembers : ∀ member ∈ members, StringLiteral member.1 ∧ WellFormed member.2 := by
    induction h with
    | nil => exact fun member hmember => absurd hmember List.not_mem_nil
    | cons hhead _ ih =>
      rw [List.forall_mem_cons] at hvalues ⊢
      refine ⟨⟨hhead.1.stringLiteral, ?_⟩, ih hvalues.2⟩
      rw [hhead.2]
      exact hvalues.1
  exact .object (fun member hmember => (hmembers member hmember).1) fun member hmember => (hmembers member hmember).2

/-! ## Fields -/

/-- A field of a record: its name, what may be written for it, and whether it may be left out. -/
structure Field where
  name : String
  Writes : Json → Prop
  MayBeMissing : Prop

/-- The field that holds a value, to be left out only where this is the default value. -/
def Field.of {α : Type} (name : String) (writes : α → Json → Prop) (default value : α) : Field where
  name := name
  Writes := writes value
  MayBeMissing := value = default

/-- The one way to write a value. -/
def Exactly {α : Type} (write : α → Json) (value : α) (json : Json) : Prop :=
  json = write value

lemma forall_exactly {α : Type} {write : α → Json} {value : α} {P : Json → Prop} (h : P (write value)) :
    ∀ json, Exactly write value json → P json := by
  rintro json rfl
  exact h

/-- A word of 64 bits as it is written. -/
def ofWord (n : UInt64) : Json :=
  .number (decimal n)

lemma word?_ofWord (n : UInt64) : word? (ofWord n) = some n :=
  word?_decimal n

lemma wellFormed_ofWord (n : UInt64) : WellFormed (ofWord n) :=
  .number (numberLiteral_decimal n)

/-- What a field may look like: a value that may be written for it, or nothing where it may be left out. -/
def Field.Allows (field : Field) : Option Json → Prop
  | none => field.MayBeMissing
  | some json => field.Writes json

/-- The members that are written for some fields, in the order of the fields. -/
inductive FieldsWritten : List Field → List (String × Json) → Prop where
  | nil : FieldsWritten [] []
  | present {field : Field} {fields : List Field} {json : Json} {named : List (String × Json)}
      (hjson : field.Writes json) (h : FieldsWritten fields named) :
      FieldsWritten (field :: fields) ((field.name, json) :: named)
  | missing {field : Field} {fields : List Field} {named : List (String × Json)} (hmissing : field.MayBeMissing)
      (h : FieldsWritten fields named) : FieldsWritten (field :: fields) named

/-- The objects that are written for a record: its fields and any other members, in any order and with any spelling
of their names. -/
inductive RecordWritten (fields : List Field) : Json → Prop where
  | object {known others named : List (String × Json)} {members : List (Text × Json)}
      (hknown : FieldsWritten fields known)
      (hothers : ∀ other ∈ others, other.1 ∉ fields.map Field.name ∧ WellFormed other.2)
      (hperm : named.Perm (known ++ others)) (hspelled : Spelled members named) :
      RecordWritten fields (.object members)

/-- The order of members does not matter for a member that may stand once. -/
lemma member?_of_perm {named named' : List (String × Json)} (h : named.Perm named') (name : String) :
    member? name named = member? name named' := by
  have hfilter := h.filter fun member => member.1 == name
  unfold member?
  generalize named.filter (fun member => member.1 == name) = found at hfilter ⊢
  generalize named'.filter (fun member => member.1 == name) = found' at hfilter ⊢
  match found', hfilter with
  | [], hfilter => rw [hfilter.eq_nil]
  | [member], hfilter => rw [hfilter.eq_singleton]
  | first :: second :: rest, hfilter =>
    match found, hfilter.length_eq with
    | _ :: _ :: _, _ => rfl

lemma filter_name_eq_nil {name : String} {named : List (String × Json)} (h : ∀ entry ∈ named, entry.1 ≠ name) :
    (named.filter fun member => member.1 == name) = [] := by
  rw [List.filter_eq_nil_iff]
  intro entry hentry
  simpa using h entry hentry

lemma member?_of_absent {name : String} {named : List (String × Json)} (h : ∀ entry ∈ named, entry.1 ≠ name) :
    member? name named = some none := by
  rw [member?, filter_name_eq_nil h]

lemma member?_cons_self {name : String} {named : List (String × Json)} (h : ∀ entry ∈ named, entry.1 ≠ name)
    (json : Json) : member? name ((name, json) :: named) = some (some json) := by
  rw [member?, List.filter_cons_of_pos (by simp), filter_name_eq_nil h]

lemma member?_cons_of_ne {name : String} {entry : String × Json} (h : entry.1 ≠ name)
    (named : List (String × Json)) : member? name (entry :: named) = member? name named := by
  rw [member?, List.filter_cons_of_neg (by simpa using h), member?]

lemma member?_append {name : String} {others : List (String × Json)} (h : ∀ other ∈ others, other.1 ≠ name)
    (named : List (String × Json)) : member? name (named ++ others) = member? name named := by
  rw [member?, List.filter_append, filter_name_eq_nil h, List.append_nil, member?]

/-- The members written for fields have the names of these. -/
lemma FieldsWritten.name_mem {fields : List Field} {named : List (String × Json)} (h : FieldsWritten fields named) :
    ∀ entry ∈ named, entry.1 ∈ fields.map Field.name := by
  induction h with
  | nil => exact fun entry hentry => absurd hentry List.not_mem_nil
  | present _ _ ih =>
    rw [List.forall_mem_cons]
    exact ⟨List.mem_cons_self .., fun entry hentry => List.mem_cons_of_mem _ (ih entry hentry)⟩
  | missing _ _ ih => exact fun entry hentry => List.mem_cons_of_mem _ (ih entry hentry)

lemma FieldsWritten.name_ne {fields : List Field} {named : List (String × Json)} (h : FieldsWritten fields named)
    {name : String} (hname : name ∉ fields.map Field.name) : ∀ entry ∈ named, entry.1 ≠ name := by
  rintro entry hentry rfl
  exact hname (h.name_mem entry hentry)

lemma FieldsWritten.wellFormed {fields : List Field} {named : List (String × Json)} (h : FieldsWritten fields named)
    (hfields : ∀ field ∈ fields, ∀ json, field.Writes json → WellFormed json) :
    ∀ entry ∈ named, WellFormed entry.2 := by
  induction h with
  | nil => exact fun entry hentry => absurd hentry List.not_mem_nil
  | present hjson _ ih =>
    rw [List.forall_mem_cons] at hfields ⊢
    exact ⟨hfields.1 _ hjson, ih hfields.2⟩
  | missing _ _ ih =>
    rw [List.forall_mem_cons] at hfields
    exact ih hfields.2

/-- Each field is found as it was written, and it is missed only where it may be. -/
lemma FieldsWritten.exists_values {fields : List Field} {named : List (String × Json)}
    (h : FieldsWritten fields named) (hnodup : (fields.map Field.name).Nodup) :
    ∃ values, List.Forall₂ (fun field value => member? field.name named = some value ∧ field.Allows value)
      fields values := by
  induction h with
  | nil => exact ⟨[], .nil⟩
  | @present field fields json named hjson h ih =>
    rw [List.map_cons, List.nodup_cons] at hnodup
    obtain ⟨values, hvalues⟩ := ih hnodup.2
    have hne : ∀ other ∈ fields, field.name ≠ other.name := by
      intro other hother heq
      exact hnodup.1 (heq ▸ List.mem_map_of_mem hother)
    refine ⟨some json :: values, .cons ⟨member?_cons_self (h.name_ne hnodup.1) json, hjson⟩ ?_⟩
    refine ((List.forall₂_and_left fields values).2 ⟨hne, hvalues⟩).imp ?_
    rintro other value ⟨hother, hvalue, hallows⟩
    rw [member?_cons_of_ne hother]
    exact ⟨hvalue, hallows⟩
  | @missing field fields named hmissing h ih =>
    rw [List.map_cons, List.nodup_cons] at hnodup
    obtain ⟨values, hvalues⟩ := ih hnodup.2
    exact ⟨none :: values, .cons ⟨member?_of_absent (h.name_ne hnodup.1), hmissing⟩ hvalues⟩

/-! ## Records -/

/-- From an object that is written for a record, the fields are taken as they were written. -/
lemma fields?_of_written {fields : List Field} {json : Json} (h : RecordWritten fields json)
    (hnodup : (fields.map Field.name).Nodup) :
    ∃ values, fields? (fields.map Field.name) json = some values ∧ List.Forall₂ Field.Allows fields values := by
  cases h with
  | @object known others named members hknown hothers hperm hspelled =>
    obtain ⟨values, hvalues⟩ := hknown.exists_values hnodup
    refine ⟨values, ?_, hvalues.imp fun field value h => h.2⟩
    have hmember : ∀ field ∈ fields, member? field.name named = member? field.name known := by
      intro field hfield
      have hother : ∀ other ∈ others, other.1 ≠ field.name := by
        rintro other hother heq
        exact (hothers other hother).1 (heq ▸ List.mem_map_of_mem hfield)
      rw [member?_of_perm hperm, member?_append hother]
    have hread : List.Forall₂ (fun field value => member? field.name named = some value) fields values := by
      refine ((List.forall₂_and_left fields values).2 ⟨hmember, hvalues⟩).imp ?_
      rintro field value ⟨hfield, hvalue, -⟩
      rw [hfield, hvalue]
    show ((members? (.object members)).bind fun named => (fields.map Field.name).mapM fun name =>
      member? name named) = some values
    rw [members?_of_spelled hspelled, Option.bind_some]
    exact mapM_of_forall₂ (List.forall₂_map_left_iff.2 hread)

lemma RecordWritten.wellFormed {fields : List Field} {json : Json} (h : RecordWritten fields json)
    (hfields : ∀ field ∈ fields, ∀ json, field.Writes json → WellFormed json) : WellFormed json := by
  cases h with
  | @object known others named members hknown hothers hperm hspelled =>
    refine hspelled.wellFormed ?_
    intro entry hentry
    rcases List.mem_append.1 (hperm.mem_iff.1 hentry) with hentry | hentry
    · exact hknown.wellFormed hfields entry hentry
    · exact (hothers entry hentry).2

/-- All fields of a record in order, with names escaped as little as possible, are written for it. -/
lemma recordWritten_escapeNames {fields : List Field} {named : List (String × Json)}
    (h : FieldsWritten fields named) : RecordWritten fields (.object (escapeNames named)) := by
  have hothers : ∀ other ∈ ([] : List (String × Json)), other.1 ∉ fields.map Field.name ∧ WellFormed other.2 :=
    fun other hother => absurd hother List.not_mem_nil
  refine .object h hothers ?_ (spelled_escapeNames named)
  rw [List.append_nil]

/-- A field that was taken as it was written has its value, also where it was left out. -/
lemma fieldOr_of_allows {α : Type} {name : String} {writes : α → Json → Prop} {default value : α}
    {read : Json → Option α} (hread : ∀ json, writes value json → read json = some value) {found : Option Json}
    (h : (Field.of name writes default value).Allows found) : fieldOr default read found = some value := by
  cases found with
  | none =>
    have hdefault : value = default := h
    rw [fieldOr, hdefault]
  | some json => exact hread json h

end TreeIndent.Json
