import TreeIndent.Marking.Query
import Mathlib.Data.List.Basic
import Mathlib.Tactic.Common

/-!
# The last writer of an attribute

A run of a query can capture one node in one role many times, and each of these occurrences brings attributes of
its own. `QueryRun.marking` keeps, for every field by itself, the value of the last occurrence that sets it.

* `Attributes.Field`: the fields of attributes. `get_set` and `get_merge` say what one assignment and one merge do
  to a field.
* `QueryRun.own`: the properties that an occurrence gets its attributes from. A field has the value of the last of
  them that assigns it (`get_attributes`).
* `QueryRun.occurrences`: what is found for a role and a node. The marking merges these in order
  (`get?_marking`), so markings of runs merge (`get?_marking_append`), and matches that have no role and node in
  common can change places (`Reordered`).
-/

namespace TreeIndent

namespace Attributes

/-! ## Fields -/

/-- The fields of attributes, by the type of their values. -/
inductive Field : Type → Type where
  | immediate : Field Bool
  | increment : Field Int
  | propagate : Field Bool
  | startAtSameLine : Field Bool
  | alignHanging : Field Bool
  | avoidLastMatchingNext : Field Bool
  | openDelimiter : Field String
  | closeDelimiter : Field String

/-- The value of a field, if it is set. -/
def get (attrs : Attributes) {α : Type} : Field α → Option α
  | .immediate => attrs.immediate
  | .increment => attrs.increment
  | .propagate => attrs.propagate
  | .startAtSameLine => attrs.startAtSameLine
  | .alignHanging => attrs.alignHanging
  | .avoidLastMatchingNext => attrs.avoidLastMatchingNext
  | .openDelimiter => attrs.openDelimiter
  | .closeDelimiter => attrs.closeDelimiter

/-- The key that names a field. -/
def Field.key {α : Type} : Field α → String
  | .immediate => "indent.immediate"
  | .increment => "indent.increment"
  | .propagate => "indent.propagate"
  | .startAtSameLine => "indent.start_at_same_line"
  | .alignHanging => "indent.align_hanging"
  | .avoidLastMatchingNext => "indent.avoid_last_matching_next"
  | .openDelimiter => "indent.open_delimiter"
  | .closeDelimiter => "indent.close_delimiter"

/-- What a text makes of a field: a value, or unset where a delimiter has no text. A text that is refused makes
nothing of it. -/
def Field.read {α : Type} : Field α → Option String → Option (Option α)
  | .increment, value => (increment? value).map some
  | .openDelimiter, value => some value
  | .closeDelimiter, value => some value
  | .immediate, value => some (some (flag value))
  | .propagate, value => some (some (flag value))
  | .startAtSameLine, value => some (some (flag value))
  | .alignHanging, value => some (some (flag value))
  | .avoidLastMatchingNext, value => some (some (flag value))

/-- What a property makes of a field: nothing if the key is another's or the text is refused. -/
def Field.assigned? {α : Type} (field : Field α) (property : Property) : Option (Option α) :=
  if property.key = field.key then field.read property.value else none

lemma get_empty {α : Type} (field : Field α) : ({} : Attributes).get field = none := by
  cases field <;> rfl

/-- An assignment gives its field the new value and leaves all others. -/
lemma get_set {α : Type} (field : Field α) (attrs : Attributes) (key : String) (value : Option String) :
    (attrs.set key value).get field
      = (if key = field.key then field.read value else none).getD (attrs.get field) := by
  unfold set set?
  -- One case for each key, and the last one for a key that names no field.
  split
  case h_6 =>
    -- The increment is the one field whose text can be refused.
    cases hnumber : increment? value <;> cases field <;> simp [get, Field.key, Field.read, hnumber]
  all_goals cases field <;> simp_all [get, Field.key, Field.read]

/-- A run of assignments leaves a field as the last of them that assigns it does. -/
lemma get_foldl_set {α : Type} (field : Field α) (properties : List Property) (attrs : Attributes) :
    (properties.foldl (fun attrs property => attrs.set property.key property.value) attrs).get field
      = (properties.reverse.findSome? field.assigned?).getD (attrs.get field) := by
  induction properties generalizing attrs with
  | nil => rfl
  | cons property rest ih =>
    rw [List.foldl_cons, ih, get_set, List.reverse_cons, List.findSome?_append, Option.getD_or]
    congr 1
    rw [List.findSome?_singleton]
    rfl

/-! ## Merging -/

/-- Merging takes for each field what the later attributes set, and else what the earlier ones do. -/
lemma get_merge {α : Type} (field : Field α) (earlier later : Attributes) :
    (earlier.merge later).get field = (later.get field).or (earlier.get field) := by
  cases field <;> rfl

lemma merge_assoc (a b c : Attributes) : (a.merge b).merge c = a.merge (b.merge c) := by
  unfold merge
  simp only [Option.or_assoc]

lemma empty_merge (attrs : Attributes) : ({} : Attributes).merge attrs = attrs := by
  unfold merge
  simp only [Option.or_none]

instance : Std.Associative Attributes.merge := ⟨merge_assoc⟩

/-- Attributes merged in order, a later one over an earlier one; none where there are none to merge. -/
def mergeAll : List Attributes → Option Attributes
  | [] => none
  | attrs :: rest => Option.merge merge (some attrs) (mergeAll rest)

lemma mergeAll_append (earlier later : List Attributes) :
    mergeAll (earlier ++ later) = Option.merge merge (mergeAll earlier) (mergeAll later) := by
  induction earlier with
  | nil => simp [mergeAll]
  | cons attrs rest ih =>
    have hassoc : Std.Associative (Option.merge merge) := inferInstance
    rw [List.cons_append, mergeAll, mergeAll, ih, hassoc.assoc]

lemma mergeAll_eq_none_iff {all : List Attributes} : mergeAll all = none ↔ all = [] := by
  cases all with
  | nil => simp [mergeAll]
  | cons attrs rest => cases hrest : mergeAll rest <;> simp [mergeAll, hrest]

/-- Of all attributes that are merged, a field has the value of the last that sets it. -/
lemma get_mergeAll {all : List Attributes} {merged : Attributes} (h : mergeAll all = some merged) {α : Type}
    (field : Field α) : merged.get field = all.reverse.findSome? fun attrs => attrs.get field := by
  induction all generalizing merged with
  | nil => cases h
  | cons attrs rest ih =>
    rw [List.reverse_cons, List.findSome?_append, List.findSome?_singleton]
    rw [mergeAll] at h
    cases hrest : mergeAll rest with
    | none =>
      rw [hrest, Option.merge_none_right, Option.some.injEq] at h
      rw [mergeAll_eq_none_iff.1 hrest, h]
      rfl
    | some later =>
      rw [hrest, Option.merge_some_some, Option.some.injEq] at h
      rw [← h, get_merge, ih hrest]

end Attributes

/-! ## Marks in order -/

lemma Role.ofCaptureName?_eq_some_iff {name : String} {role : Role} :
    Role.ofCaptureName? name = some role ↔ name = role.captureName := by
  constructor
  · intro h
    unfold Role.ofCaptureName? at h
    have hname := List.find?_some h
    exact (beq_iff_eq.1 hname).symm
  · intro h
    rw [h]
    exact Role.ofCaptureName?_captureName role

namespace Marking

lemma mem_bucket {marking : Marking} {role : Role} {node : Nat} {attrs : Attributes} :
    (node, attrs) ∈ marking.bucket role ↔ marking.get? role node = some attrs := by
  unfold bucket get?
  rw [Table.get?_eq_some_iff]
  simp only [List.mem_map, List.mem_filter, beq_iff_eq, Prod.mk.injEq, Prod.exists]
  constructor
  · rintro ⟨role', node', attrs', ⟨hentry, rfl⟩, rfl, rfl⟩
    exact hentry
  · intro hentry
    exact ⟨role, node, attrs, ⟨hentry, rfl⟩, rfl, rfl⟩

/-- The attributes of the marks that name a role and a node, in order. -/
def named (marks : List (Role × Nat × Attributes)) (role : Role) (node : Nat) : List Attributes :=
  marks.filterMap fun mark => if (mark.1, mark.2.1) = (role, node) then some mark.2.2 else none

lemma named_cons (mark : Role × Nat × Attributes) (rest : List (Role × Nat × Attributes)) (role : Role)
    (node : Nat) :
    named (mark :: rest) role node
      = if (mark.1, mark.2.1) = (role, node) then mark.2.2 :: named rest role node
        else named rest role node := by
  unfold named
  rw [List.filterMap_cons]
  split <;> split <;> simp_all

/-- A mark merges what it brings into what was there. -/
lemma get?_mark_self (marking : Marking) (role : Role) (node : Nat) (attrs : Attributes) :
    (marking.mark role node attrs).get? role node
      = Option.merge Attributes.merge (marking.get? role node) (some attrs) := by
  rw [get?_mark, if_pos rfl]
  cases marking.get? role node with
  | none => rw [Option.getD_none, Attributes.empty_merge, Option.merge_none_left]
  | some earlier => rfl

/-- Marks made in order merge all that they bring for a role and a node into what was there. -/
lemma get?_foldl_mark (marks : List (Role × Nat × Attributes)) (marking : Marking) (role : Role) (node : Nat) :
    (marks.foldl (fun marking (role, node, attrs) => marking.mark role node attrs) marking).get? role node
      = Option.merge Attributes.merge (marking.get? role node) (Attributes.mergeAll (named marks role node)) := by
  have hassoc : Std.Associative (Option.merge Attributes.merge) := inferInstance
  induction marks generalizing marking with
  | nil => exact (Option.merge_none_right ..).symm
  | cons mark rest ih =>
    rw [List.foldl_cons, ih, named_cons]
    by_cases hmark : (mark.1, mark.2.1) = (role, node)
    · rw [if_pos hmark, Attributes.mergeAll, ← hassoc.assoc, ← get?_mark_self]
      rw [← (Prod.mk.inj hmark).1, ← (Prod.mk.inj hmark).2]
    · rw [if_neg hmark, get?_mark, if_neg (Ne.symm hmark)]

lemma get?_ofList (marks : List (Role × Nat × Attributes)) (role : Role) (node : Nat) :
    (ofList marks).get? role node = Attributes.mergeAll (named marks role node) := by
  unfold ofList
  rw [get?_foldl_mark, get?_empty, Option.merge_none_left]

end Marking

/-! ## Runs -/

namespace QueryRun

open Attributes (mergeAll)

/-- The properties that a capture gets its attributes from: those of its pattern that are limited to no capture or
to the one by which it was captured. -/
def own (properties : List Property) (capture : Capture) : List Property :=
  properties.filter fun property => property.target.all (· == capture.name)

/-- A field has the value of the last of the properties that assigns it. -/
lemma get_attributes (properties : List Property) (capture : Capture) {α : Type} (field : Attributes.Field α) :
    (attributes properties capture).get field
      = ((own properties capture).reverse.findSome? field.assigned?).getD none := by
  unfold attributes
  rw [Attributes.get_foldl_set, Attributes.get_empty]
  rfl

/-- A capture of a node in a role. -/
def Captures (run : QueryRun) (role : Role) (node : Nat) (capture : Capture) : Prop :=
  run.captureNames[capture.name]? = some role.captureName ∧ capture.node = node

instance (run : QueryRun) (role : Role) (node : Nat) (capture : Capture) :
    Decidable (run.Captures role node capture) :=
  inferInstanceAs (Decidable (_ ∧ _))

/-- The attributes of the occurrences of a node in a role in one match. -/
def occurrencesIn (run : QueryRun) (role : Role) (node : Nat) (m : Match) : List Attributes :=
  (m.captures.filter fun capture => run.Captures role node capture).map
    (attributes (run.properties[m.pattern]?.getD []))

/-- The attributes of the occurrences of a node in a role, in the order of the matches and of the captures in
each. -/
def occurrences (run : QueryRun) (role : Role) (node : Nat) : List Attributes :=
  run.found.flatMap (run.occurrencesIn role node)

/-- A capture marks a node in a role just if it is a capture of the node in the role. -/
lemma mark?_eq_some_iff {run : QueryRun} {pattern : Nat} {capture : Capture} {role : Role} {node : Nat}
    {attrs : Attributes} :
    run.mark? pattern capture = some (role, node, attrs) ↔
      run.Captures role node capture ∧ attributes (run.properties[pattern]?.getD []) capture = attrs := by
  unfold mark? Captures
  simp only [Option.bind_eq_bind, Option.bind_eq_some_iff, Role.ofCaptureName?_eq_some_iff, Option.pure_def,
    Option.some.injEq, Prod.mk.injEq]
  constructor
  · rintro ⟨name, hname, found, rfl, rfl, rfl, rfl⟩
    exact ⟨⟨hname, rfl⟩, rfl⟩
  · rintro ⟨⟨hname, rfl⟩, rfl⟩
    exact ⟨_, hname, role, rfl, rfl, rfl, rfl⟩

/-- The marks of a run that name a role and a node are its occurrences. -/
lemma named_marks (run : QueryRun) (role : Role) (node : Nat) :
    Marking.named run.marks role node = run.occurrences role node := by
  unfold Marking.named marks occurrences
  rw [List.filterMap_flatMap]
  apply List.flatMap_congr
  intro m _
  unfold occurrencesIn
  rw [List.filterMap_filterMap, ← List.filterMap_eq_map, ← List.filterMap_eq_filter, List.filterMap_filterMap]
  apply List.filterMap_congr
  intro capture _
  by_cases hcaptures : run.Captures role node capture
  · rw [mark?_eq_some_iff.2 ⟨hcaptures, rfl⟩]
    simp [Option.guard, hcaptures]
  · have hnone : ∀ mark, run.mark? m.pattern capture = some mark → (mark.1, mark.2.1) ≠ (role, node) := by
      intro mark hmark heq
      obtain ⟨rfl, rfl⟩ := Prod.mk.inj heq
      exact hcaptures (mark?_eq_some_iff.1 hmark).1
    cases hmark : run.mark? m.pattern capture with
    | none => simp [Option.guard, hcaptures]
    | some mark =>
      rw [Option.bind_some, if_neg (hnone mark hmark)]
      simp [Option.guard, hcaptures]

/-- The marking of a run merges the occurrences of each role and node in order. -/
lemma get?_marking (run : QueryRun) (role : Role) (node : Nat) :
    run.marking.get? role node = mergeAll (run.occurrences role node) := by
  unfold marking
  rw [Marking.get?_ofList, named_marks]

/-- A match finds a node in a role. -/
def Finds (run : QueryRun) (role : Role) (node : Nat) (m : Match) : Prop :=
  ∃ capture ∈ m.captures, run.Captures role node capture

lemma occurrencesIn_ne_nil_iff {run : QueryRun} {role : Role} {node : Nat} {m : Match} :
    run.occurrencesIn role node m ≠ [] ↔ run.Finds role node m := by
  unfold occurrencesIn Finds
  simp only [Ne, List.map_eq_nil_iff, List.filter_eq_nil_iff, decide_eq_true_eq, not_forall, not_not,
    exists_prop]

/-- A role and a node are marked just if some match finds the node in the role. -/
lemma exists_mem_bucket_iff {run : QueryRun} {role : Role} {node : Nat} :
    (∃ attrs, (node, attrs) ∈ run.marking.bucket role) ↔ ∃ m ∈ run.found, run.Finds role node m := by
  have hsome : (∃ attrs, (node, attrs) ∈ run.marking.bucket role) ↔ run.occurrences role node ≠ [] := by
    simp only [Marking.mem_bucket, get?_marking]
    rw [← Option.isSome_iff_exists, ← Option.ne_none_iff_isSome, Ne, Attributes.mergeAll_eq_none_iff]
  rw [hsome]
  unfold occurrences
  simp only [Ne, List.flatMap_eq_nil_iff, not_forall, exists_prop]
  exact exists_congr fun m => and_congr_right fun _ => occurrencesIn_ne_nil_iff

/-! ## Joining and reordering matches -/

/-- The same query with other matches. -/
def finding (run : QueryRun) (found : List Match) : QueryRun :=
  { run with found }

/-- The marking of the matches of two runs together merges their markings, role by role and node by node. -/
lemma get?_marking_append (run : QueryRun) (earlier later : List Match) (role : Role) (node : Nat) :
    (run.finding (earlier ++ later)).marking.get? role node
      = Option.merge Attributes.merge ((run.finding earlier).marking.get? role node)
          ((run.finding later).marking.get? role node) := by
  have happend : (run.finding (earlier ++ later)).occurrences role node
      = (run.finding earlier).occurrences role node ++ (run.finding later).occurrences role node :=
    List.flatMap_append
  rw [get?_marking, get?_marking, get?_marking, happend, Attributes.mergeAll_append]

/-- Two matches find no node in the same role. -/
def Apart (run : QueryRun) (m m' : Match) : Prop :=
  ∀ role node, ¬ (run.Finds role node m ∧ run.Finds role node m')

/-- Matches in another order, in which only such matches have changed places as find no node in the same role. -/
inductive Reordered (run : QueryRun) : List Match → List Match → Prop where
  | refl (found : List Match) : Reordered run found found
  | cons (m : Match) {found found' : List Match} (h : Reordered run found found') :
      Reordered run (m :: found) (m :: found')
  | swap {m m' : Match} (h : run.Apart m m') (found : List Match) :
      Reordered run (m :: m' :: found) (m' :: m :: found)
  | trans {found found' found'' : List Match} (h : Reordered run found found')
      (h' : Reordered run found' found'') : Reordered run found found''

lemma occurrences_of_reordered {run : QueryRun} {found found' : List Match} (h : run.Reordered found found')
    (role : Role) (node : Nat) :
    (run.finding found).occurrences role node = (run.finding found').occurrences role node := by
  induction h with
  | refl found => rfl
  | cons m h ih => exact congrArg (run.occurrencesIn role node m ++ ·) ih
  | @swap m m' h found =>
    show run.occurrencesIn role node m ++ (run.occurrencesIn role node m' ++ (run.finding found).occurrences role node)
      = run.occurrencesIn role node m' ++ (run.occurrencesIn role node m ++ (run.finding found).occurrences role node)
    -- One of the two matches has nothing for this role and node.
    by_cases hm : run.Finds role node m
    · have hm' : run.occurrencesIn role node m' = [] := by
        by_contra hne
        exact h role node ⟨hm, occurrencesIn_ne_nil_iff.1 hne⟩
      rw [hm', List.nil_append, List.nil_append]
    · have hnil : run.occurrencesIn role node m = [] := by
        by_contra hne
        exact hm (occurrencesIn_ne_nil_iff.1 hne)
      rw [hnil, List.nil_append, List.nil_append]
  | trans h h' ih ih' => exact ih.trans ih'

/-- Matches of which no two find a node in the same role can be put in any order. -/
lemma reordered_of_perm {run : QueryRun} {found found' : List Match} (hperm : found.Perm found')
    (hapart : found.Pairwise run.Apart) : run.Reordered found found' := by
  induction hperm with
  | nil => exact .refl []
  | cons m h ih => exact .cons m (ih (List.pairwise_cons.1 hapart).2)
  | swap m m' found =>
    have hfirst : run.Apart m' m := (List.pairwise_cons.1 hapart).1 m (List.mem_cons_self ..)
    exact .swap hfirst found
  | trans h h' ih ih' =>
    have hsymm : ∀ {m m' : Match}, run.Apart m m' → run.Apart m' m :=
      fun hm role node hboth => hm role node hboth.symm
    exact .trans (ih hapart) (ih' ((h.pairwise_iff hsymm).1 hapart))

lemma marking_of_reordered {run : QueryRun} {found found' : List Match} (h : run.Reordered found found') :
    (run.finding found).marking = (run.finding found').marking := by
  have htable : (run.finding found).marking.table = (run.finding found').marking.table := by
    apply Table.ext_get?
    intro key
    show (run.finding found).marking.get? key.1 key.2 = (run.finding found').marking.get? key.1 key.2
    rw [get?_marking, get?_marking, occurrences_of_reordered h]
  exact congrArg Marking.mk htable

/-- The marking of a run keeps the last writer of every field.

A node is in the bucket of a role just if some match captures it under the role's name. Each field of its
attributes has the value of the last occurrence that sets it, and is unset where none does. What an occurrence
sets is what its own properties leave: the value of the last of them that assigns the field, unset again if that
is a delimiter without a text.

So the marking of some matches and then others is that of the first merged with that of the others, and matches
that find no node in the same role can change places. -/
theorem marking_keeps_last_writer (run : QueryRun) :
    (∀ role node, (∃ attrs, (node, attrs) ∈ run.marking.bucket role) ↔
      ∃ m ∈ run.found, ∃ capture ∈ m.captures,
        run.captureNames[capture.name]? = some role.captureName ∧ capture.node = node) ∧
    (∀ role node attrs, (node, attrs) ∈ run.marking.bucket role → ∀ {α : Type} (field : Attributes.Field α),
      attrs.get field = (run.occurrences role node).reverse.findSome? fun occurrence => occurrence.get field) ∧
    (∀ properties capture {α : Type} (field : Attributes.Field α),
      (attributes properties capture).get field
        = ((own properties capture).reverse.findSome? field.assigned?).getD none) ∧
    (∀ earlier later role node, (run.finding (earlier ++ later)).marking.get? role node
      = Option.merge Attributes.merge ((run.finding earlier).marking.get? role node)
          ((run.finding later).marking.get? role node)) ∧
    (∀ found found', run.Reordered found found' → (run.finding found).marking = (run.finding found').marking) ∧
    ∀ found found', found.Perm found' → found.Pairwise run.Apart →
      (run.finding found).marking = (run.finding found').marking := by
  refine ⟨fun role node => exists_mem_bucket_iff, ?_, fun properties capture _ field => ?_, ?_, ?_, ?_⟩
  · intro role node attrs hattrs α field
    rw [Marking.mem_bucket, get?_marking] at hattrs
    exact Attributes.get_mergeAll hattrs field
  · exact get_attributes properties capture field
  · exact run.get?_marking_append
  · intro found found' h
    exact marking_of_reordered h
  · intro found found' hperm hapart
    exact marking_of_reordered (reordered_of_perm hperm hapart)

/-- Two patterns find one node in one role. The second drops the delimiter that it has set itself, and its
increment is refused, so that both fields stay as the first has set them. -/
example :
    ({ captureNames := ["indent.align"]
       properties :=
         [[⟨none, "indent.open_delimiter", some "("⟩, ⟨some 0, "indent.increment", some "2"⟩],
          [⟨none, "indent.open_delimiter", some "["⟩, ⟨none, "indent.open_delimiter", none⟩,
           ⟨none, "indent.increment", some "two"⟩, ⟨some 1, "indent.immediate", none⟩]]
       found := [⟨0, [⟨0, 3⟩]⟩, ⟨1, [⟨0, 3⟩]⟩] } : QueryRun).marking.bucket .align
      = [(3, { openDelimiter := some "(", increment := some 2 })] := by
  decide +kernel

end QueryRun

end TreeIndent
