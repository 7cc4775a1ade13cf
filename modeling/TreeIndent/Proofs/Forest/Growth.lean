import TreeIndent.Forest.Basic
import Mathlib.Tactic.Common

/-!
# How a forest grows

Every operation on a forest parses one layer and puts it behind the layers that it keeps: a new forest and one
that is parsed again keep none, an injection keeps all. `Layer.Refusal` lists the causes for which a layer is
refused, and `Layer.parse_eq_error_iff` says that there are no others. An operation whose layer is refused has
not written anything (`inject_eq_grow`, `reparse_eq_grow`). `Forest.Layered` is what all forests have in common
that come about in this way.
-/

namespace TreeIndent

variable {Query : Type}

namespace Layer

/-- The causes for which a layer is refused: a language that is not known, ranges out of order, a parser that
gives no tree. The first of them is the error. -/
inductive Refusal (registry : Registry Query) (language : String) (ranges : Option (List ByteRange))
    (outcome : Option Parsed) : Error → Prop where
  | unknownLanguage (h : registry.get? language = none) :
      Refusal registry language ranges outcome (.unknownLanguage language)
  | badRange {index : Nat} (hknown : registry.get? language ≠ none)
      (h : ranges.bind ByteRange.firstBad? = some index) :
      Refusal registry language ranges outcome (.badRange language index)
  | unparsed (hknown : registry.get? language ≠ none) (hranges : ranges.bind ByteRange.firstBad? = none)
      (h : outcome = none) :
      Refusal registry language ranges outcome (.unparsed language)

variable {registry : Registry Query} {language : String} {ranges : Option (List ByteRange)} {outcome : Option Parsed}

/-- A layer is refused for these causes and for no others. -/
lemma parse_eq_error_iff {error : Error} :
    parse registry language ranges outcome = .error error ↔ Refusal registry language ranges outcome error := by
  unfold parse
  constructor
  · intro h
    split at h
    · next hknown =>
      cases h
      exact .unknownLanguage hknown
    · next grammar hgrammar =>
      have hknown : registry.get? language ≠ none := by simp [hgrammar]
      split at h
      · next index hbad =>
        cases h
        exact .badRange hknown hbad
      · next hranges =>
        split at h
        · next houtcome =>
          cases h
          exact .unparsed hknown hranges rfl
        · cases h
  · rintro (hunknown | ⟨hknown, hbad⟩ | ⟨hknown, hranges, rfl⟩)
    · rw [hunknown]
    · obtain ⟨grammar, hgrammar⟩ := Option.ne_none_iff_exists'.1 hknown
      rw [hgrammar, hbad]
    · obtain ⟨grammar, hgrammar⟩ := Option.ne_none_iff_exists'.1 hknown
      rw [hgrammar, hranges]

/-- A layer that is not refused is in the language that was asked for, over the tree of the parser, and it
counts as injected if it was parsed over ranges. -/
lemma of_parse_eq_ok {layer : Layer} (h : parse registry language ranges outcome = .ok layer) :
    layer.language = language ∧ layer.injected = ranges.isSome ∧ outcome = some layer.parsed := by
  unfold parse at h
  split at h
  · cases h
  · split at h
    · cases h
    · split at h
      · cases h
      · cases h
        exact ⟨rfl, rfl, rfl⟩

end Layer

namespace Forest

/-- Layers as they stand in a forest: there is a first one, it covers the whole text, and all later ones are
injected. -/
def Layered (layers : List Layer) : Prop :=
  ∃ host rest, layers = host :: rest ∧ host.injected = false ∧ ∀ layer ∈ rest, layer.injected = true

lemma layered_singleton {layer : Layer} (h : layer.injected = false) : Layered [layer] :=
  ⟨layer, [], rfl, h, fun _ hother => absurd hother List.not_mem_nil⟩

lemma Layered.concat {layers : List Layer} (h : Layered layers) {layer : Layer}
    (hlayer : layer.injected = true) : Layered (layers ++ [layer]) := by
  obtain ⟨host, rest, rfl, hhost, hrest⟩ := h
  refine ⟨host, rest ++ [layer], rfl, hhost, fun other hother => ?_⟩
  rcases List.mem_append.1 hother with hmem | hmem
  · exact hrest other hmem
  · rw [List.mem_singleton.1 hmem]
    exact hlayer

lemma Layered.hostLanguage? {forest : Forest} (h : Layered forest.layers) :
    ∃ language, forest.hostLanguage? = some language := by
  obtain ⟨host, rest, hlayers, -, -⟩ := h
  rw [Forest.hostLanguage?, hlayers]
  exact ⟨host.language, rfl⟩

/-! ## Operations -/

section Operations

variable (forest : Forest) (registry : Registry Query) (language : String) (ranges : List ByteRange)
  (outcome : Option Parsed) (generation : Nat)

/-- What a layer that was asked for makes of a forest: it goes behind the layers that are kept, with a new generation,
and where it is refused the forest stays as it was. -/
def grow (kept : List Layer) (layer : Except Error Layer) : Except Error Unit × Forest :=
  match layer with
  | .error error => (.error error, forest)
  | .ok layer => (.ok (), ⟨kept ++ [layer], generation⟩)

/-- An injection parses before it writes. -/
lemma inject_eq_grow :
    forest.inject registry language ranges outcome generation
      = forest.grow generation forest.layers (Layer.parse registry language (some ranges) outcome) := by
  unfold inject
  cases Layer.parse registry language (some ranges) outcome <;> rfl

/-- Parsing the host again parses before it writes. Without a host there is nothing to parse. -/
lemma reparse_eq_grow :
    forest.reparse registry outcome generation =
      match forest.hostLanguage? with
      | none => (.error (.unknownLanguage ""), forest)
      | some language => forest.grow generation [] (Layer.parse registry language none outcome) := by
  unfold reparse
  cases forest.hostLanguage? with
  | none => rfl
  | some language =>
    simp only [pure_bind]
    cases Layer.parse registry language none outcome <;> rfl

end Operations

/-- A forest after an injection has one layer more. -/
lemma layers_of_inject {forest grown : Forest} {registry : Registry Query} {language : String}
    {ranges : List ByteRange} {outcome : Option Parsed} {generation : Nat}
    (h : forest.inject registry language ranges outcome generation = (.ok (), grown)) :
    ∃ layer, grown.layers = forest.layers ++ [layer] := by
  rw [inject_eq_grow] at h
  cases hlayer : Layer.parse registry language (some ranges) outcome with
  | error error =>
    rw [hlayer] at h
    cases h
  | ok layer =>
    rw [hlayer] at h
    cases h
    exact ⟨layer, rfl⟩

end Forest

end TreeIndent
