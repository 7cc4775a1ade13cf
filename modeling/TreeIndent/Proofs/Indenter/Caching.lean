import TreeIndent.Indenter
import TreeIndent.Proofs.Cache.Entries
import Mathlib.Data.List.Nodup

/-!
# An indenter and what it has cached

One indenter over one forest. A cached marking is right for the forest if only layers that have this marking
can find it (`RightFor`). Over such a cache every line gets the indent that an empty cache would give it
(`indentOf_fst`, `indentsOf_fst`), and indenting caches nothing but the markings of the forest's layers
(`holds_indentOf`, `holds_indentsOf`).
-/

namespace TreeIndent

/-! ## The layers of a forest -/

namespace Forest

/-- Whether the roots of the layers can be told apart. -/
def DistinctRoots (forest : Forest) : Prop :=
  (forest.layers.map (·.tree.identity)).Nodup

instance (forest : Forest) : Decidable forest.DistinctRoots :=
  inferInstanceAs (Decidable (List.Nodup _))

/-- With distinct roots, layers with one root are one layer. -/
lemma DistinctRoots.eq {forest : Forest} (h : forest.DistinctRoots) {layer other : Layer}
    (hlayer : layer ∈ forest.layers) (hother : other ∈ forest.layers)
    (hroot : layer.tree.identity = other.tree.identity) : layer = other :=
  List.inj_on_of_nodup_map h hlayer hother hroot

private lemma mem_of_foldl_better {entries : List (Layer × Nat)} {choice : Option (Layer × Nat)}
    {chosen : Layer × Nat} (h : entries.foldl better choice = some chosen) :
    choice = some chosen ∨ chosen ∈ entries := by
  induction entries generalizing choice with
  | nil => exact Or.inl h
  | cons next rest ih =>
    rcases ih h with hbetter | hmem
    · -- The better of two is one of the two.
      have hone : choice = some chosen ∨ next = chosen := by
        unfold better at hbetter
        split at hbetter
        · exact Or.inr (Option.some.inj hbetter)
        · split at hbetter
          · exact Or.inr (Option.some.inj hbetter)
          · exact Or.inl hbetter
      rcases hone with hchoice | rfl
      · exact Or.inl hchoice
      · exact Or.inr (List.mem_cons_self ..)
    · exact Or.inr (List.mem_cons_of_mem _ hmem)

/-- The layer for a line is one of the layers. -/
lemma mem_layers_of_layerFor? {forest : Forest} {line : Nat} {layer : Layer}
    (h : forest.layerFor? line = some layer) : layer ∈ forest.layers := by
  unfold layerFor? at h
  obtain ⟨⟨chosen, position⟩, hchoice, rfl⟩ := Option.map_eq_some_iff.1 h
  unfold choice? at hchoice
  rcases mem_of_foldl_better hchoice with hnone | hmem
  · cases hnone
  · exact (List.mem_zipIdx' (List.mem_filter.1 hmem).1).2 ▸ List.getElem_mem _

end Forest

/-! ## One indenter over one forest -/

namespace Indenter

variable {Query : Type}

/-- The indent of a line by an indenter with the same grammars, configuration and patterns that has cached nothing. -/
def freshIndentOf (indenter : Indenter Query) (doc : Document) (forest : Forest) (line : Nat) : Indent :=
  ((Indenter.new indenter.registry indenter.config indenter.patterns).indentOf doc forest line).1

/-- A cached marking is right for a forest if a layer that finds it has that marking. -/
def RightFor (indenter : Indenter Query) (forest : Forest) (key : Cache.Key) (marking : Marking) : Prop :=
  ∀ doc, ∀ layer ∈ forest.layers, key = keyOf doc forest layer → marking = indenter.markingOf layer

/-- What is cached for a layer is right, if the roots are distinct. -/
lemma rightFor_keyOf {indenter : Indenter Query} {forest : Forest} (hroots : forest.DistinctRoots)
    (doc : Document) {layer : Layer} (hlayer : layer ∈ forest.layers) :
    indenter.RightFor forest (keyOf doc forest layer) (indenter.markingOf layer) := by
  intro doc' layer' hlayer' hkey
  have hroot : layer.tree.identity = layer'.tree.identity := congrArg Cache.Key.root hkey
  rw [hroots.eq hlayer hlayer' hroot]

/-- A cache that is right for a forest gives each of its layers the layer's own marking. -/
lemma fetch_marking {indenter : Indenter Query} {forest : Forest}
    (h : indenter.cache.Holds (indenter.RightFor forest)) (doc : Document) {layer : Layer}
    (hlayer : layer ∈ forest.layers) :
    (indenter.cache.fetch (keyOf doc forest layer) fun _ => indenter.markingOf layer).1
      = indenter.markingOf layer :=
  h.fetch_fst fun _ hright => hright doc layer hlayer rfl

/-- A line gets the indent that an empty cache would give it. -/
lemma indentOf_fst {indenter : Indenter Query} {forest : Forest}
    (h : indenter.cache.Holds (indenter.RightFor forest)) (doc : Document) (line : Nat) :
    (indenter.indentOf doc forest line).1 = indenter.freshIndentOf doc forest line := by
  unfold freshIndentOf indentOf
  cases hlayer : forest.layerFor? line with
  | none => rfl
  | some layer =>
    -- Both ask for the marking of one layer: one cache may hold it, the empty one builds it.
    have hmem := Forest.mem_layers_of_layerFor? hlayer
    by_cases henabled : indenter.config.isEnabled layer.language = true
    · simp only [Indenter.new, henabled, if_true, Cache.fetch_new_fst]
      rw [fetch_marking h doc hmem]
      rfl
    · simp only [Indenter.new, henabled, Bool.false_eq_true, if_false]

/-- Indenting a line changes nothing but the cache. -/
lemma indentOf_snd (indenter : Indenter Query) (doc : Document) (forest : Forest) (line : Nat) :
    ∃ cache, (indenter.indentOf doc forest line).2 = { indenter with cache } := by
  unfold indentOf
  split
  · exact ⟨indenter.cache, rfl⟩
  · split
    · exact ⟨_, rfl⟩
    · exact ⟨indenter.cache, rfl⟩

/-- Indenting a line keeps what holds of the cache and of the markings of the forest's layers. -/
lemma holds_indentOf {indenter : Indenter Query} {forest : Forest} {doc : Document}
    {property : Cache.Key → Marking → Prop} (h : indenter.cache.Holds property)
    (hbuild : ∀ layer ∈ forest.layers, property (keyOf doc forest layer) (indenter.markingOf layer))
    (line : Nat) : (indenter.indentOf doc forest line).2.cache.Holds property := by
  unfold indentOf
  split
  · exact h
  · next layer hlayer =>
    split
    · exact h.fetch (hbuild layer (Forest.mem_layers_of_layerFor? hlayer))
    · exact h

/-! ## Several lines -/

/-- Indenting several lines changes nothing but the cache. -/
lemma indentsOf_snd (indenter : Indenter Query) (doc : Document) (forest : Forest) (lines : List Nat) :
    ∃ cache, (indenter.indentsOf doc forest lines).2 = { indenter with cache } := by
  induction lines generalizing indenter with
  | nil => exact ⟨indenter.cache, rfl⟩
  | cons line rest ih =>
    obtain ⟨first, hfirst⟩ := indenter.indentOf_snd doc forest line
    obtain ⟨cache, hrest⟩ := ih (indenter.indentOf doc forest line).2
    refine ⟨cache, ?_⟩
    rw [indentsOf]
    dsimp only
    rw [hrest, hfirst]

lemma holds_indentsOf {indenter : Indenter Query} {forest : Forest} {doc : Document}
    {property : Cache.Key → Marking → Prop} (h : indenter.cache.Holds property)
    (hbuild : ∀ layer ∈ forest.layers, property (keyOf doc forest layer) (indenter.markingOf layer))
    (lines : List Nat) : (indenter.indentsOf doc forest lines).2.cache.Holds property := by
  induction lines generalizing indenter with
  | nil => exact h
  | cons line rest ih =>
    obtain ⟨cache, hfirst⟩ := indenter.indentOf_snd doc forest line
    rw [indentsOf]
    refine ih (holds_indentOf h hbuild line) ?_
    rw [hfirst]
    exact hbuild

/-- Each of several lines gets the indent that an empty cache would give it. -/
lemma indentsOf_fst {indenter : Indenter Query} {forest : Forest} (hroots : forest.DistinctRoots)
    (h : indenter.cache.Holds (indenter.RightFor forest)) (doc : Document) (lines : List Nat) :
    (indenter.indentsOf doc forest lines).1
      = lines.map fun line => (line, indenter.freshIndentOf doc forest line) := by
  induction lines generalizing indenter with
  | nil => rfl
  | cons line rest ih =>
    -- The cache is right again after the first line, so the other lines find it so.
    have hright := holds_indentOf h (fun layer hlayer => rightFor_keyOf hroots doc hlayer) line
    rw [indentsOf, List.map_cons, indentOf_fst h]
    dsimp only
    obtain ⟨cache, hfirst⟩ := indenter.indentOf_snd doc forest line
    rw [hfirst] at hright ⊢
    rw [ih hright]
    rfl

end Indenter

end TreeIndent
