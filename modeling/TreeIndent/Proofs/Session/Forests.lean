import TreeIndent.Proofs.Session.Change
import Mathlib.Data.List.Infix

/-!
# The forests of a session

Three events change a forest: a parse, an injection and a parse of the host again. `growth?` says what each of
them asks for, and `Ends` how it can end: it is refused and leaves the session alone, or one slot gets a
forest of the next generation with one more layer than was kept. All other events leave the forests alone.

From this follows what every run keeps. The forests that it comes by are those that it *observes*: all of them have a
host, so that there is always a language to parse it again in, and a generation that is still to come is in none of
them, so no generation is ever given to two of them.
-/

namespace TreeIndent.Session

variable {Query : Type}

/-! ## Events that grow a forest -/

/-- A layer that is to be parsed and put behind the layers that are kept, for the forest in a slot. -/
structure Growth where
  slot : Nat
  kept : List Layer
  language : String
  ranges : Option (List ByteRange)
  outcome : Option Parsed

/-- What an event asks to be parsed. An injection keeps the layers of the forest in its slot. A forest that is
parsed again keeps none, and its new layer is in the language of its host. -/
def growth? (session : Session Query) : Event → Option Growth
  | .parse slot language outcome => some ⟨slot, [], language, none, outcome⟩
  | .inject slot language ranges outcome =>
    (session.forests.get? slot).map fun forest => ⟨slot, forest.layers, language, some ranges, outcome⟩
  | .reparse slot outcome =>
    ((session.forests.get? slot).bind Forest.hostLanguage?).map fun language => ⟨slot, [], language, none, outcome⟩
  | _ => none

/-- A forest as an event leaves it that asks for a layer: nothing spoke against the layer, it goes behind those
that are kept, and the forest has the next generation. -/
structure Grown (session : Session Query) (grammars : Registry Query) (growth : Growth) (layer : Layer)
    (forest : Forest) : Prop where
  accepted : ∀ error, ¬ Layer.Refusal grammars growth.language growth.ranges growth.outcome error
  language : layer.language = growth.language
  injected : layer.injected = growth.ranges.isSome
  parsed : growth.outcome = some layer.parsed
  layers : forest.layers = growth.kept ++ [layer]
  generation : forest.generation = session.nextGeneration

/-- The session with a forest in a slot and its generation used up. -/
def planted (session : Session Query) (slot : Nat) (forest : Forest) : Session Query :=
  { session with
    forests := session.forests.insert slot forest
    nextGeneration := session.nextGeneration + 1 }

/-- The two ways in which an event ends that asks for a layer. -/
inductive Ends (session : Session Query) (grammars : Registry Query) (growth : Growth) :
    Answer × Session Query → Prop where
  /-- The layer is refused, and the session stays as it was. -/
  | refused {error : Error}
      (cause : Layer.Refusal grammars growth.language growth.ranges growth.outcome error) :
      Ends session grammars growth (.failed error, session)
  /-- The forest has grown by a layer, and nothing else has changed. -/
  | grown {forest : Forest} {layer : Layer} (h : session.Grown grammars growth layer forest) :
      Ends session grammars growth (.grown forest, session.planted growth.slot forest)

/-- Growing a forest by a layer ends in one of the two ways. -/
lemma ends_plant (session : Session Query) (grammars : Registry Query) (growth : Growth) :
    session.Ends grammars growth (session.plant growth.slot
      ((Layer.parse grammars growth.language growth.ranges growth.outcome).map fun layer =>
        ⟨growth.kept ++ [layer], session.nextGeneration⟩)) := by
  cases hparse : Layer.parse grammars growth.language growth.ranges growth.outcome with
  | error error => exact .refused (Layer.parse_eq_error_iff.1 hparse)
  | ok layer =>
    obtain ⟨hlanguage, hinjected, hparsed⟩ := Layer.of_parse_eq_ok hparse
    refine .grown ⟨?_, hlanguage, hinjected, hparsed, rfl, rfl⟩
    intro error hrefusal
    rw [Layer.parse_eq_error_iff.2 hrefusal] at hparse
    cases hparse

/-- An event that asks for a layer ends in one of the two ways. -/
lemma ends_step {session : Session Query} {event : Event} {growth : Growth}
    (h : session.growth? event = some growth) (grammars : Registry Query) :
    session.Ends grammars growth (session.step grammars event) := by
  cases event with
  | parse slot language outcome =>
    cases h
    exact ends_plant session grammars ⟨slot, [], language, none, outcome⟩
  | inject slot language ranges outcome =>
    obtain ⟨forest, hforest, rfl⟩ := Option.map_eq_some_iff.1 h
    rw [step_inject hforest]
    exact ends_plant session grammars ⟨slot, forest.layers, language, some ranges, outcome⟩
  | reparse slot outcome =>
    obtain ⟨language, hlanguage, rfl⟩ := Option.map_eq_some_iff.1 h
    obtain ⟨forest, hforest, hhost⟩ := Option.bind_eq_some_iff.1 hlanguage
    rw [step_reparse hforest grammars hhost]
    exact ends_plant session grammars ⟨slot, [], language, none, outcome⟩
  | _ => cases h

/-- A result that has left the forests of a session alone. -/
def Unmoved (session : Session Query) (result : Answer × Session Query) : Prop :=
  result.2.forests = session.forests ∧ result.2.nextGeneration = session.nextGeneration

lemma unmoved_withDocument {session : Session Query} {doc : Nat} {next : Document → Answer × Session Query}
    (h : ∀ document, session.Unmoved (next document)) : session.Unmoved (session.withDocument doc next) := by
  unfold withDocument
  split
  · exact ⟨rfl, rfl⟩
  · exact h _

lemma unmoved_withForest {session : Session Query} {slot : Nat} {next : Forest → Answer × Session Query}
    (h : ∀ forest, session.forests.get? slot = some forest → session.Unmoved (next forest)) :
    session.Unmoved (session.withForest slot next) := by
  unfold withForest
  split
  · exact ⟨rfl, rfl⟩
  · next forest hforest => exact h forest hforest

/-- An event that asks for no layer leaves the forests alone. -/
lemma unmoved_step {session : Session Query} {event : Event} (h : session.growth? event = none)
    (grammars : Registry Query) : session.Unmoved (session.step grammars event) := by
  cases event with
  | openDocument text => exact ⟨rfl, rfl⟩
  | copyDocument doc => exact unmoved_withDocument fun _ => ⟨rfl, rfl⟩
  | setText doc text => exact unmoved_withDocument fun _ => ⟨rfl, rfl⟩
  | reindentLine doc line columns =>
    refine unmoved_withDocument fun document => ?_
    cases document.reindentLine? line columns with
    | none => exact ⟨rfl, rfl⟩
    | some changed => exact ⟨rfl, rfl⟩
  | parse slot language outcome => cases h
  | inject slot language ranges outcome =>
    exact unmoved_withForest fun forest hforest => by simp [growth?, hforest] at h
  | reparse slot outcome =>
    refine unmoved_withForest fun forest hforest => ?_
    have hhost : forest.hostLanguage? = none := by simpa [growth?, hforest] using h
    rw [Forest.reparse_eq_grow, hhost]
    dsimp only
    rw [replant_error hforest]
    exact ⟨rfl, rfl⟩
  | indent doc slot line => exact unmoved_withDocument fun _ => unmoved_withForest fun _ _ => ⟨rfl, rfl⟩
  | reindent doc slot first last =>
    exact unmoved_withDocument fun _ => unmoved_withForest fun _ _ => ⟨rfl, rfl⟩
  | select slot line => exact unmoved_withForest fun _ _ => ⟨rfl, rfl⟩
  | showForest slot => exact unmoved_withForest fun _ _ => ⟨rfl, rfl⟩
  | forget doc => exact unmoved_withDocument fun _ => ⟨rfl, rfl⟩
  | showConfig language => exact ⟨rfl, rfl⟩

/-! ## Runs -/

/-- What an event does to the forests: nothing, or it grows one of them. -/
lemma step_cases (session : Session Query) (grammars : Registry Query) (event : Event) :
    session.Unmoved (session.step grammars event) ∨
      ∃ growth layer forest, session.growth? event = some growth ∧ session.Grown grammars growth layer forest ∧
        (session.step grammars event).2 = session.planted growth.slot forest := by
  cases hgrowth : session.growth? event with
  | none => exact Or.inl (unmoved_step hgrowth grammars)
  | some growth =>
    have hends := ends_step hgrowth grammars
    generalize session.step grammars event = result at hends
    cases hends with
    | refused cause => exact Or.inl ⟨rfl, rfl⟩
    | grown hgrown => exact Or.inr ⟨growth, _, _, rfl, hgrown, rfl⟩

/-- A forest that stands in some slot at some time of a run. -/
def Observes (start : Session Query) (inputs : List (Input Query)) (forest : Forest) : Prop :=
  ∃ before, before <+: inputs ∧ ∃ slot, (start.after before).forests.get? slot = some forest

section Observed

variable {start : Session Query} {inputs : List (Input Query)}

lemma observes_of_get? {slot : Nat} {forest : Forest}
    (h : (start.after inputs).forests.get? slot = some forest) : start.Observes inputs forest :=
  ⟨inputs, List.prefix_rfl, slot, h⟩

lemma observes_concat {input : Input Query} {forest : Forest} (h : start.Observes (inputs ++ [input]) forest) :
    start.Observes inputs forest ∨
      ∃ slot, (start.after (inputs ++ [input])).forests.get? slot = some forest := by
  obtain ⟨before, hbefore, slot, hforest⟩ := h
  rcases List.prefix_concat_iff.1 hbefore with rfl | hearlier
  · exact Or.inr ⟨slot, hforest⟩
  · exact Or.inl ⟨before, hearlier, slot, hforest⟩

end Observed

/-- What holds of all forests that a run observes: they are layered, no generation that is still to come is in
one of them, and each generation stands for one forest. -/
structure Settled (start : Session Query) (inputs : List (Input Query)) : Prop where
  layered : ∀ {forest}, start.Observes inputs forest → Forest.Layered forest.layers
  lt : ∀ {forest}, start.Observes inputs forest → forest.generation < (start.after inputs).nextGeneration
  eq : ∀ {forest other}, start.Observes inputs forest → start.Observes inputs other →
    forest.generation = other.generation → forest = other

lemma settled_nil (indenter : Indenter Query) : (Session.new indenter).Settled [] := by
  have hnone : ∀ forest, ¬ (Session.new indenter).Observes [] forest := by
    rintro forest ⟨before, hbefore, slot, hforest⟩
    rw [List.prefix_nil.1 hbefore] at hforest
    cases hforest
  exact ⟨fun h => absurd h (hnone _), fun h => absurd h (hnone _), fun h => absurd h (hnone _)⟩

/-- The layers of a forest that has just grown out of one that the run observed, or out of nothing. -/
lemma Settled.layered_of_grown {start : Session Query} {inputs : List (Input Query)} (h : start.Settled inputs)
    {session : Session Query} {grammars : Registry Query} {event : Event} {growth : Growth} {layer : Layer}
    {forest : Forest} (hgrowth : (start.after inputs).growth? event = some growth)
    (hgrown : session.Grown grammars growth layer forest) : Forest.Layered forest.layers := by
  rw [hgrown.layers]
  have hinjected := hgrown.injected
  cases event with
  | parse slot language outcome =>
    cases hgrowth
    exact Forest.layered_singleton hinjected
  | inject slot language ranges outcome =>
    obtain ⟨old, hold, rfl⟩ := Option.map_eq_some_iff.1 hgrowth
    exact (h.layered (observes_of_get? hold)).concat hinjected
  | reparse slot outcome =>
    obtain ⟨language, -, rfl⟩ := Option.map_eq_some_iff.1 hgrowth
    exact Forest.layered_singleton hinjected
  | _ => cases hgrowth

/-- The step lemma: one more event keeps what holds of the forests observed. -/
lemma Settled.concat {start : Session Query} {inputs : List (Input Query)} (h : start.Settled inputs)
    (input : Input Query) : start.Settled (inputs ++ [input]) := by
  rcases step_cases (start.after inputs) input.1 input.2 with
    ⟨hforests, hgeneration⟩ | ⟨growth, layer, grown, hgrowth, hgrown, hnext⟩
  · -- Nothing new is to be observed.
    have hobserved : ∀ {forest}, start.Observes (inputs ++ [input]) forest → start.Observes inputs forest := by
      intro forest hforest
      rcases observes_concat hforest with hold | ⟨slot, hnow⟩
      · exact hold
      · rw [after_concat, hforests] at hnow
        exact observes_of_get? hnow
    refine ⟨fun hforest => h.layered (hobserved hforest), fun hforest => ?_,
      fun hforest hother => h.eq (hobserved hforest) (hobserved hother)⟩
    rw [after_concat, hgeneration]
    exact h.lt (hobserved hforest)
  · -- One forest is new, and its generation is in none of the others.
    have hobserved : ∀ {forest}, start.Observes (inputs ++ [input]) forest →
        start.Observes inputs forest ∨ forest = grown := by
      intro forest hforest
      rcases observes_concat hforest with hold | ⟨slot, hnow⟩
      · exact Or.inl hold
      · rw [after_concat, hnext, planted, Table.get?_insert] at hnow
        split at hnow
        · exact Or.inr (Option.some.inj hnow).symm
        · exact Or.inl (observes_of_get? hnow)
    have hlatest : grown.generation = (start.after inputs).nextGeneration := hgrown.generation
    refine ⟨?_, ?_, ?_⟩
    · intro forest hforest
      rcases hobserved hforest with hold | rfl
      · exact h.layered hold
      · exact h.layered_of_grown hgrowth hgrown
    · intro forest hforest
      rw [after_concat, hnext]
      show forest.generation < (start.after inputs).nextGeneration + 1
      rcases hobserved hforest with hold | rfl
      · exact Nat.lt_succ_of_lt (h.lt hold)
      · omega
    · intro forest other hforest hother hsame
      rcases hobserved hforest with hold | rfl <;> rcases hobserved hother with hold' | rfl
      · exact h.eq hold hold' hsame
      · have := h.lt hold
        omega
      · have := h.lt hold'
        omega
      · rfl

/-- The run lemma: it holds of the forests that any run observes. -/
lemma settled_after (indenter : Indenter Query) (inputs : List (Input Query)) :
    (Session.new indenter).Settled inputs := by
  induction inputs using List.reverseRecOn with
  | nil => exact settled_nil indenter
  | append_singleton inputs input ih => exact ih.concat input

/-! ## Hosts -/

/-- A forest that has grown in the place of another one has a host in the same language, unless the slot was
parsed from scratch. -/
lemma Grown.hostLanguage? {session next : Session Query} {grammars : Registry Query} {event : Event}
    {growth : Growth} {layer : Layer} {old forest : Forest} (h : next.Grown grammars growth layer forest)
    (hgrowth : session.growth? event = some growth) (hold : session.forests.get? growth.slot = some old)
    (hlayered : Forest.Layered old.layers)
    (hkeeps : ∀ language outcome, event ≠ .parse growth.slot language outcome) :
    forest.hostLanguage? = old.hostLanguage? := by
  have hlayers := h.layers
  cases event with
  | parse slot language outcome =>
    cases hgrowth
    exact absurd rfl (hkeeps language outcome)
  | inject slot language ranges outcome =>
    obtain ⟨found, hfound, rfl⟩ := Option.map_eq_some_iff.1 hgrowth
    obtain rfl : found = old := Option.some.inj (hfound.symm.trans hold)
    -- There is a host already, and the new layer goes behind it.
    obtain ⟨host, rest, hhost, -, -⟩ := hlayered
    unfold Forest.hostLanguage?
    rw [hlayers, hhost]
    rfl
  | reparse slot outcome =>
    obtain ⟨language, hlanguage, rfl⟩ := Option.map_eq_some_iff.1 hgrowth
    obtain ⟨found, hfound, hhost⟩ := Option.bind_eq_some_iff.1 hlanguage
    obtain rfl : found = old := Option.some.inj (hfound.symm.trans hold)
    rw [hhost, Forest.hostLanguage?, hlayers]
    exact congrArg some h.language
  | _ => cases hgrowth

/-- The step lemma for hosts. -/
lemma hostLanguage?_step {session : Session Query} {slot : Nat} {forest : Forest}
    (h : session.forests.get? slot = some forest) (hlayered : Forest.Layered forest.layers)
    (grammars : Registry Query) {event : Event} (hkeeps : ∀ language outcome, event ≠ .parse slot language outcome) :
    ∃ next, (session.step grammars event).2.forests.get? slot = some next ∧
      next.hostLanguage? = forest.hostLanguage? := by
  rcases step_cases session grammars event with
    ⟨hforests, -⟩ | ⟨growth, layer, grown, hgrowth, hgrown, hnext⟩
  · exact ⟨forest, by rw [hforests, h], rfl⟩
  · rw [hnext, planted, Table.get?_insert]
    split
    · next hslot =>
      subst hslot
      exact ⟨grown, rfl, hgrown.hostLanguage? hgrowth h hlayered hkeeps⟩
    · exact ⟨forest, h, rfl⟩

/-- The run lemma for hosts. -/
lemma hostLanguage?_after (indenter : Indenter Query) {inputs : List (Input Query)} {slot : Nat} {forest : Forest}
    (h : ((Session.new indenter).after inputs).forests.get? slot = some forest) {later : List (Input Query)}
    (hkeeps : ∀ input ∈ later, ∀ language outcome, input.2 ≠ .parse slot language outcome) :
    ∃ next, ((Session.new indenter).after (inputs ++ later)).forests.get? slot = some next ∧
      next.hostLanguage? = forest.hostLanguage? := by
  induction later using List.reverseRecOn with
  | nil =>
    rw [List.append_nil]
    exact ⟨forest, h, rfl⟩
  | append_singleton later input ih =>
    obtain ⟨last, hlast, hsame⟩ := ih fun earlier hmem => hkeeps earlier (List.mem_append_left _ hmem)
    have hlayered := (settled_after indenter (inputs ++ later)).layered (observes_of_get? hlast)
    obtain ⟨next, hnext, hlanguage⟩ := hostLanguage?_step hlast hlayered input.1 (hkeeps input (by simp))
    exact ⟨next, by rw [← List.append_assoc, after_concat, hnext], hlanguage.trans hsame⟩

/-! ## Every run -/

/-- The forests of all runs, whatever grammars each event is taken with. Every forest that a run observes has a
host that covers the whole text and injected layers behind it, so that it can be parsed again, and two of them with
one generation have the same layers. A slot keeps the language of its host until it is parsed from scratch. An event
that asks for a layer is refused and leaves everything as it was, or it puts just that layer behind the layers that it
keeps, with a generation above all that were observed. -/
theorem forests_of_run (indenter : Indenter Query) (inputs : List (Input Query)) :
    let start := Session.new indenter
    let session := start.after inputs
    (∀ forest, start.Observes inputs forest →
      Forest.Layered forest.layers ∧ ∃ language, forest.hostLanguage? = some language) ∧
    (∀ forest other, start.Observes inputs forest → start.Observes inputs other →
      forest.generation = other.generation → forest.layers = other.layers) ∧
    (∀ slot forest later, session.forests.get? slot = some forest →
      (∀ input ∈ later, ∀ language outcome, input.2 ≠ .parse slot language outcome) →
      ∃ next, (session.after later).forests.get? slot = some next ∧
        next.hostLanguage? = forest.hostLanguage?) ∧
    (∀ slot outcome, (session.forests.get? slot).isSome = true →
      (session.growth? (.reparse slot outcome)).isSome = true) ∧
    ∀ grammars event growth, session.growth? event = some growth →
      session.Ends grammars growth (session.step grammars event) ∧
      ∀ grown, (session.step grammars event).1 = .grown grown →
        ∀ forest, start.Observes inputs forest → forest.generation < grown.generation := by
  intro start session
  have hsettled : start.Settled inputs := settled_after indenter inputs
  refine ⟨?_, ?_, ?_, ?_, ?_⟩
  · intro forest hforest
    have hlayered := hsettled.layered hforest
    exact ⟨hlayered, hlayered.hostLanguage?⟩
  · intro forest other hforest hother hsame
    rw [hsettled.eq hforest hother hsame]
  · intro slot forest later hforest hkeeps
    rw [← after_append]
    exact hostLanguage?_after indenter hforest hkeeps
  · intro slot outcome hslot
    obtain ⟨forest, hforest⟩ := Option.isSome_iff_exists.1 hslot
    obtain ⟨language, hlanguage⟩ := (hsettled.layered (observes_of_get? hforest)).hostLanguage?
    rw [growth?, hforest, Option.bind_some, hlanguage]
    rfl
  · intro grammars event growth hgrowth
    have hends := ends_step hgrowth grammars
    refine ⟨hends, ?_⟩
    intro grown hgrown forest hforest
    generalize session.step grammars event = result at hends hgrown
    cases hends with
    | refused cause => cases hgrown
    | grown h =>
      cases hgrown
      rw [h.generation]
      exact hsettled.lt hforest

/-! ### Two slots and two sets of grammars

A run whose events know only the language of the host or only that of the guest. It has all three refusals:
ranges out of order, a host whose language is not known any more, and a parser that gives no tree. -/

/-- The language of the host. -/
def hostGrammars : Registry Unit :=
  ⟨Table.empty.insert "c" ⟨"c", some (), false⟩, .empty⟩

/-- The language of the guest. -/
def guestGrammars : Registry Unit :=
  ⟨Table.empty.insert "json" ⟨"json", none, false⟩, .empty⟩

/-- A tree of the host and, with another number, of the guest. -/
def treeNumbered (identity : Nat) : Parsed where
  tree := ⟨identity, 0, 4, ⟨0, "text", ⟨0, 0⟩, ⟨2, 0⟩, false, []⟩⟩

/-- Two forests, one of them with a guest, and what is refused of it. -/
def mixedInputs : List (Input Unit) :=
  [(hostGrammars, .parse 0 "c" (some (treeNumbered 1))),
   (guestGrammars, .inject 0 "json" [⟨0, 1⟩, ⟨2, 4⟩] (some (treeNumbered 2))),
   (guestGrammars, .inject 0 "json" [⟨0, 3⟩, ⟨2, 4⟩] (some (treeNumbered 3))),
   (hostGrammars, .parse 1 "c" (some (treeNumbered 3))),
   (guestGrammars, .reparse 0 (some (treeNumbered 4))),
   (hostGrammars, .reparse 0 none)]

/-- The forest with a guest, as all refusals have left it. -/
def mixedForest : Forest :=
  ⟨[⟨"c", treeNumbered 1, false, false⟩, ⟨"json", treeNumbered 2, false, true⟩], 2⟩

/-- The same slot once its host has been parsed again. -/
def renewedForest : Forest :=
  ⟨[⟨"c", treeNumbered 4, false, false⟩], 4⟩

/-- The run of this section is one of those: its forest has a guest, and parsing the host again leaves one layer
in the language of the host with a generation above all others. -/
theorem mixed_forests_of_run :
    let start := Session.new ⟨hostGrammars, {}, .classes, .new 1⟩
    let session := start.after mixedInputs
    let renewal : Input Unit := (hostGrammars, .reparse 0 (some (treeNumbered 4)))
    session.forests.get? 0 = some mixedForest ∧ Forest.Layered mixedForest.layers ∧
      (session.step renewal.1 renewal.2).1 = .grown renewedForest ∧
      (∀ forest, start.Observes mixedInputs forest → forest.generation < renewedForest.generation) ∧
      ∃ next, (session.after [renewal]).forests.get? 0 = some next ∧ next.hostLanguage? = some "c" := by
  intro start session renewal
  obtain ⟨hlayered, -, hhost, -, hends⟩ := forests_of_run ⟨hostGrammars, {}, .classes, .new 1⟩ mixedInputs
  have hmixed : session.forests.get? 0 = some mixedForest := by
    simp [session, start, mixedInputs, after, run, step, withForest, plant, replant, Forest.parse,
      Forest.inject_eq_grow, Forest.reparse_eq_grow, Forest.hostLanguage?, Forest.grow, Layer.parse, Registry.get?,
      hostGrammars, guestGrammars, Table.get?_insert, ByteRange.firstBad?, ByteRange.firstBadFrom?, Session.new,
      Except.map, mixedForest]
  have hnext : session.nextGeneration = 4 := by decide +kernel
  have hgrown : (session.step renewal.1 renewal.2).1 = .grown renewedForest := by
    rw [step_reparse hmixed hostGrammars rfl, hnext]
    simp [plant, Layer.parse, Registry.get?, hostGrammars, Table.get?_insert, Except.map, renewedForest]
  have hgrowth : session.growth? renewal.2 = some ⟨0, [], "c", none, some (treeNumbered 4)⟩ := by
    simp [renewal, growth?, hmixed, mixedForest, Forest.hostLanguage?]
  refine ⟨hmixed, (hlayered _ (observes_of_get? hmixed)).1, hgrown, ?_, ?_⟩
  · exact (hends hostGrammars renewal.2 _ hgrowth).2 renewedForest hgrown
  · exact hhost 0 mixedForest [renewal] hmixed (by simp [renewal])

end TreeIndent.Session
