import TreeIndent.Proofs.Indenter.Caching
import TreeIndent.Proofs.Session.Change
import Mathlib.Data.List.Infix

/-!
# The cache never shows

Markings are cached under the buffer, the generation of the forest, the root and the language. Here a whole
session is compared with one in which every line is indented by an indenter that has cached nothing
(`uncachedRun`): the answers are the same, whatever the events, the grammars that they come with and the size of the
cache.

The invariant is `Sound`: a generation stands for one forest, and an entry that a layer of a live forest would
find holds the marking of that layer. Generations that are still to come are in no key, so a forest that has
just grown finds nothing.
-/

namespace TreeIndent.Session

variable {Query : Type}

/-! ## The invariant -/

/-- Whether the roots in each forest of the session can be told apart. -/
def DistinctRoots (session : Session Query) : Prop :=
  ∀ entry ∈ session.forests.entries, entry.2.DistinctRoots

instance (session : Session Query) : Decidable session.DistinctRoots :=
  inferInstanceAs (Decidable (∀ entry ∈ session.forests.entries, entry.2.DistinctRoots))

lemma DistinctRoots.of_get? {session : Session Query} (h : session.DistinctRoots) {slot : Nat} {forest : Forest}
    (hforest : session.forests.get? slot = some forest) : forest.DistinctRoots :=
  h _ (Table.get?_eq_some_iff.1 hforest)

/-- What keeps the cache right in a session: generations that are still to come are in no forest and in no
key, a generation stands for one forest, and each entry is right for each forest. -/
structure Sound (session : Session Query) : Prop where
  forest_lt : ∀ {slot forest}, session.forests.get? slot = some forest →
    forest.generation < session.nextGeneration
  key_lt : session.indenter.cache.Holds fun key _ => key.generation < session.nextGeneration
  forest_eq : ∀ {slot forest slot' forest'}, session.forests.get? slot = some forest →
    session.forests.get? slot' = some forest' → forest.generation = forest'.generation → forest = forest'
  right : ∀ {slot forest}, session.forests.get? slot = some forest →
    session.indenter.cache.Holds (session.indenter.RightFor forest)

lemma sound_new (registry : Registry Query) (config : Config) (patterns : Patterns) (capacity : Nat) :
    (Session.new ⟨registry, config, patterns, .new capacity⟩).Sound where
  forest_lt h := by cases h
  key_lt := Cache.holds_new capacity _
  forest_eq h := by cases h
  right h := by cases h

/-- A slot that gets a forest of the next generation: no key can find that forest. -/
lemma Sound.grown {session : Session Query} (h : session.Sound) (slot : Nat) {forest : Forest}
    (hforest : forest.generation = session.nextGeneration) :
    Sound { session with
      forests := session.forests.insert slot forest
      nextGeneration := session.nextGeneration + 1 } := by
  -- A forest of the session after the growth is the new one or one from before.
  have hcases : ∀ {slot' other}, (session.forests.insert slot forest).get? slot' = some other →
      other = forest ∨ session.forests.get? slot' = some other := by
    intro slot' other hother
    rw [Table.get?_insert] at hother
    split at hother
    · exact Or.inl (Option.some.inj hother).symm
    · exact Or.inr hother
  refine ⟨?_, ?_, ?_, ?_⟩
  · intro slot' other hother
    rcases hcases hother with rfl | hold
    · exact hforest ▸ Nat.lt_succ_self _
    · exact Nat.lt_succ_of_lt (h.forest_lt hold)
  · exact h.key_lt.imp fun key _ hkey => Nat.lt_succ_of_lt hkey
  · intro slot' other slot'' other' hother hother' hgeneration
    -- Forests of one generation are both new or both from before.
    rcases hcases hother with rfl | hold <;> rcases hcases hother' with rfl | hold'
    · rfl
    · have := h.forest_lt hold'
      omega
    · have := h.forest_lt hold
      omega
    · exact h.forest_eq hold hold' hgeneration
  · intro slot' other hother
    rcases hcases hother with rfl | hold
    · -- No key of the new forest is in the cache, since its generation is in no key.
      refine h.key_lt.imp fun key marking hkey doc layer _ hfound => ?_
      have hgeneration : key.generation = other.generation := congrArg Cache.Key.generation hfound
      omega
    · exact h.right hold

/-- An indenter that has cached nothing but markings of the layers of one forest. -/
lemma Sound.indented {session : Session Query} (h : session.Sound) (hroots : session.DistinctRoots)
    {slot : Nat} {forest : Forest} (hforest : session.forests.get? slot = some forest) (doc : Document)
    {indenter : Indenter Query} (hindenter : ∃ cache, indenter = { session.indenter with cache })
    (hcache : ∀ {property : Cache.Key → Marking → Prop}, session.indenter.cache.Holds property →
      (∀ layer ∈ forest.layers,
        property (Indenter.keyOf doc forest layer) (session.indenter.markingOf layer)) →
      indenter.cache.Holds property) :
    Sound { session with indenter } where
  forest_lt := h.forest_lt
  key_lt := hcache h.key_lt fun _ _ => h.forest_lt hforest
  forest_eq := h.forest_eq
  right := by
    obtain ⟨cache, rfl⟩ := hindenter
    intro slot' other hother
    refine hcache (h.right hother) ?_
    intro layer hlayer doc' layer' hlayer' hkey
    -- The key names the generation, so both layers are of one forest, where the roots tell them apart.
    have hsame : forest = other := h.forest_eq hforest hother (congrArg Cache.Key.generation hkey)
    subst hsame
    exact Indenter.rightFor_keyOf (hroots.of_get? hforest) doc hlayer doc' layer' hlayer' hkey

/-- What any event does to a session keeps the cache right. -/
theorem Sound.change {session next : Session Query} (h : session.Sound) (hroots : session.DistinctRoots)
    (hchange : Change session next) : next.Sound := by
  cases hchange with
  | documents documents nextBuffer => exact ⟨h.forest_lt, h.key_lt, h.forest_eq, h.right⟩
  | grown slot forest hforest => exact h.grown slot hforest
  | indented doc slot forest line hforest =>
    exact h.indented hroots hforest doc (Indenter.indentOf_snd ..)
      fun hproperty hbuild => Indenter.holds_indentOf hproperty hbuild line
  | reindented doc slot forest lines hforest =>
    exact h.indented hroots hforest doc (Indenter.indentsOf_snd ..)
      fun hproperty hbuild => Indenter.holds_indentsOf hproperty hbuild lines
  | forgotten buffer =>
    exact ⟨h.forest_lt, h.key_lt.forget buffer, h.forest_eq, fun hforest => (h.right hforest).forget buffer⟩

/-! ## Runs -/

/-- Whether the roots can be told apart in every forest that a run comes by. -/
def RootsStayDistinct (session : Session Query) (inputs : List (Input Query)) : Prop :=
  ∀ before, before <+: inputs → (session.after before).DistinctRoots

lemma RootsStayDistinct.head {session : Session Query} {inputs : List (Input Query)}
    (h : session.RootsStayDistinct inputs) : session.DistinctRoots :=
  h [] List.nil_prefix

lemma RootsStayDistinct.tail {session : Session Query} {input : Input Query} {rest : List (Input Query)}
    (h : session.RootsStayDistinct (input :: rest)) :
    (session.step input.1 input.2).2.RootsStayDistinct rest := by
  intro before hbefore
  have hprefix : input :: before <+: input :: rest := List.cons_prefix_cons.2 ⟨rfl, hbefore⟩
  exact h _ hprefix

lemma RootsStayDistinct.of_append {session : Session Query} {before later : List (Input Query)}
    (h : session.RootsStayDistinct (before ++ later)) : session.RootsStayDistinct before :=
  fun earlier hearlier => h earlier (hearlier.trans (List.prefix_append before later))

/-- The cache is right after every run. -/
theorem Sound.after {session : Session Query} (h : session.Sound) {inputs : List (Input Query)}
    (hroots : session.RootsStayDistinct inputs) : (session.after inputs).Sound := by
  induction inputs generalizing session with
  | nil => exact h
  | cons input rest ih =>
    rw [after_cons]
    exact ih (h.change hroots.head (change_step session input.1 input.2)) hroots.tail

/-! ## A session without a cache -/

/-- The answer to an event and the session after it, where each line is indented by an indenter that has
cached nothing. -/
def uncachedStep (session : Session Query) (grammars : Registry Query) : Event → Answer × Session Query
  | .indent doc slot line =>
    session.withDocument doc fun document =>
      session.withForest slot fun forest =>
        (.indent (session.indenter.freshIndentOf document forest line), session)
  | .reindent doc slot first last =>
    session.withDocument doc fun document =>
      session.withForest slot fun forest =>
        let lines := Indenter.linesBetween document (first.getD 1) (last.getD document.lineCount)
        (.indents (lines.map fun line => (line, session.indenter.freshIndentOf document forest line)), session)
  | event => session.step grammars event

/-- The answers to some events, each with its grammars, and the session after them, without a cache. -/
def uncachedRun (session : Session Query) : List (Input Query) → List Answer × Session Query
  | [] => ([], session)
  | (grammars, event) :: rest =>
    let (answer, session) := session.uncachedStep grammars event
    let (answers, session) := session.uncachedRun rest
    (answer :: answers, session)

/-- Two sessions that differ in nothing but what they have cached. -/
structure SameButCache (session plain : Session Query) : Prop where
  indenter : ∃ cache, session.indenter = { plain.indenter with cache }
  documents : plain.documents = session.documents
  forests : plain.forests = session.forests
  nextBuffer : plain.nextBuffer = session.nextBuffer
  nextGeneration : plain.nextGeneration = session.nextGeneration

/-- Two results with one answer and sessions that differ in nothing but what they have cached. -/
def Alike (result plain : Answer × Session Query) : Prop :=
  result.1 = plain.1 ∧ SameButCache result.2 plain.2

namespace SameButCache

lemma refl (session : Session Query) : SameButCache session session :=
  ⟨⟨session.indenter.cache, rfl⟩, rfl, rfl, rfl, rfl⟩

variable {session plain : Session Query}

lemma withDocument (h : SameButCache session plain) {doc : Nat} {next next' : Document → Answer × Session Query}
    (hnext : ∀ document, Alike (next document) (next' document)) :
    Alike (session.withDocument doc next) (plain.withDocument doc next') := by
  unfold Session.withDocument
  rw [h.documents]
  split
  · exact ⟨rfl, h⟩
  · next document hdoc => exact hnext document

lemma withForest (h : SameButCache session plain) {slot : Nat} {next next' : Forest → Answer × Session Query}
    (hnext : ∀ forest, session.forests.get? slot = some forest → Alike (next forest) (next' forest)) :
    Alike (session.withForest slot next) (plain.withForest slot next') := by
  unfold Session.withForest
  rw [h.forests]
  split
  · exact ⟨rfl, h⟩
  · next forest hforest => exact hnext forest hforest

lemma setForest (h : SameButCache session plain) (slot : Nat) (forest : Forest) (nextGeneration : Nat) :
    SameButCache { session with forests := session.forests.insert slot forest, nextGeneration }
      { plain with forests := plain.forests.insert slot forest, nextGeneration } := by
  refine ⟨h.indenter, h.documents, ?_, h.nextBuffer, rfl⟩
  show plain.forests.insert slot forest = session.forests.insert slot forest
  rw [h.forests]

lemma plant (h : SameButCache session plain) (slot : Nat) (outcome : Except Error Forest) :
    Alike (session.plant slot outcome) (plain.plant slot outcome) := by
  unfold Session.plant
  rw [h.nextGeneration]
  cases outcome with
  | error error => exact ⟨rfl, h⟩
  | ok forest => exact ⟨rfl, h.setForest slot forest _⟩

lemma replant (h : SameButCache session plain) (slot : Nat) (result : Except Error Unit × Forest) :
    Alike (session.replant slot result) (plain.replant slot result) := by
  unfold Session.replant
  rw [h.nextGeneration]
  cases result.1 with
  | error error => exact ⟨rfl, h.nextGeneration ▸ h.setForest slot result.2 _⟩
  | ok done => exact ⟨rfl, h.setForest slot result.2 _⟩

lemma setDocuments (h : SameButCache session plain) (documents : List Document) (nextBuffer : Nat) :
    SameButCache { session with documents, nextBuffer } { plain with documents, nextBuffer } :=
  ⟨h.indenter, rfl, h.forests, rfl, h.nextGeneration⟩

lemma setIndenter (h : SameButCache session plain) {indenter : Indenter Query}
    (hindenter : ∃ cache, indenter = { session.indenter with cache }) :
    SameButCache { session with indenter } plain := by
  obtain ⟨cache, rfl⟩ := hindenter
  obtain ⟨old, hold⟩ := h.indenter
  exact ⟨⟨cache, by rw [hold]⟩, h.documents, h.forests, h.nextBuffer, h.nextGeneration⟩

lemma freshIndentOf (h : SameButCache session plain) :
    plain.indenter.freshIndentOf = session.indenter.freshIndentOf := by
  obtain ⟨cache, hcache⟩ := h.indenter
  rw [hcache]
  rfl

end SameButCache

/-- The step lemma of the comparison: over a cache that is right, an event has the answer that it has without
a cache. -/
theorem Sound.step_alike {session plain : Session Query} (hsound : session.Sound) (hroots : session.DistinctRoots)
    (h : SameButCache session plain) (grammars : Registry Query) (event : Event) :
    Alike (session.step grammars event) (plain.uncachedStep grammars event) := by
  cases event with
  | openDocument text =>
    refine ⟨rfl, ?_⟩
    simp only [step, uncachedStep, h.documents, h.nextBuffer]
    exact h.setDocuments _ _
  | copyDocument doc =>
    refine h.withDocument fun document => ⟨rfl, ?_⟩
    simp only [h.documents]
    exact h.nextBuffer ▸ h.setDocuments _ _
  | setText doc text =>
    refine h.withDocument fun document => ⟨rfl, ?_⟩
    simp only [setDocument, h.documents]
    exact h.nextBuffer ▸ h.setDocuments _ _
  | reindentLine doc line columns =>
    refine h.withDocument fun document => ?_
    cases document.reindentLine? line columns with
    | none => exact ⟨rfl, h⟩
    | some changed =>
      refine ⟨rfl, ?_⟩
      simp only [setDocument, h.documents]
      exact h.nextBuffer ▸ h.setDocuments _ _
  | parse slot language outcome =>
    simp only [step, uncachedStep, h.nextGeneration]
    exact h.plant _ _
  | inject slot language ranges outcome =>
    refine h.withForest fun forest _ => ?_
    rw [h.nextGeneration]
    exact h.replant _ _
  | reparse slot outcome =>
    refine h.withForest fun forest _ => ?_
    rw [h.nextGeneration]
    exact h.replant _ _
  | indent doc slot line =>
    -- Here the two sessions do different work; that the cache is right makes the answers equal.
    refine h.withDocument fun document => h.withForest fun forest hforest => ⟨?_, ?_⟩
    · show Answer.indent _ = Answer.indent _
      rw [h.freshIndentOf, Indenter.indentOf_fst (hsound.right hforest)]
    · exact h.setIndenter (Indenter.indentOf_snd ..)
  | reindent doc slot first last =>
    refine h.withDocument fun document => h.withForest fun forest hforest => ⟨?_, ?_⟩
    · show Answer.indents _ = Answer.indents _
      rw [h.freshIndentOf, Indenter.reindent,
        Indenter.indentsOf_fst (hroots.of_get? hforest) (hsound.right hforest)]
    · exact h.setIndenter (Indenter.indentsOf_snd ..)
  | select slot line => exact h.withForest fun forest _ => ⟨rfl, h⟩
  | showForest slot => exact h.withForest fun forest _ => ⟨rfl, h⟩
  | forget doc =>
    obtain ⟨cache, hcache⟩ := h.indenter
    refine h.withDocument fun document => ⟨rfl, ?_, h.documents, h.forests, h.nextBuffer, h.nextGeneration⟩
    rw [hcache]
    exact ⟨_, rfl⟩
  | showConfig language =>
    obtain ⟨cache, hcache⟩ := h.indenter
    refine ⟨?_, h⟩
    simp only [step, uncachedStep, hcache]

/-- The run lemma of the comparison. -/
theorem Sound.run_alike {session plain : Session Query} (hsound : session.Sound) {inputs : List (Input Query)}
    (hroots : session.RootsStayDistinct inputs) (h : SameButCache session plain) :
    (session.run inputs).1 = (plain.uncachedRun inputs).1 := by
  induction inputs generalizing session plain with
  | nil => rfl
  | cons input rest ih =>
    -- The answers to the first event agree, and the sessions after it differ in the cache only.
    have hstep := hsound.step_alike hroots.head h input.1 input.2
    have hnext := hsound.change hroots.head (change_step session input.1 input.2)
    show (session.step input.1 input.2).1 :: _ = (plain.uncachedStep input.1 input.2).1 :: _
    rw [hstep.1]
    exact congrArg _ (ih hnext hroots.tail hstep.2)

/-! ## Whole sessions -/

/-- No event changes anything of the indenter but its cache. -/
lemma Change.indenter_eq {session next : Session Query} (h : Change session next) :
    ∃ cache, next.indenter = { session.indenter with cache } := by
  cases h with
  | documents documents nextBuffer => exact ⟨session.indenter.cache, rfl⟩
  | grown slot forest hforest => exact ⟨session.indenter.cache, rfl⟩
  | indented doc slot forest line hforest => exact Indenter.indentOf_snd ..
  | reindented doc slot forest lines hforest => exact Indenter.indentsOf_snd ..
  | forgotten buffer => exact ⟨_, rfl⟩

lemma indenter_after (session : Session Query) (inputs : List (Input Query)) :
    ∃ cache, (session.after inputs).indenter = { session.indenter with cache } := by
  induction inputs generalizing session with
  | nil => exact ⟨session.indenter.cache, rfl⟩
  | cons input rest ih =>
    obtain ⟨first, hfirst⟩ := (change_step session input.1 input.2).indenter_eq
    obtain ⟨cache, hrest⟩ := ih (session.step input.1 input.2).2
    exact ⟨cache, by rw [after_cons, hrest, hfirst]⟩

/-- At the end of every run a line gets the indent that an empty cache gives it. -/
lemma indentOf_after_fst {start : Session Query} (hstart : start.Sound) {inputs : List (Input Query)}
    (hroots : start.RootsStayDistinct inputs) {slot : Nat} {forest : Forest}
    (hforest : (start.after inputs).forests.get? slot = some forest) (doc : Document) (line : Nat) :
    ((start.after inputs).indenter.indentOf doc forest line).1
      = start.indenter.freshIndentOf doc forest line := by
  obtain ⟨cache, hcache⟩ := indenter_after start inputs
  rw [Indenter.indentOf_fst ((hstart.after hroots).right hforest), hcache]
  rfl

/-- Caching is invisible in whole sessions. Whatever happens in a session, and whatever grammars each event comes
with, all answers are those of a session that caches nothing; after it, each line over each forest gets the indent
that an indenter with an empty cache gives it, and a marking that is found for a layer is the marking of that
layer. -/
theorem run_answers_eq_uncachedRun (registry : Registry Query) (config : Config) (patterns : Patterns)
    (capacity : Nat) (inputs : List (Input Query))
    (hroots : (Session.new ⟨registry, config, patterns, .new capacity⟩).RootsStayDistinct inputs) :
    let start := Session.new ⟨registry, config, patterns, .new capacity⟩
    let fresh := Indenter.new registry config patterns
    let final := start.after inputs
    (start.run inputs).1 = (start.uncachedRun inputs).1 ∧
      ∀ (doc : Document) (slot : Nat) (forest : Forest), final.forests.get? slot = some forest →
        (∀ line, (final.indenter.indentOf doc forest line).1 = (fresh.indentOf doc forest line).1) ∧
        ∀ layer ∈ forest.layers, ∀ marking,
          final.indenter.cache.peek? (Indenter.keyOf doc forest layer) = some marking →
            marking = fresh.markingOf layer := by
  intro start fresh final
  have hstart : start.Sound := sound_new registry config patterns capacity
  refine ⟨hstart.run_alike hroots (.refl start), ?_⟩
  intro doc slot forest hforest
  refine ⟨fun line => indentOf_after_fst hstart hroots hforest doc line, ?_⟩
  intro layer hlayer marking hpeek
  have hright := (hstart.after hroots).right hforest
  have hmarking : marking = final.indenter.markingOf layer :=
    hright _ (Cache.mem_of_peek? hpeek) doc layer hlayer rfl
  -- The indenter after the run has the grammars of the first one.
  obtain ⟨cache, hcache⟩ := indenter_after start inputs
  rw [hmarking, hcache]
  rfl

/-! ### A forest that is rebuilt

A run in which a slot is parsed twice for one buffer, the second time with a root of the same number that has
no marked nodes. A marking kept from the first parse would put the second line at column four. Another event comes
with grammars that do not know the language. -/

/-- One grammar with a query. -/
def oneGrammar : Registry Unit :=
  ⟨Table.empty.insert "c" ⟨"c", some (), false⟩, .empty⟩

/-- A tree whose root begins a level. -/
def blockParse : Parsed where
  tree := ⟨7, 0, 4, ⟨0, "block", ⟨0, 0⟩, ⟨2, 0⟩, false, []⟩⟩
  run := { captureNames := ["indent.begin"], properties := [[]], found := [⟨0, [⟨0, 0⟩]⟩] }

/-- A tree without marked nodes. Its root has the number of the other one. -/
def plainParse : Parsed where
  tree := ⟨7, 0, 4, ⟨0, "text", ⟨0, 0⟩, ⟨2, 0⟩, false, []⟩⟩

/-- Two parses, a copy, an edit, and four operations that fail or forget, with lines indented in between. -/
def rebuildInputs : List (Input Unit) :=
  [(oneGrammar, .openDocument "a\nb\n".toList), (oneGrammar, .copyDocument 0),
   (oneGrammar, .parse 0 "c" (some blockParse)), (oneGrammar, .indent 0 0 2), (oneGrammar, .indent 0 0 2),
   (.empty, .reparse 0 (some plainParse)), (oneGrammar, .parse 0 "c" (some plainParse)),
   (oneGrammar, .setText 1 "a\nb".toList), (oneGrammar, .reindent 1 0 none none),
   (oneGrammar, .inject 0 "c" [⟨3, 1⟩] (some blockParse)), (oneGrammar, .reparse 0 none), (oneGrammar, .forget 0),
   (oneGrammar, .indent 0 0 2)]

/-- The run of this section is one of those, and its cache is used. -/
theorem rebuild_answers_eq_uncachedRun :
    let start := Session.new ⟨oneGrammar, {}, .classes, .new 1⟩
    start.RootsStayDistinct rebuildInputs ∧ (start.after rebuildInputs).indenter.cache.hits = 2 ∧
      (start.run rebuildInputs).1 = (start.uncachedRun rebuildInputs).1 := by
  intro start
  have hinits : ∀ before ∈ rebuildInputs.inits, (start.after before).DistinctRoots := by decide +kernel
  have hroots : start.RootsStayDistinct rebuildInputs :=
    fun before hbefore => hinits before ((List.mem_inits _ _).2 hbefore)
  have hhits : (start.after rebuildInputs).indenter.cache.hits = 2 := by decide +kernel
  exact ⟨hroots, hhits, (run_answers_eq_uncachedRun oneGrammar {} .classes 1 rebuildInputs hroots).1⟩

end TreeIndent.Session
