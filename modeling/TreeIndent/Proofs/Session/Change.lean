import TreeIndent.Proofs.Forest.Growth
import TreeIndent.Session

/-!
# What one event can do to a session

An operation on a forest gives the forest back also where it fails. It has written nothing then, so that the session
is as it was, and where it succeeds the slot has got a new forest (`step_inject`, `step_reparse`).

Whatever the event, a session goes on in one of five ways: nothing but its documents change, a slot gets a
forest with a generation that was not used before, a line or several lines are indented over one of its
forests, or a buffer is forgotten. `Change` says this once. What every run keeps follows from what these
changes keep; `after` is the session that a run ends in.
-/

namespace TreeIndent.Session

variable {Query : Type}

/-! ## Operations on the forest in a slot -/

section Operations

variable {session : Session Query} {slot : Nat} {forest : Forest}
  (hforest : session.forests.get? slot = some forest)

include hforest

/-- A forest to which nothing was written is put back where it was. -/
lemma replant_error (error : Error) : session.replant slot (.error error, forest) = (.failed error, session) := by
  unfold replant
  rw [Table.insert_of_get? hforest]

/-- A forest that was asked to grow is replaced by a new one, and stays if its layer is refused. -/
lemma replant_grow (kept : List Layer) (layer : Except Error Layer) :
    session.replant slot (forest.grow session.nextGeneration kept layer)
      = session.plant slot (layer.map fun layer => ⟨kept ++ [layer], session.nextGeneration⟩) := by
  cases layer with
  | error error => exact replant_error hforest error
  | ok layer => rfl

variable (grammars : Registry Query)

lemma step_inject (language : String) (ranges : List ByteRange) (outcome : Option Parsed) :
    session.step grammars (.inject slot language ranges outcome)
      = session.plant slot ((Layer.parse grammars language (some ranges) outcome).map fun layer =>
          ⟨forest.layers ++ [layer], session.nextGeneration⟩) := by
  rw [step, withForest, hforest, ← replant_grow hforest, ← Forest.inject_eq_grow]

lemma step_reparse {language : String} (hhost : forest.hostLanguage? = some language) (outcome : Option Parsed) :
    session.step grammars (.reparse slot outcome)
      = session.plant slot ((Layer.parse grammars language none outcome).map fun layer =>
          ⟨[layer], session.nextGeneration⟩) := by
  rw [step, withForest, hforest]
  dsimp only
  rw [Forest.reparse_eq_grow, hhost]
  exact replant_grow hforest [] _

end Operations

/-! ## Changes -/

/-- The ways in which a session goes on. -/
inductive Change (session : Session Query) : Session Query → Prop where
  /-- Forests and indenter stay; this is also how a refused event ends. -/
  | documents (documents : List Document) (nextBuffer : Nat) :
      Change session { session with documents, nextBuffer }
  | grown (slot : Nat) (forest : Forest) (hforest : forest.generation = session.nextGeneration) :
      Change session
        { session with
          forests := session.forests.insert slot forest
          nextGeneration := session.nextGeneration + 1 }
  | indented (doc : Document) (slot : Nat) (forest : Forest) (line : Nat)
      (hforest : session.forests.get? slot = some forest) :
      Change session { session with indenter := (session.indenter.indentOf doc forest line).2 }
  | reindented (doc : Document) (slot : Nat) (forest : Forest) (lines : List Nat)
      (hforest : session.forests.get? slot = some forest) :
      Change session { session with indenter := (session.indenter.indentsOf doc forest lines).2 }
  | forgotten (buffer : Nat) :
      Change session { session with indenter := session.indenter.forget buffer }

namespace Change

variable {session : Session Query}

/-- A session that stays as it was. -/
lemma same : Change session session :=
  .documents session.documents session.nextBuffer

/-- An event on a document changes what it changes where the document is there. -/
lemma withDocument {doc : Nat} {next : Document → Answer × Session Query}
    (h : ∀ document, session.documents[doc]? = some document → Change session (next document).2) :
    Change session (session.withDocument doc next).2 := by
  unfold Session.withDocument
  split
  · exact Change.same
  · next document hdoc => exact h document hdoc

/-- An event on a forest changes what it changes where the forest is there. -/
lemma withForest {slot : Nat} {next : Forest → Answer × Session Query}
    (h : ∀ forest, session.forests.get? slot = some forest → Change session (next forest).2) :
    Change session (session.withForest slot next).2 := by
  unfold Session.withForest
  split
  · exact Change.same
  · next forest hforest => exact h forest hforest

/-- A parse that fails changes nothing, and one that succeeds takes the next generation. -/
lemma plant (slot : Nat) (layer : Except Error Layer) {make : Layer → Forest}
    (hmake : ∀ layer, (make layer).generation = session.nextGeneration) :
    Change session (session.plant slot (layer.map make)).2 := by
  cases layer with
  | error error => exact Change.same
  | ok layer => exact .grown slot (make layer) (hmake layer)

/-- So does an operation on a forest that asks it to grow. -/
lemma replant_grow {slot : Nat} {forest : Forest} (hforest : session.forests.get? slot = some forest)
    (kept : List Layer) (layer : Except Error Layer) :
    Change session (session.replant slot (forest.grow session.nextGeneration kept layer)).2 := by
  rw [Session.replant_grow hforest]
  exact .plant slot layer fun _ => rfl

end Change

/-- Every event changes a session in one of the five ways. -/
theorem change_step (session : Session Query) (grammars : Registry Query) (event : Event) :
    Change session (session.step grammars event).2 := by
  cases event with
  | openDocument text => exact .documents _ _
  | copyDocument doc => exact .withDocument fun document _ => .documents _ _
  | setText doc text => exact .withDocument fun document _ => .documents _ _
  | reindentLine doc line columns =>
    refine .withDocument fun document _ => ?_
    cases document.reindentLine? line columns with
    | none => exact Change.same
    | some changed => exact .documents _ _
  | parse slot language outcome => exact .plant slot _ fun _ => rfl
  | inject slot language ranges outcome =>
    refine .withForest fun forest hforest => ?_
    rw [Forest.inject_eq_grow]
    exact .replant_grow hforest _ _
  | reparse slot outcome =>
    refine .withForest fun forest hforest => ?_
    rw [Forest.reparse_eq_grow]
    cases forest.hostLanguage? with
    | none =>
      rw [replant_error hforest]
      exact Change.same
    | some language => exact .replant_grow hforest _ _
  | indent doc slot line =>
    exact .withDocument fun document _ => .withForest fun forest hforest =>
      .indented document slot forest line hforest
  | reindent doc slot first last =>
    exact .withDocument fun document _ => .withForest fun forest hforest =>
      .reindented document slot forest _ hforest
  | select slot line => exact .withForest fun forest _ => Change.same
  | showForest slot => exact .withForest fun forest _ => Change.same
  | forget doc => exact .withDocument fun document _ => .forgotten document.buffer
  | showConfig language => exact Change.same

/-! ## Runs -/

/-- An event with the grammars that it is taken with. -/
abbrev Input (Query : Type) := Registry Query × Event

/-- The session after some events, each with its grammars. -/
def after (session : Session Query) (inputs : List (Input Query)) : Session Query :=
  (session.run inputs).2

lemma after_cons (session : Session Query) (input : Input Query) (rest : List (Input Query)) :
    session.after (input :: rest) = (session.step input.1 input.2).2.after rest :=
  rfl

lemma after_append (session : Session Query) (before later : List (Input Query)) :
    session.after (before ++ later) = (session.after before).after later := by
  induction before generalizing session with
  | nil => rfl
  | cons input rest ih => rw [List.cons_append, after_cons, after_cons, ih]

@[simp]
lemma after_concat (session : Session Query) (inputs : List (Input Query)) (input : Input Query) :
    session.after (inputs ++ [input]) = ((session.after inputs).step input.1 input.2).2 :=
  after_append session inputs [input]

end TreeIndent.Session
