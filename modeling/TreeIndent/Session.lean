import TreeIndent.Indenter

/-!
# Sessions

A session is one indenter at work on several documents and forests. Everything that can happen in it is an
`Event`; `Session.step` gives the answer to an event and the session after it. What is parsed is parsed with grammars
that come with the event and need not be those of the indenter. Buffers and generations are numbered through the whole
session, so no two documents that were opened share a buffer and no two changes of forests share a generation.
-/

namespace TreeIndent

variable {Query : Type}

/-- The state of a session. -/
structure Session (Query : Type) where
  indenter : Indenter Query
  documents : List Document := []
  forests : Table Nat Forest := .empty
  nextBuffer : Nat := 1
  nextGeneration : Nat := 1

/-- Something that happens in a session. Documents are known by their position, forests by the slot they are
in, and a parse carries the parser's outcome. -/
inductive Event where
  | openDocument (text : Text)
  /-- A copy of a document, which shares its buffer. -/
  | copyDocument (doc : Nat)
  | setText (doc : Nat) (text : Text)
  | reindentLine (doc line columns : Nat)
  | parse (slot : Nat) (language : String) (outcome : Option Parsed)
  | inject (slot : Nat) (language : String) (ranges : List ByteRange) (outcome : Option Parsed)
  | reparse (slot : Nat) (outcome : Option Parsed)
  | indent (doc slot line : Nat)
  /-- The lines from `first` to `last`; by default all lines. -/
  | reindent (doc slot : Nat) (first last : Option Nat)
  | select (slot line : Nat)
  | showForest (slot : Nat)
  | forget (doc : Nat)
  | showConfig (language : String)

/-- The answer to an event. -/
inductive Answer where
  | done
  /-- The document after an edit, and whether the edit was possible. -/
  | edited (ok : Bool) (doc : Document)
  /-- The forest after a parse. -/
  | grown (forest : Forest)
  | indent (indent : Indent)
  | indents (indents : List (Nat × Indent))
  /-- The position of the layer for a line. -/
  | selected (layer : Option Nat)
  | forest (forest : Forest)
  | config (config : Config) (shiftWidth : UInt64) (enabled : Bool)
  | failed (error : Error)
  | noDocument
  | noForest

namespace Session

/-- A session without documents and forests. -/
def new (indenter : Indenter Query) : Session Query :=
  { indenter }

/-- Goes on with a document, if there is one at that position. -/
def withDocument (session : Session Query) (doc : Nat) (next : Document → Answer × Session Query) :
    Answer × Session Query :=
  match session.documents[doc]? with
  | none => (.noDocument, session)
  | some document => next document

/-- Goes on with a forest, if there is one in that slot. -/
def withForest (session : Session Query) (slot : Nat) (next : Forest → Answer × Session Query) :
    Answer × Session Query :=
  match session.forests.get? slot with
  | none => (.noForest, session)
  | some forest => next forest

/-- Puts a new forest into a slot and uses up its generation. If there is none, nothing changes. -/
def plant (session : Session Query) (slot : Nat) (outcome : Except Error Forest) : Answer × Session Query :=
  match outcome with
  | .error error => (.failed error, session)
  | .ok forest =>
    (.grown forest,
      { session with
        forests := session.forests.insert slot forest
        nextGeneration := session.nextGeneration + 1 })

/-- Puts a forest back into its slot after an operation on it, and uses up its generation if the operation has not
failed. -/
def replant (session : Session Query) (slot : Nat) (result : Except Error Unit × Forest) : Answer × Session Query :=
  let changed := { session with forests := session.forests.insert slot result.2 }
  match result.1 with
  | .error error => (.failed error, changed)
  | .ok () => (.grown result.2, { changed with nextGeneration := session.nextGeneration + 1 })

/-- The session with another document at a position. -/
def setDocument (session : Session Query) (doc : Nat) (document : Document) : Session Query :=
  { session with documents := session.documents.set doc document }

/-- The answer to an event, and the session after it. The grammars are those that documents are parsed with. -/
def step (session : Session Query) (grammars : Registry Query) : Event → Answer × Session Query
  | .openDocument text =>
    (.done,
      { session with
        documents := session.documents ++ [.new session.nextBuffer text]
        nextBuffer := session.nextBuffer + 1 })
  | .copyDocument doc =>
    session.withDocument doc fun document =>
      (.done, { session with documents := session.documents ++ [document] })
  | .setText doc text =>
    session.withDocument doc fun document =>
      let changed := document.withText text
      (.edited true changed, session.setDocument doc changed)
  | .reindentLine doc line columns =>
    session.withDocument doc fun document =>
      match document.reindentLine? line columns with
      | none => (.edited false document, session)
      | some changed => (.edited true changed, session.setDocument doc changed)
  | .parse slot language outcome =>
    session.plant slot (Forest.parse grammars language outcome session.nextGeneration)
  | .inject slot language ranges outcome =>
    session.withForest slot fun forest =>
      session.replant slot (forest.inject grammars language ranges outcome session.nextGeneration)
  | .reparse slot outcome =>
    session.withForest slot fun forest =>
      session.replant slot (forest.reparse grammars outcome session.nextGeneration)
  | .indent doc slot line =>
    session.withDocument doc fun document =>
      session.withForest slot fun forest =>
        let (indent, indenter) := session.indenter.indentOf document forest line
        (.indent indent, { session with indenter })
  | .reindent doc slot first last =>
    session.withDocument doc fun document =>
      session.withForest slot fun forest =>
        let (indents, indenter) :=
          session.indenter.reindent document forest (first.getD 1) (last.getD document.lineCount)
        (.indents indents, { session with indenter })
  | .select slot line =>
    session.withForest slot fun forest =>
      (.selected ((forest.choice? line).map Prod.snd), session)
  | .showForest slot =>
    session.withForest slot fun forest => (.forest forest, session)
  | .forget doc =>
    session.withDocument doc fun document =>
      (.done, { session with indenter := session.indenter.forget document.buffer })
  | .showConfig language =>
    let config := session.indenter.config
    (.config config (config.shiftWidthFor language) (config.isEnabled language), session)

/-- The answers to some events, each with its grammars, and the session after them. -/
def run (session : Session Query) : List (Registry Query × Event) → List Answer × Session Query
  | [] => ([], session)
  | (grammars, event) :: rest =>
    let (answer, session) := session.step grammars event
    let (answers, session) := session.run rest
    (answer :: answers, session)

end Session

end TreeIndent
