import TreeIndent.Forest.Basic
import TreeIndent.Json.Record

/-!
# Written parses

A parser outside this library can hand over its outcome in writing, as one JSON object:

- `root`: the byte offsets at which the root starts and ends;
- `kinds`: the names of the kinds of nodes;
- `nodes`: the nodes in preorder, each as `[kind, start row, start column, end row, end column, error, children]`;
- `query`: the run of the language's query, if there is one, with the capture names (`captures`), the properties of
  each pattern (`patterns`) and the matches (`matches`).
-/

namespace TreeIndent

open Json

/-- A natural number. -/
def Json.natural? (json : Json) : Option Nat :=
  (word? json).map UInt64.toNat

/-- One node of the listing. -/
def Node.Entry.ofJson? (kinds : List String) (json : Json) : Option Node.Entry := do
  match ← list? natural? json with
  | [kind, startRow, startColumn, stopRow, stopColumn, hasError, childCount] =>
    return { kind := ← kinds[kind]?
             start := ⟨startRow, startColumn⟩
             stop := ⟨stopRow, stopColumn⟩
             hasError := hasError != 0
             childCount }
  | _ => none

/-- A property, written as `[target, key, value]`. -/
def Property.ofJson? : Json → Option Property
  | .array [target, key, value] => do
    return { target := ← orNull natural? target, key := ← text? key, value := ← orNull text? value }
  | _ => none

/-- A capture, written as `[name, node]`. -/
def Capture.ofJson? (json : Json) : Option Capture := do
  match ← list? natural? json with
  | [name, node] => return ⟨name, node⟩
  | _ => none

/-- A match, written as `[pattern, captures]`. -/
def Match.ofJson? : Json → Option Match
  | .array [pattern, captures] => do return ⟨← natural? pattern, ← list? Capture.ofJson? captures⟩
  | _ => none

/-- A run of a query. -/
def QueryRun.ofJson? (json : Json) : Option QueryRun := do
  match ← fields? ["captures", "patterns", "matches"] json with
  | [some captures, some patterns, some found] =>
    return { captureNames := ← list? text? captures
             properties := ← list? (list? Property.ofJson?) patterns
             found := ← list? Match.ofJson? found }
  | _ => none

/-- The outcome of a parse, under the identity that its tree gets. -/
def Parsed.ofJson? (identity : Nat) (json : Json) : Option Parsed := do
  match ← fields? ["root", "kinds", "nodes", "query"] json with
  | [some span, some kinds, some nodes, query] =>
    let kinds ← list? text? kinds
    let root ← Node.ofPreorder? (← list? (Node.Entry.ofJson? kinds) nodes)
    let run ← fieldOr none (orNull QueryRun.ofJson?) query
    match ← list? natural? span with
    | [startByte, stopByte] => return { tree := { identity, startByte, stopByte, root }, run := run.getD {} }
    | _ => none
  | _ => none

end TreeIndent
