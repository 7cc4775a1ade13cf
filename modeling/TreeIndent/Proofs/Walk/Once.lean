import TreeIndent.Proofs.Walk.Rules
import TreeIndent.Proofs.Walk.Locality
import Mathlib.Data.List.Nodup

/-!
# Rows contribute once

Several ancestors of a line can start on one row, such as a statement and its block. Once one of them has used
the row up, those above it have no say in the indent any more.

* `progressAt?`: the climb followed up to a position.
* `Spends`: the visit of a node uses up its row. From then on the row stays counted (`progressAt?_of_le`), and
  levels that are marked higher up on the row are without influence (`climb_congr_of_counted`).
* `ChangesIndent`: the visit of a node moves the indent or pins the line. Where nothing propagates, a node that
  moves the indent uses up its row (`seals_of_moved`).
-/

namespace TreeIndent

namespace Marking

/-- The roles by which a node adds levels and takes them away. -/
def levelRoles : List Role :=
  [.begin, .branch, .dedent]

/-- Two markings that differ at most in the levels of one node. -/
def SameButLevels (marking other : Marking) (id : Nat) : Prop :=
  ∀ role node, role ∉ levelRoles ∨ node ≠ id → other.get? role node = marking.get? role node

/-- No begin and no align lets its row contribute again. -/
def Unpropagated (marking : Marking) : Prop :=
  ∀ entry ∈ marking.table.entries, entry.1.1 ∈ [Role.begin, Role.align] → entry.2.isPropagating = false

instance (marking : Marking) : Decidable marking.Unpropagated :=
  inferInstanceAs (Decidable (∀ entry ∈ marking.table.entries, _))

lemma Unpropagated.of_get? {marking : Marking} (h : marking.Unpropagated) {role : Role}
    (hrole : role ∈ [Role.begin, Role.align]) {id : Nat} {attrs : Attributes}
    (hget : marking.get? role id = some attrs) : attrs.isPropagating = false :=
  h ((role, id), attrs) (Table.get?_eq_some_iff.1 hget) hrole

lemma SameButLevels.agreesAt {marking other : Marking} {id : Nat} (h : marking.SameButLevels other id)
    {node : Node} (hnode : node.id ≠ id) : marking.AgreesAt other node := by
  -- Of the children of a node a visit reads no levels.
  have hlevels : ∀ role ∈ childRoles, role ∉ levelRoles := by decide
  refine ⟨fun role _ => h role node.id (Or.inr hnode), ?_⟩
  intro child _ role hrole
  exact h role child.id (Or.inl (hlevels role hrole))

end Marking

namespace Walk

/-! ## The climb up to a position -/

/-- The progress that a climb goes on with after a step. -/
def Step.next? : Step → Option Progress
  | .stop _ => none
  | .go next => some next

lemma Step.next?_eq_some_iff {step : Step} {next : Progress} : step.next? = some next ↔ step = .go next := by
  cases step <;> simp [Step.next?]

/-- The progress with which the climb gets to a position of the chain, if it gets there. -/
def progressAt? (walk : Walk) (row : Nat) (start : Progress) (chain : List Node) : Nat → Option Progress
  | 0 => some start
  | i + 1 =>
    (walk.progressAt? row start chain i).bind fun progress =>
      (chain[i]?).bind fun node => (walk.visit row progress (parentError chain i) node).next?

section Climb

variable {walk : Walk} {row : Nat} {start : Progress} {chain : List Node}

/-- The climb gets to the next position when the visit here lets it go on. -/
lemma progressAt?_succ {i : Nat} {next : Progress} :
    walk.progressAt? row start chain (i + 1) = some next ↔
      ∃ progress, walk.progressAt? row start chain i = some progress ∧ ∃ node, chain[i]? = some node ∧
        walk.visit row progress (parentError chain i) node = .go next := by
  rw [progressAt?, Option.bind_eq_some_iff]
  simp only [Option.bind_eq_some_iff, Step.next?_eq_some_iff]

/-- From a position that it gets to, the climb goes on with its progress there. -/
lemma climb_of_progressAt? {i : Nat} {progress : Progress}
    (h : walk.progressAt? row start chain i = some progress) :
    walk.climb row start chain = walk.climb row progress (chain.drop i) := by
  induction i generalizing progress with
  | zero =>
    rw [progressAt?, Option.some.injEq] at h
    rw [h, List.drop_zero]
  | succ i ih =>
    obtain ⟨before, hbefore, node, hnode, hvisit⟩ := progressAt?_succ.1 h
    rw [ih hbefore, climb_drop hnode, hvisit]

/-- Markings that agree on all nodes below a position lead to it with the same progress. -/
lemma progressAt?_congr {marking : Marking} {i : Nat}
    (h : ∀ j < i, ∀ node ∈ chain[j]?, walk.marking.AgreesAt marking node) :
    { walk with marking }.progressAt? row start chain i = walk.progressAt? row start chain i := by
  induction i with
  | zero => rfl
  | succ i ih =>
    have hbelow := ih fun j hj => h j (Nat.lt_succ_of_lt hj)
    rw [progressAt?, progressAt?, hbelow]
    cases hnode : chain[i]? with
    | none => rfl
    | some node =>
      have hagrees : walk.marking.AgreesAt marking node := h i (Nat.lt_succ_self i) node hnode
      simp only [Option.bind_some, visit_congr hagrees]

end Climb

/-! ## Rows that are used up -/

section Visits

variable {walk : Walk} {row : Nat} {progress next : Progress} {inError : Bool} {node : Node}

/-- A visit that lets the climb go on. The row was used up and nothing changes; or it was free, and it is counted
if the node uses it up. -/
lemma visit_eq_go (h : walk.visit row progress inError node = .go next) :
    walk.verdict? row node = none ∧
      (node.start.row ∈ progress.counted ∧ next = progress ∨
        node.start.row ∉ progress.counted ∧
          (∀ attrs opening closing, ¬ walk.Pins row inError node attrs opening closing) ∧
          ∀ r, r ∈ next.counted ↔
            r ∈ progress.counted ∨ r = node.start.row ∧ walk.Seals row inError node) := by
  cases hverdict : walk.verdict? row node with
  | some answer =>
    rw [visit_of_verdict hverdict] at h
    cases h
  | none =>
    refine ⟨rfl, ?_⟩
    by_cases hcounted : node.start.row ∈ progress.counted
    · rw [visit_of_counted hverdict hcounted] at h
      exact Or.inl ⟨hcounted, (Step.go.inj h).symm⟩
    · have hpins : ∀ attrs opening closing, ¬ walk.Pins row inError node attrs opening closing := by
        intro attrs opening closing hpin
        rw [visit_of_pins hverdict hcounted hpin] at h
        cases h
      obtain ⟨passed, hgo, hrows⟩ := visit_of_passed hverdict hcounted hpins
      obtain rfl : passed = next := Step.go.inj (hgo.symm.trans h)
      exact Or.inr ⟨hcounted, hpins, hrows⟩

/-- A row that is counted stays so. -/
lemma counted_of_visit (h : walk.visit row progress inError node = .go next) {r : Nat}
    (hr : r ∈ progress.counted) : r ∈ next.counted := by
  rcases (visit_eq_go h).2 with ⟨-, heq⟩ | ⟨-, -, hrows⟩
  · rw [heq]
    exact hr
  · exact (hrows r).2 (Or.inl hr)

/-- The visit of a node uses up its row: the row is free, and the node takes a level away, adds one without
propagating, or aligns the line without pinning it and without propagating. -/
structure Spends (walk : Walk) (row : Nat) (progress : Progress) (inError : Bool) (node : Node) : Prop where
  passes : walk.verdict? row node = none
  free : node.start.row ∉ progress.counted
  seals : walk.Seals row inError node

lemma Spends.mem_counted (h : walk.Spends row progress inError node)
    (hvisit : walk.visit row progress inError node = .go next) : node.start.row ∈ next.counted := by
  rcases (visit_eq_go hvisit).2 with ⟨hcounted, -⟩ | ⟨-, -, hrows⟩
  · exact absurd hcounted h.free
  · exact (hrows _).2 (Or.inr ⟨rfl, h.seals⟩)

end Visits

/-- Where the climb gets, it has been to each position below, and the rows that were counted there still are. -/
lemma progressAt?_of_le {walk : Walk} {row : Nat} {start : Progress} {chain : List Node} {i k : Nat}
    (hik : i ≤ k) {upper : Progress} (hupper : walk.progressAt? row start chain k = some upper) :
    ∃ lower, walk.progressAt? row start chain i = some lower ∧ ∀ r ∈ lower.counted, r ∈ upper.counted := by
  induction k, hik using Nat.le_induction generalizing upper with
  | base => exact ⟨upper, hupper, fun r hr => hr⟩
  | succ k hk ih =>
    obtain ⟨before, hbefore, node, -, hvisit⟩ := progressAt?_succ.1 hupper
    obtain ⟨lower, hlower, hcounted⟩ := ih hbefore
    exact ⟨lower, hlower, fun r hr => counted_of_visit hvisit (hcounted r hr)⟩

/-- A node that can leave the line neither to generic indenting nor at column zero has no last word. -/
lemma verdict?_eq_none {walk : Walk} {row : Nat} {node : Node} (hauto : walk.marks .auto node = false)
    (hignore : walk.marks .ignore node = false) : walk.verdict? row node = none := by
  unfold verdict?
  simp [hauto, hignore]

/-- Two markings give the same climb if they agree on each node, or if the node starts on a row that is counted
and has no last word under either. -/
lemma climb_congr_of_counted {walk : Walk} {marking : Marking} {row : Nat} {progress : Progress}
    {chain : List Node}
    (h : ∀ node ∈ chain, walk.marking.AgreesAt marking node ∨
      node.start.row ∈ progress.counted ∧ walk.verdict? row node = none ∧
        { walk with marking }.verdict? row node = none) :
    { walk with marking }.climb row progress chain = walk.climb row progress chain := by
  induction chain generalizing progress with
  | nil => rfl
  | cons node above ih =>
    have hvisit : ∀ inError, { walk with marking }.visit row progress inError node
        = walk.visit row progress inError node := by
      intro inError
      rcases h node (List.mem_cons_self ..) with hagrees | ⟨hcounted, hverdict, hverdict'⟩
      · exact visit_congr hagrees row progress inError
      · rw [visit_of_counted hverdict hcounted]
        exact visit_of_counted hverdict' hcounted
    rw [climb, climb, hvisit]
    cases hstep : walk.visit row progress (above.head?.any Node.hasError) node with
    | stop answer => rfl
    | go next =>
      -- Rows stay counted, so what holds of the rest of the chain holds after this visit too.
      apply ih
      intro other hother
      rcases h other (List.mem_cons_of_mem _ hother) with hagrees | ⟨hcounted, hverdicts⟩
      · exact Or.inl hagrees
      · exact Or.inr ⟨counted_of_visit hstep hcounted, hverdicts⟩

/-! ## Nodes that change the indent -/

/-- The node at a position is visited and changes the indent: it has no last word, and if the climb goes on then
with another indent. A climb that does not go on was pinned to a column. -/
def ChangesIndent (walk : Walk) (row : Nat) (start : Progress) (chain : List Node) (i : Nat) : Prop :=
  ∃ progress node, walk.progressAt? row start chain i = some progress ∧ chain[i]? = some node ∧
    walk.verdict? row node = none ∧
    ∀ next, walk.visit row progress (parentError chain i) node = .go next → next.indent ≠ progress.indent

section Unpropagated

variable {walk : Walk} (hmarks : walk.marking.Unpropagated) {row : Nat} {inError : Bool} {node : Node}

include hmarks

/-- The attributes by which a node aligns are those of an align, its own or a child's. -/
lemma isPropagating_of_aligns? {attrs : Attributes} (h : walk.aligns? row inError node = some attrs) :
    attrs.isPropagating = false := by
  have halign : Role.align ∈ [Role.begin, Role.align] := by decide
  unfold aligns? at h
  split at h
  · rcases Option.or_eq_some_iff.1 h with hown | ⟨-, hchild⟩
    · exact hmarks.of_get? halign hown
    · split at hchild
      · obtain ⟨child, -, hget⟩ := List.exists_of_findSome?_eq_some hchild
        exact hmarks.of_get? halign hget
      · cases hchild
  · cases h

lemma addLevels_of_not_fills (h : ¬ walk.Fills row inError node) (indent : Int) :
    walk.addLevels row inError node indent = indent := by
  apply addLevels_of_idle
  · intro hout
    exact h (Or.inl hout)
  · intro attrs hget hindents
    exact h (Or.inr ⟨attrs, hget, hindents, hmarks.of_get? (by decide) hget⟩)

/-- A node that moves the indent uses up its row. -/
lemma seals_of_moved {progress next : Progress}
    (hvisit : walk.visit row progress inError node = .go next) (hmoved : next.indent ≠ progress.indent) :
    node.start.row ∉ progress.counted ∧ walk.Seals row inError node := by
  obtain ⟨hverdict, hcounted | ⟨hfree, hpins, -⟩⟩ := visit_eq_go hvisit
  · exact absurd (congrArg Progress.indent hcounted.2) hmoved
  · refine ⟨hfree, ?_⟩
    by_contra hseals
    apply hmoved
    -- Nothing is added, and where the node aligned the line it would use up its row or pin the line.
    have hfills : ¬ walk.Fills row inError node := fun hfills => hseals (Or.inl hfills)
    rw [visit_of_free hverdict hfree, addLevels_of_not_fills hmarks hfills] at hvisit
    cases haligns : walk.aligns? row inError node with
    | none =>
      rw [haligns] at hvisit
      rw [← Step.go.inj hvisit]
    | some attrs =>
      cases hopening : walk.delimiter? .opening attrs node with
      | none =>
        simp only [haligns, align_of_not_opened hopening] at hvisit
        rw [← Step.go.inj hvisit]
      | some opening =>
        have hpinned : PinsBy row attrs opening (walk.delimiter? .closing attrs node) := by
          by_contra hnot
          exact hseals (Or.inr ⟨attrs, opening, haligns, hopening, hnot, isPropagating_of_aligns? hmarks haligns⟩)
        exact absurd ⟨haligns, hopening, rfl, hpinned⟩ (hpins attrs opening _)

/-- A node above one that changes the indent does not change it again, if both start on one row. -/
lemma ChangesIndent.start_ne {start : Progress} {chain : List Node} {i k : Nat} {lower upper : Node}
    (hlower : chain[i]? = some lower) (hupper : chain[k]? = some upper) (hik : i < k)
    (hi : walk.ChangesIndent row start chain i) (hk : walk.ChangesIndent row start chain k) :
    lower.start.row ≠ upper.start.row := by
  intro hrows
  obtain ⟨progress, node, hprogress, hnode, -, hmoves⟩ := hi
  obtain ⟨progress', node', hprogress', hnode', hverdict', hmoves'⟩ := hk
  obtain rfl : node = lower := Option.some.inj (hnode.symm.trans hlower)
  obtain rfl : node' = upper := Option.some.inj (hnode'.symm.trans hupper)
  -- The climb has got past the lower node, which moved the indent and so used up the row.
  obtain ⟨next, hnext, hcounted⟩ := progressAt?_of_le hik hprogress'
  obtain ⟨before, hbefore, node', hnode', hvisit⟩ := progressAt?_succ.1 hnext
  obtain rfl : before = progress := Option.some.inj (hbefore.symm.trans hprogress)
  obtain rfl : node' = node := Option.some.inj (hnode'.symm.trans hnode)
  obtain ⟨hfree, hseals⟩ := seals_of_moved hmarks hvisit (hmoves next hvisit)
  have hspends : walk.Spends row before (parentError chain i) node' :=
    ⟨(visit_eq_go hvisit).1, hfree, hseals⟩
  have hused : node'.start.row ∈ progress'.counted := hcounted _ (hspends.mem_counted hvisit)
  rw [hrows] at hused
  exact hmoves' progress' (visit_of_counted hverdict' hused) rfl

end Unpropagated

/-! ## One row, one contribution -/

/-- Nodes at different positions have different numbers, where the numbers along the chain differ. -/
private lemma id_ne_of_lt {chain : List Node} (hids : (chain.map Node.id).Nodup) {j k : Nat} (hjk : j < k)
    {lower upper : Node} (hlower : chain[j]? = some lower) (hupper : chain[k]? = some upper) :
    lower.id ≠ upper.id := by
  intro heq
  have hj : j < (chain.map Node.id).length := by
    rw [List.length_map]
    exact (List.getElem?_eq_some_iff.1 hlower).1
  have hsame : (chain.map Node.id)[j]? = (chain.map Node.id)[k]? := by
    rw [List.getElem?_map, List.getElem?_map, hlower, hupper, Option.map_some, Option.map_some, heq]
  have hposition : j = k := (List.getElem?_inj hj hids).1 hsame
  omega

/-- Under a marking that differs only in the levels of a node, the climb is the same if a node below has used up
the row that the node starts on. -/
lemma climb_congr_of_spends {walk : Walk} {row : Nat} {start : Progress} {chain : List Node}
    (hids : (chain.map Node.id).Nodup) {i k : Nat} (hik : i < k) {lower upper : Node}
    (hlower : chain[i]? = some lower) (hupper : chain[k]? = some upper)
    (hrows : upper.start.row = lower.start.row) {progress : Progress}
    (hprogress : walk.progressAt? row start chain i = some progress)
    (hspends : walk.Spends row progress (parentError chain i) lower)
    (hauto : walk.marks .auto upper = false) (hignore : walk.marks .ignore upper = false)
    {marking : Marking} (hmarking : walk.marking.SameButLevels marking upper.id) :
    { walk with marking }.climb row start chain = walk.climb row start chain := by
  have hbelow : ∀ j ≤ i, ∀ node ∈ chain[j]?, walk.marking.AgreesAt marking node := by
    intro j hj node hnode
    exact hmarking.agreesAt (id_ne_of_lt hids (by omega) hnode hupper)
  -- Both climbs get to the lower node in the same way, and it does the same in both.
  have hprogress' : { walk with marking }.progressAt? row start chain i = some progress := by
    rw [progressAt?_congr fun j hj => hbelow j hj.le]
    exact hprogress
  rw [climb_of_progressAt? hprogress', climb_of_progressAt? hprogress, climb_drop hlower, climb_drop hlower,
    visit_congr (hbelow i le_rfl lower hlower)]
  cases hvisit : walk.visit row progress (parentError chain i) lower with
  | stop answer => rfl
  | go next =>
    apply climb_congr_of_counted
    intro node hnode
    by_cases hid : node.id = upper.id
    · -- The one node whose levels differ: its row is counted now, and its last word is read elsewhere.
      obtain rfl : node = upper :=
        List.inj_on_of_nodup_map hids (List.mem_of_mem_drop hnode) (List.mem_of_getElem? hupper) hid
      have hsame : ∀ role ∉ Marking.levelRoles,
          { walk with marking }.marks role node = walk.marks role node := by
        intro role hrole
        unfold marks Marking.has
        rw [hmarking role node.id (Or.inl hrole)]
      refine Or.inr ⟨?_, verdict?_eq_none hauto hignore, verdict?_eq_none ?_ ?_⟩
      · rw [hrows]
        exact hspends.mem_counted hvisit
      · rw [hsame .auto (by decide)]
        exact hauto
      · rw [hsame .ignore (by decide)]
        exact hignore
    · exact Or.inl (hmarking.agreesAt hid)

/-- The levels of a node have no influence on the choice of the anchor and on what is asked of it. -/
lemma indentOf_congr_of_climb {walk : Walk} {line : Nat} {marking : Marking} {id : Nat}
    (hmarking : walk.marking.SameButLevels marking id)
    (hclimb : { walk with marking }.climb (line - 1) ⟨walk.base, []⟩ (walk.anchor line).chain
      = walk.climb (line - 1) ⟨walk.base, []⟩ (walk.anchor line).chain) :
    { walk with marking }.indentOf line = walk.indentOf line := by
  have hanchor : { walk with marking }.anchor line = walk.anchor line := by
    apply anchor_congr
    intro entry hentry
    apply hmarking entry.1 entry.2
    rw [finish_of_mem_anchorReads hentry]
    exact Or.inl (by decide)
  have hzero : { walk with marking }.marks .zero (walk.anchor line).node
      = walk.marks .zero (walk.anchor line).node := by
    unfold marks Marking.has
    rw [hmarking .zero _ (Or.inl (by decide))]
  unfold indentOf
  dsimp only
  rw [hanchor, hzero]
  show (if _ then _ else { walk with marking }.climb (line - 1) ⟨walk.base, []⟩ (walk.anchor line).chain) = _
  rw [hclimb]

/-- Each row contributes at most once, alignment included. Once a visited node has used up its row, the levels
marked on a higher node that starts there do not matter, unless that node may end the walk; nodes are told apart
by their numbers, so these must differ along the chain. And where nothing propagates, of the visited nodes that
start on one row at most one changes the indent. -/
theorem row_contributes_once (walk : Walk) (line : Nat) :
    let row := line - 1
    let start : Progress := ⟨walk.base, []⟩
    let chain := (walk.anchor line).chain
    ((chain.map Node.id).Nodup → ∀ i k lower upper progress, i < k → chain[i]? = some lower →
      chain[k]? = some upper → upper.start.row = lower.start.row →
      walk.progressAt? row start chain i = some progress →
      walk.Spends row progress (parentError chain i) lower →
      walk.marks .auto upper = false → walk.marks .ignore upper = false →
      ∀ marking, walk.marking.SameButLevels marking upper.id →
        { walk with marking }.indentOf line = walk.indentOf line) ∧
    (walk.marking.Unpropagated → ∀ i k lower upper, chain[i]? = some lower → chain[k]? = some upper →
      lower.start.row = upper.start.row → walk.ChangesIndent row start chain i →
      walk.ChangesIndent row start chain k → i = k) := by
  intro row start chain
  refine ⟨?_, ?_⟩
  · intro hids i k lower upper progress hik hlower hupper hrows hprogress hspends hauto hignore marking hmarking
    apply indentOf_congr_of_climb hmarking
    exact climb_congr_of_spends hids hik hlower hupper hrows hprogress hspends hauto hignore hmarking
  · intro hmarks i k lower upper hlower hupper hrows hi hk
    rcases Nat.lt_trichotomy i k with hik | heq | hki
    · exact absurd hrows (ChangesIndent.start_ne hmarks hlower hupper hik hi hk)
    · exact heq
    · exact absurd hrows.symm (ChangesIndent.start_ne hmarks hupper hlower hki hk hi)

/-! ### A call whose arguments hang

The call and its arguments start on one row. The arguments hang one level below that row, so that the call cannot
add another. -/

/-- The opening parenthesis, last on its line. -/
def lastParen : Node := ⟨4, "(", ⟨1, 5⟩, ⟨1, 6⟩, false, []⟩

/-- The arguments of the call. -/
def hangingArguments : Node :=
  ⟨3, "arguments", ⟨1, 5⟩, ⟨3, 3⟩, false,
    [lastParen, ⟨5, "name", ⟨2, 4⟩, ⟨2, 5⟩, false, []⟩, ⟨6, ")", ⟨3, 2⟩, ⟨3, 3⟩, false, []⟩]⟩

/-- The attributes by which the arguments align. -/
def hangingAttributes : Attributes :=
  { openDelimiter := some "(", closeDelimiter := some ")" }

/-- The call in a block that begins a level. -/
def hangingCall : Walk where
  root := ⟨⟨0, "block", ⟨0, 0⟩, ⟨4, 3⟩, false,
    [⟨1, "call", ⟨1, 2⟩, ⟨3, 3⟩, false, [⟨2, "name", ⟨1, 2⟩, ⟨1, 5⟩, false, []⟩, hangingArguments]⟩]⟩, []⟩
  marking := .ofList [(.begin, 0, {}), (.align, 3, hangingAttributes)]
  patterns := .classes
  document := .new 1 "do\n  foo(\n    a\n  )\nend".toList
  shiftWidth := 4
  tabSize := 4

/-- Levels on the call. -/
def callLevels : List (Role × Nat × Attributes) :=
  [(.begin, 1, {}), (.branch, 1, {}), (.dedent, 1, {})]

/-- The argument stays two levels deep when the call gets levels of its own, and the call changes nothing. -/
theorem hangingCall_row_contributes_once :
    hangingCall.Spends 2 ⟨0, []⟩ false hangingArguments ∧ hangingCall.marking.Unpropagated ∧
      hangingCall.indentOf 3 = .column 8 ∧
      { hangingCall with marking := hangingCall.marking.markAll callLevels }.indentOf 3
        = hangingCall.indentOf 3 ∧
      ¬ hangingCall.ChangesIndent 2 ⟨0, []⟩ (hangingCall.anchor 3).chain 2 := by
  have hseals : hangingCall.Seals 2 false hangingArguments := by
    refine Or.inr ⟨hangingAttributes, ⟨lastParen, true⟩, by decide, by rfl, ?_, by decide⟩
    intro hpins
    exact absurd (hpins.1 rfl) (by decide)
  have hspends : hangingCall.Spends 2 ⟨0, []⟩ false hangingArguments := ⟨by decide, by decide, hseals⟩
  have hmarks : hangingCall.marking.Unpropagated := by decide
  have hlevels : hangingCall.marking.SameButLevels (hangingCall.marking.markAll callLevels) 1 := by
    have hnames : ∀ mark ∈ callLevels, mark.1 ∈ Marking.levelRoles ∧ mark.2.1 = 1 := by decide
    intro role node hdiffer
    apply Marking.get?_markAll
    intro mark hmark heq
    obtain ⟨rfl, rfl⟩ := Prod.mk.inj heq
    have hlevel := hnames mark hmark
    exact hdiffer.elim (fun hrole => hrole hlevel.1) fun hnode => hnode hlevel.2
  obtain ⟨hrow, honce⟩ := row_contributes_once hangingCall 3
  refine ⟨hspends, hmarks, by decide, ?_, ?_⟩
  · exact hrow (by decide) 1 2 hangingArguments _ ⟨0, []⟩ (by decide) rfl rfl rfl (by decide) hspends (by decide)
      (by decide) _ hlevels
  · intro hcall
    have harguments : hangingCall.ChangesIndent 2 ⟨0, []⟩ (hangingCall.anchor 3).chain 1 := by
      refine ⟨⟨0, []⟩, hangingArguments, by decide, rfl, by decide, ?_⟩
      intro next hvisit
      have hfour : hangingCall.visit 2 ⟨0, []⟩ false hangingArguments = .go ⟨4, [1]⟩ := by decide
      obtain rfl := Step.go.inj (hfour.symm.trans hvisit)
      decide
    exact absurd (honce hmarks 1 2 hangingArguments _ rfl rfl rfl harguments hcall) (by decide)

end Walk

end TreeIndent
