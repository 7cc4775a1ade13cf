import TreeIndent.Proofs.Forest.Selection
import TreeIndent.Proofs.Session.Forests
import TreeIndent.Proofs.Session.Transparency

/-!
# Lines that an injected layer leaves alone

An injection changes the generation of a forest and with it everything that was cached for the forest. Still
it shows only on the lines that the new layer takes over: on all others the layer stays the same, and with it
the indent, whatever was cached before the injection and after it.

The argument has two halves. Caches are right at every time of a run, so that an indent is the one that an
empty cache gives (`indentOf_after_fst`); and without a cache a forest counts for a line only through the
layer of that line (`Indenter.freshIndentOf_congr`).
-/

namespace TreeIndent

variable {Query : Type}

/-- Without a cache a forest counts for a line only through the layer of that line. -/
lemma Indenter.freshIndentOf_congr (indenter : Indenter Query) (doc : Document) {forest other : Forest} {line : Nat}
    (h : other.layerFor? line = forest.layerFor? line) :
    indenter.freshIndentOf doc other line = indenter.freshIndentOf doc forest line := by
  unfold freshIndentOf indentOf
  rw [h]
  cases forest.layerFor? line with
  | none => rfl
  | some layer =>
    -- The keys differ in the generation, but an empty cache builds the marking under any key.
    simp only [Indenter.new, Cache.fetch_new_fst]
    split <;> rfl

namespace Session

/-- A line for which two forests have the same layer gets the same indent over both, at any two times of runs
that start alike. -/
lemma indentOf_after_eq {start : Session Query} (hstart : start.Sound) {before after : List (Input Query)}
    (hbefore : start.RootsStayDistinct before) (hafter : start.RootsStayDistinct after)
    {slot slot' : Nat} {forest other : Forest}
    (hforest : (start.after before).forests.get? slot = some forest)
    (hother : (start.after after).forests.get? slot' = some other) {line : Nat}
    (hline : other.choice? line = forest.choice? line) (doc : Document) :
    ((start.after after).indenter.indentOf doc other line).1
      = ((start.after before).indenter.indentOf doc forest line).1 := by
  have hlayer : other.layerFor? line = forest.layerFor? line := congrArg (Option.map Prod.fst) hline
  rw [indentOf_after_fst hstart hafter hother, indentOf_after_fst hstart hbefore hforest,
    Indenter.freshIndentOf_congr _ _ hlayer]

/-- An injection that a session answers with a forest is an injection into the forest of the slot. -/
lemma inject_of_step {session : Session Query} {known : Registry Query} {slot : Nat} {language : String}
    {ranges : List ByteRange} {outcome : Option Parsed} {forest grown : Forest}
    (hforest : session.forests.get? slot = some forest)
    (hgrown : (session.step known (.inject slot language ranges outcome)).1 = .grown grown) :
    forest.inject known language ranges outcome session.nextGeneration = (.ok (), grown) := by
  rw [step_inject hforest] at hgrown
  rw [Forest.inject_eq_grow]
  cases hlayer : Layer.parse known language (some ranges) outcome with
  | error error =>
    rw [hlayer] at hgrown
    cases hgrown
  | ok layer =>
    rw [hlayer] at hgrown
    cases hgrown
    rfl

/-- The layer for a line, and what an injection does to it. For each line of each forest the layer is the
first of the smallest that may decide the line, if one may. An injection adds one layer; it becomes the layer
for the lines that it takes over and for no others, and all others keep theirs. They keep their indents too:
at the end of every run that goes on from an injection, as long as the forest is still there, they are what
they were before it. -/
theorem injection_keeps_other_lines (registry : Registry Query) (config : Config) (patterns : Patterns)
    (capacity : Nat) :
    let start := Session.new ⟨registry, config, patterns, .new capacity⟩
    (∀ (forest : Forest) (line : Nat),
      (forest.choice? line = none ↔ ∀ layer ∈ forest.layers, ¬ layer.MayDecide line) ∧
      ∀ layer position, forest.choice? line = some (layer, position) ↔
        Forest.Decides forest.layers line layer position) ∧
    (∀ (forest grown : Forest) (known : Registry Query) (language : String) (ranges : List ByteRange)
      (outcome : Option Parsed) (generation : Nat),
      forest.inject known language ranges outcome generation = (.ok (), grown) →
      ∃ layer, grown.layers = forest.layers ++ [layer] ∧ ∀ line,
        (grown.choice? line = some (layer, forest.layers.length) ↔ layer.TakesOver line (forest.choice? line)) ∧
        (¬ layer.TakesOver line (forest.choice? line) → grown.choice? line = forest.choice? line)) ∧
    ∀ (before : List (Input Query)) (known : Registry Query) (slot : Nat) (language : String)
      (ranges : List ByteRange) (outcome : Option Parsed) (forest grown : Forest),
      let injection : Event := .inject slot language ranges outcome
      let session := start.after before
      session.forests.get? slot = some forest → (session.step known injection).1 = .grown grown →
      ∃ layer, grown.layers = forest.layers ++ [layer] ∧ ∀ later,
        let inputs := before ++ (known, injection) :: later
        let final := start.after inputs
        start.RootsStayDistinct inputs → final.forests.get? slot = some grown →
        ∀ line, ¬ layer.TakesOver line (forest.choice? line) → ∀ doc,
          (final.indenter.indentOf doc grown line).1 = (session.indenter.indentOf doc forest line).1 := by
  intro start
  refine ⟨?_, ?_, ?_⟩
  · intro forest line
    exact ⟨Forest.choice?_eq_none_iff, fun layer position => Forest.choice?_eq_some_iff⟩
  · intro forest grown known language ranges outcome generation hinject
    obtain ⟨layer, hlayers⟩ := Forest.layers_of_inject hinject
    exact ⟨layer, hlayers, Forest.choice?_of_layers_concat hlayers⟩
  · intro before known slot language ranges outcome forest grown injection session hforest hgrown
    obtain ⟨layer, hlayers⟩ := Forest.layers_of_inject (inject_of_step hforest hgrown)
    refine ⟨layer, hlayers, ?_⟩
    intro later inputs final hroots hfinal line hkeeps doc
    have hstart : start.Sound := sound_new registry config patterns capacity
    have hline : grown.choice? line = forest.choice? line :=
      (Forest.choice?_of_layers_concat hlayers line).2 hkeeps
    exact indentOf_after_eq hstart hroots.of_append hroots hforest hfinal hline doc

/-! ### A guest on the third line

The root of the host begins a level, so that the second line is at column four; the third line goes over to the
guest. The cache has room for one marking, so the host's is built for each generation. -/

/-- A tree over three lines whose root begins a level. -/
def levelParse : Parsed where
  tree := ⟨1, 0, 6, ⟨0, "block", ⟨0, 0⟩, ⟨3, 0⟩, false, []⟩⟩
  run := { captureNames := ["indent.begin"], properties := [[]], found := [⟨0, [⟨0, 0⟩]⟩] }

/-- The forest of the host alone. -/
def levelForest : Forest :=
  ⟨[⟨"c", levelParse, false, false⟩], 1⟩

/-- A layer over the third line. -/
def guestLayer : Layer :=
  ⟨"json", { tree := ⟨2, 4, 6, ⟨0, "text", ⟨2, 0⟩, ⟨3, 0⟩, false, []⟩⟩ }, false, true⟩

/-- The forest of the host with its guest. -/
def guestForest : Forest :=
  ⟨levelForest.layers ++ [guestLayer], 2⟩

/-- A line is indented before the injection. -/
def beforeGuest : List (Input Unit) :=
  [(hostGrammars, .openDocument "a\nb\nc\n".toList), (hostGrammars, .parse 0 "c" (some levelParse)),
   (hostGrammars, .indent 0 0 2)]

/-- The injection of the guest. -/
def guestInjection : Event :=
  .inject 0 "json" [⟨4, 6⟩] (some guestLayer.parsed)

/-- The injection, and both lines indented after it. -/
def fromGuest : List (Input Unit) :=
  [(guestGrammars, guestInjection), (hostGrammars, .indent 0 0 3), (hostGrammars, .indent 0 0 2)]

/-- The run of this section is one of those: the third line is taken over, and the second line stays where it
was although the host's marking was built twice. -/
theorem guest_keeps_other_lines :
    let start := Session.new ⟨hostGrammars, {}, .classes, .new 1⟩
    let session := start.after beforeGuest
    let final := start.after (beforeGuest ++ fromGuest)
    let doc : Document := .new 1 "a\nb\nc\n".toList
    final.indenter.cache.misses = 3 ∧ guestForest.choice? 3 = some (guestLayer, 1) ∧
      ¬ guestLayer.TakesOver 2 (levelForest.choice? 2) ∧
      (session.indenter.indentOf doc levelForest 2).1 = .column 4 ∧
      (final.indenter.indentOf doc guestForest 2).1 = (session.indenter.indentOf doc levelForest 2).1 := by
  intro start session final doc
  obtain ⟨-, hselected, hindents⟩ := injection_keeps_other_lines hostGrammars {} .classes 1
  have hinject :
      levelForest.inject guestGrammars "json" [⟨4, 6⟩] (some guestLayer.parsed) 2 = (.ok (), guestForest) := by
    simp [Forest.inject_eq_grow, Forest.grow, Layer.parse, Registry.get?, guestGrammars, Table.get?_insert,
      ByteRange.firstBad?, ByteRange.firstBadFrom?, levelForest, guestForest, guestLayer]
  have hforest : session.forests.get? 0 = some levelForest := by
    simp [session, start, beforeGuest, after, run, step, withDocument, withForest, plant, Session.new,
      Forest.parse, Layer.parse, Registry.get?, hostGrammars, Table.get?_insert, Except.map, levelForest]
  have hnext : session.nextGeneration = 2 := by decide +kernel
  have hstep : session.step guestGrammars guestInjection = session.replant 0 (.ok (), guestForest) := by
    rw [guestInjection, step, withForest, hforest]
    dsimp only
    rw [hnext, hinject]
  have hgrown : (session.step guestGrammars guestInjection).1 = .grown guestForest := by
    rw [hstep]
    rfl
  have hfinal : final.forests.get? 0 = some guestForest := by
    have hindent : ∀ (other : Session Unit) (line : Nat),
        (other.step hostGrammars (.indent 0 0 line)).2.forests = other.forests :=
      fun other line => (unmoved_step rfl hostGrammars).1
    have hrun : final = session.after fromGuest := after_append ..
    rw [hrun, fromGuest, after_cons, after_cons, after_cons, after, run, hindent, hindent, hstep]
    simp [replant, Table.get?_insert]
  have hinits : ∀ before ∈ (beforeGuest ++ fromGuest).inits, (start.after before).DistinctRoots := by
    decide +kernel
  have hroots : start.RootsStayDistinct (beforeGuest ++ fromGuest) :=
    fun before hbefore => hinits before ((List.mem_inits _ _).2 hbefore)
  have htakes : guestLayer.TakesOver 3 (levelForest.choice? 3) := by decide
  have hkeeps : ¬ guestLayer.TakesOver 2 (levelForest.choice? 2) := by decide
  -- The layer that the theorem speaks of is the guest.
  have hguest : ∀ layer, guestForest.layers = levelForest.layers ++ [layer] → layer = guestLayer :=
    fun layer hlayers => by simpa [guestForest] using hlayers.symm
  obtain ⟨layer, hlayers, hchoice⟩ := hselected levelForest guestForest guestGrammars "json" _ _ 2 hinject
  obtain ⟨layer', hlayers', hlines⟩ :=
    hindents beforeGuest guestGrammars 0 "json" _ _ levelForest guestForest hforest hgrown
  obtain rfl := hguest layer hlayers
  obtain rfl := hguest layer' hlayers'
  have hmisses : final.indenter.cache.misses = 3 := by decide +kernel
  have hcolumn : (session.indenter.indentOf doc levelForest 2).1 = .column 4 := by decide +kernel
  have hthird : guestForest.choice? 3 = some (guestLayer, 1) := (hchoice 3).1.2 htakes
  have hsecond := hlines (fromGuest.drop 1) hroots hfinal 2 hkeeps doc
  exact ⟨hmisses, hthird, hkeeps, hcolumn, hsecond⟩

end Session

end TreeIndent
