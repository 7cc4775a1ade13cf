import TreeIndent.Proofs.Config.Search
import TreeIndent.Registry
import Mathlib.Data.List.Induction

/-!
# What a registry knows after any calls

A registry starts empty, with the built-in grammars, or with the built-in grammars under the user's queries
(`Base`), and then grammars are registered and extensions given to them in any order (`Call`).

* `get?_load_eq_some_iff`: the grammars that a registry starts with. The query of each depends on the user's
  file for that language and on no other file.
* `get?_serve`, `get?_serveAll`: a name stands for what was last registered under it, and else for what it
  stood for at the start.
* `serve_register_error`, `detect?_serve_register`: a query that did not compile changes nothing, and registering
  does not reach the extensions.
-/

namespace TreeIndent

variable {Query : Type}

/-- The user's file for a language gives a query: it holds a text in UTF-8, and the text compiles to that query. -/
def Queries.Gives (queries : Queries Query) (name : String) (file : File) (query : Query) : Prop :=
  ∃ text, file = .ofText (String.ofList text) ∧ queries.compile name text = .ok query

lemma Queries.user?_eq_some_iff {queries : Queries Query} {name : String} {file : File} {query : Query} :
    queries.user? name file = some query ↔ queries.Gives name file query := by
  have hcompiled : ∀ text, (queries.compile name text).toOption = some query ↔
      queries.compile name text = .ok query := by
    intro text
    cases queries.compile name text with
    | error cause => simp [Except.toOption]
    | ok compiled => simp [Except.toOption]
  unfold user? Gives
  constructor
  · intro h
    split at h
    · split at h
      · next text hread => exact ⟨text, File.read_eq_ok_iff.1 hread, (hcompiled text).1 h⟩
      · cases h
    · cases h
  · rintro ⟨text, hfile, hcompile⟩
    have hread : file.read = .ok text := File.read_eq_ok_iff.2 hfile
    have hpresent : file.isPresent = true := by
      rw [hfile]
      rfl
    rw [if_pos hpresent, hread]
    exact (hcompiled text).2 hcompile

namespace Registry

/-! ## Where a registry starts -/

/-- What a registry starts from. -/
inductive Base where
  | empty
  | builtin
  /-- The built-in grammars, with the user's query file for each language. -/
  | loaded (userFile : String → File)

/-- The registry at the start. -/
def Base.registry (queries : Queries Query) : Base → Registry Query
  | .empty => Registry.empty
  | .builtin => Registry.builtin queries
  | .loaded userFile => Registry.load queries (some userFile)

/-- The grammars that a registry starts with: the built-in ones, each with the query that the user's file for
that language gives, and with the bundled query where the file gives none, if the bundled query compiles. -/
inductive Base.Holds (queries : Queries Query) : Base → Grammar Query → Prop where
  | builtin {bundled : Bundled} (hbundled : bundled ∈ Bundled.all) :
      Holds queries .builtin ⟨bundled.name, (queries.bundled bundled.name).toOption, false⟩
  | overridden {userFile : String → File} {bundled : Bundled} {query : Query}
      (hbundled : bundled ∈ Bundled.all) (hgives : queries.Gives bundled.name (userFile bundled.name) query) :
      Holds queries (.loaded userFile) ⟨bundled.name, some query, false⟩
  | kept {userFile : String → File} {bundled : Bundled} (hbundled : bundled ∈ Bundled.all)
      (hnone : ∀ query, ¬ queries.Gives bundled.name (userFile bundled.name) query) :
      Holds queries (.loaded userFile) ⟨bundled.name, (queries.bundled bundled.name).toOption, false⟩

/-- The user's query for a built-in grammar. -/
def own? (queries : Queries Query) (userFile : Option (String → File)) (bundled : Bundled) : Option Query :=
  userFile.bind fun fileOf => queries.user? bundled.name (fileOf bundled.name)

/-- The grammar that a built-in grammar is loaded as. -/
def loadedAs (queries : Queries Query) (userFile : Option (String → File)) (bundled : Bundled) : Grammar Query :=
  ⟨bundled.name, (own? queries userFile bundled).or (queries.bundled bundled.name).toOption, false⟩

/-- Adding grammars with distinct names to an empty registry gives each of them under its name. -/
lemma get?_addAll_eq_some_iff {bundles : List Bundled} (hnodup : (bundles.map Bundled.name).Nodup)
    {queries : Queries Query} {userFile : Option (String → File)} {name : String} {grammar : Grammar Query} :
    (bundles.foldl (fun registry bundled => registry.addBundled bundled
        ((own? queries userFile bundled).or (queries.bundled bundled.name).toOption)) empty).get? name
      = some grammar ↔
      ∃ bundled ∈ bundles, bundled.name = name ∧ loadedAs queries userFile bundled = grammar := by
  induction bundles using List.reverseRecOn with
  | nil => simp [empty, get?]
  | append_singleton bundles last ih =>
    rw [List.map_append, List.nodup_append] at hnodup
    obtain ⟨hbundles, -, hlast⟩ := hnodup
    rw [List.foldl_append, List.foldl_cons, List.foldl_nil]
    show (Table.insert _ last.name (loadedAs queries userFile last)).get? name = some grammar ↔ _
    rw [Table.get?_insert]
    by_cases hname : name = last.name
    · -- No grammar before the last one has its name.
      have hbefore : ∀ bundled ∈ bundles, bundled.name ≠ name := by
        intro bundled hmem
        rw [hname]
        exact hlast _ (List.mem_map_of_mem hmem) _ (by simp)
      rw [if_pos hname, Option.some.injEq]
      constructor
      · intro hgrammar
        exact ⟨last, by simp, hname.symm, hgrammar⟩
      · rintro ⟨bundled, hmem, hbundled, hgrammar⟩
        rcases List.mem_append.1 hmem with hmem | hmem
        · exact absurd hbundled (hbefore bundled hmem)
        · rwa [List.mem_singleton.1 hmem] at hgrammar
    · rw [if_neg hname]
      refine (ih hbundles).trans ?_
      constructor
      · rintro ⟨bundled, hmem, hbundled⟩
        exact ⟨bundled, List.mem_append_left _ hmem, hbundled⟩
      · rintro ⟨bundled, hmem, hbundled, hgrammar⟩
        rcases List.mem_append.1 hmem with hmem | hmem
        · exact ⟨bundled, hmem, hbundled, hgrammar⟩
        · rw [List.mem_singleton.1 hmem] at hbundled
          exact absurd hbundled.symm hname

lemma get?_load_eq_some_iff {queries : Queries Query} {userFile : Option (String → File)} {name : String}
    {grammar : Grammar Query} :
    (load queries userFile).get? name = some grammar ↔
      ∃ bundled ∈ Bundled.all, bundled.name = name ∧ loadedAs queries userFile bundled = grammar :=
  get?_addAll_eq_some_iff (by decide)

/-- A language has the user's query or the bundled one, whatever stands in the files of other languages. -/
lemma get?_load_congr (queries : Queries Query) {userFile other : String → File} {name : String}
    (h : userFile name = other name) :
    (load queries (some userFile)).get? name = (load queries (some other)).get? name := by
  apply Option.ext
  intro grammar
  rw [get?_load_eq_some_iff, get?_load_eq_some_iff]
  refine exists_congr fun bundled => and_congr_right fun _ => and_congr_right fun hname => ?_
  rw [loadedAs, loadedAs, own?, own?, Option.bind_some, Option.bind_some, hname, h]

lemma holds_loaded_iff {queries : Queries Query} {userFile : String → File} {grammar : Grammar Query} :
    (Base.loaded userFile).Holds queries grammar ↔
      ∃ bundled ∈ Bundled.all, loadedAs queries (some userFile) bundled = grammar := by
  have hown : ∀ bundled, own? queries (some userFile) bundled = queries.user? bundled.name (userFile bundled.name) :=
    fun _ => rfl
  constructor
  · intro h
    cases h with
    | @overridden _ bundled query hbundled hgives =>
      refine ⟨bundled, hbundled, ?_⟩
      rw [loadedAs, hown, Queries.user?_eq_some_iff.2 hgives, Option.some_or]
    | @kept _ bundled hbundled hnone =>
      have hquery : queries.user? bundled.name (userFile bundled.name) = none := by
        rw [Option.eq_none_iff_forall_not_mem]
        intro query hmem
        exact hnone query (Queries.user?_eq_some_iff.1 hmem)
      refine ⟨bundled, hbundled, ?_⟩
      rw [loadedAs, hown, hquery, Option.none_or]
  · rintro ⟨bundled, hbundled, rfl⟩
    unfold loadedAs
    rw [hown]
    cases hquery : queries.user? bundled.name (userFile bundled.name) with
    | none =>
      refine .kept hbundled fun query hgives => ?_
      rw [Queries.user?_eq_some_iff.2 hgives] at hquery
      cases hquery
    | some query => exact .overridden hbundled (Queries.user?_eq_some_iff.1 hquery)

/-- At the start a name stands for the grammar of that name. -/
lemma get?_base_eq_some_iff {queries : Queries Query} {base : Base} {name : String} {grammar : Grammar Query} :
    (base.registry queries).get? name = some grammar ↔ base.Holds queries grammar ∧ grammar.name = name := by
  cases base with
  | empty =>
    constructor
    · intro h
      cases h
    · rintro ⟨h, -⟩
      cases h
  | builtin =>
    -- Without files no query is overridden.
    refine get?_load_eq_some_iff.trans ?_
    constructor
    · rintro ⟨bundled, hbundled, hname, rfl⟩
      exact ⟨.builtin hbundled, hname⟩
    · rintro ⟨⟨hbundled⟩, hname⟩
      exact ⟨_, hbundled, hname, rfl⟩
  | loaded userFile =>
    rw [Base.registry, get?_load_eq_some_iff, holds_loaded_iff]
    constructor
    · rintro ⟨bundled, hbundled, hname, rfl⟩
      exact ⟨⟨bundled, hbundled, rfl⟩, hname⟩
    · rintro ⟨⟨bundled, hbundled, rfl⟩, hname⟩
      exact ⟨bundled, hbundled, hname, rfl⟩

/-! ## Calls -/

/-- A call that changes a registry. A registration comes with the outcome of compiling its query, if it has
one. -/
inductive Call (Query : Type) where
  | register (name : String) (query : Option (Compiled Query)) (commentOnly : Bool)
  | addExtension (ext name : String)

/-- The registry after a call. A registration that is refused leaves the registry as it is. -/
def serve (registry : Registry Query) : Call Query → Registry Query
  | .register name query commentOnly => (registry.register name query commentOnly).toOption.getD registry
  | .addExtension ext name => registry.addExtension ext name

/-- The registry after several calls. -/
def serveAll (registry : Registry Query) (calls : List (Call Query)) : Registry Query :=
  calls.foldl serve registry

/-- The grammar that a call registers, if its query compiled or it has none. -/
def Call.registers? : Call Query → Option (Grammar Query)
  | .register name none commentOnly => some ⟨name, none, commentOnly⟩
  | .register name (some (.ok query)) commentOnly => some ⟨name, some query, commentOnly⟩
  | .register _ (some (.error _)) _ => none
  | .addExtension _ _ => none

/-- A grammar was registered, and no other one of its name after it. -/
def RegisteredLast (calls : List (Call Query)) (grammar : Grammar Query) : Prop :=
  ∃ before call after, calls = before ++ call :: after ∧ call.registers? = some grammar ∧
    ∀ later ∈ after, ∀ other, later.registers? = some other → other.name ≠ grammar.name

lemma serveAll_concat (registry : Registry Query) (calls : List (Call Query)) (call : Call Query) :
    registry.serveAll (calls ++ [call]) = (registry.serveAll calls).serve call := by
  simp [serveAll]

/-- One call: the grammar that it registers is the one of its name, and all other names stand for what they
stood for. -/
lemma get?_serve (registry : Registry Query) (call : Call Query) (name : String) :
    (registry.serve call).get? name =
      (call.registers?.filter fun grammar => grammar.name = name).or (registry.get? name) := by
  have hinsert : ∀ grammar : Grammar Query, (registry.grammars.insert grammar.name grammar).get? name =
      ((some grammar).filter fun grammar => grammar.name = name).or (registry.get? name) := by
    intro grammar
    rw [Table.get?_insert]
    by_cases hname : grammar.name = name
    · rw [if_pos hname.symm, Option.filter_some_pos (by simpa using hname), Option.some_or]
    · have hne : name ≠ grammar.name := fun heq => hname heq.symm
      rw [if_neg hne, Option.filter_some_neg (by simpa using hname), Option.none_or, get?]
  cases call with
  | register other query commentOnly =>
    cases query with
    | none => exact hinsert ⟨other, none, commentOnly⟩
    | some compiled =>
      cases compiled with
      | error cause => rfl
      | ok query => exact hinsert ⟨other, some query, commentOnly⟩
  | addExtension ext other => rfl

/-- The last call decides for the name of the grammar that it registers, and the calls before it for all
others. -/
lemma registeredLast_concat {calls : List (Call Query)} {call : Call Query} {grammar : Grammar Query} :
    RegisteredLast (calls ++ [call]) grammar ↔
      call.registers? = some grammar ∨
        (∀ other, call.registers? = some other → other.name ≠ grammar.name) ∧ RegisteredLast calls grammar := by
  constructor
  · rintro ⟨before, found, after, hcalls, hfound, hafter⟩
    rcases List.eq_nil_or_concat after with rfl | ⟨after, last, rfl⟩
    · left
      obtain ⟨-, hlast⟩ := List.append_inj' hcalls rfl
      rw [List.cons.inj hlast |>.1]
      exact hfound
    · right
      have hsplit : calls ++ [call] = (before ++ found :: after) ++ [last] := by
        rw [hcalls, List.concat_eq_append]
        simp
      obtain ⟨hcalls, hlast⟩ := List.append_inj' hsplit rfl
      rw [List.cons.inj hlast |>.1]
      refine ⟨hafter last (by simp), before, found, after, hcalls, hfound, ?_⟩
      intro later hmem
      exact hafter later (by simp [hmem])
  · rintro (hcall | ⟨hcall, before, found, after, rfl, hfound, hafter⟩)
    · exact ⟨calls, call, [], rfl, hcall, by simp⟩
    · refine ⟨before, found, after ++ [call], by simp, hfound, ?_⟩
      intro later hmem
      rcases List.mem_append.1 hmem with hmem | hmem
      · exact hafter later hmem
      · rw [List.mem_singleton.1 hmem]
        exact hcall

/-- All calls: a name stands for the grammar last registered under it, and where none was, for what it stood for
at the start. -/
lemma get?_serveAll {registry : Registry Query} {calls : List (Call Query)} {name : String} {grammar : Grammar Query} :
    (registry.serveAll calls).get? name = some grammar ↔
      RegisteredLast calls grammar ∧ grammar.name = name ∨
        (∀ other, RegisteredLast calls other → other.name ≠ name) ∧ registry.get? name = some grammar := by
  induction calls using List.reverseRecOn generalizing grammar with
  | nil =>
    have hnone : ∀ other : Grammar Query, ¬ RegisteredLast [] other := by
      rintro other ⟨before, call, after, hcalls, -⟩
      simp at hcalls
    simp [hnone, serveAll]
  | append_singleton calls call ih =>
    rw [serveAll_concat, get?_serve]
    cases hcall : call.registers? with
    | none => simp [registeredLast_concat, hcall, ih]
    | some registered =>
      by_cases hname : registered.name = name
      · -- The last call registers under the name, and nothing else counts.
        rw [Option.filter_some_pos (by simpa using hname), Option.some_or, Option.some.injEq]
        constructor
        · rintro rfl
          exact Or.inl ⟨registeredLast_concat.2 (Or.inl hcall), hname⟩
        · rintro (⟨hlast, hgrammar⟩ | ⟨hnone, -⟩)
          · rcases registeredLast_concat.1 hlast with hlast | ⟨hother, -⟩
            · exact Option.some.inj (hcall.symm.trans hlast)
            · exact absurd (hname.trans hgrammar.symm) (hother registered hcall)
          · exact absurd hname (hnone registered (registeredLast_concat.2 (Or.inl hcall)))
      · -- The last call registers under another name, so that the calls before it decide.
        have hsame : ∀ other : Grammar Query, other.name = name →
            (RegisteredLast (calls ++ [call]) other ↔ RegisteredLast calls other) := by
          intro other hother
          have hne : registered.name ≠ other.name := fun heq => hname (heq.trans hother)
          rw [registeredLast_concat, hcall, Option.some.injEq]
          constructor
          · rintro (rfl | ⟨-, hlast⟩)
            · exact absurd rfl hne
            · exact hlast
          · intro hlast
            refine Or.inr ⟨?_, hlast⟩
            rintro _ ⟨rfl⟩
            exact hne
        rw [Option.filter_some_neg (by simpa using hname), Option.none_or, ih]
        refine or_congr (and_congr_left fun hgrammar => (hsame grammar hgrammar).symm)
          (and_congr_left fun _ => forall_congr' fun other => ?_)
        constructor
        · intro hnone hlast hother
          exact hnone ((hsame other hother).1 hlast) hother
        · intro hnone hlast hother
          exact hnone ((hsame other hother).2 hlast) hother

/-! ## What a call leaves alone -/

/-- A query that did not compile is refused, and nothing changes. -/
lemma serve_register_error (registry : Registry Query) (name cause : String) (commentOnly : Bool) :
    registry.register name (some (.error cause)) commentOnly = .error (.badQuery name cause) ∧
      registry.serve (.register name (some (.error cause)) commentOnly) = registry :=
  ⟨rfl, rfl⟩

/-- Registering a grammar leaves the extensions as they are. -/
lemma detect?_serve_register (registry : Registry Query) (name : String) (query : Option (Compiled Query))
    (commentOnly : Bool) (path : String) :
    (registry.serve (.register name query commentOnly)).detect? path = registry.detect? path := by
  cases query with
  | none => rfl
  | some compiled =>
    cases compiled with
    | error cause => rfl
    | ok query => rfl

/-- The names are in strictly ascending order. -/
lemma names_pairwise_lt (registry : Registry Query) : registry.names.Pairwise (· < ·) := by
  refine registry.grammars.keys_ascending.imp ?_
  intro a b hlt
  exact compareOfLessAndEq_eq_lt.1 hlt

/-- After any calls on a registry, whatever it started from: a name stands for the grammar last registered under
it, and else for the one it stood for at the start, which has the user's query just if the language's own file
gives one. A registration with a query that did not compile changes nothing, registering does not change which
grammar a file is for, and extensions change neither grammars nor names. The names are in strictly ascending
order and are just those that stand for a grammar. -/
theorem get?_after_calls (queries : Queries Query) (base : Base) (calls : List (Call Query)) :
    let registry := (base.registry queries).serveAll calls
    (∀ name grammar, registry.get? name = some grammar ↔
      RegisteredLast calls grammar ∧ grammar.name = name ∨
        (∀ other, RegisteredLast calls other → other.name ≠ name) ∧
          base.Holds queries grammar ∧ grammar.name = name) ∧
    (∀ userFile language changed name, name ≠ language →
      (load queries (some (Function.update userFile language changed))).get? name
        = (load queries (some userFile)).get? name) ∧
    (∀ name cause commentOnly,
      registry.register name (some (.error cause)) commentOnly = .error (.badQuery name cause) ∧
        registry.serve (.register name (some (.error cause)) commentOnly) = registry) ∧
    (∀ name query commentOnly path,
      (registry.serve (.register name query commentOnly)).detect? path = registry.detect? path) ∧
    (∀ ext language, (∀ name, (registry.addExtension ext language).get? name = registry.get? name) ∧
      (registry.addExtension ext language).names = registry.names) ∧
    registry.names.Pairwise (· < ·) ∧
    ∀ name, name ∈ registry.names ↔ (registry.get? name).isSome = true := by
  intro registry
  refine ⟨?_, ?_, serve_register_error registry, detect?_serve_register registry, ?_,
    names_pairwise_lt registry, fun name => Table.mem_keys⟩
  · intro name grammar
    rw [get?_serveAll, get?_base_eq_some_iff]
  · intro userFile language changed name hname
    exact get?_load_congr queries (Function.update_of_ne hname changed userFile)
  · intro ext language
    exact ⟨fun name => rfl, rfl⟩

/-- A query file that compiles counts for its language, and one that does not leaves the bundled query, which may not
compile either. Here queries are their texts. -/
example :
    let queries : Queries Text :=
      { bundled := fun name => if name = "c" then .error "syntax" else .ok name.toList
        compile := fun _ text => if text = "broken".toList then .error "syntax" else .ok text }
    let userFile : String → File := fun name =>
      if name = "json" then .ofText "own" else if name = "python" then .ofText "broken" else .missing
    (["json", "python", "rust", "c"].map fun name =>
        ((load queries (some userFile)).get? name).bind (·.indents))
      = [some "own".toList, some "python".toList, some "rust".toList, none] := by
  decide +kernel

end Registry

end TreeIndent
