import TreeIndent.Config.Load
import Mathlib.Tactic.Common

/-!
# Configurations that are loaded

* A file loads just if its bytes are the UTF-8 form of a text, the whole text describes a configuration, and
  no setting of it that must not be zero is (`load_eq_ok_iff`).
* The search takes the first file that loads, and the default configuration where none does
  (`search_eq_iff`). Whether a file is missing or fails in another way makes no difference, and neither does it
  whether one file is looked at once or twice.
* So a configuration that is loaded or found has no zero among its settings, and no language has the width
  zero (`search_takes_first_loaded`).
-/

namespace TreeIndent

/-! ## Reading a file -/

/-- Bytes are read as a string just if they are its UTF-8 form. -/
lemma fromUTF8?_eq_some_iff {bytes : ByteArray} {text : String} :
    String.fromUTF8? bytes = some text ↔ bytes = text.toUTF8 := by
  unfold String.fromUTF8?
  constructor
  · intro h
    split at h
    · cases h
      rfl
    · cases h
  · rintro rfl
    rw [String.toUTF8_eq_toByteArray, dif_pos text.isValidUTF8]
    rfl

/-- A file is read as a text just if it holds the UTF-8 form of the text. -/
lemma File.read_eq_ok_iff {file : File} {text : Text} :
    file.read = .ok text ↔ file = .ofText (String.ofList text) := by
  cases file with
  | content bytes =>
    rw [File.ofText, File.content.injEq, ← fromUTF8?_eq_some_iff, File.read]
    cases String.fromUTF8? bytes with
    | none => simp
    | some string => simp [← String.toList_inj]
  | missing | directory | beyondFile | tooLong | nulInPath => simp [File.read, File.ofText]

namespace Config

/-! ## Accepted configurations -/

/-- No setting that must not be zero is zero. -/
structure Valid (config : Config) : Prop where
  shiftWidth : config.shiftWidth ≠ 0
  tabSize : config.tabSize ≠ 0
  cacheSize : config.cacheSize ≠ 0
  languages : ∀ {language : String} {settings : LanguageConfig},
    config.languages.get? language = some settings → settings.shiftWidth ≠ some 0

/-- No fault is found just in the valid configurations. -/
lemma fault?_eq_none_iff {config : Config} : config.fault? = none ↔ config.Valid := by
  have hlanguages : (config.languages.entries.find? fun entry => entry.2.shiftWidth == some 0) = none ↔
      ∀ {language : String} {settings : LanguageConfig},
        config.languages.get? language = some settings → settings.shiftWidth ≠ some 0 := by
    rw [List.find?_eq_none]
    constructor
    · intro hnone language settings hget
      have hentry := hnone (language, settings) (Table.get?_eq_some_iff.1 hget)
      simpa using hentry
    · rintro hvalid ⟨language, settings⟩ hentry
      simpa using hvalid (Table.get?_eq_some_iff.2 hentry)
  constructor
  · intro hfault
    unfold fault? at hfault
    split at hfault
    · cases hfault
    · split at hfault
      · cases hfault
      · split at hfault
        · cases hfault
        · exact ⟨‹_›, ‹_›, ‹_›, hlanguages.1 (Option.map_eq_none_iff.1 hfault)⟩
  · intro hvalid
    unfold fault?
    rw [if_neg hvalid.shiftWidth, if_neg hvalid.tabSize, if_neg hvalid.cacheSize,
      hlanguages.2 hvalid.languages, Option.map_none]

/-- The width in effect for a language is that of the language or the general one, and neither is zero. -/
lemma Valid.shiftWidthFor_ne_zero {config : Config} (h : config.Valid) (language : String) :
    config.shiftWidthFor language ≠ 0 := by
  unfold shiftWidthFor
  cases hget : config.languages.get? language with
  | none => exact h.shiftWidth
  | some settings =>
    have hsettings := h.languages hget
    rw [Option.bind_some]
    cases hwidth : settings.shiftWidth with
    | none => exact h.shiftWidth
    | some width =>
      rintro rfl
      exact hsettings hwidth

lemma valid_default : ({} : Config).Valid :=
  fault?_eq_none_iff.1 (by decide)

/-! ## One file -/

/-- A file loads just if it is the UTF-8 form of a text that describes a valid configuration. -/
lemma load_eq_ok_iff {file : File} {config : Config} :
    load file = .ok config ↔
      ∃ text, file = .ofText (String.ofList text) ∧ ofText? text = some config ∧ config.Valid := by
  constructor
  · intro h
    unfold load at h
    split at h
    · cases h
    · next text hread =>
      split at h
      · cases h
      · next found htext =>
        split at h
        · cases h
        · next hfault =>
          cases h
          exact ⟨text, File.read_eq_ok_iff.1 hread, htext, fault?_eq_none_iff.1 hfault⟩
  · rintro ⟨text, hfile, htext, hvalid⟩
    unfold load
    rw [File.read_eq_ok_iff.2 hfile]
    simp only [htext, fault?_eq_none_iff.2 hvalid]

lemma valid_of_load {file : File} {config : Config} (h : load file = .ok config) : config.Valid := by
  obtain ⟨text, -, -, hvalid⟩ := load_eq_ok_iff.1 h
  exact hvalid

/-! ## Two files -/

/-- The configuration that two files give: that of the first of them that loads, and the default one where
neither does. -/
inductive FromFirst (ownFile userFile : File) : Config → Prop where
  | own {config : Config} (loaded : load ownFile = .ok config) : FromFirst ownFile userFile config
  | user {config : Config} {cause : LoadError} (failed : load ownFile = .error cause)
    (loaded : load userFile = .ok config) : FromFirst ownFile userFile config
  | default {cause other : LoadError} (failed : load ownFile = .error cause)
    (failedToo : load userFile = .error other) : FromFirst ownFile userFile {}

lemma exists_fromFirst (ownFile userFile : File) : ∃ config, FromFirst ownFile userFile config := by
  cases hown : load ownFile with
  | ok config => exact ⟨config, .own hown⟩
  | error cause =>
    cases huser : load userFile with
    | ok config => exact ⟨config, .user hown huser⟩
    | error other => exact ⟨{}, .default hown huser⟩

/-- What does not stand at its path does not load. -/
lemma isPresent_of_load {file : File} {config : Config} (h : load file = .ok config) : file.isPresent = true := by
  obtain ⟨text, rfl, -, -⟩ := load_eq_ok_iff.1 h
  rfl

/-! ## The paths of the two files -/

/-- What two paths lead to is one file, if they are one path in two spellings and something stands at both. -/
def OneFile (fileAt : String → File) (path other : String) : Prop :=
  Path.isSame other path = true → (fileAt path).isPresent = true → (fileAt other).isPresent = true →
    fileAt other = fileAt path

/-- The first path is looked at if something stands at it, and so is the second one unless it is the first again. -/
lemma searchPaths_eq (fileAt : String → File) (directory userDirectory : String) :
    let own := Path.join directory fileName
    let user := Path.join userDirectory fileName
    searchPaths fileAt directory userDirectory =
      (if (fileAt own).isPresent then [own] else []) ++
        if (fileAt user).isPresent && !((fileAt own).isPresent && Path.isSame user own) then [user] else [] := by
  intro own user
  unfold searchPaths
  cases hown : (fileAt own).isPresent <;> cases huser : (fileAt user).isPresent <;>
    cases hsame : Path.isSame user own <;> simp [own, user, hown, huser, hsame]

/-- A path at which nothing stands can as well be looked at: there is nothing to load. -/
lemma findSome?_load_append (fileAt : String → File) (path : String) (others : List String) :
    ((if (fileAt path).isPresent then [path] else []) ++ others).findSome? (fun path => (load (fileAt path)).toOption)
      = (load (fileAt path)).toOption.or (others.findSome? fun path => (load (fileAt path)).toOption) := by
  split
  · rw [List.singleton_append, List.findSome?_cons]
    cases (load (fileAt path)).toOption <;> rfl
  · next habsent =>
    cases hload : load (fileAt path) with
    | error cause => rfl
    | ok config => exact absurd (isPresent_of_load hload) habsent

section Search

variable {fileAt : String → File} {directory userDirectory : String}
  (hfile : OneFile fileAt (Path.join directory fileName) (Path.join userDirectory fileName))

include hfile

/-- It makes no difference whether one file is looked at once or twice. -/
lemma search_eq_or :
    search fileAt directory userDirectory =
      ((load (fileAt (Path.join directory fileName))).toOption.or
        (load (fileAt (Path.join userDirectory fileName))).toOption).getD {} := by
  unfold search
  rw [searchPaths_eq, findSome?_load_append]
  generalize Path.join directory fileName = own at hfile ⊢
  generalize Path.join userDirectory fileName = user at hfile ⊢
  congr 1
  by_cases hskipped : ((fileAt own).isPresent && Path.isSame user own) = true
  · -- The second path is the first one again, and its file has been tried.
    obtain ⟨hown, hsame⟩ := Bool.and_eq_true_iff.1 hskipped
    rw [hskipped, Bool.not_true, Bool.and_false, if_neg Bool.false_ne_true, List.findSome?_nil, Option.or_none]
    cases huser : load (fileAt user) with
    | error cause => exact (Option.or_none ..).symm
    | ok config =>
      rw [← hfile hsame hown (isPresent_of_load huser), huser]
      rfl
  · have hlast := findSome?_load_append fileAt user []
    rw [List.append_nil, List.findSome?_nil, Option.or_none] at hlast
    rw [Bool.eq_false_iff.2 hskipped, Bool.not_false, Bool.and_true, hlast]

lemma search_of_fromFirst {config : Config}
    (h : FromFirst (fileAt (Path.join directory fileName)) (fileAt (Path.join userDirectory fileName)) config) :
    search fileAt directory userDirectory = config := by
  rw [search_eq_or hfile]
  cases h with
  | own loaded =>
    rw [loaded]
    rfl
  | user failed loaded =>
    rw [failed, loaded]
    rfl
  | default failed failedToo =>
    rw [failed, failedToo]
    rfl

/-- The search finds what the two files give. -/
lemma search_eq_iff {config : Config} :
    search fileAt directory userDirectory = config ↔
      FromFirst (fileAt (Path.join directory fileName)) (fileAt (Path.join userDirectory fileName)) config := by
  refine ⟨?_, search_of_fromFirst hfile⟩
  rintro rfl
  obtain ⟨config, h⟩ :=
    exists_fromFirst (fileAt (Path.join directory fileName)) (fileAt (Path.join userDirectory fileName))
  rwa [search_of_fromFirst hfile h]

end Search

/-- A configuration that was loaded from a file or found by a search. -/
def Loaded (config : Config) : Prop :=
  (∃ file, load file = .ok config) ∨
    ∃ fileAt directory userDirectory, search fileAt directory userDirectory = config

lemma valid_of_loaded {config : Config} (h : config.Loaded) : config.Valid := by
  rcases h with ⟨file, hload⟩ | ⟨fileAt, directory, userDirectory, rfl⟩
  · exact valid_of_load hload
  · unfold search
    cases hfound : (searchPaths fileAt directory userDirectory).findSome? fun path =>
        (load (fileAt path)).toOption with
    | none => exact valid_default
    | some config =>
      obtain ⟨path, -, hpath⟩ := List.exists_of_findSome?_eq_some hfound
      cases hload : load (fileAt path) with
      | error cause =>
        rw [hload] at hpath
        cases hpath
      | ok loaded =>
        rw [hload] at hpath
        cases hpath
        exact valid_of_load hload

/-- The search gives the configuration of the first file that loads and the default one where none does, whether the
two files are two or, in one directory, one. A file loads just if its bytes are the UTF-8 form of a text that
describes a valid configuration. So nothing that is loaded or found has a zero among its settings, or a language
without a width. -/
theorem search_takes_first_loaded (fileAt : String → File) (directory userDirectory : String) :
    let own := Path.join directory fileName
    let user := Path.join userDirectory fileName
    (OneFile fileAt own user → ∀ config,
      search fileAt directory userDirectory = config ↔ FromFirst (fileAt own) (fileAt user) config) ∧
    (∀ config, search fileAt directory directory = config ↔ FromFirst (fileAt own) (fileAt own) config) ∧
    (∀ file config, load file = .ok config ↔
      ∃ text, file = .ofText (String.ofList text) ∧ ofText? text = some config ∧ config.Valid) ∧
    (∀ config : Config, config.Loaded →
      config.shiftWidth ≠ 0 ∧ config.tabSize ≠ 0 ∧ config.cacheSize ≠ 0 ∧
        ∀ language, config.shiftWidthFor language ≠ 0) := by
  intro own user
  refine ⟨fun hfile config => search_eq_iff hfile, ?_, fun file config => load_eq_ok_iff, ?_⟩
  · intro config
    exact search_eq_iff fun _ _ _ => rfl
  · intro config hloaded
    have hvalid := valid_of_loaded hloaded
    exact ⟨hvalid.shiftWidth, hvalid.tabSize, hvalid.cacheSize, hvalid.shiftWidthFor_ne_zero⟩

/-! ### A directory in two spellings

The user's directory is spelled in another way than the directory itself, and its file is broken. -/

/-- One broken file, and a good one in another directory. -/
def brokenAndGood (path : String) : File :=
  if Path.isSame path "home/indent.json" then .ofText "\x7b broken"
  else if path = "user/indent.json" then .ofText "\x7b \"tab_size\": 8 \x7d"
  else .missing

/-- The broken file is passed over, also where there is no other. -/
theorem brokenAndGood_search :
    (search brokenAndGood "home" "user").tabSize = 8 ∧
      searchPaths brokenAndGood "home" "home/./" = ["home/indent.json"] ∧
      FromFirst (brokenAndGood "home/indent.json") (brokenAndGood "home/./indent.json")
        (search brokenAndGood "home" "home/./") := by
  have hfile : OneFile brokenAndGood "home/indent.json" "home/./indent.json" := by
    intro _ _ _
    have hsame : Path.isSame "home/./indent.json" "home/indent.json" = true := by decide +kernel
    have hself : Path.isSame "home/indent.json" "home/indent.json" = true := by decide +kernel
    rw [brokenAndGood, brokenAndGood, if_pos hsame, if_pos hself]
  refine ⟨by decide +kernel, by decide +kernel, ?_⟩
  exact ((search_takes_first_loaded brokenAndGood "home" "home/./").1 hfile _).1 rfl

end Config

end TreeIndent
