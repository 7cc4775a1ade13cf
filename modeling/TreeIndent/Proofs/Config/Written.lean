import TreeIndent.Proofs.Config.Search
import TreeIndent.Proofs.Json.Records

/-!
# Configurations as they are written

Every valid configuration can be written down, and whatever is written for it is loaded as it
(`load_written_config`).

* `Config.Written`: the objects that are written for a configuration. The members of each object stand in any order,
  a setting that has its default value may be left out, and other members may stand among the settings, of the
  program as well as of a language.
* `Config.toJson`: the one with all settings in order and nothing else.
-/

namespace TreeIndent

open Json

/-! ## Tables from lists -/

namespace Table

variable {κ α : Type} [Ord κ] [Std.TransOrd κ] [Std.LawfulEqOrd κ] [DecidableEq κ]

lemma get?_foldl_insert_of_not_mem {entries : List (κ × α)} {key : κ} (h : key ∉ entries.map Prod.fst)
    (table : Table κ α) :
    (entries.foldl (fun table entry => table.insert entry.1 entry.2) table).get? key = table.get? key := by
  induction entries generalizing table with
  | nil => rfl
  | cons entry entries ih =>
    rw [List.map_cons, List.mem_cons, not_or] at h
    rw [List.foldl_cons, ih h.2, get?_insert, if_neg h.1]

lemma get?_foldl_insert_of_mem {entries : List (κ × α)} (hnodup : (entries.map Prod.fst).Nodup) {key : κ}
    {value : α} (h : (key, value) ∈ entries) (table : Table κ α) :
    (entries.foldl (fun table entry => table.insert entry.1 entry.2) table).get? key = some value := by
  induction entries generalizing table with
  | nil => cases h
  | cons entry entries ih =>
    rw [List.map_cons, List.nodup_cons] at hnodup
    rw [List.foldl_cons]
    rcases List.mem_cons.1 h with rfl | h
    · rw [get?_foldl_insert_of_not_mem hnodup.1, get?_insert, if_pos rfl]
    · exact ih hnodup.2 h _

/-- The entries of a table give the table in any order. -/
lemma ofList_of_perm {table : Table κ α} {listed : List (κ × α)} (h : listed.Perm table.entries) :
    ofList listed = table := by
  have hkeys : (listed.map Prod.fst).Perm table.keys := h.map Prod.fst
  apply ext_get?
  intro key
  unfold ofList
  cases hget : table.get? key with
  | some value =>
    have hmem : (key, value) ∈ listed := h.mem_iff.2 (get?_eq_some_iff.1 hget)
    exact get?_foldl_insert_of_mem (hkeys.nodup_iff.2 table.nodup_keys) hmem empty
  | none =>
    have hmem : key ∉ listed.map Prod.fst := by
      rw [hkeys.mem_iff, mem_keys, hget]
      exact Bool.false_ne_true
    rw [get?_foldl_insert_of_not_mem hmem, get?_empty]

end Table

/-! ## The settings of a language -/

namespace LanguageConfig

/-- The width of a level in a language, or null. -/
def writeWidth : Option UInt64 → Json
  | none => .null
  | some width => ofWord width

/-- The settings of a language as fields. -/
def fields (settings : LanguageConfig) : List Field :=
  [.of "shift_width" (Exactly writeWidth) ({} : LanguageConfig).shiftWidth settings.shiftWidth,
    .of "enabled" (Exactly Json.bool) ({} : LanguageConfig).enabled settings.enabled]

/-- The settings of a language, all of them in order. -/
def toJson (settings : LanguageConfig) : Json :=
  .object (escapeNames [("shift_width", writeWidth settings.shiftWidth), ("enabled", .bool settings.enabled)])

lemma orNull_writeWidth (width : Option UInt64) : orNull word? (writeWidth width) = some width := by
  cases width with
  | none => rfl
  | some width =>
    show (word? (ofWord width)).map some = some (some width)
    rw [word?_ofWord, Option.map_some]

lemma wellFormed_writeWidth (width : Option UInt64) : WellFormed (writeWidth width) := by
  cases width with
  | none => exact .null
  | some width => exact wellFormed_ofWord width

/-- The objects that are written for the settings of a language. -/
def Written (settings : LanguageConfig) : Json → Prop :=
  RecordWritten settings.fields

lemma written_toJson (settings : LanguageConfig) : settings.Written settings.toJson :=
  recordWritten_escapeNames (.present rfl (.present rfl .nil))

lemma Written.wellFormed {settings : LanguageConfig} {json : Json} (h : settings.Written json) :
    WellFormed json := by
  refine RecordWritten.wellFormed h ?_
  simp only [fields, List.forall_mem_cons]
  exact ⟨forall_exactly (wellFormed_writeWidth settings.shiftWidth), forall_exactly (.bool settings.enabled),
    fun field hfield => absurd hfield List.not_mem_nil⟩

/-- What is written for the settings of a language is read as them. -/
lemma ofJson?_of_written {settings : LanguageConfig} {json : Json} (h : settings.Written json) :
    ofJson? json = some settings := by
  have hnodup : (settings.fields.map Field.name).Nodup := by
    show ["shift_width", "enabled"].Nodup
    decide
  obtain ⟨values, hvalues, hallows⟩ := fields?_of_written h hnodup
  simp only [fields, List.forall₂_cons_left_iff, List.forall₂_nil_left_iff] at hallows
  obtain ⟨width, -, hwidth, ⟨enabled, -, henabled, rfl, rfl⟩, rfl⟩ := hallows
  have hfields : fields? ["shift_width", "enabled"] json = some [width, enabled] := hvalues
  have hreadWidth : fieldOr none (orNull word?) width = some settings.shiftWidth :=
    fieldOr_of_allows (forall_exactly (orNull_writeWidth settings.shiftWidth)) hwidth
  have hreadEnabled : fieldOr true bool? enabled = some settings.enabled :=
    fieldOr_of_allows (forall_exactly rfl) henabled
  unfold ofJson?
  rw [hfields]
  show ((fieldOr none (orNull word?) width).bind fun width =>
    (fieldOr true bool? enabled).bind fun enabled => some ⟨width, enabled⟩) = some settings
  rw [hreadWidth, hreadEnabled]
  rfl

end LanguageConfig

/-! ## The settings of the program -/

namespace Config

/-- The objects that are written for the settings of all languages, which stand in any order. -/
inductive LanguagesWritten (languages : Table String LanguageConfig) : Json → Prop where
  | object {listed : List (String × LanguageConfig)} {named : List (String × Json)} {members : List (Text × Json)}
      (hlisted : listed.Perm languages.entries)
      (hnamed : List.Forall₂ (fun entry language => entry.1 = language.1 ∧ language.2.Written entry.2) named listed)
      (hspelled : Spelled members named) : LanguagesWritten languages (.object members)

/-- The settings of all languages in order. -/
def languagesToJson (languages : Table String LanguageConfig) : Json :=
  .object (escapeNames (languages.entries.map fun language => (language.1, language.2.toJson)))

/-- The settings of the program as fields. -/
def fields (config : Config) : List Field :=
  [.of "shift_width" (Exactly ofWord) ({} : Config).shiftWidth config.shiftWidth,
    .of "tab_size" (Exactly ofWord) ({} : Config).tabSize config.tabSize,
    .of "capture_cache_size" (Exactly ofWord) ({} : Config).cacheSize config.cacheSize,
    .of "languages" LanguagesWritten ({} : Config).languages config.languages]

/-- The objects that are written for a configuration. -/
def Written (config : Config) : Json → Prop :=
  RecordWritten config.fields

/-- A configuration with all its settings in order. -/
def toJson (config : Config) : Json :=
  .object (escapeNames
    [("shift_width", ofWord config.shiftWidth), ("tab_size", ofWord config.tabSize),
      ("capture_cache_size", ofWord config.cacheSize), ("languages", languagesToJson config.languages)])

lemma languagesWritten_toJson (languages : Table String LanguageConfig) :
    LanguagesWritten languages (languagesToJson languages) := by
  refine .object (.refl languages.entries) ?_ (spelled_escapeNames _)
  rw [List.forall₂_map_left_iff, List.forall₂_same]
  exact fun language _ => ⟨rfl, language.2.written_toJson⟩

lemma written_toJson (config : Config) : config.Written config.toJson :=
  recordWritten_escapeNames (.present rfl (.present rfl (.present rfl
    (.present (languagesWritten_toJson config.languages) .nil))))

lemma LanguagesWritten.wellFormed {languages : Table String LanguageConfig} {json : Json}
    (h : LanguagesWritten languages json) : WellFormed json := by
  cases h with
  | @object listed named members hlisted hnamed hspelled =>
    refine hspelled.wellFormed ?_
    clear hlisted hspelled
    induction hnamed with
    | nil => exact fun entry hentry => absurd hentry List.not_mem_nil
    | cons hhead _ ih =>
      rw [List.forall_mem_cons]
      exact ⟨hhead.2.wellFormed, ih⟩

lemma Written.wellFormed {config : Config} {json : Json} (h : config.Written json) : WellFormed json := by
  refine RecordWritten.wellFormed h ?_
  simp only [fields, List.forall_mem_cons]
  exact ⟨forall_exactly (wellFormed_ofWord config.shiftWidth), forall_exactly (wellFormed_ofWord config.tabSize),
    forall_exactly (wellFormed_ofWord config.cacheSize), fun json hjson => LanguagesWritten.wellFormed hjson,
    fun field hfield => absurd hfield List.not_mem_nil⟩

lemma languagesOfJson?_of_written {languages : Table String LanguageConfig} {json : Json}
    (h : LanguagesWritten languages json) : languagesOfJson? json = some languages := by
  cases h with
  | @object listed named members hlisted hnamed hspelled =>
    have hread : (named.mapM fun member =>
        (LanguageConfig.ofJson? member.2).map fun settings => (member.1, settings)) = some listed := by
      apply mapM_of_forall₂
      refine hnamed.imp ?_
      rintro ⟨name, json⟩ ⟨language, settings⟩ ⟨rfl, hsettings⟩
      rw [LanguageConfig.ofJson?_of_written hsettings, Option.map_some]
    unfold languagesOfJson?
    rw [members?_of_spelled hspelled]
    show ((named.mapM fun member =>
      (LanguageConfig.ofJson? member.2).map fun settings => (member.1, settings)).bind fun languages =>
        some (Table.ofList languages)) = some languages
    rw [hread, Option.bind_some, Table.ofList_of_perm hlisted]

/-- What is written for a configuration is read as it. -/
lemma ofJson?_of_written {config : Config} {json : Json} (h : config.Written json) :
    ofJson? json = some config := by
  have hnodup : (config.fields.map Field.name).Nodup := by
    show ["shift_width", "tab_size", "capture_cache_size", "languages"].Nodup
    decide
  obtain ⟨values, hvalues, hallows⟩ := fields?_of_written h hnodup
  simp only [fields, List.forall₂_cons_left_iff, List.forall₂_nil_left_iff] at hallows
  obtain ⟨shiftWidth, -, hshiftWidth, ⟨tabSize, -, htabSize, ⟨cacheSize, -, hcacheSize,
    ⟨languages, -, hlanguages, rfl, rfl⟩, rfl⟩, rfl⟩, rfl⟩ := hallows
  have hfields : fields? ["shift_width", "tab_size", "capture_cache_size", "languages"] json =
      some [shiftWidth, tabSize, cacheSize, languages] := hvalues
  have hreadShiftWidth : fieldOr 4 word? shiftWidth = some config.shiftWidth :=
    fieldOr_of_allows (forall_exactly (word?_ofWord _)) hshiftWidth
  have hreadTabSize : fieldOr 4 word? tabSize = some config.tabSize :=
    fieldOr_of_allows (forall_exactly (word?_ofWord _)) htabSize
  have hreadCacheSize : fieldOr 64 word? cacheSize = some config.cacheSize :=
    fieldOr_of_allows (forall_exactly (word?_ofWord _)) hcacheSize
  have hreadLanguages : fieldOr .empty languagesOfJson? languages = some config.languages :=
    fieldOr_of_allows (fun json hjson => languagesOfJson?_of_written hjson) hlanguages
  unfold ofJson?
  rw [hfields]
  show ((fieldOr 4 word? shiftWidth).bind fun shiftWidth => (fieldOr 4 word? tabSize).bind fun tabSize =>
    (fieldOr 64 word? cacheSize).bind fun cacheSize => (fieldOr .empty languagesOfJson? languages).bind
      fun languages => some ⟨shiftWidth, tabSize, cacheSize, languages⟩) = some config
  rw [hreadShiftWidth, hreadTabSize, hreadCacheSize, hreadLanguages]
  rfl

/-- A text in which the tokens of what is written for a valid configuration stand in order is loaded as the
configuration, whatever blanks stand between them. -/
lemma load_of_written {config : Config} (hvalid : config.fault? = none) {json : Json} (hjson : config.Written json)
    {text : Text} (htext : LaidOut json.tokens text) :
    load (.ofText (String.ofList text)) = .ok config := by
  have hread : ofText? text = some config := by
    unfold ofText?
    rw [read?_of_laidOut hjson.wellFormed htext, Option.bind_some, ofJson?_of_written hjson]
  exact load_eq_ok_iff.2 ⟨text, rfl, hread, fault?_eq_none_iff.1 hvalid⟩

/-- A valid configuration is loaded from the text of all its settings. It is loaded just as well from every text
in which the members of objects are in another order or spelled in another way, settings that have their default
values are left out, other members with any well-formed values are put in beside the settings of the program or
of a language, and blanks stand between the tokens. -/
theorem load_written_config (config : Config) (hvalid : config.fault? = none) :
    load (.ofText (String.ofList config.toJson.compact)) = .ok config ∧
    ∀ json text, config.Written json → LaidOut json.tokens text →
      load (.ofText (String.ofList text)) = .ok config := by
  refine ⟨load_of_written hvalid config.written_toJson (laidOut_compact _), ?_⟩
  intro json text hjson htext
  exact load_of_written hvalid hjson htext

/-! ## A configuration written in an odd way -/

/-- A configuration with the largest width, and with a language whose name is not among the first 65536
characters. -/
def emojiConfig : Config where
  shiftWidth := 18446744073709551615
  languages := ⟨[("😀", { shiftWidth := some 8 })], List.pairwise_singleton ..⟩

/-- A value to be passed over: half of a surrogate pair stands in it, and a number that is not whole. -/
def emojiNote : Json :=
  .array [.null, .number "-0.5E+7".toList, .string "\\ud800".toList]

/-- The language with a member that languages do not have. That it is enabled is left out. -/
def emojiSettings : Json :=
  .object [("shift_width".toList, .number "8".toList), ("tab_size".toList, .number "0".toList)]

/-- The configuration with its width last and the name of its language by a surrogate pair. -/
def emojiJson : Json :=
  .object
    [("note".toList, emojiNote), ("languages".toList, .object [("\\ud83d\\ude00".toList, emojiSettings)]),
      ("shift_width".toList, .number "18446744073709551615".toList)]

/-- A line feed before each comma and a blank before any other token. -/
def emojiBlanks : Token → Text
  | .comma => ['\n']
  | _ => [' ']

/-- The text of the configuration with these blanks. -/
def emojiText : String :=
  " \x7b \"note\" : [ null
, -0.5E+7
, \"\\ud800\" ]
, \"languages\" : \x7b \"\\ud83d\\ude00\" : \x7b \"shift_width\" : 8
, \"tab_size\" : 0 \x7d \x7d
, \"shift_width\" : 18446744073709551615 \x7d"

lemma ofList_spread_emojiJson : String.ofList (emojiJson.spread emojiBlanks) = emojiText := by
  simp only [emojiText, emojiJson, emojiNote, emojiSettings, emojiBlanks, spread, tokens, tokensOfElements,
    tokensOfMembers, Token.text, String.reduceToList, List.flatMap_cons, List.flatMap_nil, List.cons_append,
    List.nil_append]

lemma isBlank_emojiBlanks (token : Token) : ∀ c ∈ emojiBlanks token, isBlank c = true := by
  unfold emojiBlanks
  split
  · exact List.all_eq_true.1 rfl
  · exact List.all_eq_true.1 rfl

lemma wellFormed_emojiNote : WellFormed emojiNote := by
  have hnumber : NumberLiteral (['-'] ++ (['0'] ++ (['.', '5'] ++ ['E', '+', '7']))) :=
    .parts (by decide) .zero (.digits ⟨by decide, List.all_eq_true.1 rfl⟩)
      (.digits (by decide) (List.mem_cons_of_mem _ (List.mem_cons_self ..)) ⟨by decide, List.all_eq_true.1 rfl⟩)
  have hhalf : HexUnit ['d', '8', '0', '0'] (((13 * 16 + 8) * 16 + 0) * 16 + 0) :=
    .digits (Or.inl rfl) (Or.inl rfl) (Or.inl rfl) (Or.inl rfl)
  have hstring : StringLiteral ('\\' :: 'u' :: ['d', '8', '0', '0'] ++ []) := .unit hhalf .nil
  refine .array ?_
  simp only [List.forall_mem_cons]
  exact ⟨.null, .number hnumber, .string hstring, fun element helement => absurd helement List.not_mem_nil⟩

lemma spelling_of_escape_eq {t : Text} (h : escape t = t) : Spelling t t := by
  have hspelling := spelling_escape t
  rwa [h] at hspelling

lemma spelling_emoji : Spelling "\\ud83d\\ude00".toList "😀".toList := by
  have hhigh : HexUnit ['d', '8', '3', 'd'] (((13 * 16 + 8) * 16 + 3) * 16 + 13) :=
    .digits (Or.inl rfl) (Or.inl rfl) (Or.inl rfl) (Or.inl rfl)
  have hlow : HexUnit ['d', 'e', '0', '0'] (((13 * 16 + 14) * 16 + 0) * 16 + 0) :=
    .digits (Or.inl rfl) (Or.inl rfl) (Or.inl rfl) (Or.inl rfl)
  have hpair : CharSpelling ('\\' :: 'u' :: ['d', '8', '3', 'd'] ++ '\\' :: 'u' :: ['d', 'e', '0', '0']) '😀' :=
    .pair (by decide) hhigh hlow
  exact .cons hpair .nil

lemma written_emojiSettings : ({ shiftWidth := some 8 } : LanguageConfig).Written emojiSettings := by
  have hothers : ∀ other ∈ [("tab_size", Json.number "0".toList)],
      other.1 ∉ ["shift_width", "enabled"] ∧ WellFormed other.2 :=
    List.forall_mem_singleton.2 ⟨by decide, .number (numberLiteral_decimal 0)⟩
  refine .object (.present rfl (.missing rfl .nil)) hothers (.refl _) ?_
  exact .cons ⟨spelling_of_escape_eq (by decide), rfl⟩ (.cons ⟨spelling_of_escape_eq (by decide), rfl⟩ .nil)

lemma written_emojiJson : emojiConfig.Written emojiJson := by
  have hothers : ∀ other ∈ [("note", emojiNote)],
      other.1 ∉ ["shift_width", "tab_size", "capture_cache_size", "languages"] ∧ WellFormed other.2 :=
    List.forall_mem_singleton.2 ⟨by decide, wellFormed_emojiNote⟩
  have hspelled : Spelled [("\\ud83d\\ude00".toList, emojiSettings)] [("😀", emojiSettings)] :=
    .cons ⟨spelling_emoji, rfl⟩ .nil
  have hlanguages : LanguagesWritten emojiConfig.languages
      (.object [("\\ud83d\\ude00".toList, emojiSettings)]) :=
    .object (.refl _) (.cons ⟨rfl, written_emojiSettings⟩ .nil) hspelled
  refine .object (.present rfl (.missing rfl (.missing rfl (.present hlanguages .nil)))) hothers
    (List.reverse_perm _) ?_
  exact .cons ⟨spelling_of_escape_eq (by decide), rfl⟩ (.cons ⟨spelling_of_escape_eq (by decide), rfl⟩
    (.cons ⟨spelling_of_escape_eq (by decide), rfl⟩ .nil))

/-- The configuration is loaded from its text, which differs from the plain one in each of these ways. -/
theorem emojiConfig_load_written :
    emojiConfig.fault? = none ∧ emojiConfig.Written emojiJson ∧
    LaidOut emojiJson.tokens (emojiJson.spread emojiBlanks) ∧ load (.ofText emojiText) = .ok emojiConfig := by
  have hvalid : emojiConfig.fault? = none := by decide
  have htext : LaidOut emojiJson.tokens (emojiJson.spread emojiBlanks) := laidOut_spread isBlank_emojiBlanks emojiJson
  have hload := (load_written_config emojiConfig hvalid).2 emojiJson _ written_emojiJson htext
  rw [ofList_spread_emojiJson] at hload
  exact ⟨hvalid, written_emojiJson, htext, hload⟩

end Config

end TreeIndent
