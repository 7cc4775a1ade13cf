import TreeIndent.Table

/-!
# Configuration

The widths that indenting works with, and what each language may change about them. A configuration is valid
if no width in it and no capacity is zero.
-/

namespace TreeIndent

/-- The settings of one language. -/
structure LanguageConfig where
  /-- The width of a level in this language; the general one if there is none. -/
  shiftWidth : Option UInt64 := none
  /-- Whether lines in this language are indented by their trees at all. -/
  enabled : Bool := true
deriving DecidableEq, Repr

/-- The settings of the program. Numbers are words of 64 bits. -/
structure Config where
  /-- The width of one level in columns. -/
  shiftWidth : UInt64 := 4
  /-- The distance of tab stops, for measuring indentation that is there. -/
  tabSize : UInt64 := 4
  /-- How many markings are kept. -/
  cacheSize : UInt64 := 64
  languages : Table String LanguageConfig := .empty

namespace Config

/-- The width of a level in a language. -/
def shiftWidthFor (config : Config) (language : String) : UInt64 :=
  ((config.languages.get? language).bind (·.shiftWidth)).getD config.shiftWidth

/-- Whether a language is indented by its trees. -/
def isEnabled (config : Config) (language : String) : Bool :=
  ((config.languages.get? language).map (·.enabled)).getD true

/-! ## Validity -/

/-- A setting that must not be zero and is. -/
inductive Fault where
  | shiftWidth
  | tabSize
  | cacheSize
  | languageShiftWidth (language : String)
deriving DecidableEq, Repr

/-- The wording of a fault. -/
def Fault.message : Fault → String
  | .shiftWidth => "shift_width must be greater than 0"
  | .tabSize => "tab_size must be greater than 0"
  | .cacheSize => "capture_cache_size must be greater than 0"
  | .languageShiftWidth language => s!"languages.{language}.shift_width must be greater than 0"

/-- The first fault of a configuration: the general settings come first, then the languages in order. -/
def fault? (config : Config) : Option Fault :=
  if config.shiftWidth = 0 then some .shiftWidth
  else if config.tabSize = 0 then some .tabSize
  else if config.cacheSize = 0 then some .cacheSize
  else
    (config.languages.entries.find? fun entry => entry.2.shiftWidth == some 0).map fun entry =>
      .languageShiftWidth entry.1

end Config

end TreeIndent
