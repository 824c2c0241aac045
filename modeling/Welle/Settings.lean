import Welle.Path

set_option autoImplicit false

/-! # Settings of an editor

An editor hands over its settings as loosely typed options. A setting that is missing has its
default; one of the wrong type makes all of them count as missing. -/

namespace Welle

/-- The options of an editor. No setting is a number, so the value of a number is not kept. -/
inductive Options where
  | null
  | bool (value : Bool)
  | number
  | text (value : String)
  | list (items : List Options)
  | record (fields : List (String × Options))

/-- What completion offers besides names. -/
structure CompletionSettings where
  keywords : Bool := true
  stdModules : Bool := true
deriving DecidableEq, Repr

/-- The settings of a workspace. -/
structure Settings where
  stdRoot : Option Path := none
  modulePaths : List Path := []
  logLevel : String := "info"
  completion : CompletionSettings := {}
deriving DecidableEq, Repr

namespace Settings

/-! ## Values -/

/-- A truth value. -/
def bool? : Options → Option Bool
  | .bool value => some value
  | _ => none

/-- A text. -/
def text? : Options → Option String
  | .text value => some value
  | _ => none

/-- A path, or none for null. -/
def optionalPath? : Options → Option (Option Path)
  | .null => some none
  | .text value => some (some ⟨value⟩)
  | _ => none

/-- A list of paths. -/
def paths? : Options → Option (List Path)
  | .list items => items.mapM fun item => (text? item).map Path.ofText
  | _ => none

/-! ## Records -/

/-- The values of the given fields. They are given by name, or as a list in the order of the fields
    that may end early. -/
def fields? (names : List String) : Options → Option (List (Option Options))
  | .record fields => some (names.map fun name => fields.lookup name)
  | .list items =>
    if names.length < items.length then none
    else some (items.map some ++ List.replicate (names.length - items.length) none)
  | _ => none

/-- The value of a field, or its default. -/
def fieldOr {α : Type} (read : Options → Option α) (default : α) : Option Options → Option α
  | none => some default
  | some value => read value

/-- The settings of completion. -/
def completion? (options : Options) : Option CompletionSettings := do
  match ← fields? ["keywords", "stdModules"] options with
  | [keywords, stdModules] =>
    return { keywords := ← fieldOr bool? true keywords
             stdModules := ← fieldOr bool? true stdModules }
  | _ => none

/-- The settings in a section of the options. -/
def ofSection? (options : Options) : Option Settings := do
  match ← fields? ["stdRoot", "modulePaths", "logLevel", "completion"] options with
  | [stdRoot, modulePaths, logLevel, completion] =>
    return { stdRoot := ← fieldOr optionalPath? none stdRoot
             modulePaths := ← fieldOr paths? [] modulePaths
             logLevel := ← fieldOr text? "info" logLevel
             completion := ← fieldOr completion? {} completion }
  | _ => none

/-- The section of the options that holds the settings: the field `welle`, or all of them. -/
def sectionOf : Options → Options
  | .record fields => (fields.lookup "welle").getD (.record fields)
  | options => options

/-- The settings that options hold. -/
def ofOptions (options : Option Options) : Settings :=
  (options.bind fun options => ofSection? (sectionOf options)).getD {}

end Settings

end Welle
