import Welle.FileSystem
import Welle.Toml

set_option autoImplicit false

/-! # Project manifests

A project can hold a file `welle.toml` that says where its modules are. Keys that mean nothing here
are ignored, but a value of the wrong type makes the whole manifest invalid. -/

namespace Welle

/-- The manifest of a project. The limits are for those who run the project. -/
structure Manifest where
  name : Option String
  entry : Option String
  stdRoot : Option Path
  modulePaths : List Path
  maxRecursion : Option Nat
  maxSteps : Option Nat
  maxMem : Option Nat
deriving DecidableEq, Repr

/-- Where the modules of a project are. -/
structure ModulePlaces where
  stdRoot : Path
  modulePaths : List Path
deriving DecidableEq, Repr

/-- Why a manifest cannot be had. -/
inductive ManifestError where
  | invalid
  | unreadable (path : Path)
  | invalidAt (path : Path)
deriving DecidableEq, Repr

/-- The name of the file that holds the manifest. -/
def manifestFile : String := "welle.toml"

/-- The wording of a manifest error. -/
def ManifestError.message : ManifestError → String
  | invalid => s!"invalid {manifestFile}"
  | unreadable path => s!"failed to read {path}"
  | invalidAt path => s!"in {path}"

namespace Manifest

/-- The manifest that says nothing. -/
def empty : Manifest := ⟨none, none, none, [], none, none, none⟩

/-! ## Reading -/

/-- The text of a value. -/
def text? : Toml.Value → Option String
  | .text value => some value
  | _ => none

/-- The value of a number from zero up to below `bound`. -/
def limit? (bound : Nat) : Toml.Value → Option Nat
  | .int value => if 0 ≤ value && value < bound then some value.toNat else none
  | _ => none

/-- The paths of an array. -/
def paths? : Toml.Value → Option (List Path)
  | .array items => items.mapM fun item => (text? item).map Path.ofText
  | _ => none

/-- What `read` makes of the value of a key, if the key is given. -/
def optional {α : Type} (table : Toml.Table) (key : String) (read : Toml.Value → Option α) :
    Option (Option α) :=
  match table.lookup key with
  | none => some none
  | some value => (read value).map some

/-- The manifest that a table holds. -/
def ofTable? (table : Toml.Table) : Option Manifest := do
  return {
    name := ← optional table "name" text?
    entry := ← optional table "entry" text?
    stdRoot := (← optional table "std_root" text?).map Path.ofText
    modulePaths := (← optional table "module_paths" paths?).getD []
    maxRecursion := ← optional table "max_recursion" (limit? (Nat.pow 2 32))
    maxSteps := ← optional table "max_steps" (limit? (Nat.pow 2 64))
    maxMem := ← optional table "max_mem" (limit? (Nat.pow 2 64)) }

/-- Reads a manifest. -/
def parse (text : String) : Except ManifestError Manifest :=
  match (Toml.parse? text).bind ofTable? with
  | some manifest => .ok manifest
  | none => .error .invalid

/-- Reads the manifest in a file. -/
def load (disk : FileSystem) (path : Path) : Except ManifestError Manifest :=
  match disk.readText? path with
  | none => .error (.unreadable path)
  | some text => (parse text).mapError fun _ => .invalidAt path

/-- The manifest in the nearest directory at or above `start` that holds one, and that directory.
    One that cannot be read counts as none. -/
def find? (disk : FileSystem) (start : Path) : Option (Path × Manifest) :=
  let file := fun (dir : Path) => dir.join ⟨manifestFile⟩
  match start.ancestors.find? fun dir => disk.isFile (file dir) with
  | none => none
  | some dir => (load disk (file dir)).toOption.map (dir, ·)

/-! ## Places -/

/-- Where the modules of the project at `root` are. Relative paths are taken from `root`; the
    standard library is in `std` there and the modules in `root` itself, unless the manifest says
    otherwise. -/
def places (manifest : Manifest) (root : Path) : ModulePlaces :=
  let place := fun (p : Path) => (root.join p).normalize
  { stdRoot := place (manifest.stdRoot.getD ⟨"std"⟩)
    modulePaths :=
      if manifest.modulePaths.isEmpty then [root.normalize] else manifest.modulePaths.map place }

end Manifest

end Welle
