import Welle.FileSystem
import Welle.Text.Quoted

set_option autoImplicit false

/-! # Import resolution

An import names a module by a specifier. `std:name` stands for a module of the standard library; a
path that starts with a dot segment or at the root is taken from the importing file; a bare name is
looked up in the standard library and then in each module path. A specifier without an extension
gets that of source files. -/

namespace Welle

/-- The extension of source files. -/
def sourceExtension : String := "wll"

/-- The form of an import specifier. -/
inductive Specifier where
  | std (name : String)
  | file (path : Path)
  | bare (path : Path)
deriving DecidableEq, Repr

/-- The form of a specifier. -/
def Specifier.ofText (spec : String) : Specifier :=
  match spec.toList with
  | 's' :: 't' :: 'd' :: ':' :: name => std (.ofList name)
  | '/' :: _ | '.' :: '/' :: _ | '.' :: '.' :: '/' :: _ => file ⟨spec⟩
  | _ => bare ⟨spec⟩

/-- Why an import does not resolve. -/
inductive ImportError where
  | noStdName (spec : String)
  | notFound (path : Path)
  | unresolved (spec : String) (importer : Path)
deriving DecidableEq, Repr

/-- The wording of an import error. -/
def ImportError.message : ImportError → String
  | noStdName spec => s!"invalid std import: {Text.quoted spec}"
  | notFound path => s!"module not found: {path}"
  | unresolved spec importer => s!"cannot resolve import {Text.quoted spec} from {importer}"

/-- Where modules are looked up. -/
structure Resolver where
  stdRoot : Path
  modulePaths : List Path
deriving DecidableEq, Repr

namespace Resolver

/-- The resolver with normalized places. -/
def ofPaths (stdRoot : Path) (modulePaths : List Path) : Resolver :=
  ⟨stdRoot.normalize, modulePaths.map Path.normalize⟩

/-- The file that a path below `base` stands for. -/
def candidate (base path : Path) : Path :=
  (base.join (path.withDefaultExtension sourceExtension)).normalize

/-- The path of a file that exists. -/
def existing (disk : FileSystem) (path : Path) : Except ImportError Path :=
  if disk.isFile path then .ok path else .error (.notFound path)

/-- The file of the module that `importer` names by `spec`. -/
def resolve (resolver : Resolver) (disk : FileSystem) (importer : Path) (spec : String) :
    Except ImportError Path :=
  match Specifier.ofText spec with
  | .std name =>
    if name = "" then .error (.noStdName spec)
    else existing disk (candidate resolver.stdRoot ⟨name⟩)
  | .file path => existing disk (candidate (importer.parent?.getD ⟨"."⟩) path)
  | .bare path =>
    let candidates := (resolver.stdRoot :: resolver.modulePaths).map (candidate · path)
    match candidates.find? disk.isFile with
    | some found => .ok found
    | none => .error (.unresolved spec importer)

end Resolver

end Welle
