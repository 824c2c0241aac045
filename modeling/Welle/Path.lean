import Welle.Text.Utf8

set_option autoImplicit false

/-! # Paths

A path is kept as it is written, in bytes: a file can have a name that is no text, and names that
are shown alike can differ. Its components are what it says: repeated slashes, a slash at the end and
dots between slashes mean nothing. `Path.normalize` also folds away the steps up, without looking at
any file; it never climbs above the root. Two paths with the same components count as one path, which
is written with nothing superfluous as `Path.tidy`. -/

namespace Welle

/-- A path, as it is written. -/
structure Path where
  bytes : Bytes
deriving DecidableEq, Repr

namespace Path

/-- The path that a text spells. -/
def ofText (text : String) : Path := ⟨text⟩

/-- A path as it is shown. -/
def text (p : Path) : String := p.bytes.text

instance : ToString Path := ⟨text⟩

/-- The byte between components. -/
def slash : UInt8 := 47

/-- The byte of which dot segments are made, and in front of an extension. -/
def dot : UInt8 := 46

/-! ## Components -/

/-- A component of a path. -/
inductive Component where
  | root
  | here
  | up
  | name (label : Bytes)
deriving DecidableEq, Repr

/-- Whether a path starts at the root. -/
def isAbsolute (p : Path) : Bool := p.bytes.head? = some slash

/-- What stands between the slashes of a path. -/
def segments (p : Path) : List Bytes := p.bytes.splitOn slash

/-- The path with the given bytes between its slashes. -/
def ofSegments (segments : List Bytes) : Path := ⟨[slash].intercalate segments⟩

/-- Whether a segment behind the first one says nothing. -/
def isIdle (segment : Bytes) : Bool := segment = [] || segment = [dot]

/-- What a segment behind the first one says. -/
def Component.ofSegment? (segment : Bytes) : Option Component :=
  if isIdle segment then none else if segment = [dot, dot] then some .up else some (.name segment)

/-- The components of a path. A dot counts only as the first segment of a relative path. -/
def components (p : Path) : List Component :=
  match p.segments with
  | [] => []
  | first :: rest =>
    let body := rest.filterMap Component.ofSegment?
    if p.isAbsolute then .root :: body
    else if first = [dot] then .here :: body
    else (Component.ofSegment? first).toList ++ body

/-- Whether two paths have the same components. -/
def same (p q : Path) : Bool := p.components = q.components

/-- Whether the components of `p` start with those of `base`. -/
def startsWith (p base : Path) : Bool := base.components.isPrefixOf p.components

/-! ## Normal form -/

/-- The names that lead from the root to a place, after one more component. A step up from the root
    stays there. -/
def advance (names : List Bytes) : Component → List Bytes
  | .root => []
  | .here => names
  | .up => names.dropLast
  | .name label => names ++ [label]

/-- The names that lead from the root to where a path points. -/
def names (p : Path) : List Bytes := p.components.foldl advance []

/-- The absolute path along the given names. -/
def ofNames (names : List Bytes) : Path := ⟨slash :: [slash].intercalate names⟩

/-- The absolute path without dots, steps up and superfluous slashes. There is no current directory
    here: a relative path is taken from the root. The empty path stays empty. -/
def normalize (p : Path) : Path := if p.bytes = [] then p else ofNames p.names

/-- How a component is written. -/
def Component.bytes : Component → Bytes
  | root => []
  | here => [dot]
  | up => [dot, dot]
  | name label => label

/-- The path with the given components and nothing else. -/
def ofComponents : List Component → Path
  | [.root] => ⟨[slash]⟩
  | components => ofSegments (components.map Component.bytes)

/-- The path without superfluous slashes and dots. -/
def tidy (p : Path) : Path := ofComponents p.components

/-! ## Parts -/

/-- The path `p` followed by `q`; an absolute `q` stands for itself. -/
def join (p q : Path) : Path :=
  if q.isAbsolute then q
  else if p.bytes = [] || p.bytes.getLast? = some slash then ⟨p.bytes ++ q.bytes⟩
  else ⟨p.bytes ++ slash :: q.bytes⟩

/-- The segments of a path behind the first one, last one first, without those at the end that say
    nothing. -/
def tail (p : Path) : List Bytes := p.segments.tail.reverse.dropWhile isIdle

/-- The path with first segment `first`, where only the root is written with a slash at the end. -/
def fromFirst (first : Bytes) (rest : List Bytes) : Path :=
  if first = [] && rest.isEmpty then ⟨[slash]⟩ else ofSegments (first :: rest)

/-- The path without its last component. The root and the empty path have none. -/
def parent? (p : Path) : Option Path :=
  let first := p.segments.headD []
  match p.tail with
  | _ :: before => some (fromFirst first (before.dropWhile isIdle).reverse)
  | [] => if first = [] then none else some ⟨[]⟩

/-- The path without what stands behind its last component. -/
def trimEnd (p : Path) : Path := fromFirst (p.segments.headD []) p.tail.reverse

/-- The first `count` paths of the sequence that goes from a path to its parent. -/
def climb : Nat → Path → List Path
  | 0, _ => []
  | count + 1, p =>
    p :: match p.parent? with
      | some parent => climb count parent
      | none => []

/-- A path and the paths above it. Every step to a parent drops a segment. -/
def ancestors (p : Path) : List Path := climb (p.segments.length + 1) p

/-- The name at the end of a path. -/
def fileName? (p : Path) : Option Bytes :=
  match p.components.getLast? with
  | some (.name label) => some label
  | _ => none

/-- What stands before and behind the last dot of a file name. A name whose only dot is its first
    byte has no extension. -/
def splitName (name : Bytes) : Bytes × Option Bytes :=
  let reversed := name.reverse
  match reversed.dropWhile (· ≠ dot) with
  | [] | [_] => (name, none)
  | _ :: stem => (stem.reverse, some (reversed.takeWhile (· ≠ dot)).reverse)

/-- The extension of the name at the end of a path. -/
def extension? (p : Path) : Option Bytes := p.fileName?.bind fun name => (splitName name).2

/-- The path with an extension added if its name has none. A path without a name stays. -/
def withDefaultExtension (p : Path) (extension : Bytes) : Path :=
  if p.fileName?.isSome && p.extension?.isNone then ⟨p.trimEnd.bytes ++ dot :: extension⟩ else p

/-! ## Order -/

/-- The place of a kind of component in the order of components. -/
def Component.rank : Component → Nat
  | root => 0
  | here => 1
  | up => 2
  | name _ => 3

/-- Whether a list of components stands before another one or is equal to it, comparing names
    byte by byte. -/
def notAfter : List Component → List Component → Bool
  | [], _ => true
  | _ :: _, [] => false
  | a :: as, b :: bs =>
    if a = b then notAfter as bs
    else a.rank < b.rank || (a.rank = b.rank && a.bytes < b.bytes)

/-- Paths in the order of their components. -/
def sorted (paths : List Path) : List Path :=
  paths.mergeSort fun p q => notAfter p.components q.components

end Path

end Welle
