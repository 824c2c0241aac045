import Welle.Path

set_option autoImplicit false

/-! # Files

What is stored on disk, as a value: the bytes of every file and the directories, each under the
names that lead to it from the root. A path is followed one segment at a time, and every segment but
the last has to lead into a directory, also when a step up follows it. -/

namespace Welle

/-- The files and directories of a disk. The root directory always exists. -/
structure FileSystem where
  files : List (List Bytes × ByteArray)
  directories : List (List Bytes)

namespace FileSystem

/-- A disk with nothing on it. -/
def empty : FileSystem := ⟨[], []⟩

/-! ## Changes -/

/-- The names that lead to the directories above a place. -/
def above (names : List Bytes) : List (List Bytes) := (List.range names.length).map names.take

/-- The disk with a directory and the directories above it. -/
def makeDirectory (fs : FileSystem) (names : List Bytes) : FileSystem :=
  { fs with directories := fs.directories ++ above names ++ [names] }

/-- The disk without the file at the given names. -/
def erase (fs : FileSystem) (names : List Bytes) : FileSystem :=
  { fs with files := fs.files.filter (·.1 ≠ names) }

/-- The disk with a file and the directories above it. -/
def write (fs : FileSystem) (names : List Bytes) (bytes : ByteArray) : FileSystem :=
  { files := (names, bytes) :: (fs.erase names).files
    directories := fs.directories ++ above names }

/-! ## Following paths -/

/-- Whether there is a directory at the given names. -/
def hasDirectory (fs : FileSystem) (names : List Bytes) : Bool :=
  names.isEmpty || fs.directories.contains names

/-- Where one segment leads from a directory. -/
def advance? (fs : FileSystem) (names : List Bytes) (segment : Bytes) : Option (List Bytes) :=
  if !fs.hasDirectory names then none
  else if Path.isIdle segment then some names
  else if segment = [Path.dot, Path.dot] then some names.dropLast
  else some (names ++ [segment])

/-- The names that a path leads to. -/
def locate? (fs : FileSystem) (p : Path) : Option (List Bytes) :=
  if p.bytes = [] then none else p.segments.foldlM fs.advance? []

/-- The bytes of the file at a path. -/
def read? (fs : FileSystem) (p : Path) : Option ByteArray :=
  (fs.locate? p).bind fun names => fs.files.lookup names

/-- Whether there is a file at a path. -/
def isFile (fs : FileSystem) (p : Path) : Bool := (fs.read? p).isSome

/-- Whether there is a directory at a path. -/
def isDirectory (fs : FileSystem) (p : Path) : Bool := (fs.locate? p).any fs.hasDirectory

/-- The disk without the file at a path, if there is one. -/
def remove? (fs : FileSystem) (p : Path) : Option FileSystem :=
  if fs.isFile p then (fs.locate? p).map fs.erase else none

/-- The text of the file at a path, if its bytes are UTF-8. -/
def readText? (fs : FileSystem) (p : Path) : Option String := (fs.read? p).bind String.fromUTF8?

/-! ## Listing -/

/-- The names of the files directly in a directory. -/
def filesIn (fs : FileSystem) (p : Path) : List Bytes :=
  match fs.locate? p with
  | none => []
  | some names =>
    if fs.hasDirectory names then
      fs.files.filterMap fun (file, _) => if file.dropLast = names then file.getLast? else none
    else []

/-- The files in a directory and below, in the order of their names: a directory stands with all
    that is in it where its name belongs. Directories that are not to be entered are left out with
    all that is in them; they are given by the path to them. -/
def filesUnder (fs : FileSystem) (enter : Path → Bool) (root : Path) : List Path :=
  let start := root.names
  let isInside := fun (file : List Bytes) =>
    start.isPrefixOf file && start.length < file.length
      && (above file).all fun names => names.length ≤ start.length || enter (.ofNames names)
  Path.sorted (((fs.files.map (·.1)).filter isInside).map .ofNames)

end FileSystem

end Welle
