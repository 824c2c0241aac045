import Welle.Uri

set_option autoImplicit false

/-! # Reading identifiers

`Uri.parse?` reads an identifier and brings it into its standard form. What it makes of the text
behind the scheme depends on the kind of the scheme. -/

namespace Welle.Uri

/-! ## Schemes -/

/-- The kinds of schemes: that of files, those that always have a host, with the number of the
    service that is usual there, and all others. -/
inductive Kind where
  | file
  | hosted (service : Nat)
  | other
deriving DecidableEq, Repr

/-- The kind of a scheme. -/
def Kind.of : String → Kind
  | "file" => file
  | "http" | "ws" => hosted 80
  | "https" | "wss" => hosted 443
  | "ftp" => hosted 21
  | _ => other

/-- The text without control characters and blanks at its ends, and without tabs and line ends. -/
def clean (cs : List Char) : List Char :=
  let isOuter := fun (c : Char) => c.toNat ≤ 0x20
  let inner := ((cs.dropWhile isOuter).reverse.dropWhile isOuter).reverse
  inner.filter fun c => c ≠ '\t' && c ≠ '\n' && c ≠ '\r'

/-- The scheme in front of the first colon, in lower case, and what follows the colon. -/
def takeScheme? (cs : List Char) : Option (String × List Char) :=
  let isPart := fun (c : Char) => c.isAlphanum || c = '+' || c = '-' || c = '.'
  match cs.takeWhile isPart, cs.dropWhile isPart with
  | first :: name, ':' :: rest =>
    if first.isAlpha then some (String.ofList ((first :: name).map Char.toLower), rest) else none
  | _, _ => none

/-! ## Queries and fragments -/

/-- A text up to the query or the fragment, and the escaped query and fragment. -/
def takeSuffix (special : Bool) (cs : List Char) : List Char × String :=
  let plain := cs.takeWhile fun c => c ≠ '?' && c ≠ '#'
  let rest := cs.dropWhile fun c => c ≠ '?' && c ≠ '#'
  let query := rest.takeWhile (· ≠ '#')
  let fragment := rest.dropWhile (· ≠ '#')
  let query := Text.Percent.encode (inQuery special) query
  let fragment := match fragment with
    | [] => []
    | mark :: text => mark :: Text.Percent.encode inFragment text
  (plain, String.ofList (query ++ fragment))

/-! ## Paths -/

/-- A segment with escaped dots written plainly. -/
def plainDots : List Char → List Char
  | [] => []
  | '%' :: '2' :: 'e' :: cs | '%' :: '2' :: 'E' :: cs => '.' :: plainDots cs
  | c :: cs => c :: plainDots cs

/-- Whether a step up leaves a segment where it is: it is the name of a drive, which a backslash may
    follow. -/
def isAnchored (segment : List Char) : Bool :=
  isDrive (segment.take 2) && (segment.drop 2).head?.all (· = '\\')

/-- The segments that are left behind a step up; those that there are have the last one first. -/
def stepUp : List (List Char) → List (List Char)
  | [] => []
  | segment :: kept => if isAnchored segment then segment :: kept else kept

/-- Folds the dot segments of a path. `kept` are the segments so far, last one first. A dot segment
    at the end leaves an empty segment. -/
def foldDots (kept : List (List Char)) : List (List Char) → List (List Char)
  | [] => kept.reverse
  | segment :: rest =>
    let leaving := fun (kept : List (List Char)) => if rest.isEmpty then [] :: kept else kept
    let dots := plainDots segment
    if dots = ['.'] then foldDots (leaving kept) rest
    else if dots = ['.', '.'] then foldDots (leaving (stepUp kept)) rest
    else foldDots (segment :: kept) rest

/-- The segments of a path without its first slash, with dots folded. -/
def segments (cs : List Char) : List (List Char) := foldDots [] (cs.splitOn '/')

/-- The path with the given segments. -/
def ofSegments (segments : List (List Char)) : String :=
  "/" ++ Text.join "/" (segments.map fun segment =>
    String.ofList (Text.Percent.encode inPath segment))

/-- The text without its first slash. -/
def dropSlash : List Char → List Char
  | '/' :: cs => cs
  | cs => cs

/-- The text with slashes for backslashes. -/
def forwardSlashes (cs : List Char) : List Char := cs.map fun c => if c = '\\' then '/' else c

/-- The text before the first slash, and the rest. -/
def splitSlash (cs : List Char) : List Char × List Char :=
  (cs.takeWhile (· ≠ '/'), cs.dropWhile (· ≠ '/'))

/-! ## Authorities -/

/-- The text before the last at sign, if there is one, and the text behind it. -/
def splitUser (cs : List Char) : Option (List Char) × List Char :=
  let reversed := cs.reverse
  match reversed.dropWhile (· ≠ '@') with
  | [] => (none, cs)
  | _ :: user => (some user.reverse, (reversed.takeWhile (· ≠ '@')).reverse)

/-- The text before the first colon that is not between brackets, and the rest. -/
def splitService (inside : Bool) : List Char → List Char × List Char
  | [] => ([], [])
  | c :: cs =>
    if c = ':' && !inside then ([], c :: cs)
    else
      let (host, rest) := splitService (c = '[' || (inside && c ≠ ']')) cs
      (c :: host, rest)

/-- The host of an authority. Only other schemes may go without. -/
def host? (kind : Kind) (cs : List Char) : Option (Option Host) :=
  match kind with
  | .other => if cs.isEmpty then some none else (Host.plain? cs).map some
  | _ => (Host.domain? cs).map some

/-- The number of a service behind its colon, unless it is the usual one, and what follows it. Only
    a backslash may follow. -/
def service? (kind : Kind) (cs : List Char) : Option (Option Nat × List Char) := do
  let digits := cs.takeWhile Char.isDigit
  let rest := cs.dropWhile Char.isDigit
  let service := Text.positional 10 digits
  guard (service < Nat.pow 2 16 && rest.head?.all (· = '\\'))
  return (if digits.isEmpty || kind = .hosted service then none else some service, rest)

/-- The authority that a text starts with, and the rest of the text. `more` says whether anything
    follows the text. -/
def authority? (kind : Kind) (more : Bool) (cs : List Char) : Option (Authority × List Char) := do
  let (login, place) := splitUser cs
  guard !(login = some [] && place.isEmpty && more)
  let user := (login.getD []).takeWhile (· ≠ ':')
  let password := ((login.getD []).dropWhile (· ≠ ':')).tail
  let (name, rest) := splitService false place
  let host ← host? kind name
  guard (host.isSome || (user.isEmpty && password.isEmpty && rest.isEmpty))
  let (service, rest) ← match rest with
    | [] => some (none, [])
    | _ :: behind => service? kind behind
  let escape := fun (cs : List Char) => String.ofList (Text.Percent.encode inCredentials cs)
  return (⟨escape user, escape password, host, service⟩, rest)

/-! ## Identifiers -/

/-- Leaves only the last of several empty segments at the start. -/
def dropEmpty : List (List Char) → List (List Char)
  | [] :: segment :: rest => dropEmpty (segment :: rest)
  | segments => segments

/-- The segments of a path that starts with the name of a drive, which gets a colon. -/
def onDrive? : List (List Char) → Option (List (List Char))
  | [letter, sign] :: rest => if isDrive [letter, sign] then some ([letter, ':'] :: rest) else none
  | _ => none

/-- The host of a file's identifier behind the scheme, and its path. The host `localhost` counts as
    none; where there is none, the slash behind it counts as an empty segment. The name of a drive
    is no host. -/
def fileParts? : List Char → Option (Option Host × List Char)
  | '/' :: '/' :: cs =>
    let (name, path) := splitSlash cs
    if isDrive name then some (none, cs)
    else if name.isEmpty then some (none, path)
    else (Host.domain? name).map fun host =>
      if host = .name "localhost" then (none, path) else (some host, dropSlash path)
  | cs => some (none, dropSlash cs)

/-- The identifier of a file behind its scheme. A path that starts with the name of a drive has no
    host and writes it with a colon. -/
def fileOf? (cs : List Char) : Option Uri := do
  let (plain, suffix) := takeSuffix true cs
  let (host, path) ← fileParts? (forwardSlashes plain)
  let found := segments path
  let (host, found) := match onDrive? found with
    | some found => (none, found)
    | none => (host, found)
  return ⟨fileScheme, some { Authority.empty with host }, ofSegments (dropEmpty found), suffix⟩

/-- An identifier of a scheme that always has a host, behind its scheme. -/
def hosted? (scheme : String) (kind : Kind) (cs : List Char) : Option Uri := do
  let (plain, suffix) := takeSuffix true cs
  let (front, path) := splitSlash ((forwardSlashes plain).dropWhile (· = '/'))
  let (authority, _) ← authority? kind (path ≠ [] || suffix ≠ "") front
  return ⟨scheme, some authority, ofSegments (segments (dropSlash path)), suffix⟩

/-- An identifier of any other scheme, behind its scheme. -/
def other? (scheme : String) (cs : List Char) : Option Uri :=
  let (plain, suffix) := takeSuffix false cs
  match plain with
  | '/' :: '/' :: rest => do
    let (front, path) := splitSlash rest
    let (authority, left) ← authority? .other (path ≠ [] || suffix ≠ "") front
    let path := left ++ path
    let path := if path.isEmpty then "" else ofSegments (segments (dropSlash path))
    return ⟨scheme, some authority, path, suffix⟩
  | '/' :: rest => some ⟨scheme, none, ofSegments (segments rest), suffix⟩
  | _ =>
    let path := String.ofList (Text.Percent.encode Text.Percent.isControl plain)
    some ⟨scheme, none, path, suffix⟩

/-- Reads an identifier. It needs a scheme. -/
def parse? (text : String) : Option Uri := do
  let (scheme, rest) ← takeScheme? (clean text.toList)
  match Kind.of scheme with
  | .file => fileOf? rest
  | .hosted service => hosted? scheme (.hosted service) rest
  | .other => other? scheme rest

end Welle.Uri
