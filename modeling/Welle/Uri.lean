import Welle.Host
import Welle.Path

set_option autoImplicit false

/-! # Resource identifiers

A document is named by a URI in its standard form: the scheme in lower case, dot segments folded,
characters escaped where they have to be. Escapes that are already there stay, so one path can have
several URIs. `Uri.ofPath?` gives the one URI that this library writes for a path, and `Uri.path?`
the path that a URI names. -/

namespace Welle

/-- What stands between the two slashes and the path of an identifier: who asks, and which service
    of which host. User and password are escaped; the number of the service is left out where it is
    the usual one. -/
structure Authority where
  user : String
  password : String
  host : Option Host
  service : Option Nat
deriving DecidableEq, Repr

namespace Authority

/-- The authority that names no one. -/
def empty : Authority := ⟨"", "", none, none⟩

/-- The text of the user and the password. -/
def credentials (authority : Authority) : String :=
  let password := if authority.password = "" then "" else ":" ++ authority.password
  let both := authority.user ++ password
  if both = "" then "" else both ++ "@"

/-- The text of an authority. -/
def text (authority : Authority) : String :=
  let host := match authority.host with
    | some host => host.text
    | none => ""
  let service := match authority.service with
    | some service => ":" ++ toString service
    | none => ""
  authority.credentials ++ host ++ service

end Authority

/-- A resource identifier in its standard form. The suffix holds the query and the fragment. -/
structure Uri where
  scheme : String
  authority : Option Authority
  path : String
  suffix : String
deriving DecidableEq, Repr

namespace Uri

/-- What stands between the scheme and the path. Without an authority a path that starts with two
    slashes gets a dot segment, so that it does not look like one. -/
def lead (uri : Uri) : String :=
  match uri.authority with
  | some authority => "//" ++ authority.text
  | none => if "//".isPrefixOf uri.path then "/." else ""

/-- The text of an identifier. -/
def text (uri : Uri) : String := uri.scheme ++ ":" ++ uri.lead ++ uri.path ++ uri.suffix

instance : ToString Uri := ⟨text⟩

/-! ## Classes of characters -/

/-- Characters that are escaped in every part but an opaque path. -/
def isUnsafe (c : Char) : Bool := Text.Percent.isControl c || [' ', '"', '<', '>'].contains c

/-- Characters that are escaped in a fragment. -/
def inFragment (c : Char) : Bool := isUnsafe c || c = '\x60'

/-- Characters that are escaped in a query. -/
def inQuery (special : Bool) (c : Char) : Bool := isUnsafe c || c = '#' || (special && c = '\'')

/-- Characters that are escaped in a path. -/
def inPath (c : Char) : Bool := inFragment c || ['#', '?', '\x7b', '\x7d'].contains c

/-- Characters that are escaped in a segment that stands for a file name. -/
def inSegment (c : Char) : Bool := inPath c || ['/', '%', '\\'].contains c

/-- Characters that are escaped in the name of a user and in a password. -/
def inCredentials (c : Char) : Bool :=
  inPath c || ['/', ':', ';', '=', '@', '[', '\\', ']', '^', '|'].contains c

/-! ## Paths of files -/

/-- The scheme of files. -/
def fileScheme : String := "file"

/-- The identifier of a file. An empty path has none. -/
def ofPath? (p : Path) : Option Uri :=
  let p := p.normalize
  if p.isAbsolute then
    let segments := p.names.map fun name =>
      String.ofList (Text.Percent.encodeBytes inSegment name)
    some ⟨fileScheme, some .empty, "/" ++ Text.join "/" segments, ""⟩
  else none

/-- Whether a text is the name of a drive: a letter and a colon or bar. -/
def isDrive : List Char → Bool
  | [letter, sign] => letter.isAlpha && (sign = ':' || sign = '|')
  | _ => false

/-- Whether a path ends like the name of a drive, behind at least one byte. -/
def endsInDrive (bytes : Bytes) : Bool :=
  2 < bytes.length && isDrive ((bytes.drop (bytes.length - 2)).map fun byte => Char.ofNat byte.toNat)

/-- The path of the file that an identifier names, if it names one on this machine. Its bytes are
    those that the escapes stand for, also where they are no UTF-8. The name of a drive gets a
    slash. -/
def path? (uri : Uri) : Option Path :=
  if uri.scheme = fileScheme && uri.authority = some .empty then
    let bytes := Text.Percent.bytes uri.path.toList
    some ⟨if endsInDrive bytes then bytes ++ [Path.slash] else bytes⟩
  else none

end Uri

end Welle
