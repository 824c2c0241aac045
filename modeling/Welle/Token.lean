import Welle.Position

set_option autoImplicit false

/-! # Tokens

The kinds of token, the reserved words, and a token: its kind, its decoded text, its position and,
where the source text differs from the decoded one, the lexeme as written. -/

namespace Welle

/-! ## Kinds -/

/-- The kinds of token. Reserved words start with `kw`. -/
inductive Token.Kind where
  | illegal | eof | newline | semicolon | ident | int | float | str | template
  | kwFunc | kwReturn | kwBreak | kwContinue | kwPass | kwIf | kwElse | kwWhile | kwFor | kwIn
  | kwTrue | kwFalse | kwNil | kwAnd | kwOr | kwNot | kwImport | kwFrom | kwAs | kwTry | kwCatch
  | kwFinally | kwThrow | kwDefer | kwExport | kwSwitch | kwMatch | kwCase | kwDefault
  | assign | walrus | plus | minus | star | slash | percent | bang | bitOr | bitAnd | bitXor
  | bitNot | shl | shr | question | nullish | plusAssign | minusAssign | starAssign | slashAssign
  | percentAssign | bitOrAssign | eq | ne | lt | le | gt | ge | hash | comma | colon | dot
  | ellipsis | lparen | rparen | lbracket | rbracket | lbrace | rbrace
deriving DecidableEq, Repr

namespace Token.Kind

/-- The kinds of reserved words. -/
def isKeyword : Kind → Bool
  | kwFunc | kwReturn | kwBreak | kwContinue | kwPass | kwIf | kwElse | kwWhile | kwFor | kwIn
  | kwTrue | kwFalse | kwNil | kwAnd | kwOr | kwNot | kwImport | kwFrom | kwAs | kwTry | kwCatch
  | kwFinally | kwThrow | kwDefer | kwExport | kwSwitch | kwMatch | kwCase | kwDefault => true
  | _ => false

/-- The kinds that end a statement. -/
def isSeparator : Kind → Bool
  | newline | semicolon => true
  | _ => false

/-- The assignment operators. -/
def isAssignment : Kind → Bool
  | assign | walrus | plusAssign | minusAssign | starAssign | slashAssign | percentAssign
  | bitOrAssign => true
  | _ => false

/-- The name of a kind in messages. -/
def describe : Kind → String
  | illegal => "ILLEGAL"
  | eof => "EOF"
  | newline => "NEWLINE"
  | semicolon => ";"
  | ident => "IDENT"
  | int => "INT"
  | float => "FLOAT"
  | str => "STRING"
  | template => "TEMPLATE"
  | kwFunc => "func"
  | kwReturn => "return"
  | kwBreak => "break"
  | kwContinue => "continue"
  | kwPass => "pass"
  | kwIf => "if"
  | kwElse => "else"
  | kwWhile => "while"
  | kwFor => "for"
  | kwIn => "in"
  | kwTrue => "true"
  | kwFalse => "false"
  | kwNil => "nil"
  | kwAnd => "and"
  | kwOr => "or"
  | kwNot => "not"
  | kwImport => "import"
  | kwFrom => "from"
  | kwAs => "as"
  | kwTry => "try"
  | kwCatch => "catch"
  | kwFinally => "finally"
  | kwThrow => "throw"
  | kwDefer => "defer"
  | kwExport => "export"
  | kwSwitch => "switch"
  | kwMatch => "match"
  | kwCase => "case"
  | kwDefault => "default"
  | assign => "="
  | walrus => ":="
  | plus => "+"
  | minus => "-"
  | star => "*"
  | slash => "/"
  | percent => "%"
  | bang => "!"
  | bitOr => "|"
  | bitAnd => "&"
  | bitXor => "^"
  | bitNot => "~"
  | shl => "<<"
  | shr => ">>"
  | question => "?"
  | nullish => "??"
  | plusAssign => "+="
  | minusAssign => "-="
  | starAssign => "*="
  | slashAssign => "/="
  | percentAssign => "%="
  | bitOrAssign => "|="
  | eq => "=="
  | ne => "!="
  | lt => "<"
  | le => "<="
  | gt => ">"
  | ge => ">="
  | hash => "#"
  | comma => ","
  | colon => ":"
  | dot => "."
  | ellipsis => "..."
  | lparen => "("
  | rparen => ")"
  | lbracket => "["
  | rbracket => "]"
  | lbrace => "\x7b"
  | rbrace => "\x7d"

end Token.Kind

/-! ## Reserved words -/

/-- The reserved words in the order in which editors list them, with their kinds. -/
def Token.keywordTable : List (String × Token.Kind) := [
  ("func", .kwFunc),
  ("return", .kwReturn),
  ("break", .kwBreak),
  ("continue", .kwContinue),
  ("pass", .kwPass),
  ("if", .kwIf),
  ("else", .kwElse),
  ("while", .kwWhile),
  ("for", .kwFor),
  ("in", .kwIn),
  ("true", .kwTrue),
  ("false", .kwFalse),
  ("nil", .kwNil),
  ("null", .kwNil),
  ("and", .kwAnd),
  ("or", .kwOr),
  ("not", .kwNot),
  ("import", .kwImport),
  ("from", .kwFrom),
  ("as", .kwAs),
  ("try", .kwTry),
  ("catch", .kwCatch),
  ("finally", .kwFinally),
  ("throw", .kwThrow),
  ("defer", .kwDefer),
  ("export", .kwExport),
  ("switch", .kwSwitch),
  ("match", .kwMatch),
  ("case", .kwCase),
  ("default", .kwDefault)]

/-- The reserved words in the order in which editors list them. -/
def Token.keywords : List String := keywordTable.map Prod.fst

/-- The kind of a word: that of a reserved word, or an identifier. -/
def Token.Kind.ofWord (word : String) : Token.Kind := (Token.keywordTable.lookup word).getD .ident

/-- Whether a word is reserved. -/
def Token.isReserved (word : String) : Bool := keywords.contains word

/-! ## Tokens -/

/-- A token. The literal is the name of an identifier, the contents of a string, the body of a
    template, or the complaint of an illegal token. -/
structure Token where
  kind : Token.Kind
  literal : String
  raw : Option String
  pos : Position
deriving DecidableEq, Repr

namespace Token

/-- The token that ends every token list. -/
def endOfText (pos : Position) : Token := ⟨.eof, "", none, pos⟩

/-- The text of the token as written in the source. -/
def lexeme (t : Token) : String := t.raw.getD t.literal

/-- The number of characters a diagnostic at the token covers, at least one. -/
def width (t : Token) : Nat := max t.lexeme.length 1

end Token

end Welle
