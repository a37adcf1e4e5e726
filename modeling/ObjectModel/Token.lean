/-
**The words of the textual form.**

Main definitions:

* `TokenKind` — every kind of token, names without the sign that stands before them;
* `TokenKind.text` — how a token is shown in a message;
* `Token` — a kind with the span where it was read.
-/

import ObjectModel.Span

set_option relaxedAutoImplicit false
set_option autoImplicit false

namespace ObjectModel

/-- What a token is. -/
inductive TokenKind where
  /-- A whole number, as in `14` or `-3`. -/
  | integer (n : Int64)
  /-- A string, its escapes resolved. -/
  | string (s : String)
  /-- The name of a value, written `%name`. -/
  | value (name : String)
  /-- The name of a symbol, written `@name`. -/
  | symbol (name : String)
  /-- The name of a form of constant, written `#name`. -/
  | attrName (name : String)
  /-- The name of a type, written `!name`. -/
  | typeName (name : String)
  /-- A name on its own, in which dots are allowed. -/
  | word (name : String)
  | leftParen
  | rightParen
  | leftBrace
  | rightBrace
  | leftBracket
  | rightBracket
  | less
  | greater
  | comma
  | colon
  | doubleColon
  | equals
  | arrow
  /-- The end of a line, which ends an operation. -/
  | newline
  /-- The end of the text. -/
  | eof
  deriving DecidableEq, Inhabited

/-- A token as it is shown.  A string is shown between quotes and with its characters as they
are. -/
def TokenKind.text : TokenKind → String
  | .integer n => toString n.toInt
  | .string s => "\"" ++ s ++ "\""
  | .value n => "%" ++ n
  | .symbol n => "@" ++ n
  | .attrName n => "#" ++ n
  | .typeName n => "!" ++ n
  | .word n => n
  | .leftParen => "("
  | .rightParen => ")"
  | .leftBrace => "\x7b"
  | .rightBrace => "\x7d"
  | .leftBracket => "["
  | .rightBracket => "]"
  | .less => "<"
  | .greater => ">"
  | .comma => ","
  | .colon => ":"
  | .doubleColon => "::"
  | .equals => "="
  | .arrow => "->"
  | .newline => "newline"
  | .eof => "end of file"

/-- A token where it was read. -/
structure Token where
  /-- What it is. -/
  kind : TokenKind
  /-- Where it stands. -/
  span : Span
  deriving DecidableEq, Inhabited

end ObjectModel
