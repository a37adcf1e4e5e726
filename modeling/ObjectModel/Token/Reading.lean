/-
**Reading a list of tokens.**

A reader looks at the tokens ahead, takes some of them and either has a result or stops at a
problem.  A reader that stops says exactly one thing, and it says where it stood, so that whoever
called it can go on from there.

Main definitions:

* `Cursor` — the tokens ahead, and the span of the token taken last;
* `Reading` — readers, with `Reading.fail` to stop at a problem;
* `Reading.expect`, `Reading.valueName`, `Reading.symbolName` — taking one token of a kind;
* `Reading.commaSeparated`, `Reading.operands` — taking lists;
* `Reading.lineEnd` — the end of an operation.

The list of tokens ends with the end of the text, and behind its last token there is always that
token again.
-/

import ObjectModel.Attribute
import ObjectModel.Diagnostic
import ObjectModel.Token

set_option relaxedAutoImplicit false
set_option autoImplicit false

namespace ObjectModel

/-! ### The cursor -/

/-- Where reading stands in a list of tokens. -/
structure Cursor where
  /-- The tokens that are left. -/
  ahead : List Token
  /-- The token that stands behind all others. -/
  final : Token
  /-- The span of the token taken last. -/
  last : Span
  deriving DecidableEq, Inhabited

namespace Cursor

/-- The beginning of a list of tokens. -/
def ofTokens (ts : List Token) : Cursor :=
  ⟨ts, ts.getLast?.getD ⟨.eof, .point .origin⟩, .point .origin⟩

/-- The token that stands next. -/
def token (c : Cursor) : Token := c.ahead.headD c.final

/-- The kind of the token that stands next. -/
def kind (c : Cursor) : TokenKind := c.token.kind

/-- Takes one token. -/
def advance (c : Cursor) : Cursor :=
  match c.ahead with
  | t :: ts => { c with ahead := ts, last := t.span }
  | [] => c

/-- Takes the tokens that stand before `rest`. -/
def advanceTo (c : Cursor) (taken rest : List Token) : Cursor :=
  { c with ahead := rest, last := (taken.getLast?.map Token.span).getD c.last }

/-- Takes tokens as long as their kinds satisfy `p`. -/
def skipWhile (p : TokenKind → Bool) (c : Cursor) : Cursor :=
  c.advanceTo (c.ahead.takeWhile fun t => p t.kind) (c.ahead.dropWhile fun t => p t.kind)

/-- Takes the line ends that stand next. -/
def skipNewlines (c : Cursor) : Cursor := c.skipWhile (· == .newline)

@[simp] theorem token_cons (t : Token) (ts : List Token) (f : Token) (s : Span) :
    (Cursor.mk (t :: ts) f s).token = t := rfl

@[simp] theorem token_nil (f : Token) (s : Span) : (Cursor.mk [] f s).token = f := rfl

@[simp] theorem advance_cons (t : Token) (ts : List Token) (f : Token) (s : Span) :
    (Cursor.mk (t :: ts) f s).advance = ⟨ts, f, t.span⟩ := rfl

end Cursor

/-! ### Readers -/

/-- A reader: from a cursor to a result or a problem, and the cursor where it stopped. -/
abbrev Reading (α : Type) := EStateM Problem Cursor α

namespace Reading

/-- The kind of the token that stands next. -/
def kind : Reading TokenKind := return (← get).kind

/-- The span of the token that stands next. -/
def spanHere : Reading Span := return (← get).token.span

/-- The span of the token taken last. -/
def lastSpan : Reading Span := return (← get).last

/-- Takes one token. -/
def advance : Reading Unit := modify Cursor.advance

/-- Takes the line ends that stand next. -/
def skipNewlines : Reading Unit := modify Cursor.skipNewlines

/-- Stops at a problem with the span `span`. -/
def failAt {α : Type} (code : Code) (message : String) (span : Span) : Reading α :=
  throw { code, message, span }

/-- Stops at a problem with the token that stands next. -/
def fail {α : Type} (code : Code) (message : String) : Reading α := do
  failAt code message (← spanHere)

/-- Stops because the token that stands next is not what was expected. -/
def expected {α : Type} (code : Code) (what : String) : Reading α := do
  fail code ("expected " ++ what ++ ", got '" ++ (← kind).text ++ "'")

/-! ### One token -/

/-- Takes the next token if it is of the kind `k`, and says whether it was. -/
def eat (k : TokenKind) : Reading Bool := do
  if (← kind) = k then
    advance
    return true
  else return false

/-- Takes a token of the kind `k`. -/
def expect (k : TokenKind) : Reading Unit := do
  if (← kind) = k then advance else expected .unexpectedToken ("'" ++ k.text ++ "'")

/-- Takes a token that `pick` accepts. -/
def expectSome {α : Type} (what : String) (pick : TokenKind → Option α) : Reading α := do
  match pick (← kind) with
  | some a =>
      advance
      return a
  | none => expected .unexpectedToken what

/-- Takes the name of a value. -/
def valueName : Reading Ident := do
  let span ← spanHere
  expectSome "SSA value" fun
    | .value name => some ⟨name, span⟩
    | _ => none

/-- Takes the name of a symbol. -/
def symbolName : Reading Ident := do
  let span ← spanHere
  expectSome "symbol name" fun
    | .symbol name => some ⟨name, span⟩
    | _ => none

/-- Takes a whole number. -/
def integerLiteral : Reading Int64 :=
  expectSome "integer literal" fun
    | .integer n => some n
    | _ => none

/-- Ends an operation: at line ends, which are taken, before a closing brace, or at the end of the
text. -/
def lineEnd : Reading Unit := do
  match ← kind with
  | .newline => skipNewlines
  | .rightBrace | .eof => return
  | _ => expected .unexpectedToken "end of line"

/-! ### Lists -/

/-- Items with commas between them, with `later` for those behind the next comma. -/
def commaSeparatedWith {α : Type} (item : Reading α) (later : Reading (List α)) :
    Reading (List α) := do
  let a ← item
  if ← eat .comma then return a :: (← later) else return [a]

/-- At most `n + 1` items with commas between them. -/
def commaSeparatedUpTo {α : Type} (item : Reading α) : Nat → Reading (List α)
  | 0 => return [← item]
  | n + 1 => commaSeparatedWith item (commaSeparatedUpTo item n)

/-- Items with commas between them, and at least one.  Every comma is a token that was ahead, so
their number bounds the list. -/
def commaSeparated {α : Type} (item : Reading α) : Reading (List α) := do
  commaSeparatedUpTo item (← get).ahead.length

/-- The same as `commaSeparated`, or nothing at all before the token `close`. -/
def commaSeparatedBefore {α : Type} (close : TokenKind) (item : Reading α) :
    Reading (List α) := do
  if (← kind) = close then return [] else commaSeparated item

/-- Operands, with `later` for those behind the next comma. -/
def operandsWith (later : Reading (List Ident)) : Reading (List Ident) := do
  match ← kind with
  | .value _ =>
      let a ← valueName
      if ← eat .comma then return a :: (← later) else return [a]
  | _ => return []

/-- At most `n` operands. -/
def operandsUpTo : Nat → Reading (List Ident)
  | 0 => return []
  | n + 1 => operandsWith (operandsUpTo n)

/-- The names of values with commas between them, as far as they go.  There may be none, and the
last one may have a comma behind it. -/
def operands : Reading (List Ident) := do
  operandsUpTo ((← get).ahead.length + 1)

end Reading

end ObjectModel
