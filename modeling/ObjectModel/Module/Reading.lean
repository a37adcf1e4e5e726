/-
**Reading modules.**

A module is a list of items, one after the other, with or without the wrapper
`module \x7b … \x7d` around them.  An item that cannot be read is noted and skipped to the end of
its line, and reading goes on behind it, until too many problems are noted.

Main definitions:

* `Progress`, `Noting` — a cursor with the problems noted so far, and readers that note problems;
* `Noting.attempt` — a reader that stops at its first problem, as one that notes it;
* `Cursor.resume` — where reading goes on after an item that could not be read;
* `Noting.items` — items up to a closing token;
* `Noting.classDecl`, `Noting.module` — a class and a module;
* `Module.ofTokens?`, `Source.load` — the module of a list of tokens, and of a source.
-/

import ObjectModel.Operation.Reading
import ObjectModel.Token.Lexer

set_option relaxedAutoImplicit false
set_option autoImplicit false

namespace ObjectModel

/-! ### Noting problems -/

/-- Where reading stands, and what went wrong before. -/
structure Progress where
  /-- Where reading stands. -/
  cursor : Cursor
  /-- The problems noted, in the order they were found. -/
  problems : List Problem := []
  deriving DecidableEq, Inhabited

namespace Progress

/-- Whether so many problems are noted that reading stops. -/
def spent (p : Progress) : Bool := Report.maxErrors ≤ p.problems.length

/-- How much can still happen: tokens to take and problems to note. -/
def measure (p : Progress) : Nat :=
  p.cursor.ahead.length + (Report.maxErrors - p.problems.length)

end Progress

/-- A reader that notes its problems.  Without a result it has noted at least one. -/
abbrev Noting (α : Type) := OptionT (StateM Progress) α

/-- Where reading goes on when an item that began at `start` could not be read and reading stopped
at `c`: behind the end of the line or before a closing brace, whichever comes first.  If no token
was taken before that brace, it is taken now, so that reading moves on. -/
def Cursor.resume (start c : Cursor) : Cursor :=
  let c := c.skipWhile fun k => k != .eof && k != .newline && k != .rightBrace
  match c.kind with
  | .newline => c.skipNewlines
  | .rightBrace => if c.ahead.length = start.ahead.length then c.advance else c
  | _ => c

namespace Noting

/-- Runs a reader, and notes the problem if it stops at one. -/
def attempt {α : Type} (r : Reading α) : Noting α := OptionT.mk fun p =>
  match r p.cursor with
  | .ok a c => (some a, { p with cursor := c })
  | .error e c => (none, { cursor := c, problems := p.problems ++ [e] })

theorem run_attempt_of_ok {α : Type} {r : Reading α} {p : Progress} {a : α} {c : Cursor}
    (h : r p.cursor = .ok a c) : (attempt r).run.run p = (some a, { p with cursor := c }) := by
  simp [attempt, StateT.run, h]

theorem run_attempt_of_error {α : Type} {r : Reading α} {p : Progress} {e : Problem} {c : Cursor}
    (h : r p.cursor = .error e c) :
    (attempt r).run.run p = (none, ⟨c, p.problems ++ [e]⟩) := by
  simp [attempt, StateT.run, h]

theorem run_bind_of_some {α β : Type} {x : Noting α} {f : α → Noting β} {p p' : Progress} {a : α}
    (h : x.run.run p = (some a, p')) : (x >>= f).run.run p = (f a).run.run p' := by
  rw [OptionT.run_bind, Option.elimM, StateT.run_bind, h]
  rfl

theorem run_bind_of_none {α β : Type} {x : Noting α} {f : α → Noting β} {p p' : Progress}
    (h : x.run.run p = (none, p')) : (x >>= f).run.run p = (none, p') := by
  rw [OptionT.run_bind, Option.elimM, StateT.run_bind, h]
  rfl

/-- Notes a problem with the token that stands next, and goes on. -/
def note (code : Code) (message : String) : Noting Unit := OptionT.mk fun p =>
  (some (), { p with
    problems := p.problems ++ [{ code, message, span := p.cursor.token.span }] })

/-- Items, one after the other, up to the token `close`, the end of the text, or the problem that
is one too many.  Reading an item takes a token or notes a problem; one that does neither would be
the last. -/
def itemsFrom {α : Type} (close : TokenKind) (item : Noting α) (p : Progress) :
    List α × Progress :=
  if p.cursor.kind = close ∨ p.cursor.kind = .eof ∨ p.spent then ([], p)
  else
    let read := (item.run).run p
    let cursor := match read.1 with
      | some _ => read.2.cursor
      | none => p.cursor.resume read.2.cursor
    let next : Progress := { read.2 with cursor := cursor.skipNewlines }
    -- an item that fails has noted a problem, and one that succeeds has taken its first token
    if next.measure < p.measure then
      let later := itemsFrom close item next
      (read.1.toList ++ later.1, later.2)
    else (read.1.toList, next)
termination_by p.measure

/-- The items up to the token `close`, which stays. -/
def items {α : Type} (close : TokenKind) (item : Noting α) : Noting (List α) :=
  OptionT.mk fun p =>
    let read := itemsFrom close item p
    (some read.1, read.2)

end Noting

/-! ### Classes -/

namespace Reading

/-- A parameter and its type. -/
def param : Reading Param := do
  let name ← valueName
  expect .colon
  let ty ← ty
  return { name, ty, span := name.span.merge (← lastSpan) }

/-- The header of a class, from its first word to the brace that opens the body. -/
def classHeader : Reading (Ident × List Param) := do
  advance
  let name ← symbolName
  expect .leftParen
  let params ← commaSeparatedBefore .rightParen param
  expect .rightParen
  expect .leftBrace
  skipNewlines
  return (name, params)

/-- The brace that closes the body of a declaration, and the end of its line.  The result is the
span from `start` to the brace. -/
def closeBody (start : Span) (what : String) : Reading Span := do
  if (← kind) = .rightBrace then
    advance
    let span := start.merge (← lastSpan)
    lineEnd
    return span
  else fail .unclosedDelimiter ("unclosed body of " ++ what)

end Reading

/-- A class: its header, the operations of its body and the closing brace. -/
def Noting.classDecl : Noting ClassDecl := do
  let start ← attempt Reading.spanHere
  let (name, params) ← attempt Reading.classHeader
  let body ← items .rightBrace (attempt (Reading.operation true))
  let span ← attempt (Reading.closeBody start ("class @" ++ name.name))
  return { name, params, body, span }

/-! ### Hardware modules -/

namespace HardwareModule

/-- The tokens of a body that is open at `depth` braces besides the first, and what is left: the
brace that closes the first, or the end of the text. -/
def splitBody (depth : Nat) : List Token → List Token × List Token
  | [] => ([], [])
  | t :: ts =>
      match t.kind, depth with
      | .eof, _ => ([], t :: ts)
      | .rightBrace, 0 => ([], t :: ts)
      | .rightBrace, depth + 1 => (splitBody depth ts).map (t :: ·) id
      | .leftBrace, depth => (splitBody (depth + 1) ts).map (t :: ·) id
      | _, depth => (splitBody depth ts).map (t :: ·) id

/-- Nothing is lost. -/
theorem splitBody_append (depth : Nat) (ts : List Token) :
    (splitBody depth ts).1 ++ (splitBody depth ts).2 = ts := by
  induction ts generalizing depth with
  | nil => rfl
  | cons t ts ih => unfold splitBody; split <;> simp [Prod.map, ih]

/-- The symbol that the word `sym` announces, if `t` is that word and `ts` stands behind it. -/
def announced? (t : Token) (ts : List Token) : Option Ident :=
  if t.kind = .word "sym" then
    match ts with
    | ⟨.symbol name, span⟩ :: _ => some ⟨name, span⟩
    | _ => none
  else none

/-- The symbols that are announced anywhere in a body. -/
def announcedIn : List Token → List Ident
  | [] => []
  | t :: ts => (announced? t ts).toList ++ announcedIn ts

end HardwareModule

namespace Reading

/-- The symbols of the body of a hardware module, up to the brace that closes it, which stays. -/
def hardwareBody : Reading (List Ident) := do
  let c ← get
  let (body, rest) := HardwareModule.splitBody 0 c.ahead
  set (c.advanceTo body rest)
  return HardwareModule.announcedIn body

/-- A hardware module.  Between its name and the opening brace anything may stand on the line. -/
def hardware : Reading HardwareModule := do
  let start ← spanHere
  advance
  let name ← symbolName
  modify (·.skipWhile fun k => k != .leftBrace && k != .newline && k != .eof)
  if (← kind) = .leftBrace then advance
  else
    fail .unexpectedToken
      ("expected '\x7b' to open the body of hw.module @" ++ name.name)
  let innerSymbols ← hardwareBody
  let span ← closeBody start ("hw.module @" ++ name.name)
  return { name, innerSymbols, span }

end Reading

/-! ### Modules -/

namespace Noting

/-- One item of a module. -/
def item : Noting Item := do
  match ← attempt Reading.kind with
  | .word "om.class" => return .ofClass (← classDecl)
  | .word "hw.module" => return .ofHardware (← attempt Reading.hardware)
  | .word _ | .value _ => return .ofOperation (← attempt (Reading.operation false))
  | .rightBrace => attempt (Reading.fail .unexpectedToken "unbalanced '\x7d'")
  | _ => attempt (Reading.expected .unexpectedToken "operation")

/-- The items of a module, with or without the wrapper. -/
def moduleItems : Noting (List Item) := do
  if (← attempt Reading.kind) = .word "module" then
    attempt do
      Reading.advance
      Reading.expect .leftBrace
      Reading.skipNewlines
    let read ← items .rightBrace item
    attempt do
      Reading.expect .rightBrace
      Reading.skipNewlines
    return read
  else items .eof item

/-- A module, which is all there is. -/
def module (file : String) : Noting Module := do
  attempt Reading.skipNewlines
  let start ← attempt Reading.spanHere
  let items ← moduleItems
  let next ← attempt Reading.kind
  if next ≠ .eof then
    note .unexpectedToken ("expected end of file, got '" ++ next.text ++ "'")
  return { file, items, span := start.merge (← attempt Reading.lastSpan) }

end Noting

/-- The module of a list of tokens, and the problems of reading it.  There is no module only if
its wrapper could not be read. -/
def Module.ofTokens? (file : String) (ts : List Token) : Option Module × List Problem :=
  let read := ((Noting.module file).run).run { cursor := .ofTokens ts }
  (read.1, read.2.problems)

namespace Source

/-- The problem of a source that is no module, although nothing is wrong with it. -/
def unreadable : Problem :=
  { code := .unexpectedToken, message := "failed to parse module", span := .point .origin }

/-- The module of a source, or the report of what is wrong with it.  A source whose report is full
after its tokens is not read any further. -/
def load (s : Source) : Except Report Module :=
  if Report.maxErrors ≤ s.lexicalProblems.length then .error (s.report s.lexicalProblems)
  else
    let read := Module.ofTokens? s.name s.tokens
    match read.1, s.lexicalProblems ++ read.2 with
    | some m, [] => .ok m
    | none, [] => .error (s.report [unreadable])
    | _, ps => .error (s.report ps)

end Source

end ObjectModel
