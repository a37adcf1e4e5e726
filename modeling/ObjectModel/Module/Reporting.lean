/-
**Reading with a report at hand.**

Here a reader carries the report along.  When it cannot go on it does two things, one after the
other: it writes what is wrong into the report, and it gives no result.  Nothing but its own text
makes a reader do both, or makes one that has a result leave the report alone.  The readers are the
same as those that stop at their first problem, from a single token up to a whole source.

Main definitions:

* `Reporter`, `Reporting` — the source, the place in its tokens and the report, and readers that
  write into it;
* `Reporting.errorAt`, `Reporting.errorHere` — writing into the report;
* `Reporting.ty`, `Reporting.constant`, `Reporting.operation` — parts of a line, and a line;
* `Reporting.classDecl`, `Reporting.hardware`, `Reporting.module` — what is made of lines;
* `Reporting.read`, `Reporting.load` — the module of a list of tokens, and of a source.
-/

import ObjectModel.Module.Reading

set_option relaxedAutoImplicit false
set_option autoImplicit false

namespace ObjectModel

/-! ### The report at hand -/

/-- Where reading stands in the tokens of a source, and what was reported before. -/
structure Reporter where
  /-- The source, whose lines are quoted. -/
  source : Source
  /-- Where reading stands. -/
  cursor : Cursor
  /-- The report so far. -/
  report : Report := .empty
  deriving DecidableEq, Inhabited

namespace Reporter

/-- A problem as it stands in the report. -/
def diagnostic (p : Reporter) (e : Problem) : Diagnostic :=
  .ofProblem p.source.name p.source.quote e

/-- Writes a problem into the report. -/
def push (p : Reporter) (e : Problem) : Reporter :=
  { p with report := p.report.pushError (p.diagnostic e) }

/-- Goes on to another place. -/
def move (p : Reporter) (c : Cursor) : Reporter := { p with cursor := c }

/-- How much can still happen: tokens to take and problems to count. -/
def measure (p : Reporter) : Nat :=
  p.cursor.ahead.length + (Report.maxErrors - p.report.totalErrors)

end Reporter

/-- A reader that writes into the report.  It may have no result. -/
abbrev Reporting (α : Type) := OptionT (StateM Reporter) α

namespace Reporting

/-- The kind of the token that stands next. -/
def kind : Reporting TokenKind := return (← get).cursor.kind

/-- The span of the token that stands next. -/
def spanHere : Reporting Span := return (← get).cursor.token.span

/-- The span of the token taken last. -/
def lastSpan : Reporting Span := return (← get).cursor.last

/-- Takes one token. -/
def advance : Reporting Unit := modify fun p => p.move p.cursor.advance

/-- Takes the line ends that stand next. -/
def skipNewlines : Reporting Unit := modify fun p => p.move p.cursor.skipNewlines

/-- Reports a problem. -/
def error (e : Problem) : Reporting Unit := modify (·.push e)

/-- Reports a problem with the span `span`. -/
def errorAt (code : Code) (message : String) (span : Span) : Reporting Unit :=
  error { code, message, span }

/-- Reports a problem with the token that stands next. -/
def errorHere (code : Code) (message : String) : Reporting Unit := do
  errorAt code message (← spanHere)

/-- Reports that the token that stands next is not what was expected. -/
def unexpected (code : Code) (what : String) : Reporting Unit := do
  errorHere code ("expected " ++ what ++ ", got '" ++ (← kind).text ++ "'")

/-! ### One token -/

/-- Takes the next token if it is of the kind `k`, and says whether it was. -/
def eat (k : TokenKind) : Reporting Bool := do
  if (← kind) = k then
    advance
    return true
  else return false

/-- Takes a token of the kind `k`. -/
def expect (k : TokenKind) : Reporting Unit := do
  if (← kind) = k then advance
  else
    unexpected .unexpectedToken ("'" ++ k.text ++ "'")
    failure

/-- Takes a token that `pick` accepts. -/
def expectSome {α : Type} (what : String) (pick : TokenKind → Option α) : Reporting α := do
  match pick (← kind) with
  | some a =>
      advance
      return a
  | none =>
      unexpected .unexpectedToken what
      failure

/-- Takes the name of a value. -/
def valueName : Reporting Ident := do
  let span ← spanHere
  expectSome "SSA value" fun
    | .value name => some ⟨name, span⟩
    | _ => none

/-- Takes the name of a symbol. -/
def symbolName : Reporting Ident := do
  let span ← spanHere
  expectSome "symbol name" fun
    | .symbol name => some ⟨name, span⟩
    | _ => none

/-- Takes a whole number. -/
def integerLiteral : Reporting Int64 :=
  expectSome "integer literal" fun
    | .integer n => some n
    | _ => none

/-- Ends an operation: at line ends, which are taken, before a closing brace, or at the end of the
text. -/
def lineEnd : Reporting Unit := do
  match ← kind with
  | .newline => skipNewlines
  | .rightBrace | .eof => return
  | _ =>
      unexpected .unexpectedToken "end of line"
      failure

/-! ### Lists -/

/-- At most `n + 1` items with commas between them. -/
def commaSeparatedUpTo {α : Type} (item : Reporting α) : Nat → Reporting (List α)
  | 0 => return [← item]
  | n + 1 => do
      let a ← item
      if ← eat .comma then return a :: (← commaSeparatedUpTo item n) else return [a]

/-- Items with commas between them, or nothing at all before the token `close`. -/
def commaSeparatedBefore {α : Type} (close : TokenKind) (item : Reporting α) :
    Reporting (List α) := do
  if (← kind) = close then return []
  else commaSeparatedUpTo item (← get).cursor.ahead.length

/-- At most `n` operands. -/
def operandsUpTo : Nat → Reporting (List Ident)
  | 0 => return []
  | n + 1 => do
      match ← kind with
      | .value _ =>
          let a ← valueName
          if ← eat .comma then return a :: (← operandsUpTo n) else return [a]
      | _ => return []

/-- The names of values with commas between them, as far as they go. -/
def operands : Reporting (List Ident) := do
  operandsUpTo ((← get).cursor.ahead.length + 1)

/-! ### Types -/

/-- One type, with `inner` for the types nested in it. -/
def tyWith (inner : Reporting Ty) : Reporting Ty := do
  let span ← spanHere
  match ← kind with
  | .typeName name =>
      advance
      match name with
      | "om.integer" => return .integer
      | "om.string" => return .string
      | "om.ref" => return .ref
      | "om.any" => return .any
      | "om.list" =>
          expect .less
          let element ← inner
          expect .greater
          return .list element
      | "om.map" =>
          expect .less
          let key ← inner
          expect .comma
          let value ← inner
          expect .greater
          return .map key value
      | "om.class.type" =>
          expect .less
          let target ← symbolName
          expect .greater
          return .object target.name
      | _ =>
          errorAt .unknownType ("unknown type '!" ++ name ++ "'") span
          failure
  | .word "tuple" =>
      advance
      expect .less
      let elements ← commaSeparatedBefore .greater inner
      expect .greater
      return .tuple elements
  | .word name =>
      match Ty.ofWidth? name with
      | some ty =>
          advance
          return ty
      | none =>
          errorAt .unknownType ("unknown type '" ++ name ++ "'") span
          failure
  | _ =>
      unexpected .unexpectedToken "type"
      failure

/-- One type, nested at most `n` deep. -/
def tyUpTo : Nat → Reporting Ty
  | 0 => do
      unexpected .unexpectedToken "type"
      failure
  | n + 1 => tyWith (tyUpTo n)

/-- One type.  Each level of nesting takes a token, so their number bounds the depth. -/
def ty : Reporting Ty := do
  tyUpTo ((← get).cursor.ahead.length + 1)

/-- Types with commas between them, or nothing at all before the token `close`. -/
def tysBefore (close : TokenKind) : Reporting (List Ty) := commaSeparatedBefore close ty

/-! ### Constants -/

/-- A type behind an element of a list or map.  It may be missing, and it says nothing. -/
def optionalTy : Reporting Unit := do
  if ← eat .colon then
    let _ ← ty

/-- The key of an entry of a map: a word or a string. -/
def mapKey : Reporting String := do
  match ← kind with
  | .word key | .string key =>
      advance
      return key
  | _ =>
      unexpected .invalidAttribute "map key"
      failure

/-- The names of a path, with double colons between them; at most `n + 1`. -/
def segmentsUpTo : Nat → Reporting (List String)
  | 0 => return [(← symbolName).name]
  | n + 1 => do
      let segment ← symbolName
      if ← eat .doubleColon then return segment.name :: (← segmentsUpTo n)
      else return [segment.name]

/-- A path between two pairs of angle brackets. -/
def symbolPath : Reporting SymbolPath := do
  expect .less
  expect .less
  let segments ← segmentsUpTo (← get).cursor.ahead.length
  expect .greater
  expect .greater
  return ⟨segments⟩

/-- One constant, with `inner` for the constants nested in it. -/
def constantWith (inner : Reporting Attribute) : Reporting Attribute := do
  let span ← spanHere
  match ← kind with
  | .integer value =>
      advance
      return .integer value
  | .string value =>
      advance
      return .string value
  | .attrName name =>
      advance
      match name with
      | "om.integer" =>
          expect .less
          let value ← integerLiteral
          expect .greater
          return .integer value
      | "om.list" =>
          expect .less
          let elementTy ← ty
          expect .comma
          expect .leftBracket
          let elements ← commaSeparatedBefore .rightBracket do
            let element ← inner
            optionalTy
            return element
          expect .rightBracket
          expect .greater
          return .list elementTy elements
      | "om.map" =>
          expect .less
          let valueTy ← ty
          expect .comma
          expect .leftBrace
          let entries ← commaSeparatedBefore .rightBrace do
            let key ← mapKey
            expect .equals
            let value ← inner
            optionalTy
            return (key, value)
          expect .rightBrace
          expect .greater
          return .map valueTy entries
      | "om.ref" => return .ref (← symbolPath)
      | _ =>
          errorAt .invalidAttribute ("unknown attribute '#" ++ name ++ "'") span
          failure
  | _ =>
      unexpected .invalidAttribute "constant attribute"
      failure

/-- One constant, nested at most `n` deep. -/
def constantUpTo : Nat → Reporting Attribute
  | 0 => do
      unexpected .invalidAttribute "constant attribute"
      failure
  | n + 1 => constantWith (constantUpTo n)

/-- One constant.  Each level of nesting takes a token, so their number bounds the depth. -/
def constant : Reporting Attribute := do
  constantUpTo ((← get).cursor.ahead.length + 1)

/-! ### Operations -/

/-- A constant and its type. -/
def constantAction : Reporting Action := do
  let value ← constant
  expect .colon
  return .constant value (← ty)

/-- A class, the values for its parameters with their types, and the type of the object. -/
def objectAction : Reporting Action := do
  let target ← symbolName
  expect .leftParen
  let actuals ← operands
  expect .rightParen
  expect .colon
  expect .leftParen
  let operandTys ← tysBefore .rightParen
  expect .rightParen
  expect .arrow
  let resultTy ← ty
  if operandTys.length = actuals.length then return .object target actuals operandTys resultTy
  else
    errorAt .unexpectedToken
      s!"om.object has {actuals.length} operand(s) but {operandTys.length} operand type(s)"
      target.span
    failure

/-- Elements and their type. -/
def listAction : Reporting Action := do
  let elements ← operands
  expect .colon
  return .listCreate elements (← ty)

/-- Elements and a type for each. -/
def tupleAction : Reporting Action := do
  let start ← spanHere
  let elements ← operands
  expect .colon
  let elementTys ← tysBefore .newline
  if elementTys.length = elements.length then return .tupleCreate elements elementTys
  else
    errorAt .unexpectedToken
      s!"om.tuple_create has {elements.length} element(s) but {elementTys.length} type(s)" start
    failure

/-- Entries, and the types of keys and values. -/
def mapAction : Reporting Action := do
  let entries ← operands
  expect .colon
  let keyTy ← ty
  expect .comma
  return .mapCreate entries keyTy (← ty)

/-- The name of a field, the value it exposes and its type. -/
def fieldAction : Reporting Action := do
  let name ← symbolName
  expect .comma
  let value ← valueName
  expect .colon
  return .field name value (← ty)

/-- Reports the name of an operation that does not exist, or not here. -/
def unknownOperation (name : String) (span : Span) : Reporting Unit :=
  if name ∈ Operation.names then
    errorAt .unknownOperation ("'" ++ name ++ "' is not allowed here") span
  else
    error
      { code := .unknownOperation
        message := "unknown operation '" ++ name ++ "'"
        span
        suggestion := some ("supported operations: " ++ ", ".intercalate Operation.names) }

/-- What the operation `name`, which stands at `span`, does. -/
def action (inClass : Bool) (name : String) (span : Span) : Reporting Action := do
  match name with
  | "om.constant" => constantAction
  | "om.object" => objectAction
  | "om.list_create" => listAction
  | "om.tuple_create" => tupleAction
  | "om.map_create" => mapAction
  | "om.class.field" =>
      if inClass then fieldAction
      else
        errorAt .unknownOperation "'om.class.field' must appear inside an 'om.class' body" span
        failure
  | _ =>
      unknownOperation name span
      failure

/-- The value that an operation defines, if a value stands here. -/
def resultName : Reporting (Option Ident) := do
  match ← kind with
  | .value _ =>
      let name ← valueName
      expect .equals
      return some name
  | _ => return none

/-- The name of an operation. -/
def operationName : Reporting String := do
  match ← kind with
  | .word name =>
      advance
      return name
  | _ =>
      unexpected .unexpectedToken "operation name"
      failure

/-- A field defines no value, and every other operation defines one. -/
def checkResult (result : Option Ident) (a : Action) (span : Span) : Reporting Unit := do
  if result.isSome ∧ a.isField then
    errorAt .unexpectedToken "'om.class.field' does not produce a result" span
    failure
  else if result.isNone ∧ !a.isField then
    errorAt .unexpectedToken ("'" ++ a.name ++ "' must define a result value") span
    failure
  else return

/-- One operation, up to the end of its line. -/
def operation (inClass : Bool) : Reporting Operation := do
  let start ← spanHere
  let result ← resultName
  let nameSpan ← spanHere
  let name ← operationName
  let action ← action inClass name nameSpan
  checkResult result action nameSpan
  let span := start.merge (← lastSpan)
  lineEnd
  return { result, action, span }

/-! ### Items -/

/-- Items, one after the other, up to the token `close`, the end of the text, or the problem that
is one too many.  An item without a result is skipped to the end of its line.  Reading an item takes
a token or reports a problem; one that does neither would be the last. -/
def itemsFrom {α : Type} (close : TokenKind) (item : Reporting α) (p : Reporter) :
    List α × Reporter :=
  if p.cursor.kind = close ∨ p.cursor.kind = .eof ∨ p.report.isFull then ([], p)
  else
    let read := (item.run).run p
    let cursor := match read.1 with
      | some _ => read.2.cursor
      | none => p.cursor.resume read.2.cursor
    let next := read.2.move cursor.skipNewlines
    if next.measure < p.measure then
      let later := itemsFrom close item next
      (read.1.toList ++ later.1, later.2)
    else (read.1.toList, next)
termination_by p.measure

/-- The items up to the token `close`, which stays. -/
def items {α : Type} (close : TokenKind) (item : Reporting α) : Reporting (List α) :=
  OptionT.mk fun p =>
    let read := itemsFrom close item p
    (some read.1, read.2)

/-- A parameter and its type. -/
def param : Reporting Param := do
  let name ← valueName
  expect .colon
  let ty ← ty
  return { name, ty, span := name.span.merge (← lastSpan) }

/-- The header of a class, from its first word to the brace that opens the body. -/
def classHeader : Reporting (Ident × List Param) := do
  advance
  let name ← symbolName
  expect .leftParen
  let params ← commaSeparatedBefore .rightParen param
  expect .rightParen
  expect .leftBrace
  skipNewlines
  return (name, params)

/-- The brace that closes the body of a declaration, and the end of its line.  The result is the
span from `start` to the brace. -/
def closeBody (start : Span) (what : String) : Reporting Span := do
  if (← kind) = .rightBrace then
    advance
    let span := start.merge (← lastSpan)
    lineEnd
    return span
  else
    errorHere .unclosedDelimiter ("unclosed body of " ++ what)
    failure

/-- A class: its header, the operations of its body and the closing brace. -/
def classDecl : Reporting ClassDecl := do
  let start ← spanHere
  let (name, params) ← classHeader
  let body ← items .rightBrace (operation true)
  let span ← closeBody start ("class @" ++ name.name)
  return { name, params, body, span }

/-- The symbols of the body of a hardware module, up to the brace that closes it, which stays. -/
def hardwareBody : Reporting (List Ident) := do
  let p ← get
  let (body, rest) := HardwareModule.splitBody 0 p.cursor.ahead
  set (p.move (p.cursor.advanceTo body rest))
  return HardwareModule.announcedIn body

/-- A hardware module.  Between its name and the opening brace anything may stand on the line. -/
def hardware : Reporting HardwareModule := do
  let start ← spanHere
  advance
  let name ← symbolName
  modify fun p => p.move (p.cursor.skipWhile fun k => k != .leftBrace && k != .newline && k != .eof)
  if (← kind) = .leftBrace then advance
  else
    errorHere .unexpectedToken ("expected '\x7b' to open the body of hw.module @" ++ name.name)
    failure
  let innerSymbols ← hardwareBody
  let span ← closeBody start ("hw.module @" ++ name.name)
  return { name, innerSymbols, span }

/-- One item of a module. -/
def item : Reporting Item := do
  match ← kind with
  | .word "om.class" => return .ofClass (← classDecl)
  | .word "hw.module" => return .ofHardware (← hardware)
  | .word _ | .value _ => return .ofOperation (← operation false)
  | .rightBrace =>
      errorHere .unexpectedToken "unbalanced '\x7d'"
      failure
  | _ =>
      unexpected .unexpectedToken "operation"
      failure

/-! ### Modules -/

/-- The beginning of the wrapper around a module. -/
def openWrapper : Reporting Unit := do
  advance
  expect .leftBrace
  skipNewlines

/-- The end of the wrapper around a module. -/
def closeWrapper : Reporting Unit := do
  expect .rightBrace
  skipNewlines

/-- The items of a module, with or without the wrapper. -/
def moduleItems : Reporting (List Item) := do
  if (← kind) = .word "module" then
    openWrapper
    let read ← items .rightBrace item
    closeWrapper
    return read
  else items .eof item

/-- A module, which is all there is.  What stands behind it is reported, but the module is there. -/
def module : Reporting Module := do
  skipNewlines
  let start ← spanHere
  let items ← moduleItems
  let next ← kind
  if next ≠ .eof then
    errorHere .unexpectedToken ("expected end of file, got '" ++ next.text ++ "'")
  return { file := (← get).source.name, items, span := start.merge (← lastSpan) }

/-- The module of the tokens `ts` of a source, and the report of reading it. -/
def read (s : Source) (ts : List Token) : Option Module × Report :=
  let read := (module.run).run { source := s, cursor := .ofTokens ts }
  (read.1, read.2.report)

/-- The module of a source, or the report of what is wrong with it: what was found in its text, and
what was found in its tokens.  A source whose report is full after its tokens is not read any
further. -/
def load (s : Source) : Except Report Module :=
  let found := s.report s.lexicalProblems
  if found.isFull then .error found
  else
    let read := read s s.tokens
    let report := found.extend read.2
    match read.1 with
    | some m => if report.hasErrors then .error report else .ok m
    | none =>
        if report.hasErrors then .error report
        else .error (report.pushError (.ofProblem s.name s.quote Source.unreadable))

end Reporting

end ObjectModel
