/-
**Reading operations.**

An operation is a line: the value it defines and an equals sign, its name, its operands and its
types.  Every operation except a field defines a value, and a field stands only in a class.

Main definitions:

* `Operation.names` — the words that begin an operation or a declaration;
* `Reading.constantAction`, … — what stands behind the name of each operation;
* `Reading.operation` — one operation up to the end of its line.
-/

import ObjectModel.Attribute.Reading
import ObjectModel.Module

set_option relaxedAutoImplicit false
set_option autoImplicit false

namespace ObjectModel

/-- The words that begin an operation or a declaration. -/
def Operation.names : List String :=
  ["module", "om.class", "om.class.field", "om.constant", "om.object", "om.list_create",
    "om.tuple_create", "om.map_create", "hw.module"]

namespace Reading

/-! ### Behind the name -/

/-- A constant and its type. -/
def constantAction : Reading Action := do
  let value ← constant
  expect .colon
  return .constant value (← ty)

/-- A class, the values for its parameters with their types, and the type of the object. -/
def objectAction : Reading Action := do
  let target ← symbolName
  expect .leftParen
  let actuals ← operands
  expect .rightParen
  expect .colon
  expect .leftParen
  let operandTys ← tysBefore .rightParen
  expect .rightParen
  expect .arrow
  let resultTy ← ty
  if operandTys.length = actuals.length then return .object target actuals operandTys resultTy
  else
    failAt .unexpectedToken
      s!"om.object has {actuals.length} operand(s) but {operandTys.length} operand type(s)"
      target.span

/-- Elements and their type. -/
def listAction : Reading Action := do
  let elements ← operands
  expect .colon
  return .listCreate elements (← ty)

/-- Elements and a type for each. -/
def tupleAction : Reading Action := do
  let start ← spanHere
  let elements ← operands
  expect .colon
  let elementTys ← tysBefore .newline
  if elementTys.length = elements.length then return .tupleCreate elements elementTys
  else
    failAt .unexpectedToken
      s!"om.tuple_create has {elements.length} element(s) but {elementTys.length} type(s)" start

/-- Entries, and the types of keys and values. -/
def mapAction : Reading Action := do
  let entries ← operands
  expect .colon
  let keyTy ← ty
  expect .comma
  return .mapCreate entries keyTy (← ty)

/-- The name of a field, the value it exposes and its type. -/
def fieldAction : Reading Action := do
  let name ← symbolName
  expect .comma
  let value ← valueName
  expect .colon
  return .field name value (← ty)

/-! ### The operation -/

/-- Stops at the name of an operation that does not exist, or not here. -/
def unknownOperation {α : Type} (name : String) (span : Span) : Reading α :=
  if name ∈ Operation.names then
    failAt .unknownOperation ("'" ++ name ++ "' is not allowed here") span
  else
    throw
      { code := .unknownOperation
        message := "unknown operation '" ++ name ++ "'"
        span
        suggestion := some ("supported operations: " ++ ", ".intercalate Operation.names) }

/-- What the operation `name`, which stands at `span`, does. -/
def action (inClass : Bool) (name : String) (span : Span) : Reading Action :=
  match name with
  | "om.constant" => constantAction
  | "om.object" => objectAction
  | "om.list_create" => listAction
  | "om.tuple_create" => tupleAction
  | "om.map_create" => mapAction
  | "om.class.field" =>
      if inClass then fieldAction
      else
        failAt .unknownOperation "'om.class.field' must appear inside an 'om.class' body" span
  | _ => unknownOperation name span

/-- The value that an operation defines, if a value stands here. -/
def resultName : Reading (Option Ident) := do
  match ← kind with
  | .value _ =>
      let name ← valueName
      expect .equals
      return some name
  | _ => return none

/-- The name of an operation. -/
def operationName : Reading String := do
  match ← kind with
  | .word name =>
      advance
      return name
  | _ => expected .unexpectedToken "operation name"

/-- A field defines no value, and every other operation defines one. -/
def checkResult (result : Option Ident) (a : Action) (span : Span) : Reading Unit :=
  if result.isSome ∧ a.isField then
    failAt .unexpectedToken "'om.class.field' does not produce a result" span
  else if result.isNone ∧ !a.isField then
    failAt .unexpectedToken ("'" ++ a.name ++ "' must define a result value") span
  else return

/-- One operation, up to the end of its line. -/
def operation (inClass : Bool) : Reading Operation := do
  let start ← spanHere
  let result ← resultName
  let nameSpan ← spanHere
  let name ← operationName
  let action ← action inClass name nameSpan
  checkResult result action nameSpan
  let span := start.merge (← lastSpan)
  lineEnd
  return { result, action, span }

end Reading

end ObjectModel
