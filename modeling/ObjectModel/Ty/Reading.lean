/-
**Reading types.**

Main definitions:

* `Ty.ofWidth?` — the words `i1`, `i2`, … that name whole numbers of a width;
* `Reading.ty` — one type;
* `Reading.tysBefore` — a list of types before a closing token.
-/

import ObjectModel.Text.Decimal
import ObjectModel.Token.Reading

set_option relaxedAutoImplicit false
set_option autoImplicit false

namespace ObjectModel

/-- The type that a word like `i64` names.  The width is a positive word of 32 bits. -/
def Ty.ofWidth? (name : String) : Option Ty :=
  match name.toList with
  | 'i' :: digits => do
      let n ← Decimal.natural? digits
      if 0 < n ∧ n < UInt32.size then some (.bits (.ofNat n)) else none
  | _ => none

namespace Reading

/-- One type, with `inner` for the types nested in it. -/
def tyWith (inner : Reading Ty) : Reading Ty := do
  let span ← spanHere
  match ← kind with
  | .typeName name =>
      advance
      match name with
      | "om.integer" => return .integer
      | "om.string" => return .string
      | "om.ref" => return .ref
      | "om.any" => return .any
      | "om.list" =>
          expect .less
          let element ← inner
          expect .greater
          return .list element
      | "om.map" =>
          expect .less
          let key ← inner
          expect .comma
          let value ← inner
          expect .greater
          return .map key value
      | "om.class.type" =>
          expect .less
          let target ← symbolName
          expect .greater
          return .object target.name
      | _ => failAt .unknownType ("unknown type '!" ++ name ++ "'") span
  | .word "tuple" =>
      advance
      expect .less
      let elements ← commaSeparatedBefore .greater inner
      expect .greater
      return .tuple elements
  | .word name =>
      match Ty.ofWidth? name with
      | some ty =>
          advance
          return ty
      | none => failAt .unknownType ("unknown type '" ++ name ++ "'") span
  | _ => expected .unexpectedToken "type"

/-- One type, nested at most `n` deep. -/
def tyUpTo : Nat → Reading Ty
  | 0 => expected .unexpectedToken "type"
  | n + 1 => tyWith (tyUpTo n)

/-- One type.  Each level of nesting takes a token, so their number bounds the depth. -/
def ty : Reading Ty := do
  tyUpTo ((← get).ahead.length + 1)

/-- Types with commas between them, or nothing at all before the token `close`. -/
def tysBefore (close : TokenKind) : Reading (List Ty) := commaSeparatedBefore close ty

end Reading

end ObjectModel
