/-
**Reading constants.**

Main definitions:

* `Reading.constant` — one constant;
* `Reading.mapKey`, `Reading.optionalTy` — parts of lists and maps of constants.
-/

import ObjectModel.Ty.Reading

set_option relaxedAutoImplicit false
set_option autoImplicit false

namespace ObjectModel

namespace Reading

/-- A type behind an element of a list or map.  It may be missing, and it says nothing. -/
def optionalTy : Reading Unit := do
  if ← eat .colon then
    let _ ← ty

/-- The key of an entry of a map: a word or a string. -/
def mapKey : Reading String := do
  match ← kind with
  | .word key | .string key =>
      advance
      return key
  | _ => expected .invalidAttribute "map key"

/-- The names of a path, with `later` for those behind the next double colon. -/
def segmentsWith (later : Reading (List String)) : Reading (List String) := do
  let segment ← symbolName
  if ← eat .doubleColon then return segment.name :: (← later) else return [segment.name]

/-- The names of a path, with double colons between them; at most `n + 1`. -/
def segmentsUpTo : Nat → Reading (List String)
  | 0 => return [(← symbolName).name]
  | n + 1 => segmentsWith (segmentsUpTo n)

/-- A path between two pairs of angle brackets. -/
def symbolPath : Reading SymbolPath := do
  expect .less
  expect .less
  let segments ← segmentsUpTo (← get).ahead.length
  expect .greater
  expect .greater
  return ⟨segments⟩

/-- One constant, with `inner` for the constants nested in it. -/
def constantWith (inner : Reading Attribute) : Reading Attribute := do
  let span ← spanHere
  match ← kind with
  | .integer value =>
      advance
      return .integer value
  | .string value =>
      advance
      return .string value
  | .attrName name =>
      advance
      match name with
      | "om.integer" =>
          expect .less
          let value ← integerLiteral
          expect .greater
          return .integer value
      | "om.list" =>
          expect .less
          let elementTy ← ty
          expect .comma
          expect .leftBracket
          let elements ← commaSeparatedBefore .rightBracket do
            let element ← inner
            optionalTy
            return element
          expect .rightBracket
          expect .greater
          return .list elementTy elements
      | "om.map" =>
          expect .less
          let valueTy ← ty
          expect .comma
          expect .leftBrace
          let entries ← commaSeparatedBefore .rightBrace do
            let key ← mapKey
            expect .equals
            let value ← inner
            optionalTy
            return (key, value)
          expect .rightBrace
          expect .greater
          return .map valueTy entries
      | "om.ref" => return .ref (← symbolPath)
      | _ => failAt .invalidAttribute ("unknown attribute '#" ++ name ++ "'") span
  | _ => expected .invalidAttribute "constant attribute"

/-- One constant, nested at most `n` deep. -/
def constantUpTo : Nat → Reading Attribute
  | 0 => expected .invalidAttribute "constant attribute"
  | n + 1 => constantWith (constantUpTo n)

/-- One constant.  Each level of nesting takes a token, so their number bounds the depth. -/
def constant : Reading Attribute := do
  constantUpTo ((← get).ahead.length + 1)

end Reading

end ObjectModel
