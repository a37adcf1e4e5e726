/-
**Which values a type accepts.**

Main definitions:

* `Ty.acceptsKeys` — whether a type that is written down for keys accepts a kind of key;
* `Value.conforms` — whether a value may stand where a type is declared.
-/

import ObjectModel.Value

set_option relaxedAutoImplicit false
set_option autoImplicit false

namespace ObjectModel

/-- Whether keys of the kind `k` may stand where a map with keys of the type is declared. -/
def Ty.acceptsKeys (ty : Ty) (k : KeyKind) : Bool :=
  match KeyKind.ofTy? ty with
  | some l => l == k
  | none => ty == .any

namespace Value

mutual

/-- Whether a value may stand where a type is declared.  The width of a number is not looked at,
and a list or map is judged by what it contains. -/
def conforms : Value → Ty → Bool
  | _, .any => true
  | integer _, .integer => true
  | integer _, .bits _ => true
  | string _, .string => true
  | ref _, .ref => true
  | list _ vs, .list t => allConform vs t
  | map k _ es, .map kt vt => kt.acceptsKeys k && entriesConform es vt
  | tuple vs, .tuple ts => eachConforms vs ts
  | object c _, .object name => c.name.name == name
  | _, _ => false

/-- Whether all values of a list may stand where a type is declared. -/
def allConform : List Value → Ty → Bool
  | [], _ => true
  | v :: vs, t => conforms v t && allConform vs t

/-- Whether there are as many values as types and each conforms to its own. -/
def eachConforms : List Value → List Ty → Bool
  | [], [] => true
  | v :: vs, t :: ts => conforms v t && eachConforms vs ts
  | _, _ => false

/-- Whether the values of all entries may stand where a type is declared. -/
def entriesConform : List (Key × Value) → Ty → Bool
  | [], _ => true
  | (_, v) :: es, t => conforms v t && entriesConform es t

end

end Value

end ObjectModel
