/-
**The text and the JSON of a value.**

Main definitions:

* `Value.text`, `Object.text` — a value as it is shown;
* `Value.toJson`, `Object.toJson` — a value as JSON: lists, tuples and references are arrays, maps
  and objects are objects, and the name of a member is the text of its key.
-/

import ObjectModel.Json
import ObjectModel.Text.Quoted
import ObjectModel.Value

set_option relaxedAutoImplicit false
set_option autoImplicit false

namespace ObjectModel

/-! ### Text -/

/-- A key as it is shown: a text stands between quotes. -/
def Key.text : Key → String
  | integer n => toString n.toInt
  | string s => Text.quote s

/-- A reference as it is shown. -/
def SymbolPath.refText (p : SymbolPath) : String := "#om.ref<" ++ p.text ++ ">"

namespace Value

/-- Fields between braces, with a space on the inner side of each brace unless there are none. -/
def braced : List String → String
  | [] => "\x7b\x7d"
  | fields => "\x7b " ++ ", ".intercalate fields ++ " \x7d"

mutual

/-- A value as it is shown. -/
def text : Value → String
  | integer n => toString n.toInt
  | string s => Text.quote s
  | list _ vs => "[" ++ ", ".intercalate (texts vs) ++ "]"
  | tuple vs => "(" ++ ", ".intercalate (texts vs) ++ ")"
  | map _ _ es => "\x7b" ++ ", ".intercalate (entryTexts es) ++ "\x7d"
  | object c fs => "@" ++ c.name.name ++ " " ++ braced (fieldTexts fs)
  | ref p => p.refText

/-- Each value as it is shown. -/
def texts : List Value → List String
  | [] => []
  | v :: vs => v.text :: texts vs

/-- Each entry of a map as it is shown. -/
def entryTexts : List (Key × Value) → List String
  | [] => []
  | (k, v) :: es => (k.text ++ ": " ++ v.text) :: entryTexts es

/-- Each field of an object as it is shown. -/
def fieldTexts : List (String × Value) → List String
  | [] => []
  | (n, v) :: fs => (n ++ ": " ++ v.text) :: fieldTexts fs

end

end Value

/-- An object as it is shown. -/
def Object.text (o : Object) : String := o.toValue.text

/-! ### JSON -/

/-- The name of the member for a key. -/
def Key.memberName : Key → String
  | integer n => toString n.toInt
  | string s => s

namespace Value

mutual

/-- A value as JSON. -/
def toJson : Value → Json
  | integer n => .number n.toInt
  | string s => .string s
  | list _ vs => .array (jsons vs)
  | tuple vs => .array (jsons vs)
  | map _ _ es => .ofMembers (entryMembers es)
  | object _ fs => .ofMembers (fieldMembers fs)
  | ref p => .array (p.segments.map Json.string)

/-- Each value as JSON. -/
def jsons : List Value → List Json
  | [] => []
  | v :: vs => v.toJson :: jsons vs

/-- The members for the entries of a map. -/
def entryMembers : List (Key × Value) → List (String × Json)
  | [] => []
  | (k, v) :: es => (k.memberName, v.toJson) :: entryMembers es

/-- The members for the fields of an object. -/
def fieldMembers : List (String × Value) → List (String × Json)
  | [] => []
  | (n, v) :: fs => (n, v.toJson) :: fieldMembers fs

end

end Value

/-- An object as JSON. -/
def Object.toJson (o : Object) : Json := o.toValue.toJson

end ObjectModel
