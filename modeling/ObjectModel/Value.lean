/-
**Values and objects.**

Main definitions:

* `Class` — a class of a loaded module, which knows its file;
* `Key`, `KeyKind` — the keys of maps, which are whole numbers or texts;
* `Value`, `Object` — what evaluation makes;
* `Value.same` — when two values count as equal: what the type of a list or map says about its
  elements makes no difference, and an object is known by the name of its class.

Main results:

* `Key.ofValue?_eq_some_iff` — a value is a key exactly when it is that key as a value;
* `Value.same_self` — every value is equal to itself.
-/

import ObjectModel.Module

set_option relaxedAutoImplicit false
set_option autoImplicit false

namespace ObjectModel

/-! ### Classes -/

/-- A class of a loaded module. -/
structure Class extends ClassDecl where
  /-- The file of the module. -/
  file : String
  deriving Inhabited

namespace Class

/-- Where the class is declared. -/
def location (c : Class) : Location := .ofSpan c.file c.span

/-- The operation of the body that defines the value of a name. -/
def definition? (c : Class) (name : String) : Option Operation :=
  c.body.find? fun op => op.defines name

/-- The field of a name. -/
def field? (c : Class) (name : String) : Option Field :=
  c.fields.find? fun f => f.name.name == name

end Class

/-! ### Keys -/

/-- What the keys of a map are. -/
inductive KeyKind where
  | integer
  | string
  deriving DecidableEq, Inhabited

namespace KeyKind

/-- The word for a kind of key. -/
def text : KeyKind → String
  | integer => "integer"
  | string => "string"

/-- The kind of the keys of a type, if values of the type can be keys. -/
def ofTy? : Ty → Option KeyKind
  | .integer | .bits _ => some integer
  | .string => some string
  | _ => none

end KeyKind

/-- A key of a map. -/
inductive Key where
  | integer (n : Int64)
  | string (s : String)
  deriving DecidableEq, Inhabited

/-- The kind of a key. -/
def Key.kind : Key → KeyKind
  | integer _ => .integer
  | string _ => .string

/-! ### Values -/

/-- A value. -/
inductive Value where
  /-- A whole number. -/
  | integer (n : Int64)
  /-- A text. -/
  | string (s : String)
  /-- A list, with the type that was written down for its elements. -/
  | list (elementTy : Ty) (elements : List Value)
  /-- A tuple. -/
  | tuple (elements : List Value)
  /-- A map in the order in which its keys were first written, with the kind of its keys and the
  type that was written down for its values. -/
  | map (keyKind : KeyKind) (valueTy : Ty) (entries : List (Key × Value))
  /-- An object, with its fields in the order of their declaration. -/
  | object (cls : Class) (fields : List (String × Value))
  /-- A reference to a declared symbol. -/
  | ref (path : SymbolPath)
  deriving Inhabited

/-- What a value is. -/
inductive ValueKind where
  | integer
  | string
  | list
  | tuple
  | map
  | object
  | reference
  deriving DecidableEq, Inhabited

/-- The word for a kind of value. -/
def ValueKind.text : ValueKind → String
  | integer => "integer"
  | string => "string"
  | list => "list"
  | tuple => "tuple"
  | map => "map"
  | object => "object"
  | reference => "reference"

/-- What a value is. -/
def Value.kind : Value → ValueKind
  | integer _ => .integer
  | string _ => .string
  | list .. => .list
  | tuple _ => .tuple
  | map .. => .map
  | object .. => .object
  | ref _ => .reference

/-- The key that a value is. -/
def Key.ofValue? : Value → Option Key
  | .integer n => some (.integer n)
  | .string s => some (.string s)
  | _ => none

/-- The value that a key is. -/
def Key.toValue : Key → Value
  | .integer n => .integer n
  | .string s => .string s

/-- A value is a key exactly when it is that key as a value. -/
theorem Key.ofValue?_eq_some_iff {v : Value} {k : Key} :
    Key.ofValue? v = some k ↔ v = k.toValue := by
  cases v <;> cases k <;> simp [Key.ofValue?, Key.toValue]

/-- An object: its class and the value of each of its fields, in the order of declaration. -/
structure Object where
  /-- The class. -/
  cls : Class
  /-- The fields. -/
  fields : List (String × Value)
  deriving Inhabited

namespace Object

/-- An object as a value. -/
def toValue (o : Object) : Value := .object o.cls o.fields

/-- The object that a value is. -/
def ofValue? : Value → Option Object
  | .object cls fields => some ⟨cls, fields⟩
  | _ => none

@[simp] theorem ofValue?_toValue (o : Object) : ofValue? o.toValue = some o := rfl

/-- The value of the field of a name. -/
def field? (o : Object) (name : String) : Option Value := o.fields.lookup name

end Object

/-! ### Equality -/

namespace Value

mutual

/-- Whether two values count as equal. -/
def same : Value → Value → Bool
  | integer m, integer n => m == n
  | string s, string t => s == t
  | list _ us, list _ vs => sameAll us vs
  | tuple us, tuple vs => sameAll us vs
  | map k _ us, map l _ vs => k == l && sameEntries us vs
  | object c us, object d vs => c.name.name == d.name.name && sameFields us vs
  | ref p, ref q => p == q
  | _, _ => false
termination_by structural v => v

/-- Whether two lists of values count as equal, one by one. -/
def sameAll : List Value → List Value → Bool
  | [], [] => true
  | u :: us, v :: vs => same u v && sameAll us vs
  | _, _ => false
termination_by structural v => v

/-- Whether two lists of entries count as equal, one by one. -/
def sameEntries : List (Key × Value) → List (Key × Value) → Bool
  | [], [] => true
  | (k, u) :: us, (l, v) :: vs => k == l && same u v && sameEntries us vs
  | _, _ => false
termination_by structural v => v

/-- Whether two lists of fields count as equal, one by one. -/
def sameFields : List (String × Value) → List (String × Value) → Bool
  | [], [] => true
  | (m, u) :: us, (n, v) :: vs => m == n && same u v && sameFields us vs
  | _, _ => false
termination_by structural v => v

end

mutual

theorem same_self : ∀ v : Value, same v v = true
  | integer _ => by simp [same]
  | string _ => by simp [same]
  | list _ vs => by simp [same, sameAll_self vs]
  | tuple vs => by simp [same, sameAll_self vs]
  | map _ _ es => by simp [same, sameEntries_self es]
  | object _ fs => by simp [same, sameFields_self fs]
  | ref _ => by simp [same]

theorem sameAll_self : ∀ vs : List Value, sameAll vs vs = true
  | [] => rfl
  | v :: vs => by simp [sameAll, same_self v, sameAll_self vs]

theorem sameEntries_self : ∀ es : List (Key × Value), sameEntries es es = true
  | [] => rfl
  | (k, v) :: es => by simp [sameEntries, same_self v, sameEntries_self es]

theorem sameFields_self : ∀ fs : List (String × Value), sameFields fs fs = true
  | [] => rfl
  | (n, v) :: fs => by simp [sameFields, same_self v, sameFields_self fs]

end

end Value

end ObjectModel
