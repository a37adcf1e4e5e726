/-
**Modules: classes, hardware modules and shared values.**

A module declares classes.  A class has parameters and a body of operations, most of which define
a value; the fields of its objects expose some of these values.  Values that are defined outside
of all classes are shared by them.

Main definitions:

* `Action`, `Operation` — what an operation does, and the value it defines;
* `ClassDecl`, `HardwareModule`, `Item`, `Module` — the declarations;
* `Action.operands` — the values that an operation uses;
* `ClassDecl.fields`, `ClassDecl.signature` — the fields of a class, and its header.
-/

import ObjectModel.Attribute

set_option relaxedAutoImplicit false
set_option autoImplicit false

namespace ObjectModel

/-! ### Operations -/

/-- What an operation does. -/
inductive Action where
  /-- Writes down a constant. -/
  | constant (value : Attribute) (ty : Ty)
  /-- Makes an object of a class. -/
  | object (target : Ident) (actuals : List Ident) (operandTys : List Ty) (ty : Ty)
  /-- Makes a list. -/
  | listCreate (elements : List Ident) (elementTy : Ty)
  /-- Makes a tuple. -/
  | tupleCreate (elements : List Ident) (elementTys : List Ty)
  /-- Makes a map from pairs of a key and a value. -/
  | mapCreate (entries : List Ident) (keyTy valueTy : Ty)
  /-- Declares a field of the class and names the value it exposes. -/
  | field (name value : Ident) (ty : Ty)
  deriving Inhabited

namespace Action

/-- The name of an operation as it is written. -/
def name : Action → String
  | constant .. => "om.constant"
  | object .. => "om.object"
  | listCreate .. => "om.list_create"
  | tupleCreate .. => "om.tuple_create"
  | mapCreate .. => "om.map_create"
  | field .. => "om.class.field"

/-- The values that an operation uses, in the order it uses them. -/
def operands : Action → List Ident
  | constant .. => []
  | object _ actuals _ _ => actuals
  | listCreate elements _ => elements
  | tupleCreate elements _ => elements
  | mapCreate entries _ _ => entries
  | field _ value _ => [value]

/-- Whether the operation declares a field. -/
def isField : Action → Bool
  | field .. => true
  | _ => false

/-- The class of which the operation makes an object. -/
def target? : Action → Option Ident
  | object target .. => some target
  | _ => none

end Action

/-- An operation, and the value it defines if it defines one. -/
structure Operation where
  /-- The value it defines. -/
  result : Option Ident
  /-- What it does. -/
  action : Action
  /-- Where it stands. -/
  span : Span
  deriving Inhabited

/-- Whether the operation defines the value of a name. -/
def Operation.defines (op : Operation) (name : String) : Bool :=
  op.result.any fun r => r.name == name

/-! ### Declarations -/

/-- A parameter of a class. -/
structure Param where
  /-- The name of the value it binds. -/
  name : Ident
  /-- The type that the value must have. -/
  ty : Ty
  /-- Where it stands. -/
  span : Span
  deriving DecidableEq, Inhabited

/-- A parameter as it is written. -/
def Param.text (p : Param) : String := "%" ++ p.name.name ++ ": " ++ p.ty.text

/-- A field that a class declares. -/
structure Field where
  /-- The name of the field. -/
  name : Ident
  /-- The value it exposes. -/
  value : Ident
  /-- The type that is written down for it. -/
  ty : Ty
  /-- The span of the operation that declares it. -/
  span : Span
  deriving DecidableEq, Inhabited

/-- The field that an operation declares. -/
def Operation.field? (op : Operation) : Option Field :=
  match op.action with
  | .field name value ty => some ⟨name, value, ty, op.span⟩
  | _ => none

/-- A class. -/
structure ClassDecl where
  /-- Its name. -/
  name : Ident
  /-- Its parameters. -/
  params : List Param
  /-- The operations of its body, in the order of the text. -/
  body : List Operation
  /-- Where it stands. -/
  span : Span
  deriving Inhabited

namespace ClassDecl

/-- The fields of a class, in the order of the text. -/
def fields (c : ClassDecl) : List Field := c.body.filterMap Operation.field?

/-- The classes of which the body makes objects, in the order of the text. -/
def targets (c : ClassDecl) : List Ident := c.body.filterMap fun op => op.action.target?

/-- The header of a class. -/
def signature (c : ClassDecl) : String :=
  "om.class @" ++ c.name.name ++ "(" ++ ", ".intercalate (c.params.map Param.text) ++ ")"

end ClassDecl

/-- A hardware module, of which only the names that can be referred to are kept. -/
structure HardwareModule where
  /-- Its name. -/
  name : Ident
  /-- The symbols inside it. -/
  innerSymbols : List Ident
  /-- Where it stands. -/
  span : Span
  deriving DecidableEq, Inhabited

/-- What stands directly in a module. -/
inductive Item where
  /-- A class. -/
  | ofClass (c : ClassDecl)
  /-- A hardware module. -/
  | ofHardware (h : HardwareModule)
  /-- An operation that defines a shared value. -/
  | ofOperation (op : Operation)
  deriving Inhabited

/-- The name that an item declares. -/
def Item.symbol? : Item → Option Ident
  | ofClass c => some c.name
  | ofHardware h => some h.name
  | ofOperation _ => none

/-- A module. -/
structure Module where
  /-- The name of the file it was read from, possibly empty. -/
  file : String
  /-- What stands in it, in the order of the text. -/
  items : List Item
  /-- Where it stands. -/
  span : Span
  deriving Inhabited

namespace Module

/-- The classes, in the order of the text. -/
def classes (m : Module) : List ClassDecl :=
  m.items.filterMap fun
    | .ofClass c => some c
    | _ => none

/-- The hardware modules, in the order of the text. -/
def hardware (m : Module) : List HardwareModule :=
  m.items.filterMap fun
    | .ofHardware h => some h
    | _ => none

/-- The operations that define shared values, in the order of the text. -/
def operations (m : Module) : List Operation :=
  m.items.filterMap fun
    | .ofOperation op => some op
    | _ => none

/-- A place in the file of the module. -/
def location (m : Module) (s : Span) : Location := .ofSpan m.file s

end Module

end ObjectModel
