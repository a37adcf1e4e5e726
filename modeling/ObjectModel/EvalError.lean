/-
**What can go wrong when an object is made or looked at.**

Main definitions:

* `EvalError` — the causes;
* `EvalError.text`, `EvalError.notes`, `EvalError.render` — a cause in words, with its place and
  the notes below it;
* `Failure` — a cause, and what it kept from being done.
-/

import ObjectModel.Text.Blank
import ObjectModel.Value.Text

set_option relaxedAutoImplicit false
set_option autoImplicit false

namespace ObjectModel

/-- What an index points into. -/
inductive Container where
  | tuple
  | list
  deriving DecidableEq, Inhabited

/-- The word for a container. -/
def Container.text : Container → String
  | tuple => "tuple"
  | list => "list"

/-- Why an object could not be made, or a part of a value not be found. -/
inductive EvalError where
  /-- There is no class of this name. -/
  | classNotFound (name : String) (loc : Location)
  /-- A class is given more or fewer values than it has parameters. -/
  | parameterArity (className : String) (expected actual : Nat) (formals actuals : List String)
      (loc : Location)
  /-- A value does not conform to the type of its parameter. -/
  | parameterTypeMismatch (className : String) (index : Nat) (name : String) (expected : Ty)
      (actual : String) (loc : Location)
  /-- An object has no field of this name. -/
  | fieldNotFound (name operation : String) (loc : Location)
  /-- A reference names no declared symbol. -/
  | symbolResolution (path : SymbolPath) (loc : Location)
  /-- A list or tuple has no element of this index. -/
  | indexOutOfRange (container : Container) (index arity : Nat)
  /-- A map has keys of another kind. -/
  | keyKindMismatch (expected : KeyKind) (actual : ValueKind)
  /-- A map has no such key. -/
  | keyNotFound (key : Key)
  /-- No operation defines a value of this name. -/
  | undefinedValue (name : String) (loc : Location)
  /-- A value is not what the operation needs. -/
  | typeMismatch (message : String) (loc : Location)
  /-- Too many objects are being made inside each other. -/
  | depthExceeded (className : String) (limit : Nat) (loc : Location)
  deriving DecidableEq, Inhabited

namespace EvalError

/-- A cause in words. -/
def text : EvalError → String
  | classNotFound name _ => "unknown class name \"" ++ name ++ "\""
  | parameterArity _ expected actual _ _ _ =>
      s!"actual parameter list length ({actual}) does not match formal parameter list length "
        ++ s!"({expected})"
  | parameterTypeMismatch _ index name expected actual _ =>
      s!"actual parameter {index} ({actual}) does not match the type of formal parameter "
        ++ "%" ++ name ++ " (" ++ expected.text ++ ")"
  | fieldNotFound name _ _ => "field \"" ++ name ++ "\" does not exist"
  | symbolResolution path _ => "unable to resolve symbol reference " ++ path.text
  | indexOutOfRange container index arity =>
      container.text ++ s!" index out of range (index {index}, arity {arity})"
  | keyKindMismatch _ actual => "key is not " ++ actual.text
  | keyNotFound key => "key not found: " ++ key.text
  | undefinedValue name _ => "use of undefined value %" ++ name
  | typeMismatch message _ => message
  | depthExceeded className limit _ =>
      s!"instantiation depth limit ({limit}) exceeded while instantiating @" ++ className

/-- The place of a cause.  What is looked up in a value has none. -/
def location : EvalError → Option Location
  | classNotFound _ loc => some loc
  | parameterArity _ _ _ _ _ loc => some loc
  | parameterTypeMismatch _ _ _ _ _ loc => some loc
  | fieldNotFound _ _ loc => some loc
  | symbolResolution _ loc => some loc
  | undefinedValue _ loc => some loc
  | typeMismatch _ loc => some loc
  | depthExceeded _ _ loc => some loc
  | indexOutOfRange .. | keyKindMismatch .. | keyNotFound .. => none

/-- What is said below a cause. -/
def notes : EvalError → List String
  | parameterArity _ _ _ formals actuals _ =>
      [Text.trimEnd ("actual parameters: " ++ ", ".intercalate actuals),
        Text.trimEnd ("formal parameters: " ++ ", ".intercalate formals)]
  | fieldNotFound _ operation _ => ["see current operation: " ++ operation]
  | _ => []

/-- A cause and its notes on a line each, every line with the place in front. -/
def render (e : EvalError) : String :=
  let place := match e.location with
    | some loc => loc.text ++ ": "
    | none => ""
  "\n".intercalate
    ((place ++ "error: " ++ e.text) :: e.notes.map fun note => place ++ "note: " ++ note)

end EvalError

/-! ### Failures -/

/-- What was to be done. -/
inductive Task where
  /-- Making an object. -/
  | instantiate
  /-- Looking up a field of an object. -/
  | getField
  deriving DecidableEq, Inhabited

/-- The line that says that a task was not done. -/
def Task.summary : Task → String
  | instantiate => "unable to instantiate object, see previous error(s)"
  | getField => "unable to get field, see previous error(s)"

/-- A task that was not done, and why. -/
structure Failure where
  /-- Why it was not done. -/
  cause : EvalError
  /-- What was to be done. -/
  task : Task
  deriving DecidableEq, Inhabited

/-- The cause, and below it what was not done. -/
def Failure.text (f : Failure) : String := f.cause.render ++ "\nerror: " ++ f.task.summary

/-! ### Looking into values -/

/-- The element of an index. -/
def Container.get (container : Container) (elements : List Value) (index : Nat) :
    Except EvalError Value :=
  match elements[index]? with
  | some v => .ok v
  | none => .error (.indexOutOfRange container index elements.length)

/-- The value of a key in a map with keys of a kind. -/
def KeyKind.get (keyKind : KeyKind) (entries : List (Key × Value)) (key : Value) :
    Except EvalError Value :=
  match Key.ofValue? key with
  | some k =>
      if k.kind = keyKind then
        match entries.lookup k with
        | some v => .ok v
        | none => .error (.keyNotFound k)
      else .error (.keyKindMismatch keyKind key.kind)
  | none => .error (.keyKindMismatch keyKind key.kind)

/-- The value of a field. -/
def Object.getField (o : Object) (name : String) : Except Failure Value :=
  match o.field? name with
  | some v => .ok v
  | none => .error ⟨.fieldNotFound name o.cls.signature o.cls.location, .getField⟩

end ObjectModel
