/-
**Making objects.**

An object is made of a class and of values for its parameters.  Each field asks for the value it
exposes, and a value is computed when it is first asked for: its operation asks for its operands
in turn, and what was computed is kept.  Values of a class are kept as long as its object is being
made, shared values as long as the whole call.

Main definitions:

* `Frame`, `EvalState`, `Eval` — what is kept, and computations that use it;
* `Eval.constant` — the value of a constant;
* `Eval.buildMap` — the map of a list of pairs;
* `Eval.resolveUpTo` — the value of a name;
* `Eval.instantiate` — an object of a class;
* `Registry.run`, `Registry.instantiate` — the whole call.

A value of a class may be used by the operation that defines it, when there is a shared value of
the same name.  The search for it never ends, and there is no result.
-/

import ObjectModel.Registry
import ObjectModel.Text.Decimal
import ObjectModel.Value.Typing

set_option relaxedAutoImplicit false
set_option autoImplicit false

namespace ObjectModel

/-! ### State -/

/-- The values that are known while an object is made. -/
structure Frame where
  /-- The number of the frame.  No other frame of the call has it. -/
  id : Nat
  /-- The values by their names. -/
  values : List (String × Value)
  deriving Inhabited

/-- What evaluation knows. -/
structure EvalState where
  /-- The shared values that were computed. -/
  shared : List (String × Value) := []
  /-- The frames of the objects that are being made, the innermost first. -/
  frames : List Frame := []
  /-- How many frames there have been. -/
  opened : Nat := 0
  /-- What was done, the latest first. -/
  journal : List Event := []
  deriving Inhabited

namespace EvalState

/-- The value of a name in the innermost frame. -/
def local? (s : EvalState) (name : String) : Option Value :=
  match s.frames with
  | f :: _ => f.values.lookup name
  | [] => none

/-- Keeps a value in the innermost frame. -/
def keepLocal (name : String) (v : Value) (s : EvalState) : EvalState :=
  match s.frames with
  | f :: fs => { s with frames := { f with values := Entries.insert name v f.values } :: fs }
  | [] => s

/-- Keeps a shared value. -/
def keepShared (name : String) (v : Value) (s : EvalState) : EvalState :=
  { s with shared := Entries.insert name v s.shared }

end EvalState

/-- A computation: it may end in an error, and it may not end. -/
abbrev Eval (α : Type) := ExceptT EvalError (StateT EvalState Option) α

namespace Eval

/-- Writes into the journal. -/
def write (e : Event) : Eval Unit := modify fun s => { s with journal := e :: s.journal }

/-- The computation that does not end. -/
def diverge {α : Type} : Eval α := ExceptT.mk fun _ => none

/-- Runs a computation in a new frame with the given values.  The frame is gone afterwards, also
after an error. -/
def inFrame {α : Type} (values : List (String × Value)) (x : Eval α) : Eval α :=
  ExceptT.mk fun s =>
    let opened := { s with
      frames := ⟨s.opened + 1, values⟩ :: s.frames
      opened := s.opened + 1 }
    (x.run.run opened).map fun (result, t) => (result, { t with frames := t.frames.drop 1 })

/-! ### Constants -/

/-- The kind of the keys of a type. -/
def keyKind (ty : Ty) (loc : Location) : Eval KeyKind :=
  match KeyKind.ofTy? ty with
  | some k => return k
  | none => throw (.typeMismatch (ty.text ++ " cannot be used as a map key type") loc)

/-- The key that a text stands for. -/
def keyOfText (k : KeyKind) (text : String) (loc : Location) : Eval Key :=
  match k with
  | .string => return .string text
  | .integer =>
      match Decimal.int64? text with
      | some n => return .integer n
      | none => throw (.typeMismatch ("map key '" ++ text ++ "' is not an integer") loc)

/-- The kind of the keys of a constant map: that of the type it is written with, and texts where
that is no map. -/
def constantKeyKind (ty : Ty) (loc : Location) : Eval KeyKind :=
  match ty with
  | .map key _ => keyKind key loc
  | _ => return .string

/-- The value of a reference. -/
def reference (r : Registry) (p : SymbolPath) (loc : Location) : Eval Value :=
  match r.resolve p loc with
  | .ok v => do
      write (.resolved p)
      return v
  | .error e => throw e

mutual

/-- The value of a constant that is written with a type. -/
def constant (r : Registry) (loc : Location) : Attribute → Ty → Eval Value
  | .integer n, _ => return .integer n
  | .string s, _ => return .string s
  | .list elementTy es, _ => return .list elementTy (← constants r loc elementTy es)
  | .map valueTy es, ty => do
      let k ← constantKeyKind ty loc
      return .map k valueTy (Entries.ofList (← constantEntries r loc k valueTy es))
  | .ref p, _ => reference r p loc

/-- The values of constants that are written with one type. -/
def constants (r : Registry) (loc : Location) (ty : Ty) : List Attribute → Eval (List Value)
  | [] => return []
  | a :: as => return (← constant r loc a ty) :: (← constants r loc ty as)

/-- The entries of a constant map. -/
def constantEntries (r : Registry) (loc : Location) (k : KeyKind) (ty : Ty) :
    List (String × Attribute) → Eval (List (Key × Value))
  | [] => return []
  | (text, a) :: es => do
      let key ← keyOfText k text loc
      let v ← constant r loc a ty
      return (key, v) :: (← constantEntries r loc k ty es)

end

/-! ### Maps -/

/-- The key and the value that an entry is, if it is a pair with a key of the kind `k`. -/
def entryOf (k : KeyKind) (loc : Location) (entry : Value) : Eval (Key × Value) :=
  match entry with
  | .tuple [key, v] =>
      match (Key.ofValue? key).filter fun key => key.kind = k with
      | some key => return (key, v)
      | none => throw (.typeMismatch ("map key " ++ key.text ++ " is not " ++ k.text) loc)
  | _ =>
      throw (.typeMismatch ("map entry must be a (key, value) tuple, got " ++ entry.text) loc)

/-- Writes entries into a map, one after the other. -/
def writeEntries (k : KeyKind) (loc : Location) (entries : List (Key × Value)) :
    List Value → Eval (List (Key × Value))
  | [] => return entries
  | e :: es => do
      let (key, v) ← entryOf k loc e
      if key ∈ Entries.keys entries then write (.duplicateKey key loc)
      writeEntries k loc (Entries.insert key v entries) es

/-- The map of a list of pairs. -/
def buildMap (es : List Value) (keyTy valueTy : Ty) (loc : Location) : Eval Value := do
  let k ← keyKind keyTy loc
  return .map k valueTy (← writeEntries k loc [] es)

/-! ### Objects -/

/-- How the value of a name is found, in the body of a class or outside of all classes.  The span
is that of the use. -/
abbrev Resolver := Option Class → String → Span → Eval Value

/-- The first of the values `vs`, counted from `index`, that does not conform to its parameter. -/
def mismatch? (c : Class) (loc : Location) (index : Nat) :
    List Param → List Value → Option EvalError
  | p :: ps, v :: vs =>
      if v.conforms p.ty then mismatch? c loc (index + 1) ps vs
      else
        some (.parameterTypeMismatch c.name.name index p.name.name p.ty v.kind.text loc)
  | _, _ => none

/-- Stops unless the values fit the parameters in number and type. -/
def checkActuals (c : Class) (actuals : List Value) (loc : Location) : Eval Unit :=
  if c.params.length ≠ actuals.length then
    throw (.parameterArity c.name.name c.params.length actuals.length (c.params.map Param.text)
      (actuals.map Value.text) loc)
  else
    match mismatch? c loc 0 c.params actuals with
    | some e => throw e
    | none => return

/-- The values of the fields of a class. -/
def fieldValues (resolve : Resolver) (c : Class) : Eval (List (String × Value)) :=
  c.fields.mapM fun f => do
    write (.evaluating c.name.name f.name.name)
    return (f.name.name, ← resolve (some c) f.value.name f.span)

/-- An object of the class `name`.  Inside another object, `site` is the operation that makes
it. -/
def instantiate (r : Registry) (maxDepth : Nat) (resolve : Resolver) (name : String)
    (actuals : List Value) (site : Option Location) : Eval Object := do
  match r.class? name with
  | none => throw (.classNotFound name (site.getD .unknown))
  | some c =>
      -- the class itself is to blame where no operation asked for the object
      let loc := site.getD c.location
      let depth := (← get).frames.length
      if maxDepth ≤ depth then throw (.depthExceeded c.name.name maxDepth loc)
      checkActuals c actuals loc
      write (.instantiating c.name.name actuals.length depth)
      let params := c.params.map fun p => p.name.name
      inFrame (Entries.ofList (params.zip actuals)) do
        return ⟨c, Entries.ofList (← fieldValues resolve c)⟩

/-- The values of operands, in order. -/
def resolveAll (resolve : Resolver) (scope : Option Class) (xs : List Ident) :
    Eval (List Value) :=
  xs.mapM fun x => resolve scope x.name x.span

/-- The value that an operation defines. -/
def operation (r : Registry) (maxDepth : Nat) (resolve : Resolver) (scope : Option Class)
    (op : Operation) : Eval Value := do
  let loc := r.location op.span
  match op.action with
  | .constant value ty => constant r loc value ty
  | .object target actuals _ _ =>
      let vs ← resolveAll resolve scope actuals
      return (← instantiate r maxDepth resolve target.name vs (some loc)).toValue
  | .listCreate elements elementTy => return .list elementTy (← resolveAll resolve scope elements)
  | .tupleCreate elements _ => return .tuple (← resolveAll resolve scope elements)
  | .mapCreate entries keyTy valueTy =>
      buildMap (← resolveAll resolve scope entries) keyTy valueTy loc
  | .field .. => throw (.typeMismatch "'om.class.field' does not define a value" loc)

/-! ### Names -/

/-- The shared value of a name. -/
def resolveShared (r : Registry) (maxDepth : Nat) (resolve : Resolver) (name : String)
    (span : Span) : Eval Value := do
  match (← get).shared.lookup name with
  | some v => return v
  | none =>
      match r.value? name with
      | some op =>
          write (.computing 0 name)
          let v ← operation r maxDepth resolve none op
          modify (·.keepShared name v)
          return v
      | none => throw (.undefinedValue name (r.location span))

/-- The value of a name in the body of a class, if the body or its parameters define it. -/
def resolveLocal (r : Registry) (maxDepth : Nat) (resolve : Resolver) (c : Class)
    (name : String) : Eval (Option Value) := do
  let s ← get
  match s.local? name with
  | some v => return some v
  | none =>
      match c.definition? name with
      | some op =>
          write (.computing ((s.frames.head?.map Frame.id).getD 0) name)
          let v ← operation r maxDepth resolve (some c) op
          -- every frame that was opened meanwhile is gone, so the innermost one is that of `s`
          modify (·.keepLocal name v)
          return some v
      | none => return none

/-- The value of a name, when operations ask for operands at most `n` deep. -/
def resolveUpTo (r : Registry) (maxDepth : Nat) : Nat → Resolver
  | 0 => fun _ _ _ => diverge
  | n + 1 => fun scope name span => do
      let found ← match scope with
        | some c => resolveLocal r maxDepth (resolveUpTo r maxDepth n) c name
        | none => pure none
      match found with
      | some v => return v
      | none => resolveShared r maxDepth (resolveUpTo r maxDepth n) name span

end Eval

/-! ### The call -/

namespace Registry

/-- Makes an object of the class `name`, and says what was done on the way.  An operation that
waits for its own value never gets it, so operations that wait for each other are all different,
and their number bounds how deep operands are asked for. -/
def run (r : Registry) (maxDepth : Nat) (name : String) (actuals : List Value) :
    Option (Except EvalError Object × List Event) :=
  let call := Eval.instantiate r maxDepth (Eval.resolveUpTo r maxDepth (r.size + 1)) name actuals
    none
  (call.run.run {}).map fun (result, s) => (result, s.journal.reverse)

/-- An object of the class `name`, or the failure to make one. -/
def instantiate (r : Registry) (maxDepth : Nat) (name : String) (actuals : List Value) :
    Option (Except Failure Object) :=
  (r.run maxDepth name actuals).map fun (result, _) =>
    result.mapError fun cause => ⟨cause, .instantiate⟩

/-- How many objects may be made inside each other unless something else is asked for. -/
def defaultMaxDepth : Nat := 256

end Registry

end ObjectModel
