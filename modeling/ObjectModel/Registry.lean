/-
**The classes of a checked module, ready for use.**

Main definitions:

* `Registry` — the classes, shared values and symbols of a module;
* `Registry.build` — the registry of a module that passes the check;
* `Registry.class?`, `Registry.value?`, `Registry.declares` — what a name stands for.
-/

import ObjectModel.EvalError
import ObjectModel.Event
import ObjectModel.Module.Check

set_option relaxedAutoImplicit false
set_option autoImplicit false

namespace ObjectModel

/-- The declarations of a module. -/
structure Registry where
  /-- The file of the module. -/
  file : String
  /-- The classes, in the order of their declaration. -/
  classes : List Class
  /-- The operations that define shared values. -/
  values : List Operation
  /-- The hardware modules. -/
  hardware : List HardwareModule
  deriving Inhabited

namespace Registry

/-- The declarations of a module, whether or not they are well formed. -/
def ofModule (m : Module) : Registry where
  file := m.file
  classes := m.classes.map fun c => { c with file := m.file }
  values := m.operations
  hardware := m.hardware

/-- The registry of a module, or the report of what is wrong with it.  `quote` gives the line of a
number. -/
def build (m : Module) (quote : Nat → String) : Except Report Registry :=
  let report := m.check quote
  if report.hasErrors then .error report else .ok (ofModule m)

/-- The journal entry of a registry that was built. -/
def builtEvent (r : Registry) : Event :=
  .built r.file r.classes.length r.hardware.length r.values.length

/-! ### Looking up -/

/-- The class of a name. -/
def class? (r : Registry) (name : String) : Option Class :=
  r.classes.find? fun c => c.name.name == name

/-- The class of a name, or the cause why there is none. -/
def lookup (r : Registry) (name : String) : Except EvalError Class :=
  match r.class? name with
  | some c => .ok c
  | none => .error (.classNotFound name .unknown)

/-- The operation that defines the shared value of a name. -/
def value? (r : Registry) (name : String) : Option Operation :=
  r.values.find? fun op => op.defines name

/-- Whether a path names a symbol: a class, a hardware module, or a symbol inside a hardware
module. -/
def declares (r : Registry) (p : SymbolPath) : Bool :=
  match p.segments with
  | [top] =>
      (r.hardware.any fun h => h.name.name == top) || r.classes.any fun c => c.name.name == top
  | [top, inner] =>
      r.hardware.any fun h => h.name.name == top && h.innerSymbols.any fun s => s.name == inner
  | _ => false

/-- A place in the file of the module. -/
def location (r : Registry) (s : Span) : Location := .ofSpan r.file s

/-- How many operations there are, inside of classes and outside. -/
def size (r : Registry) : Nat :=
  r.classes.foldr (fun c n => c.body.length + n) r.values.length

/-- The value of a reference, or the cause why it has none. -/
def resolve (r : Registry) (p : SymbolPath) (loc : Location) : Except EvalError Value :=
  if r.declares p then .ok (.ref p) else .error (.symbolResolution p loc)

end Registry

end ObjectModel
