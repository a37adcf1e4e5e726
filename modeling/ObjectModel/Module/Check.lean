/-
**Which modules are well formed.**

Before the classes of a module are used, their names, their values and the objects they make are
checked.  The check goes on after a problem, so that one report shows many; only when the report
is full are the remaining classes and the search for cycles left out.

Main definitions:

* `Module.symbolProblems` — symbols that are declared twice;
* `Module.valueProblems` — shared values that are undefined, defined twice or objects;
* `ClassDecl.problems` — the same for the body of a class, with its fields and the objects it
  makes;
* `ClassGraph`, `ClassGraph.cycleProblems` — classes that need an object of their own class;
* `Module.check` — the report of all of these.
-/

import ObjectModel.Diagnostic.Report
import ObjectModel.Module
import ObjectModel.Source

set_option relaxedAutoImplicit false
set_option autoImplicit false

namespace ObjectModel

/-! ### Symbols -/

/-- The problem of declaring a symbol that was declared at `previous`. -/
def redefinedSymbol (name : Ident) (previous : Span) : Problem where
  code := .duplicateSymbol
  message := "redefinition of symbol @" ++ name.name
  span := name.span
  suggestion := some ("previous definition at " ++ previous.text)

/-- The symbols among `names` that are declared before them, by others or in `seen`. -/
def symbolProblemsFrom (seen : List (String × Span)) : List Ident → List Problem
  | [] => []
  | name :: names =>
      match seen.lookup name.name with
      | some previous => redefinedSymbol name previous :: symbolProblemsFrom seen names
      | none => symbolProblemsFrom ((name.name, name.span) :: seen) names

namespace Module

/-- The symbols that a module declares: its classes and hardware modules share one space of
names. -/
def symbols (m : Module) : List Ident := m.items.filterMap Item.symbol?

/-- The symbols of a module that are declared twice. -/
def symbolProblems (m : Module) : List Problem := symbolProblemsFrom [] m.symbols

/-- How many parameters the class of a name has, if the first item of that name is a class. -/
def arity? (m : Module) (name : String) : Option Nat :=
  match m.items.find? fun i => i.symbol?.any fun s => s.name == name with
  | some (.ofClass c) => some c.params.length
  | _ => none

end Module

/-! ### Values -/

/-- The problems of using values that are in no scope. -/
def undefinedOperands (scope : String → Bool) (op : Operation) : List Problem :=
  (op.action.operands.filter fun x => !scope x.name).map fun x =>
    { code := .undefinedValue
      message := "use of undefined value '%" ++ x.name ++ "'"
      span := x.span
      suggestion := some ("define '%" ++ x.name ++ "' before it is used") }

/-- The problem of defining a value that the scope has. -/
def redefinedResult (scope : List String) (op : Operation) : List Problem :=
  match op.result with
  | some r =>
      if r.name ∈ scope then
        [{ code := .duplicateValue, message := "redefinition of value '%" ++ r.name ++ "'",
           span := r.span }]
      else []
  | none => []

/-- The names that an operation defines. -/
def Operation.resultNames (op : Operation) : List String := op.result.toList.map Ident.name

namespace Module

/-- The problems of operations that stand behind operations that define `scope`.  An object is
not made outside of a class, and the value it would define is not defined. -/
def valueProblemsFrom (scope : List String) : List Operation → List Problem
  | [] => []
  | op :: ops =>
      match op.action with
      | .object .. =>
          { code := .unknownOperation,
            message := "'om.object' is only allowed inside an 'om.class' body",
            span := op.span } :: valueProblemsFrom scope ops
      | _ =>
          undefinedOperands (· ∈ scope) op ++ redefinedResult scope op
            ++ valueProblemsFrom (op.resultNames ++ scope) ops

/-- The problems of the shared values of a module. -/
def valueProblems (m : Module) : List Problem := valueProblemsFrom [] m.operations

/-- The names of the shared values of a module. -/
def sharedNames (m : Module) : List String :=
  (m.operations.filter fun op => op.action.target?.isNone).flatMap Operation.resultNames

end Module

/-! ### Classes -/

/-- The parameters with the name of a parameter before them. -/
def paramProblemsFrom (className : String) (seen : List String) : List Param → List Problem
  | [] => []
  | p :: ps =>
      let rest := paramProblemsFrom className (p.name.name :: seen) ps
      if p.name.name ∈ seen then
        { code := .duplicateValue,
          message := "redefinition of value '%" ++ p.name.name ++ "' in class @" ++ className,
          span := p.span } :: rest
      else rest

/-- The problem of a field with the name of a field before it. -/
def fieldProblems (className : String) (fields : List String) (op : Operation) : List Problem :=
  match op.field? with
  | some f =>
      if f.name.name ∈ fields then
        [{ code := .duplicateField
           message := "field @" ++ f.name.name ++ " is declared more than once in class @"
             ++ className
           span := f.name.span }]
      else []
  | none => []

/-- The problem of an object of a class that does not exist or has another number of
parameters. -/
def objectProblems (arity? : String → Option Nat) (op : Operation) : List Problem :=
  match op.action with
  | .object target actuals _ _ =>
      match arity? target.name with
      | none =>
          [{ code := .unknownClass
             message := "'om.object' refers to undefined class @" ++ target.name
             span := target.span }]
      | some n =>
          if n = actuals.length then []
          else
            [{ code := .objectArityMismatch
               message := s!"'om.object' passes {actuals.length} actual parameter(s) to @"
                 ++ target.name ++ s!", which declares {n}"
               span := target.span }]
  | _ => []

/-- The names of the field that an operation declares. -/
def Operation.fieldNames (op : Operation) : List String :=
  op.field?.toList.map fun f => f.name.name

namespace ClassDecl

/-- The problems of operations of a body, behind operations and parameters that define `scope` and
operations that declare `fields`. -/
def bodyProblemsFrom (m : Module) (className : String) (scope fields : List String) :
    List Operation → List Problem
  | [] => []
  | op :: ops =>
      undefinedOperands (fun x => x ∈ scope || x ∈ m.sharedNames) op
        ++ fieldProblems className fields op ++ objectProblems m.arity? op
        ++ redefinedResult scope op
        ++ bodyProblemsFrom m className (op.resultNames ++ scope) (op.fieldNames ++ fields) ops

/-- The names of the parameters. -/
def paramNames (c : ClassDecl) : List String := c.params.map fun p => p.name.name

/-- The problems of a class of a module. -/
def problems (m : Module) (c : ClassDecl) : List Problem :=
  paramProblemsFrom c.name.name [] c.params
    ++ bodyProblemsFrom m c.name.name c.paramNames [] c.body

end ClassDecl

/-! ### Cycles -/

/-- The classes of a module, each with the classes of which its body makes objects. -/
abbrev ClassGraph := List (String × List Ident)

/-- The graph of a list of classes.  Of several classes with one name, the first counts. -/
def ClassGraph.ofClasses (cs : List ClassDecl) : ClassGraph :=
  cs.foldl
    (fun g c => if (g.lookup c.name.name).isSome then g else g ++ [(c.name.name, c.targets)]) []

/-- What a walk through a graph has found. -/
structure Walk where
  /-- The classes that are done with. -/
  done : List String := []
  /-- The cycles, in the order they were found. -/
  problems : List Problem := []
  deriving DecidableEq, Inhabited

/-- The problem of an object of the class `target`, made while the classes of `path` are being
walked through, the innermost first and `target` among them. -/
def cyclicClass (path : List String) (target : Ident) : Problem where
  code := .cyclicClass
  message :=
    let cycle := (path.reverse.dropWhile (· != target.name)) ++ [target.name]
    "class @" ++ target.name ++ " instantiates itself: "
      ++ " -> ".intercalate (cycle.map ("@" ++ ·))
  span := target.span

namespace ClassGraph

/-- Walks through the class `name`, which is made inside the classes of `path`.  A class inside
itself is a cycle, and a class that is done with is not walked through again.  The path only grows
by classes that are not on it, so their number bounds its length. -/
def visit (g : ClassGraph) : Nat → List String → String → Walk → Walk
  | 0, _, _, w => w
  | n + 1, path, name, w =>
      let path := name :: path
      let w := ((g.lookup name).getD []).foldl (fun w target =>
        -- a class on the path is not done with yet, so the order of the first two tests is free
        if target.name ∈ path then
          { w with problems := w.problems ++ [cyclicClass path target] }
        else if target.name ∈ w.done then w
        else if (g.lookup target.name).isSome then visit g n path target.name w
        else w) w
      { w with done := name :: w.done }

/-- Walks through all classes. -/
def walk (g : ClassGraph) : Walk :=
  g.foldl (fun w e => if e.1 ∈ w.done then w else g.visit (g.length + 1) [] e.1 w) {}

/-- The cycles of a graph, each told at the object that closes it. -/
def cycleProblems (g : ClassGraph) : List Problem := g.walk.problems

end ClassGraph

/-! ### The check -/

namespace Module

/-- The cycles among the classes of a module. -/
def cycleProblems (m : Module) : List Problem := (ClassGraph.ofClasses m.classes).cycleProblems

/-- Notes problems in a report unless the report is full. -/
def noteUnlessFull (m : Module) (quote : Nat → String) (r : Report) (ps : List Problem) : Report :=
  if r.isFull then r else r.pushErrors (ps.map (Diagnostic.ofProblem m.file quote))

/-- The report of what is wrong with a module.  `quote` gives the line of a number. -/
def check (m : Module) (quote : Nat → String) : Report :=
  let names := Report.ofProblems m.file quote (m.symbolProblems ++ m.valueProblems)
  let bodies := m.classes.foldl (fun r c => m.noteUnlessFull quote r (c.problems m)) names
  m.noteUnlessFull quote bodies m.cycleProblems

end Module

end ObjectModel
