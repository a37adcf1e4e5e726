/-
**What is said about a module that cannot be loaded.**

A problem is found at a span and carries a numbered code; a diagnostic is a problem told about a
file, with the line it stands on.

Main definitions:

* `Code`, `Code.category` — the stable number of a kind of problem, grouped by its hundreds;
* `Problem` — what was found and where;
* `Diagnostic`, `Diagnostic.ofProblem` — a problem with its file and its line;
* `Diagnostic.text` — the line that is shown for it.
-/

import ObjectModel.Span

set_option relaxedAutoImplicit false
set_option autoImplicit false

namespace ObjectModel

/-! ### Codes -/

/-- How grave a diagnostic is. -/
inductive Severity where
  | error
  | warning
  deriving DecidableEq, Inhabited

/-- What a problem is about. -/
inductive Category where
  /-- The text does not follow the grammar. -/
  | syntactic
  /-- A name is missing, or defined twice. -/
  | symbolic
  /-- The declarations do not fit together. -/
  | structural
  deriving DecidableEq, Inhabited

/-- The word for a severity. -/
def Severity.text : Severity → String
  | .error => "error"
  | .warning => "warning"

/-- The word for a category. -/
def Category.text : Category → String
  | .syntactic => "syntax"
  | .symbolic => "symbol"
  | .structural => "structure"

/-- The stable number of a kind of problem. -/
structure Code where
  /-- The number. -/
  number : UInt16
  deriving DecidableEq, Inhabited

namespace Code

/-- A token stands where another was expected. -/
def unexpectedToken : Code := ⟨100⟩

/-- A string or a body is never closed. -/
def unclosedDelimiter : Code := ⟨101⟩

/-- A literal has no value. -/
def invalidLiteral : Code := ⟨102⟩

/-- The operation does not exist, or not here. -/
def unknownOperation : Code := ⟨103⟩

/-- The constant has no such form. -/
def invalidAttribute : Code := ⟨104⟩

/-- The type does not exist. -/
def unknownType : Code := ⟨105⟩

/-- Two declarations share a name. -/
def duplicateSymbol : Code := ⟨200⟩

/-- Two fields of a class share a name. -/
def duplicateField : Code := ⟨201⟩

/-- Two values of a scope share a name. -/
def duplicateValue : Code := ⟨202⟩

/-- A value is used that is not defined before. -/
def undefinedValue : Code := ⟨203⟩

/-- An object is made of a class that does not exist. -/
def unknownClass : Code := ⟨204⟩

/-- Making an object of a class needs an object of the same class. -/
def cyclicClass : Code := ⟨300⟩

/-- An object is given more or fewer values than its class has parameters. -/
def objectArityMismatch : Code := ⟨301⟩

/-- The category of a code: two hundred begins the symbols and three hundred the structure. -/
def category (c : Code) : Category :=
  if c.number / 100 = 2 then .symbolic
  else if c.number / 100 = 3 then .structural
  else .syntactic

/-- A code as it is shown. -/
def text (c : Code) : String := s!"E{c.number.toNat}"

end Code

/-! ### Problems -/

/-- Something wrong at a place of a text. -/
structure Problem where
  /-- What kind of problem it is. -/
  code : Code
  /-- What is wrong, in words. -/
  message : String
  /-- Where it is wrong. -/
  span : Span
  /-- What might help. -/
  suggestion : Option String := none
  deriving DecidableEq, Inhabited

/-! ### Diagnostics -/

/-- A problem told about a file. -/
structure Diagnostic where
  /-- The name of the file, possibly empty. -/
  file : String
  /-- What kind of problem it is. -/
  code : Code
  /-- How grave it is. -/
  severity : Severity
  /-- What it is about. -/
  category : Category
  /-- What is wrong, in words. -/
  message : String
  /-- Where it is wrong. -/
  span : Span
  /-- The line on which the span begins. -/
  sourceLine : String
  /-- What might help. -/
  suggestion : Option String
  deriving DecidableEq, Inhabited

namespace Diagnostic

/-- A problem told about a file; `quote` gives the line of a number. -/
def ofProblem (file : String) (quote : Nat → String) (p : Problem) : Diagnostic where
  file := file
  code := p.code
  severity := .error
  category := p.code.category
  message := p.message
  span := p.span
  sourceLine := quote p.span.start.line
  suggestion := p.suggestion

/-- The line that is shown: place, code, category and message. -/
def text (d : Diagnostic) : String :=
  s!"{(Location.ofSpan d.file d.span).text}: {d.code.text} [{d.category.text}] {d.message}"

end Diagnostic

end ObjectModel
