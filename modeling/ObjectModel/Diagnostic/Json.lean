/-
**Diagnostics and reports as JSON.**

A diagnostic is an object with a member for each of its parts, the span among them as four
numbers.  What is written reads back.  This is one form in which reports can be put down, the one
that the tool shows.

Main definitions:

* `Location.toJson` — writing a location;
* `Diagnostic.toJson`, `Diagnostic.ofJson?` — writing and reading one diagnostic;
* `Report.toJson`, `Report.ofJson?` — writing and reading a report.

Main results:

* `Location.toJson_inj` — a location can be told from what is written for it.

Reading asks for every member that writing puts down, except the suggestion, and passes over
members it does not know.
-/

import ObjectModel.Diagnostic.Report
import ObjectModel.Json

set_option relaxedAutoImplicit false
set_option autoImplicit false

namespace ObjectModel

/-! ### Reading numbers, strings and words -/

namespace Json

/-- A whole number from zero up to, and not including, `limit`. -/
def toNat? (limit : Nat) : Json → Option Nat
  | .number n => if 0 ≤ n ∧ n < limit then some n.toNat else none
  | _ => none

/-- A string. -/
def toString? : Json → Option String
  | .string s => some s
  | _ => none

/-- The elements of an array. -/
def toList? : Json → Option (List Json)
  | .array es => some es
  | _ => none

/-- A word, on its own or as the name of the single member of an object that holds nothing. -/
def toWord? : Json → Option String
  | .string s => some s
  | .object [(s, .null)] => some s
  | _ => none

end Json

/-! ### Spans and locations -/

namespace Span

/-- The members that stand for a span. -/
def toMembers (s : Span) : List (String × Json) :=
  [("line", .number s.start.line), ("column", .number s.start.col),
    ("end_line", .number s.stop.line), ("end_column", .number s.stop.col)]

/-- The span that stands among the members of an object. -/
def ofMembers? (j : Json) : Option Span := do
  let line ← (← j.member? "line").toNat? UInt32.size
  let column ← (← j.member? "column").toNat? UInt32.size
  let endLine ← (← j.member? "end_line").toNat? UInt32.size
  let endColumn ← (← j.member? "end_column").toNat? UInt32.size
  return ⟨⟨line, column⟩, ⟨endLine, endColumn⟩⟩

end Span

/-- A location as an object; the span of an unknown place is null.  No report holds one: it is for
those who handle the errors of evaluation. -/
def Location.toJson (l : Location) : Json :=
  .object [("file", .string l.file),
    ("span", match l.span with
      | some s => .object s.toMembers
      | none => .null)]

theorem Span.toMembers_inj {s t : Span} : s.toMembers = t.toMembers ↔ s = t := by
  obtain ⟨⟨line, column⟩, ⟨endLine, endColumn⟩⟩ := s
  obtain ⟨⟨line', column'⟩, ⟨endLine', endColumn'⟩⟩ := t
  simp only [Span.toMembers, List.cons.injEq, Prod.mk.injEq, Json.number.injEq, Int.ofNat_inj,
    true_and, and_true, Span.mk.injEq, Position.mk.injEq, and_assoc]

/-- The object tells a location from all others. -/
theorem Location.toJson_inj {l k : Location} : l.toJson = k.toJson ↔ l = k := by
  obtain ⟨file, _ | s⟩ := l <;> obtain ⟨file', _ | t⟩ := k <;>
    simp [Location.toJson, Span.toMembers_inj]

/-! ### Diagnostics -/

/-- The severity of a word. -/
def Severity.ofText? : String → Option Severity
  | "error" => some .error
  | "warning" => some .warning
  | _ => none

/-- The category of a word. -/
def Category.ofText? : String → Option Category
  | "syntax" => some .syntactic
  | "symbol" => some .symbolic
  | "structure" => some .structural
  | _ => none

@[simp] theorem Severity.ofText?_text (s : Severity) : ofText? s.text = some s := by
  cases s <;> rfl

@[simp] theorem Category.ofText?_text (c : Category) : ofText? c.text = some c := by
  cases c <;> rfl

namespace Diagnostic

/-- A diagnostic as an object. -/
def toJson (d : Diagnostic) : Json :=
  .object <|
    [("file", .string d.file), ("code", .number d.code.number.toNat),
      ("severity", .string d.severity.text), ("category", .string d.category.text),
      ("message", .string d.message)]
    ++ d.span.toMembers
    ++ [("source_line", .string d.sourceLine)]
    ++ (d.suggestion.map fun s => ("suggestion", Json.string s)).toList

/-- The suggestion among the members of an object.  It may be missing, and it may be null. -/
def suggestionOfMembers? (j : Json) : Option (Option String) :=
  match j.member? "suggestion" with
  | none | some .null => some none
  | some s => s.toString?.map some

/-- A diagnostic from an object. -/
def ofJson? (j : Json) : Option Diagnostic := do
  let file ← (← j.member? "file").toString?
  let code ← (← j.member? "code").toNat? UInt16.size
  let severity ← Severity.ofText? (← (← j.member? "severity").toWord?)
  let category ← Category.ofText? (← (← j.member? "category").toWord?)
  let message ← (← j.member? "message").toString?
  let span ← Span.ofMembers? j
  let sourceLine ← (← j.member? "source_line").toString?
  let suggestion ← suggestionOfMembers? j
  return { file, code := ⟨.ofNat code⟩, severity, category, message, span, sourceLine, suggestion }

end Diagnostic

/-! ### Reports -/

namespace Report

/-- A report as an object. -/
def toJson (r : Report) : Json :=
  .object
    [("errors", .array (r.errors.map Diagnostic.toJson)),
      ("warnings", .array (r.warnings.map Diagnostic.toJson)),
      ("total_errors", .number r.totalErrors), ("total_warnings", .number r.totalWarnings)]

/-- A report from an object. -/
def ofJson? (j : Json) : Option Report := do
  let errors ← (← (← j.member? "errors").toList?).mapM Diagnostic.ofJson?
  let warnings ← (← (← j.member? "warnings").toList?).mapM Diagnostic.ofJson?
  let totalErrors ← (← j.member? "total_errors").toNat? UInt64.size
  let totalWarnings ← (← j.member? "total_warnings").toNat? UInt64.size
  return { errors, warnings, totalErrors, totalWarnings }

end Report

end ObjectModel
