/-
**Reports: a log of diagnostics with room for twenty errors.**

A report counts every error and keeps the first twenty of them.

Main definitions:

* `Report`, `Report.maxErrors` — the log and its room;
* `Report.pushError`, `Report.pushWarning`, `Report.extend` — writing into it;
* `Report.ofProblems` — the report of the problems of one file;
* `Report.text` — the kept errors, and how many more there were.

Main results:

* `Report.errors_pushErrors`, `Report.totalErrors_pushErrors` — writing a list of errors keeps as
  many as there is room for and counts them all.
-/

import ObjectModel.Diagnostic

set_option relaxedAutoImplicit false
set_option autoImplicit false

namespace ObjectModel

/-- The diagnostics of a load. -/
structure Report where
  /-- The errors that were kept, in the order they were found. -/
  errors : List Diagnostic := []
  /-- The warnings, in the order they were found. -/
  warnings : List Diagnostic := []
  /-- How many errors were found. -/
  totalErrors : Nat := 0
  /-- How many warnings were found. -/
  totalWarnings : Nat := 0
  deriving DecidableEq, Inhabited

namespace Report

/-- How many errors a report keeps. -/
def maxErrors : Nat := 20

/-- The report in which nothing is written yet. -/
def empty : Report := {}

/-- Whether an error was found. -/
def hasErrors (r : Report) : Bool := 0 < r.totalErrors

/-- Whether there is no more room. -/
def isFull (r : Report) : Bool := maxErrors ≤ r.totalErrors

/-! ### Writing -/

/-- Counts an error, and keeps it if there is room. -/
def pushError (r : Report) (d : Diagnostic) : Report :=
  { r with
    errors := if r.errors.length < maxErrors then r.errors ++ [d] else r.errors
    totalErrors := r.totalErrors + 1 }

/-- Keeps and counts a warning. -/
def pushWarning (r : Report) (d : Diagnostic) : Report :=
  { r with warnings := r.warnings ++ [d], totalWarnings := r.totalWarnings + 1 }

/-- Writes a list of errors. -/
def pushErrors (r : Report) (ds : List Diagnostic) : Report := ds.foldl pushError r

/-- Writes a list of warnings. -/
def pushWarnings (r : Report) (ds : List Diagnostic) : Report := ds.foldl pushWarning r

/-- How many errors were found and not kept. -/
def dropped (r : Report) : Nat := r.totalErrors - r.errors.length

/-- Writes what another report kept, and counts what it dropped. -/
def extend (r s : Report) : Report :=
  let r := r.pushErrors s.errors
  { r with totalErrors := r.totalErrors + s.dropped }.pushWarnings s.warnings

/-- The report of the problems found in one file. -/
def ofProblems (file : String) (quote : Nat → String) (ps : List Problem) : Report :=
  empty.pushErrors (ps.map (Diagnostic.ofProblem file quote))

@[simp] theorem pushErrors_nil (r : Report) : r.pushErrors [] = r := rfl

@[simp] theorem pushErrors_cons (r : Report) (d : Diagnostic) (ds : List Diagnostic) :
    r.pushErrors (d :: ds) = (r.pushError d).pushErrors ds := rfl

@[simp] theorem totalErrors_pushErrors (r : Report) (ds : List Diagnostic) :
    (r.pushErrors ds).totalErrors = r.totalErrors + ds.length := by
  induction ds generalizing r with
  | nil => simp
  | cons d ds ih => simp only [pushErrors_cons, ih, pushError, List.length_cons]; omega

theorem errors_pushError_of_lt {r : Report} (h : r.errors.length < maxErrors) (d : Diagnostic) :
    (r.pushError d).errors = r.errors ++ [d] := if_pos h

theorem errors_pushError_of_le {r : Report} (h : maxErrors ≤ r.errors.length) (d : Diagnostic) :
    (r.pushError d).errors = r.errors := if_neg (Nat.not_lt.2 h)

/-- A report that keeps no more than it has room for keeps the first errors that are written. -/
theorem errors_pushErrors (r : Report) (ds : List Diagnostic) (h : r.errors.length ≤ maxErrors) :
    (r.pushErrors ds).errors = r.errors ++ ds.take (maxErrors - r.errors.length) := by
  induction ds generalizing r with
  | nil => simp
  | cons d ds ih =>
      rcases Nat.lt_or_ge r.errors.length maxErrors with hr | hr
      · have hd := errors_pushError_of_lt hr d
        have hk : maxErrors - r.errors.length = maxErrors - (r.pushError d).errors.length + 1 := by
          rw [hd, List.length_append, List.length_singleton]
          omega
        have hle : (r.pushError d).errors.length ≤ maxErrors := by
          rw [hd, List.length_append, List.length_singleton]
          omega
        rw [pushErrors_cons, ih _ hle, hk, hd, List.take_succ_cons, List.append_assoc,
          List.singleton_append]
      · have hd := errors_pushError_of_le hr d
        have h0 : maxErrors - r.errors.length = 0 := Nat.sub_eq_zero_of_le hr
        rw [pushErrors_cons, ih _ (hd ▸ h), hd, h0, List.take_zero, List.take_zero]

/-! ### Showing -/

/-- A line for each kept error, and a line that counts the others. -/
def text (r : Report) : String :=
  let shown := "\n".intercalate (r.errors.map Diagnostic.text)
  if r.dropped = 0 then shown else s!"{shown}\n... and {r.dropped} more error(s)"

end Report

end ObjectModel
