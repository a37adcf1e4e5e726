/-
**Reports are faithful logs.**

A report is written entry by entry; other reports, which were kept in the same way, are merged into
it; and between any two of these steps it may be put down outside of the program and read back.
Whatever the order and the nesting, it holds what a plain list of all entries holds, except that
only the first twenty errors are kept and the others are counted.  How a report is put down is left
open; all that is asked is that a report is read back as it was.

Main definitions:

* `Report.Format`, `Report.Format.Faithful` — a form in which reports are put down, and one that
  gives them back;
* `Report.Entry`, `Report.Step` — what is written into a report, and the steps of keeping one;
* `Report.keep` — the report after some steps;
* `Report.Logs` — a report and the list of all that was written into it;
* `Report.Format.json` — reports as JSON values.

Main results:

* `Report.Logs.pushError`, `Report.Logs.extend` — what one entry and what another report add;
* `Report.logs_keep` — **any steps, nested in any way, keep a faithful log**;
* `Report.Format.faithful_json` — what is written as a JSON value is read back.
-/

import ObjectModel.Diagnostic.Json

set_option relaxedAutoImplicit false
set_option autoImplicit false

namespace ObjectModel

/-! ### Putting down and reading back -/

/-- The numbers of the span are words of 32 bits. -/
structure Span.Fits (s : Span) : Prop where
  startLine : s.start.line < UInt32.size
  startCol : s.start.col < UInt32.size
  stopLine : s.stop.line < UInt32.size
  stopCol : s.stop.col < UInt32.size

instance (s : Span) : Decidable s.Fits :=
  decidable_of_iff (s.start.line < UInt32.size ∧ s.start.col < UInt32.size ∧
    s.stop.line < UInt32.size ∧ s.stop.col < UInt32.size)
    ⟨fun ⟨h₁, h₂, h₃, h₄⟩ => ⟨h₁, h₂, h₃, h₄⟩, fun ⟨h₁, h₂, h₃, h₄⟩ => ⟨h₁, h₂, h₃, h₄⟩⟩

namespace Report

/-- The numbers of the report are words: those of its spans of 32 bits, and its counts of 64. -/
structure Fits (r : Report) : Prop where
  errors : ∀ d ∈ r.errors, d.span.Fits
  warnings : ∀ d ∈ r.warnings, d.span.Fits
  totalErrors : r.totalErrors < UInt64.size
  totalWarnings : r.totalWarnings < UInt64.size

/-- A form in which reports are put down, be it a text or anything else, and read back.  What was
not put down in this form need not be read. -/
structure Format where
  /-- What reports are put down as. -/
  Written : Type
  /-- Puts a report down. -/
  write : Report → Written
  /-- Reads a report. -/
  read? : Written → Option Report

/-- A report is read back as it was put down, each diagnostic with all its parts. -/
def Format.Faithful (f : Format) : Prop := ∀ r : Report, r.Fits → f.read? (f.write r) = some r

/-! ### Entries and steps -/

/-- What is written into a report. -/
inductive Entry where
  | error (d : Diagnostic)
  | warning (d : Diagnostic)

/-- The diagnostic of an entry. -/
def Entry.diagnostic : Entry → Diagnostic
  | error d | warning d => d

/-- The errors among some entries. -/
def errorsOf (es : List Entry) : List Diagnostic :=
  es.filterMap fun
    | .error d => some d
    | .warning _ => none

/-- The warnings among some entries. -/
def warningsOf (es : List Entry) : List Diagnostic :=
  es.filterMap fun
    | .error _ => none
    | .warning d => some d

/-- Writes an entry. -/
def write (r : Report) : Entry → Report
  | .error d => r.pushError d
  | .warning d => r.pushWarning d

/-- A step of keeping a report. -/
inductive Step where
  /-- Writes an entry. -/
  | write (e : Entry)
  /-- Merges another report, which is kept by steps of its own. -/
  | merge (steps : List Step)
  /-- Puts the report down and reads it back. -/
  | reread

mutual

/-- The entries that a step writes, those of merged reports included. -/
def Step.entries : Step → List Entry
  | .write e => [e]
  | .merge steps => entriesOf steps
  | .reread => []

/-- The entries that some steps write, in order. -/
def entriesOf : List Step → List Entry
  | [] => []
  | s :: ss => s.entries ++ entriesOf ss

end

mutual

/-- A report after one more step, put down in the form `f`.  There is none if it cannot be read
back. -/
def Step.keep (f : Format) : Step → Report → Option Report
  | .write e, r => some (r.write e)
  | .merge steps, r => (keep f steps .empty).map r.extend
  | .reread, r => f.read? (f.write r)

/-- A report after some more steps. -/
def keep (f : Format) : List Step → Report → Option Report
  | [], r => some r
  | s :: ss, r => (s.keep f r).bind (keep f ss)

end

/-! ### Logs -/

theorem errorsOf_append (es fs : List Entry) : errorsOf (es ++ fs) = errorsOf es ++ errorsOf fs :=
  List.filterMap_append

theorem warningsOf_append (es fs : List Entry) :
    warningsOf (es ++ fs) = warningsOf es ++ warningsOf fs :=
  List.filterMap_append

/-- The report holds some errors and warnings: the first twenty of the errors, all warnings, and
how many there are of both. -/
structure Logs (r : Report) (es ws : List Diagnostic) : Prop where
  errors : r.errors = es.take maxErrors
  warnings : r.warnings = ws
  totalErrors : r.totalErrors = es.length
  totalWarnings : r.totalWarnings = ws.length

/-- Errors do not touch the warnings. -/
theorem warnings_pushErrors (r : Report) (ds : List Diagnostic) :
    (r.pushErrors ds).warnings = r.warnings ∧
      (r.pushErrors ds).totalWarnings = r.totalWarnings := by
  induction ds generalizing r with
  | nil => exact ⟨rfl, rfl⟩
  | cons d ds ih => exact ih (r.pushError d)

theorem pushWarnings_eq (r : Report) (ds : List Diagnostic) :
    r.pushWarnings ds = { r with
      warnings := r.warnings ++ ds, totalWarnings := r.totalWarnings + ds.length } := by
  induction ds generalizing r with
  | nil => simp [pushWarnings]
  | cons d ds ih =>
      change (r.pushWarning d).pushWarnings ds = _
      rw [ih]
      simp [pushWarning, Nat.add_assoc, Nat.add_comm 1]

theorem logs_empty : empty.Logs [] [] := ⟨rfl, rfl, rfl, rfl⟩

namespace Logs

variable {r s : Report} {es ws fs vs : List Diagnostic}

/-- A log keeps as many errors as there is room for. -/
theorem length_errors (h : r.Logs es ws) : r.errors.length = min maxErrors es.length := by
  rw [h.errors, List.length_take]

/-- There is one report of some errors and warnings. -/
theorem unique (hr : r.Logs es ws) (hs : s.Logs es ws) : r = s := by
  cases r
  cases s
  rw [Report.mk.injEq]
  exact ⟨hr.errors.trans hs.errors.symm, hr.warnings.trans hs.warnings.symm,
    hr.totalErrors.trans hs.totalErrors.symm, hr.totalWarnings.trans hs.totalWarnings.symm⟩

/-- What another log kept is written, and what it dropped is counted. -/
theorem extend (hr : r.Logs es ws) (hs : s.Logs fs vs) :
    (r.extend s).Logs (es ++ fs) (ws ++ vs) := by
  have hwarnings := r.warnings_pushErrors s.errors
  have hkept : (r.pushErrors s.errors).errors =
      r.errors ++ s.errors.take (maxErrors - r.errors.length) :=
    errors_pushErrors r s.errors (hr.length_errors ▸ Nat.min_le_left _ _)
  rw [Report.extend, pushWarnings_eq]
  refine ⟨?_, ?_, ?_, ?_⟩
  · -- the room that is left is the same, whether the errors that were dropped count or not
    have hroom : min (maxErrors - min maxErrors es.length) maxErrors = maxErrors - es.length := by
      omega
    rw [List.take_append, ← hr.errors]
    exact hkept.trans (by rw [hr.length_errors, hs.errors, List.take_take, hroom])
  · rw [← hr.warnings, ← hs.warnings, ← hwarnings.1]
  · have hdropped : s.dropped = fs.length - min maxErrors fs.length := by
      rw [dropped, hs.totalErrors, hs.length_errors]
    change (r.pushErrors s.errors).totalErrors + s.dropped = _
    rw [totalErrors_pushErrors, hr.totalErrors, hs.length_errors, hdropped, List.length_append]
    omega
  · change (r.pushErrors s.errors).totalWarnings + s.warnings.length = _
    rw [hwarnings.2, hr.totalWarnings, hs.warnings, List.length_append]

theorem pushError (h : r.Logs es ws) (d : Diagnostic) : (r.pushError d).Logs (es ++ [d]) ws := by
  have hone : ({ errors := [d], totalErrors := 1 } : Report).Logs [d] [] := ⟨rfl, rfl, rfl, rfl⟩
  have hextend := h.extend hone
  rwa [List.append_nil] at hextend

theorem pushWarning (h : r.Logs es ws) (d : Diagnostic) :
    (r.pushWarning d).Logs es (ws ++ [d]) := by
  have hone : ({ warnings := [d], totalWarnings := 1 } : Report).Logs [] [d] := ⟨rfl, rfl, rfl, rfl⟩
  have hextend := h.extend hone
  rwa [List.append_nil] at hextend

end Logs

/-- The errors and warnings can be put down: their spans and their numbers fit. -/
structure Writable (es ws : List Diagnostic) : Prop where
  errors : ∀ d ∈ es, d.span.Fits
  warnings : ∀ d ∈ ws, d.span.Fits
  totalErrors : es.length < UInt64.size
  totalWarnings : ws.length < UInt64.size

namespace Writable

variable {es ws fs vs : List Diagnostic}

/-- Some of what can be written can be written. -/
theorem sublist (h : Writable fs vs) (he : es.Sublist fs) (hw : ws.Sublist vs) :
    Writable es ws where
  errors d hd := h.errors d (he.subset hd)
  warnings d hd := h.warnings d (hw.subset hd)
  totalErrors := Nat.lt_of_le_of_lt he.length_le h.totalErrors
  totalWarnings := Nat.lt_of_le_of_lt hw.length_le h.totalWarnings

theorem of_append_left (h : Writable (es ++ fs) (ws ++ vs)) : Writable es ws :=
  h.sublist (List.sublist_append_left _ _) (List.sublist_append_left _ _)

theorem of_append_right (h : Writable (es ++ fs) (ws ++ vs)) : Writable fs vs :=
  h.sublist (List.sublist_append_right _ _) (List.sublist_append_right _ _)

end Writable

/-- Where everything that was written can be put down, so can the report. -/
theorem Logs.fits {r : Report} {es ws : List Diagnostic} (h : r.Logs es ws) (hw : Writable es ws) :
    r.Fits where
  errors d hd := hw.errors d (List.mem_of_mem_take (h.errors ▸ hd))
  warnings := h.warnings ▸ hw.warnings
  totalErrors := h.totalErrors ▸ hw.totalErrors
  totalWarnings := h.totalWarnings ▸ hw.totalWarnings

/-! ### Keeping a report -/

-- The steps of a report and those of the reports merged into it go through each other, and so does
-- the induction: what is in the log already comes first in both.

mutual

/-- A step adds its entries to a log. -/
theorem Step.exists_keep {f : Format} (hf : f.Faithful) (s : Step) {r : Report}
    {es ws : List Diagnostic} (h : r.Logs es ws)
    (hw : Writable (es ++ errorsOf s.entries) (ws ++ warningsOf s.entries)) :
    ∃ r', s.keep f r = some r' ∧
      r'.Logs (es ++ errorsOf s.entries) (ws ++ warningsOf s.entries) := by
  cases s with
  | write e =>
      cases e with
      | error d =>
          refine ⟨r.pushError d, rfl, ?_⟩
          have hpush := h.pushError d
          rwa [← List.append_nil ws] at hpush
      | warning d =>
          refine ⟨r.pushWarning d, rfl, ?_⟩
          have hpush := h.pushWarning d
          rwa [← List.append_nil es] at hpush
  | merge steps =>
      obtain ⟨s, hs, hlogs⟩ := exists_keep hf steps logs_empty hw.of_append_right
      exact ⟨r.extend s, by rw [Step.keep, hs]; rfl, h.extend hlogs⟩
  | reread =>
      refine ⟨r, hf r (h.fits hw.of_append_left), ?_⟩
      change r.Logs (es ++ []) (ws ++ [])
      rwa [List.append_nil, List.append_nil]

/-- Steps add their entries to a log. -/
theorem exists_keep {f : Format} (hf : f.Faithful) (steps : List Step) {r : Report}
    {es ws : List Diagnostic} (h : r.Logs es ws)
    (hw : Writable (es ++ errorsOf (entriesOf steps)) (ws ++ warningsOf (entriesOf steps))) :
    ∃ r', keep f steps r = some r' ∧
      r'.Logs (es ++ errorsOf (entriesOf steps)) (ws ++ warningsOf (entriesOf steps)) := by
  cases steps with
  | nil =>
      refine ⟨r, rfl, ?_⟩
      change r.Logs (es ++ []) (ws ++ [])
      rwa [List.append_nil, List.append_nil]
  | cons s ss =>
      rw [entriesOf, errorsOf_append, warningsOf_append, ← List.append_assoc,
        ← List.append_assoc] at hw ⊢
      obtain ⟨r₁, hr₁, h₁⟩ := s.exists_keep hf h hw.of_append_left
      obtain ⟨r₂, hr₂, h₂⟩ := exists_keep hf ss h₁ hw
      exact ⟨r₂, by rw [keep, hr₁]; exact hr₂, h₂⟩

end

/-- **A report is a faithful log.**  After any steps, with other reports merged in that were kept by
steps of their own, and with any of them put down and read back on the way, the report is there, it
has kept the first twenty errors and all warnings as they were written, it has counted all of them,
and it is full exactly when there were twenty errors. -/
theorem logs_keep {f : Format} (hf : f.Faithful) (steps : List Step)
    (hfits : ∀ e ∈ entriesOf steps, e.diagnostic.span.Fits)
    (herrors : (errorsOf (entriesOf steps)).length < UInt64.size)
    (hwarnings : (warningsOf (entriesOf steps)).length < UInt64.size) :
    ∃ r, keep f steps .empty = some r ∧
      r.errors = (errorsOf (entriesOf steps)).take maxErrors ∧
      r.totalErrors = (errorsOf (entriesOf steps)).length ∧
      r.warnings = warningsOf (entriesOf steps) ∧
      r.totalWarnings = (warningsOf (entriesOf steps)).length ∧
      (r.isFull = true ↔ maxErrors ≤ (errorsOf (entriesOf steps)).length) := by
  have hw : Writable (errorsOf (entriesOf steps)) (warningsOf (entriesOf steps)) := by
    refine ⟨fun d hd => ?_, fun d hd => ?_, herrors, hwarnings⟩
    · obtain ⟨e, he, hed⟩ := List.mem_filterMap.1 hd
      cases e with
      | error d' => exact Option.some.inj hed ▸ hfits _ he
      | warning d' => cases hed
    · obtain ⟨e, he, hed⟩ := List.mem_filterMap.1 hd
      cases e with
      | error d' => cases hed
      | warning d' => exact Option.some.inj hed ▸ hfits _ he
  obtain ⟨r, hr, h⟩ := exists_keep hf steps logs_empty hw
  refine ⟨r, hr, h.errors, h.totalErrors, h.warnings, h.totalWarnings, ?_⟩
  rw [isFull, decide_eq_true_eq, h.totalErrors]
  rfl

end Report

/-! ### Reports as JSON values -/

theorem Json.toNat?_number {limit n : Nat} (h : n < limit) :
    toNat? limit (.number n) = some n := by
  have hint : (n : Int) < limit := Int.ofNat_lt.2 h
  rw [toNat?, if_pos ⟨Int.natCast_nonneg n, hint⟩, Int.toNat_natCast]

/-- A span is read back from any object that has its members. -/
theorem Span.ofMembers?_eq {s : Span} {j : Json} (h : s.Fits)
    (hline : j.member? "line" = some (.number s.start.line))
    (hcol : j.member? "column" = some (.number s.start.col))
    (hendLine : j.member? "end_line" = some (.number s.stop.line))
    (hendCol : j.member? "end_column" = some (.number s.stop.col)) :
    ofMembers? j = some s := by
  refine Option.bind_eq_some_iff.2 ⟨_, hline, Option.bind_eq_some_iff.2
    ⟨_, Json.toNat?_number h.startLine, ?_⟩⟩
  refine Option.bind_eq_some_iff.2 ⟨_, hcol, Option.bind_eq_some_iff.2
    ⟨_, Json.toNat?_number h.startCol, ?_⟩⟩
  refine Option.bind_eq_some_iff.2 ⟨_, hendLine, Option.bind_eq_some_iff.2
    ⟨_, Json.toNat?_number h.stopLine, ?_⟩⟩
  exact Option.bind_eq_some_iff.2 ⟨_, hendCol, Option.bind_eq_some_iff.2
    ⟨_, Json.toNat?_number h.stopCol, rfl⟩⟩

/-- A suggestion is read back, and so is that there is none. -/
theorem Diagnostic.suggestionOfMembers?_toJson (d : Diagnostic) :
    suggestionOfMembers? d.toJson = some d.suggestion := by
  obtain ⟨_, _, _, _, _, _, _, suggestion⟩ := d
  cases suggestion <;> rfl

/-- A diagnostic is read back as what it was. -/
theorem Diagnostic.ofJson?_toJson {d : Diagnostic} (h : d.span.Fits) :
    ofJson? d.toJson = some d := by
  have hspan : Span.ofMembers? d.toJson = some d.span := Span.ofMembers?_eq h rfl rfl rfl rfl
  have hsuggestion := d.suggestionOfMembers?_toJson
  have hfile : d.toJson.member? "file" = some (.string d.file) := rfl
  have hcode : d.toJson.member? "code" = some (.number d.code.number.toNat) := rfl
  have hseverity : d.toJson.member? "severity" = some (.string d.severity.text) := rfl
  have hcategory : d.toJson.member? "category" = some (.string d.category.text) := rfl
  have hmessage : d.toJson.member? "message" = some (.string d.message) := rfl
  have hline : d.toJson.member? "source_line" = some (.string d.sourceLine) := rfl
  -- the members are all that has to be known of the object
  generalize d.toJson = j at *
  refine Option.bind_eq_some_iff.2 ⟨_, hfile, Option.bind_eq_some_iff.2 ⟨_, rfl, ?_⟩⟩
  refine Option.bind_eq_some_iff.2 ⟨_, hcode, Option.bind_eq_some_iff.2
    ⟨_, Json.toNat?_number d.code.number.toNat_lt_size, ?_⟩⟩
  refine Option.bind_eq_some_iff.2 ⟨_, hseverity, Option.bind_eq_some_iff.2 ⟨_, rfl, ?_⟩⟩
  refine Option.bind_eq_some_iff.2 ⟨_, d.severity.ofText?_text, ?_⟩
  refine Option.bind_eq_some_iff.2 ⟨_, hcategory, Option.bind_eq_some_iff.2 ⟨_, rfl, ?_⟩⟩
  refine Option.bind_eq_some_iff.2 ⟨_, d.category.ofText?_text, ?_⟩
  refine Option.bind_eq_some_iff.2 ⟨_, hmessage, Option.bind_eq_some_iff.2 ⟨_, rfl, ?_⟩⟩
  refine Option.bind_eq_some_iff.2 ⟨_, hspan, ?_⟩
  refine Option.bind_eq_some_iff.2 ⟨_, hline, Option.bind_eq_some_iff.2 ⟨_, rfl, ?_⟩⟩
  refine Option.bind_eq_some_iff.2 ⟨_, hsuggestion, ?_⟩
  rw [UInt16.ofNat_toNat]
  rfl

theorem Diagnostic.mapM_ofJson?_toJson {ds : List Diagnostic} (h : ∀ d ∈ ds, d.span.Fits) :
    (ds.map toJson).mapM ofJson? = some ds := by
  induction ds with
  | nil => rfl
  | cons d ds ih =>
      rw [List.map_cons, List.mapM_cons, ofJson?_toJson (h d List.mem_cons_self),
        ih fun e he => h e (List.mem_cons_of_mem _ he)]
      rfl

namespace Report

/-- Reports as JSON values. -/
def Format.json : Format := ⟨Json, toJson, ofJson?⟩

/-- A report is read back from its JSON value. -/
theorem Format.faithful_json : json.Faithful := by
  intro r h
  change ofJson? r.toJson = some r
  have h₁ : r.toJson.member? "errors" = some (.array (r.errors.map Diagnostic.toJson)) := rfl
  have h₂ : r.toJson.member? "warnings" = some (.array (r.warnings.map Diagnostic.toJson)) := rfl
  have h₃ : r.toJson.member? "total_errors" = some (.number r.totalErrors) := rfl
  have h₄ : r.toJson.member? "total_warnings" = some (.number r.totalWarnings) := rfl
  generalize r.toJson = j at *
  refine Option.bind_eq_some_iff.2 ⟨_, h₁, Option.bind_eq_some_iff.2 ⟨_, rfl, ?_⟩⟩
  refine Option.bind_eq_some_iff.2 ⟨_, Diagnostic.mapM_ofJson?_toJson h.errors, ?_⟩
  refine Option.bind_eq_some_iff.2 ⟨_, h₂, Option.bind_eq_some_iff.2 ⟨_, rfl, ?_⟩⟩
  refine Option.bind_eq_some_iff.2 ⟨_, Diagnostic.mapM_ofJson?_toJson h.warnings, ?_⟩
  refine Option.bind_eq_some_iff.2 ⟨_, h₃, Option.bind_eq_some_iff.2
    ⟨_, Json.toNat?_number h.totalErrors, ?_⟩⟩
  exact Option.bind_eq_some_iff.2 ⟨_, h₄, Option.bind_eq_some_iff.2
    ⟨_, Json.toNat?_number h.totalWarnings, rfl⟩⟩

/-- A diagnostic that says one word, about a value that is used before it is defined. -/
def saying (word : String) (suggestion : Option String := none) : Diagnostic where
  file := "log.mlir"
  code := .undefinedValue
  severity := .error
  category := .symbolic
  message := word
  span := ⟨⟨4, 7⟩, ⟨4, 12⟩⟩
  sourceLine := "  om.class.field @x, %y : !om.integer"
  suggestion := suggestion

/-- An error, a merged report with twenty-two others that is read back on the way, and a warning;
and all of it is read back again. -/
def crowded : List Step :=
  [.write (.error (saying "first" "define it")),
    .merge (.replicate 22 (.write (.error (saying "other"))) ++ [.reread]),
    .write (.warning (saying "last")), .reread]

/-- Of the twenty-three errors twenty are kept, the first of them in front, and the warning. -/
theorem logs_keep_crowded : ∃ r, keep .json crowded .empty = some r ∧
    r.errors = saying "first" "define it" :: List.replicate 19 (saying "other") ∧
      r.totalErrors = 23 ∧ r.warnings = [saying "last"] ∧ r.totalWarnings = 1 ∧
        r.isFull = true := by
  obtain ⟨r, hr, he, hte, hw, htw, hfull⟩ :=
    logs_keep Format.faithful_json crowded (by decide) (by decide) (by decide)
  exact ⟨r, hr, he, hte, hw, htw, hfull.2 (by decide)⟩

end Report

end ObjectModel
