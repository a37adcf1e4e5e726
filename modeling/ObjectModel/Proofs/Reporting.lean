/-
**Readers with a report do what readers that stop at a problem do.**

Reading is written twice.  A reader that stops at its first problem hands the problem on, and one
that carries the report along writes the problem down and then gives no result.  To take a reader of
the first kind and write down what it stops at respects `pure` and `>>=`, so the two agree on
whatever is put together from parts on which they agree; it remains to look at the places where one
of them stops.  Items in a row, and a module, are read by readers that note a list of problems, and
there the report is the one that is made of the list.

Main definitions:

* `Reporting.ofReading` — a reader that stops at its first problem, as one with a report;
* `Reporting.Reports` — a reader with a report does what the other reader does;
* `Progress.reporter`, `Reporting.Matches` — the same with a list of problems.

Main results:

* `Reporting.ofReading_bind` — what a reader writes down is written down in the order of its parts;
* `Reporting.reports_operation`, `Reporting.reports_ty`, `Reporting.reports_constant` — **the two
  ways to read a line and its parts are the same**;
* `Reporting.matches_module`, `Reporting.load_eq` — and so are those to read a module and a source.
-/

import ObjectModel.Module.Reporting
import ObjectModel.Proofs.Log

set_option relaxedAutoImplicit false
set_option autoImplicit false

namespace ObjectModel

namespace Reporting

variable {α β : Type}

/-! ### Readers that stop at their first problem -/

/-- Runs a reader that stops at its first problem, and reports the problem. -/
def ofReading (r : Reading α) : Reporting α := OptionT.mk fun p =>
  match r p.cursor with
  | .ok a c => (some a, p.move c)
  | .error e c => (none, (p.move c).push e)

theorem run_ofReading_of_ok {r : Reading α} {p : Reporter} {a : α} {c : Cursor}
    (h : r p.cursor = .ok a c) : (ofReading r).run.run p = (some a, p.move c) := by
  simp [ofReading, StateT.run, h]

theorem run_ofReading_of_error {r : Reading α} {p : Reporter} {e : Problem} {c : Cursor}
    (h : r p.cursor = .error e c) : (ofReading r).run.run p = (none, (p.move c).push e) := by
  simp [ofReading, StateT.run, h]

theorem run_bind_of_some {x : Reporting α} {f : α → Reporting β} {p p' : Reporter} {a : α}
    (h : x.run.run p = (some a, p')) : (x >>= f).run.run p = (f a).run.run p' := by
  rw [OptionT.run_bind, Option.elimM, StateT.run_bind, h]
  rfl

theorem run_bind_of_none {x : Reporting α} {f : α → Reporting β} {p p' : Reporter}
    (h : x.run.run p = (none, p')) : (x >>= f).run.run p = (none, p') := by
  rw [OptionT.run_bind, Option.elimM, StateT.run_bind, h]
  rfl

theorem ofReading_pure (a : α) : ofReading (pure a) = pure a := rfl

/-- What is written down behind the first of two readers is what the second one stops at. -/
theorem ofReading_bind (r : Reading α) (f : α → Reading β) :
    ofReading (r >>= f) = ofReading r >>= fun a => ofReading (f a) := by
  funext p
  change (ofReading (r >>= f)).run.run p = (ofReading r >>= fun a => ofReading (f a)).run.run p
  have hbind : (r >>= f) p.cursor = EStateM.bind r f p.cursor := rfl
  rw [EStateM.bind] at hbind
  cases h : r p.cursor with
  | error e c =>
      rw [h] at hbind
      rw [run_bind_of_none (run_ofReading_of_error h), run_ofReading_of_error hbind]
  | ok a c =>
      rw [h] at hbind
      rw [run_bind_of_some (run_ofReading_of_ok h)]
      cases hf : f a c with
      | error e d =>
          rw [run_ofReading_of_error (hbind.trans hf)]
          exact (run_ofReading_of_error (p := p.move c) hf).symm
      | ok b d =>
          rw [run_ofReading_of_ok (hbind.trans hf)]
          exact (run_ofReading_of_ok (p := p.move c) hf).symm

/-- The reader with a report does what the other one does, and reports what that one stops at. -/
def Reports (x : Reporting α) (r : Reading α) : Prop := x = ofReading r

theorem reports_pure (a : α) : Reports (pure a) (pure a) := ofReading_pure a

theorem Reports.bind {x : Reporting α} {r : Reading α} {f : α → Reporting β} {g : α → Reading β}
    (hx : Reports x r) (hf : ∀ a, Reports (f a) (g a)) : Reports (x >>= f) (r >>= g) := by
  rw [Reports, ofReading_bind, hx, funext hf]

/-- Both look at the same place. -/
theorem Reports.get_bind {f : Cursor → Reporting α} {g : Cursor → Reading α}
    (h : ∀ c, Reports (f c) (g c)) : Reports (do f (← get).cursor) (do g (← get)) := by
  funext p
  exact congrFun (h p.cursor) p

theorem reports_kind : Reports kind Reading.kind := rfl

theorem reports_spanHere : Reports spanHere Reading.spanHere := rfl

theorem reports_lastSpan : Reports lastSpan Reading.lastSpan := rfl

theorem reports_advance : Reports advance Reading.advance := rfl

theorem reports_skipNewlines : Reports skipNewlines Reading.skipNewlines := rfl

theorem reports_move (f : Cursor → Cursor) :
    Reports (modify fun p => p.move (f p.cursor)) (modify f) := rfl

-- A reader stops where the other one reports and then gives no result.

theorem reports_errorAt (code : Code) (message : String) (span : Span) :
    Reports (α := α) (do errorAt code message span; failure)
      (Reading.failAt code message span) := rfl

theorem reports_errorHere (code : Code) (message : String) :
    Reports (α := α) (do errorHere code message; failure) (Reading.fail code message) := rfl

theorem reports_unexpected (code : Code) (what : String) :
    Reports (α := α) (do unexpected code what; failure) (Reading.expected code what) := rfl

/-! ### Tokens and lists -/

theorem reports_eat (k : TokenKind) : Reports (eat k) (Reading.eat k) := by
  refine reports_kind.bind fun k' => ?_
  split
  · exact reports_advance.bind fun _ => reports_pure _
  · exact reports_pure _

theorem reports_expect (k : TokenKind) : Reports (expect k) (Reading.expect k) := by
  refine reports_kind.bind fun k' => ?_
  split
  · exact reports_advance
  · exact reports_unexpected _ _

theorem reports_expectSome (what : String) (pick : TokenKind → Option α) :
    Reports (expectSome what pick) (Reading.expectSome what pick) := by
  refine reports_kind.bind fun k => ?_
  cases pick k with
  | some a => exact reports_advance.bind fun _ => reports_pure _
  | none => exact reports_unexpected _ _

theorem reports_valueName : Reports valueName Reading.valueName :=
  reports_spanHere.bind fun _ => reports_expectSome _ _

theorem reports_symbolName : Reports symbolName Reading.symbolName :=
  reports_spanHere.bind fun _ => reports_expectSome _ _

theorem reports_lineEnd : Reports lineEnd Reading.lineEnd := by
  refine reports_kind.bind fun k => ?_
  cases k with
  | newline => exact reports_skipNewlines
  | rightBrace | eof => exact reports_pure _
  | _ => exact reports_unexpected _ _

theorem reports_commaSeparatedUpTo {x : Reporting α} {r : Reading α} (h : Reports x r) (n : Nat) :
    Reports (commaSeparatedUpTo x n) (Reading.commaSeparatedUpTo r n) := by
  induction n with
  | zero => exact h.bind fun _ => reports_pure _
  | succ n ih =>
      refine h.bind fun a => (reports_eat .comma).bind fun b => ?_
      split
      · exact ih.bind fun _ => reports_pure _
      · exact reports_pure _

theorem reports_commaSeparatedBefore (close : TokenKind) {x : Reporting α} {r : Reading α}
    (h : Reports x r) :
    Reports (commaSeparatedBefore close x) (Reading.commaSeparatedBefore close r) := by
  refine reports_kind.bind fun k => ?_
  split
  · exact reports_pure _
  · exact .get_bind fun c => reports_commaSeparatedUpTo h c.ahead.length

theorem reports_operandsUpTo (n : Nat) : Reports (operandsUpTo n) (Reading.operandsUpTo n) := by
  induction n with
  | zero => exact reports_pure _
  | succ n ih =>
      refine reports_kind.bind fun k => ?_
      cases k with
      | value name =>
          refine reports_valueName.bind fun a => (reports_eat .comma).bind fun b => ?_
          split
          · exact ih.bind fun _ => reports_pure _
          · exact reports_pure _
      | _ => exact reports_pure _

theorem reports_operands : Reports operands Reading.operands :=
  .get_bind fun c => reports_operandsUpTo (c.ahead.length + 1)

/-! ### Types and constants -/

theorem reports_tyUpTo (n : Nat) : Reports (tyUpTo n) (Reading.tyUpTo n) := by
  induction n with
  | zero => exact reports_unexpected _ _
  | succ n ih =>
      refine reports_spanHere.bind fun span => reports_kind.bind fun k => ?_
      cases k with
      | typeName name =>
          refine reports_advance.bind fun _ => ?_
          split
          · exact reports_pure _
          · exact reports_pure _
          · exact reports_pure _
          · exact reports_pure _
          · refine (reports_expect .less).bind fun _ => ih.bind fun element => ?_
            exact (reports_expect .greater).bind fun _ => reports_pure _
          · refine (reports_expect .less).bind fun _ => ih.bind fun key => ?_
            refine (reports_expect .comma).bind fun _ => ih.bind fun value => ?_
            exact (reports_expect .greater).bind fun _ => reports_pure _
          · refine (reports_expect .less).bind fun _ => reports_symbolName.bind fun target => ?_
            exact (reports_expect .greater).bind fun _ => reports_pure _
          · -- the other reader comes to its last case too, for it asks for the same names
            (try split) <;> first | contradiction | exact reports_errorAt _ _ _
      | word name =>
          by_cases hname : name = "tuple"
          · subst hname
            refine reports_advance.bind fun _ => (reports_expect .less).bind fun _ => ?_
            refine (reports_commaSeparatedBefore .greater ih).bind fun elements => ?_
            exact (reports_expect .greater).bind fun _ => reports_pure _
          · -- neither reader takes the word for the beginning of a tuple
            simp only
            cases Ty.ofWidth? name with
            | some ty => exact reports_advance.bind fun _ => reports_pure _
            | none => exact reports_errorAt _ _ _
      | _ => exact reports_unexpected _ _

theorem reports_ty : Reports ty Reading.ty := .get_bind fun c => reports_tyUpTo (c.ahead.length + 1)

theorem reports_tysBefore (close : TokenKind) :
    Reports (tysBefore close) (Reading.tysBefore close) :=
  reports_commaSeparatedBefore close reports_ty

theorem reports_optionalTy : Reports optionalTy Reading.optionalTy := by
  refine (reports_eat .colon).bind fun b => ?_
  split
  · exact reports_ty.bind fun _ => reports_pure _
  · exact reports_pure _

theorem reports_mapKey : Reports mapKey Reading.mapKey := by
  refine reports_kind.bind fun k => ?_
  cases k with
  | word key | string key => exact reports_advance.bind fun _ => reports_pure _
  | _ => exact reports_unexpected _ _

theorem reports_segmentsUpTo (n : Nat) : Reports (segmentsUpTo n) (Reading.segmentsUpTo n) := by
  induction n with
  | zero => exact reports_symbolName.bind fun _ => reports_pure _
  | succ n ih =>
      refine reports_symbolName.bind fun segment => (reports_eat .doubleColon).bind fun b => ?_
      split
      · exact ih.bind fun _ => reports_pure _
      · exact reports_pure _

theorem reports_symbolPath : Reports symbolPath Reading.symbolPath := by
  refine (reports_expect .less).bind fun _ => (reports_expect .less).bind fun _ => ?_
  refine .get_bind fun c => (reports_segmentsUpTo c.ahead.length).bind fun segments => ?_
  refine (reports_expect .greater).bind fun _ => (reports_expect .greater).bind fun _ => ?_
  exact reports_pure _

theorem reports_constantUpTo (n : Nat) : Reports (constantUpTo n) (Reading.constantUpTo n) := by
  induction n with
  | zero => exact reports_unexpected _ _
  | succ n ih =>
      refine reports_spanHere.bind fun span => reports_kind.bind fun k => ?_
      cases k with
      | integer value | string value => exact reports_advance.bind fun _ => reports_pure _
      | attrName name =>
          refine reports_advance.bind fun _ => ?_
          split
          · refine (reports_expect .less).bind fun _ => ?_
            refine (reports_expectSome _ _).bind fun value => ?_
            exact (reports_expect .greater).bind fun _ => reports_pure _
          · refine (reports_expect .less).bind fun _ => reports_ty.bind fun elementTy => ?_
            refine (reports_expect .comma).bind fun _ => ?_
            refine (reports_expect .leftBracket).bind fun _ => ?_
            have helement := ih.bind fun element =>
              reports_optionalTy.bind fun _ => reports_pure element
            refine (reports_commaSeparatedBefore .rightBracket helement).bind fun elements => ?_
            refine (reports_expect .rightBracket).bind fun _ => ?_
            exact (reports_expect .greater).bind fun _ => reports_pure _
          · refine (reports_expect .less).bind fun _ => reports_ty.bind fun valueTy => ?_
            refine (reports_expect .comma).bind fun _ => ?_
            refine (reports_expect .leftBrace).bind fun _ => ?_
            have hentry := reports_mapKey.bind fun key => (reports_expect .equals).bind fun _ =>
              ih.bind fun value => reports_optionalTy.bind fun _ => reports_pure (key, value)
            refine (reports_commaSeparatedBefore .rightBrace hentry).bind fun entries => ?_
            refine (reports_expect .rightBrace).bind fun _ => ?_
            exact (reports_expect .greater).bind fun _ => reports_pure _
          · exact reports_symbolPath.bind fun _ => reports_pure _
          · (try split) <;> first | contradiction | exact reports_errorAt _ _ _
      | _ => exact reports_unexpected _ _

theorem reports_constant : Reports constant Reading.constant :=
  .get_bind fun c => reports_constantUpTo (c.ahead.length + 1)

/-! ### Operations -/

theorem reports_constantAction : Reports constantAction Reading.constantAction := by
  refine reports_constant.bind fun value => (reports_expect .colon).bind fun _ => ?_
  exact reports_ty.bind fun _ => reports_pure _

theorem reports_objectAction : Reports objectAction Reading.objectAction := by
  refine reports_symbolName.bind fun target => (reports_expect .leftParen).bind fun _ => ?_
  refine reports_operands.bind fun actuals => (reports_expect .rightParen).bind fun _ => ?_
  refine (reports_expect .colon).bind fun _ => (reports_expect .leftParen).bind fun _ => ?_
  refine (reports_tysBefore .rightParen).bind fun operandTys => ?_
  refine (reports_expect .rightParen).bind fun _ => (reports_expect .arrow).bind fun _ => ?_
  refine reports_ty.bind fun resultTy => ?_
  split
  · exact reports_pure _
  · exact reports_errorAt _ _ _

theorem reports_listAction : Reports listAction Reading.listAction := by
  refine reports_operands.bind fun elements => (reports_expect .colon).bind fun _ => ?_
  exact reports_ty.bind fun _ => reports_pure _

theorem reports_tupleAction : Reports tupleAction Reading.tupleAction := by
  refine reports_spanHere.bind fun start => reports_operands.bind fun elements => ?_
  refine (reports_expect .colon).bind fun _ => (reports_tysBefore .newline).bind fun tys => ?_
  split
  · exact reports_pure _
  · exact reports_errorAt _ _ _

theorem reports_mapAction : Reports mapAction Reading.mapAction := by
  refine reports_operands.bind fun entries => (reports_expect .colon).bind fun _ => ?_
  refine reports_ty.bind fun keyTy => (reports_expect .comma).bind fun _ => ?_
  exact reports_ty.bind fun _ => reports_pure _

theorem reports_fieldAction : Reports fieldAction Reading.fieldAction := by
  refine reports_symbolName.bind fun name => (reports_expect .comma).bind fun _ => ?_
  refine reports_valueName.bind fun value => (reports_expect .colon).bind fun _ => ?_
  exact reports_ty.bind fun _ => reports_pure _

theorem reports_unknownOperation (name : String) (span : Span) :
    Reports (α := α) (do unknownOperation name span; failure)
      (Reading.unknownOperation name span) := by
  unfold unknownOperation Reading.unknownOperation
  split
  · exact reports_errorAt _ _ _
  · rfl

theorem reports_action (inClass : Bool) (name : String) (span : Span) :
    Reports (action inClass name span) (Reading.action inClass name span) := by
  unfold action
  split
  · exact reports_constantAction
  · exact reports_objectAction
  · exact reports_listAction
  · exact reports_tupleAction
  · exact reports_mapAction
  · cases inClass with
    | true => exact reports_fieldAction
    | false => exact reports_errorAt _ _ _
  · unfold Reading.action
    split <;> first | contradiction | exact reports_unknownOperation _ _

theorem reports_resultName : Reports resultName Reading.resultName := by
  refine reports_kind.bind fun k => ?_
  cases k with
  | value name =>
      refine reports_valueName.bind fun name => ?_
      exact (reports_expect .equals).bind fun _ => reports_pure _
  | _ => exact reports_pure _

theorem reports_operationName : Reports operationName Reading.operationName := by
  refine reports_kind.bind fun k => ?_
  cases k with
  | word name => exact reports_advance.bind fun _ => reports_pure _
  | _ => exact reports_unexpected _ _

theorem reports_checkResult (result : Option Ident) (a : Action) (span : Span) :
    Reports (checkResult result a span) (Reading.checkResult result a span) := by
  unfold checkResult Reading.checkResult
  split
  · exact reports_errorAt _ _ _
  · split
    · exact reports_errorAt _ _ _
    · exact reports_pure _

theorem reports_operation (inClass : Bool) :
    Reports (operation inClass) (Reading.operation inClass) := by
  refine reports_spanHere.bind fun start => reports_resultName.bind fun result => ?_
  refine reports_spanHere.bind fun nameSpan => reports_operationName.bind fun name => ?_
  refine (reports_action inClass name nameSpan).bind fun action => ?_
  refine (reports_checkResult result action nameSpan).bind fun _ => ?_
  exact reports_lastSpan.bind fun last => reports_lineEnd.bind fun _ => reports_pure _

/-! ### Headers and bodies -/

theorem reports_param : Reports param Reading.param := by
  refine reports_valueName.bind fun name => (reports_expect .colon).bind fun _ => ?_
  exact reports_ty.bind fun ty => reports_lastSpan.bind fun _ => reports_pure _

theorem reports_classHeader : Reports classHeader Reading.classHeader := by
  refine reports_advance.bind fun _ => reports_symbolName.bind fun name => ?_
  refine (reports_expect .leftParen).bind fun _ => ?_
  refine (reports_commaSeparatedBefore .rightParen reports_param).bind fun params => ?_
  refine (reports_expect .rightParen).bind fun _ => (reports_expect .leftBrace).bind fun _ => ?_
  exact reports_skipNewlines.bind fun _ => reports_pure _

theorem reports_closeBody (start : Span) (what : String) :
    Reports (closeBody start what) (Reading.closeBody start what) := by
  refine reports_kind.bind fun k => ?_
  split
  · refine reports_advance.bind fun _ => reports_lastSpan.bind fun last => ?_
    exact reports_lineEnd.bind fun _ => reports_pure _
  · exact reports_errorHere _ _

theorem reports_hardwareBody : Reports hardwareBody Reading.hardwareBody := rfl

theorem reports_hardware : Reports hardware Reading.hardware := by
  refine reports_spanHere.bind fun start => reports_advance.bind fun _ => ?_
  refine reports_symbolName.bind fun name => ?_
  refine .bind (reports_move _) fun _ => reports_kind.bind fun k => ?_
  split
  · refine reports_advance.bind fun _ => reports_hardwareBody.bind fun innerSymbols => ?_
    exact (reports_closeBody _ _).bind fun _ => reports_pure _
  · exact (reports_errorHere (α := Unit) _ _).bind fun _ =>
      reports_hardwareBody.bind fun innerSymbols =>
        (reports_closeBody _ _).bind fun _ => reports_pure _

end Reporting

/-! ### Lists of problems -/

namespace Source

variable (s : Source)

/-- The report of a list of problems holds their diagnostics. -/
theorem logs_report (ps : List Problem) :
    (s.report ps).Logs (ps.map (Diagnostic.ofProblem s.name s.quote)) [] := by
  have hwarnings := Report.empty.warnings_pushErrors (ps.map (.ofProblem s.name s.quote))
  exact ⟨Report.errors_pushErrors _ _ (Nat.zero_le _), hwarnings.1,
    (Report.totalErrors_pushErrors _ _).trans (Nat.zero_add _), hwarnings.2⟩

theorem totalErrors_report (ps : List Problem) : (s.report ps).totalErrors = ps.length := by
  rw [(s.logs_report ps).totalErrors, List.length_map]

theorem report_append_singleton (ps : List Problem) (e : Problem) :
    s.report (ps ++ [e]) = (s.report ps).pushError (.ofProblem s.name s.quote e) := by
  rw [report, report, Report.ofProblems, Report.ofProblems, List.map_append, Report.pushErrors,
    List.foldl_append]
  rfl

/-- To merge the report of some problems into that of others is to report all of them. -/
theorem report_extend_report (ps qs : List Problem) :
    (s.report ps).extend (s.report qs) = s.report (ps ++ qs) := by
  have hall := s.logs_report (ps ++ qs)
  rw [List.map_append] at hall
  exact ((s.logs_report ps).extend (s.logs_report qs)).unique hall

end Source

/-- The same place with the report of the problems that are noted. -/
def Progress.reporter (s : Source) (p : Progress) : Reporter := ⟨s, p.cursor, s.report p.problems⟩

theorem Progress.measure_reporter (s : Source) (p : Progress) :
    (p.reporter s).measure = p.measure := by
  rw [Reporter.measure, reporter, s.totalErrors_report]
  rfl

theorem Progress.isFull_reporter (s : Source) (p : Progress) :
    (p.reporter s).report.isFull = p.spent := by
  rw [reporter, Report.isFull, s.totalErrors_report]
  rfl

/-- To note one more problem is to report it. -/
theorem Progress.push_reporter (s : Source) (p : Progress) (e : Problem) :
    (p.reporter s).push e = ({ p with problems := p.problems ++ [e] } : Progress).reporter s := by
  rw [reporter, reporter, s.report_append_singleton]
  rfl

namespace Reporting

variable {α β : Type} {s : Source}

/-- The reader with a report does what the one with a list of problems does, and its report is that
of the list. -/
def Matches (s : Source) (x : Reporting α) (y : Noting α) : Prop :=
  ∀ p : Progress, x.run.run (p.reporter s) = (y.run.run p).map id (Progress.reporter s)

theorem matches_pure (a : α) : Matches s (pure a) (pure a) := fun _ => rfl

theorem Reports.attempt {x : Reporting α} {r : Reading α} (h : Reports x r) :
    Matches s x (Noting.attempt r) := by
  intro p
  rw [h]
  cases hr : r p.cursor with
  | ok a c => rw [Noting.run_attempt_of_ok hr, run_ofReading_of_ok (p := p.reporter s) hr]; rfl
  | error e c =>
      rw [Noting.run_attempt_of_error hr, run_ofReading_of_error (p := p.reporter s) hr]
      exact congrArg (Prod.mk none) (Progress.push_reporter s ⟨c, p.problems⟩ e)

theorem Matches.bind {x : Reporting α} {y : Noting α} {f : α → Reporting β} {g : α → Noting β}
    (hx : Matches s x y) (hf : ∀ a, Matches s (f a) (g a)) : Matches s (x >>= f) (y >>= g) := by
  intro p
  have hfirst := hx p
  cases hy : y.run.run p with
  | mk o p' =>
      rw [hy] at hfirst
      cases o with
      | none => rw [run_bind_of_none hfirst, Noting.run_bind_of_none hy]; rfl
      | some a => rw [run_bind_of_some hfirst, Noting.run_bind_of_some hy, hf a p']

theorem matches_note (code : Code) (message : String) :
    Matches s (errorHere code message) (Noting.note code message) := fun p =>
  congrArg (Prod.mk (some ())) (Progress.push_reporter s p _)

/-- Items in a row, read with a report and with a list of problems. -/
theorem itemsFrom_reporter (close : TokenKind) {x : Reporting α} {y : Noting α}
    (h : Matches s x y) (p : Progress) :
    itemsFrom close x (p.reporter s) =
      (Noting.itemsFrom close y p).map id (Progress.reporter s) := by
  -- both stop at the same places, for a report counts what a list holds
  have hstops (p : Progress) :
      ((p.reporter s).cursor.kind = close ∨ (p.reporter s).cursor.kind = .eof ∨
        (p.reporter s).report.isFull) ↔
        (p.cursor.kind = close ∨ p.cursor.kind = .eof ∨ p.spent) := by
    rw [p.isFull_reporter]
    rfl
  fun_induction Noting.itemsFrom close y p with
  | case1 p hstop => rw [itemsFrom, if_pos ((hstops p).2 hstop)]; rfl
  | case2 p hgo read cursor next hless later ih =>
      rw [itemsFrom, if_neg (mt (hstops p).1 hgo)]
      simp only [h p]
      have hnext : (next.reporter s).measure < (p.reporter s).measure := by
        rwa [next.measure_reporter, p.measure_reporter]
      exact (if_pos hnext).trans (congrArg (Prod.map (read.1.toList ++ ·) id) ih)
  | case3 p hgo read cursor next hless =>
      rw [itemsFrom, if_neg (mt (hstops p).1 hgo)]
      simp only [h p]
      have hnext : ¬ (next.reporter s).measure < (p.reporter s).measure := by
        rwa [next.measure_reporter, p.measure_reporter]
      exact if_neg hnext

theorem matches_items (close : TokenKind) {x : Reporting α} {y : Noting α} (h : Matches s x y) :
    Matches s (items close x) (Noting.items close y) := fun p =>
  congrArg (Prod.map some id) (itemsFrom_reporter close h p)

/-! ### Modules and sources -/

theorem matches_classDecl : Matches s classDecl Noting.classDecl := by
  refine reports_spanHere.attempt.bind fun start => reports_classHeader.attempt.bind ?_
  rintro ⟨name, params⟩
  refine (matches_items .rightBrace (reports_operation true).attempt).bind fun body => ?_
  exact (reports_closeBody start _).attempt.bind fun span => matches_pure _

theorem matches_item : Matches s item Noting.item := by
  refine reports_kind.attempt.bind fun k => ?_
  cases k with
  | word name =>
      by_cases hclass : name = "om.class"
      · subst hclass
        exact matches_classDecl.bind fun c => matches_pure _
      · by_cases hhardware : name = "hw.module"
        · subst hhardware
          exact reports_hardware.attempt.bind fun h => matches_pure _
        · simp only
          exact (reports_operation false).attempt.bind fun op => matches_pure _
  | value name => exact (reports_operation false).attempt.bind fun op => matches_pure _
  | rightBrace => exact (reports_errorHere _ _).attempt
  | _ => exact (reports_unexpected _ _).attempt

theorem matches_moduleItems : Matches s moduleItems Noting.moduleItems := by
  have hopen : Reports openWrapper (do
      Reading.advance
      Reading.expect .leftBrace
      Reading.skipNewlines) :=
    reports_advance.bind fun _ => (reports_expect _).bind fun _ => reports_skipNewlines
  have hclose : Reports closeWrapper (do
      Reading.expect .rightBrace
      Reading.skipNewlines) :=
    (reports_expect _).bind fun _ => reports_skipNewlines
  refine reports_kind.attempt.bind fun k => ?_
  split
  · refine hopen.attempt.bind fun _ => (matches_items .rightBrace matches_item).bind fun read => ?_
    exact hclose.attempt.bind fun _ => matches_pure read
  · exact matches_items .eof matches_item

theorem matches_module : Matches s module (Noting.module s.name) := by
  have hend (items : List Item) (start : Span) : Matches s
      (do return ⟨(← get).source.name, items, start.merge (← lastSpan)⟩ : Reporting Module)
      (do return ⟨s.name, items, start.merge (← Noting.attempt Reading.lastSpan)⟩) :=
    fun _ => rfl
  refine reports_skipNewlines.attempt.bind fun _ => reports_spanHere.attempt.bind fun start => ?_
  refine matches_moduleItems.bind fun items => reports_kind.attempt.bind fun next => ?_
  split
  · exact (matches_note _ _).bind fun _ => hend items start
  · exact hend items start

/-- Reading tokens with a report gives the same module, and the report of the problems. -/
theorem read_eq (s : Source) (ts : List Token) :
    read s ts = (Module.ofTokens? s.name ts).map id s.report := by
  have hstart : ({ source := s, cursor := .ofTokens ts } : Reporter) =
      ({ cursor := .ofTokens ts } : Progress).reporter s := rfl
  rw [read, hstart, matches_module]
  rfl

/-- **Reading a source with a report is reading it.** -/
theorem load_eq (s : Source) : load s = s.load := by
  have hfull : (s.report s.lexicalProblems).isFull =
      decide (Report.maxErrors ≤ s.lexicalProblems.length) := by
    rw [Report.isFull, s.totalErrors_report]
  have herrors (ps : List Problem) : (s.report ps).hasErrors = !ps.isEmpty := by
    rw [Report.hasErrors, s.totalErrors_report]
    cases ps <;> rfl
  cases hread : Module.ofTokens? s.name s.tokens with
  | mk o ps =>
      rw [load, Source.load, read_eq, hread, hfull]
      dsimp only [Prod.map, id]
      rw [s.report_extend_report, herrors]
      by_cases h : Report.maxErrors ≤ s.lexicalProblems.length
      · rw [if_pos h, if_pos (decide_eq_true h)]
      · rw [if_neg h, if_neg (mt of_decide_eq_true h)]
        cases o with
        | none => cases s.lexicalProblems ++ ps <;> rfl
        | some m => cases s.lexicalProblems ++ ps <;> rfl

end Reporting

end ObjectModel
