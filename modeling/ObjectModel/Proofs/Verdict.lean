/-
**The verdict on a source.**

A reader without a result has said what is wrong.  Wherever a part of a line cannot be read, the
reader writes exactly one problem into its report before it gives up, and one that has a result
leaves the report as it was.  The body of a class and a module are read behind such problems, so
there it is only certain that something was said.  This is enough: a source is a module exactly when
nothing is wrong with it, and the report of a source that is none is about problems that were found
in it, so there is no need for the words that a source is unreadable.

Main definitions:

* `Reporting.Accounts` — the reader counts one more problem when it has no result, and leaves the
  report alone when it has one;
* `Worded` — problems with messages that say what is wrong;
* `Noting.Explains` — a reader without a result has said something.

Main results:

* `Reporting.Reports.accounts` — a reader that reports what another one stops at accounts for it;
* `Token.worded_scanAll` — what is wrong with a text before it is read;
* `Noting.explains_module` — a module is missing for a reason;
* `Source.exists_problems_of_load` — a report is about the problems that were found;
* `Source.accounts_and_verdict` — **no failure is silent**.
-/

import ObjectModel.Proofs.Marks
import ObjectModel.Proofs.Reporting
import ObjectModel.Proofs.Wrapper

set_option relaxedAutoImplicit false
set_option autoImplicit false

namespace ObjectModel

/-! ### What is wrong with a text -/

/-- Every one of the problems has a message that says what is wrong. -/
def Worded (ps : List Problem) : Prop := ∀ e ∈ ps, Begins e.message

theorem worded_nil : Worded [] := by simp [Worded]

theorem Worded.cons {e : Problem} {ps : List Problem} (he : Begins e.message) (hps : Worded ps) :
    Worded (e :: ps) := List.forall_mem_cons.2 ⟨he, hps⟩

theorem Worded.append {ps qs : List Problem} (hps : Worded ps) (hqs : Worded qs) :
    Worded (ps ++ qs) := List.forall_mem_append.2 ⟨hps, hqs⟩

namespace Token

theorem worded_unterminated (start pos : Position) (ahead : List Char) :
    Worded (unterminated start pos ahead).problems := by
  have hmessage : Begins "Unterminated string literal" := ⟨_, _, rfl, by decide⟩
  exact worded_nil.cons hmessage

theorem worded_pushEscape {q : Quoted} (hq : Worded q.problems) (start next : Position) (c : Char) :
    Worded (q.pushEscape start next c).problems := by
  unfold Quoted.pushEscape
  split
  · exact hq
  · exact hq.cons (.quoting ⟨_, _, rfl, by decide⟩ _ _)

theorem worded_scanQuoted (start pos : Position) (cs : List Char) :
    Worded (scanQuoted start pos cs).problems := by
  fun_induction scanQuoted start pos cs with
  | case1 pos => exact worded_unterminated start pos []
  | case2 pos cs => exact worded_nil
  | case3 pos cs => exact worded_unterminated start pos _
  | case4 pos next =>
      have hmessage : Begins "Unexpected end of file in escape sequence" := ⟨_, _, rfl, by decide⟩
      exact (worded_unterminated start next []).cons hmessage
  | case5 pos c cs next ih => exact worded_pushEscape ih pos next c
  | case6 pos c cs _ _ _ _ ih => exact ih

theorem worded_scanInteger (start pos : Position) (lead cs : List Char) :
    Worded (scanInteger start pos lead cs).problems := by
  unfold scanInteger
  dsimp only
  split
  · exact worded_nil
  · exact worded_nil.cons (.quoting ⟨_, _, rfl, by decide⟩ _ _)

theorem worded_scanName (start pos : Position) (sigil : Char) (kind : String → TokenKind)
    (cs : List Char) : Worded (scanName start pos sigil kind cs).problems := by
  unfold scanName
  dsimp only
  split
  · exact worded_nil.cons (.quoting ⟨_, _, rfl, by decide⟩ _ _)
  · exact worded_nil

theorem worded_scan (start : Position) (c : Char) (cs : List Char) :
    Worded (scan start c cs).problems := by
  have hunexpected (pos : Position) : Worded
      (rejected start pos ("Unexpected character '" ++ c.toString ++ "'") cs).problems :=
    worded_nil.cons (.quoting ⟨_, _, rfl, by decide⟩ _ _)
  unfold scan
  dsimp only
  split
  · exact worded_nil
  split
  · exact worded_scanQuoted start _ cs
  split
  · exact worded_scanInteger start _ [c] cs
  split
  · -- a minus sign
    split
    · exact worded_nil
    · split
      · exact worded_scanInteger start _ [c] _
      · exact hunexpected _
    · exact hunexpected _
  split
  · -- a colon
    split
    · exact worded_nil
    · exact worded_nil
  split
  · exact worded_nil
  split
  · exact worded_scanQuoted start _ _
  · split
    · exact worded_scanName start _ c _ _
    · split
      · exact worded_nil
      · exact hunexpected _

theorem worded_scanAll (seen : Nat) (pos : Position) (cs : List Char) :
    Worded (scanAll seen pos cs).2 := by
  fun_induction scanAll seen pos cs with
  | case1 => exact worded_nil
  | case2 => exact worded_nil
  | case3 => exact (worded_scan _ _ _).append (by assumption)

end Token

/-! ### Readers that account for what is wrong -/

namespace Reporting

variable {α : Type}

/-- Wherever reading stands and whatever was reported before: without a result the reader has
counted one more problem, a single one that says what is wrong, which the report keeps if it has
room; with a result the report is what it was. -/
structure Accounts (x : Reporting α) : Prop where
  none : ∀ p p', x.run.run p = (none, p') →
    p'.report.totalErrors = p.report.totalErrors + 1 ∧
      ∃ e, Begins e.message ∧ p'.report = p.report.pushError (p.diagnostic e)
  some : ∀ p a p', x.run.run p = (some a, p') → p'.report = p.report

/-- A reader accounts for what is wrong if it reports what another one stops at. -/
theorem Reports.accounts {x : Reporting α} {r : Reading α} {Q : α → Prop} (h : Reports x r)
    (hmarks : Reading.Marks (fun _ => True) r Q) : Accounts x where
  none := by
    intro p p' hrun
    rw [h] at hrun
    cases hr : r p.cursor with
    | ok a c => rw [run_ofReading_of_ok hr] at hrun; cases hrun
    | error e c =>
        rw [run_ofReading_of_error hr] at hrun
        cases hrun
        have hread := hmarks p.cursor ⟨fun _ _ => trivial, trivial, trivial⟩
        rw [hr] at hread
        exact ⟨rfl, e, hread.2.message, rfl⟩
  some := by
    intro p a p' hrun
    rw [h] at hrun
    cases hr : r p.cursor with
    | ok b c => rw [run_ofReading_of_ok hr] at hrun; cases hrun; rfl
    | error e c => rw [run_ofReading_of_error hr] at hrun; cases hrun

end Reporting

/-! ### Readers that say why there is no result -/

namespace Noting

variable {α β : Type}

/-- Without a result the reader has noted a problem. -/
def Explains (x : Noting α) : Prop :=
  ∀ p p', x.run.run p = (none, p') → p.problems.length < p'.problems.length

theorem explains_pure (a : α) : Explains (pure a : Noting α) := by
  rintro p p' ⟨⟩

theorem explains_attempt (r : Reading α) : Explains (attempt r) := by
  intro p p' hrun
  obtain ⟨e, c, -, rfl⟩ := error_of_run_attempt hrun
  simp

theorem explains_note (code : Code) (message : String) : Explains (note code message) := by
  rintro p p' ⟨⟩

theorem explains_items (close : TokenKind) (item : Noting α) : Explains (items close item) := by
  rintro p p' ⟨⟩

/-- What the first of two readers has noted stays noted. -/
theorem Explains.bind {x : Noting α} {f : α → Noting β} (hx : Explains x) (hgrows : Grows x)
    (hf : ∀ a, Explains (f a)) : Explains (x >>= f) := by
  intro p p' hrun
  cases hfirst : x.run.run p with
  | mk o p₁ =>
      cases o with
      | none =>
          rw [run_bind_of_none hfirst] at hrun
          cases hrun
          exact hx p _ hfirst
      | some a =>
          rw [run_bind_of_some hfirst] at hrun
          have hkept := hgrows p
          rw [hfirst] at hkept
          exact Nat.lt_of_le_of_lt hkept.length_le (hf a p₁ p' hrun)

/-- Behind a reader that stops at its first problem. -/
theorem Explains.behind {r : Reading α} {f : α → Noting β} (hf : ∀ a, Explains (f a)) :
    Explains (attempt r >>= f) :=
  (explains_attempt r).bind (grows_attempt r) hf

theorem explains_moduleItems : Explains moduleItems := by
  refine .behind fun k => ?_
  split
  · refine .behind fun _ => (explains_items _ _).bind (grows_items grows_item) fun read => ?_
    exact .behind fun _ => explains_pure _
  · exact explains_items _ _

theorem grows_moduleItems : Grows moduleItems := by
  refine (grows_attempt _).bind fun k => ?_
  split
  · refine (grows_attempt _).bind fun _ => (grows_items grows_item).bind fun read => ?_
    exact (grows_attempt _).bind fun _ => grows_pure _
  · exact grows_items grows_item

/-- A module is missing only when a problem is noted. -/
theorem explains_module (file : String) : Explains (module file) := by
  refine .behind fun _ => .behind fun start => ?_
  refine explains_moduleItems.bind grows_moduleItems fun items => .behind fun next => ?_
  split
  · refine (explains_note _ _).bind (grows_note _ _) fun _ => ?_
    exact .behind fun last => explains_pure _
  · exact .behind fun last => explains_pure _

end Noting

/-! ### The verdict -/

theorem Report.errors_ofProblems (file : String) (quote : Nat → String) (ps : List Problem) :
    (ofProblems file quote ps).errors =
      (ps.map (Diagnostic.ofProblem file quote)).take maxErrors := by
  rw [ofProblems, errors_pushErrors _ _ (Nat.zero_le _)]
  rfl

/-- When the tokens are no module, something is wrong with them. -/
theorem Module.exists_of_problems_eq_nil {file : String} {ts : List Token}
    (h : (ofTokens? file ts).2 = []) : ∃ m, ofTokens? file ts = (some m, []) := by
  cases hrun : (Noting.module file).run.run { cursor := .ofTokens ts } with
  | mk o p =>
      have hread : ofTokens? file ts = (o, p.problems) := by rw [ofTokens?, hrun]
      obtain hnone : p.problems = [] := by rwa [hread] at h
      cases o with
      | some m => exact ⟨m, by rw [hread, hnone]⟩
      | none =>
          -- without a module there would be a problem
          have hmore := Noting.explains_module file _ _ hrun
          rw [hnone] at hmore
          cases hmore

namespace Source

/-- A source is a module exactly when nothing is wrong with it. -/
theorem load_isOk_iff {s : Source} :
    (∃ m, s.load = .ok m) ↔
      s.lexicalProblems = [] ∧ (Module.ofTokens? s.name s.tokens).2 = [] := by
  constructor
  · rintro ⟨m, hm⟩
    obtain ⟨htext, hread⟩ := load_eq_ok_iff.1 hm
    exact ⟨htext, by rw [hread]⟩
  · rintro ⟨htext, hread⟩
    obtain ⟨m, hm⟩ := Module.exists_of_problems_eq_nil hread
    exact ⟨m, load_eq_ok_iff.2 ⟨htext, hm⟩⟩

/-- The problems found in a source: those of its text, and those of its tokens unless the text has
so many that it is not read. -/
def problems (s : Source) : List Problem :=
  s.lexicalProblems ++
    if Report.maxErrors ≤ s.lexicalProblems.length then []
    else (Module.ofTokens? s.name s.tokens).2

/-- A source that is no module has a problem, and the report is about its problems. -/
theorem exists_problems_of_load {s : Source} {r : Report} (h : s.load = .error r) :
    s.problems ≠ [] ∧ r = s.report s.problems := by
  rw [load] at h
  rw [problems]
  by_cases hfull : Report.maxErrors ≤ s.lexicalProblems.length
  · rw [if_pos hfull] at h ⊢
    rw [List.append_nil]
    -- a text with so many problems is not read, so its own are all there are
    refine ⟨fun htext => ?_, (Except.error.inj h).symm⟩
    rw [htext] at hfull
    cases hfull
  · rw [if_neg hfull] at h ⊢
    dsimp only at h
    cases hps : s.lexicalProblems ++ (Module.ofTokens? s.name s.tokens).2 with
    | nil =>
        obtain ⟨m, hm⟩ := Module.exists_of_problems_eq_nil (List.append_eq_nil_iff.1 hps).2
        rw [hps, hm] at h
        cases h
    | cons e ps =>
        refine ⟨List.cons_ne_nil e ps, ?_⟩
        rw [hps] at h
        split at h
        · next hnil => cases hnil
        · next hnil => cases hnil
        · exact (Except.error.inj h).symm

/-- Every problem of a source has a message that says what is wrong. -/
theorem worded_problems (s : Source) : Worded s.problems := by
  refine (Token.worded_scanAll 0 .origin s.text.toList).append ?_
  split
  · exact worded_nil
  · have hread : ∀ e ∈ (Module.ofTokens? s.name s.tokens).2, e.Marked fun _ => True :=
      (Module.marks_ofTokens? (fun _ _ _ _ => trivial) trivial (fun _ _ => trivial) s.name).2
    exact fun e he => (hread e he).message

/-- **No failure is silent.**  An operation, a type, a list of types or a constant that cannot be
read is one more problem in the report, and one that is read leaves the report alone, wherever
reading stands and whatever was reported before.  So a source, read with a report or without one,
is a module exactly when no problem is counted in its text and none in its tokens.  Otherwise the
report keeps at least one problem, and none of those it keeps is that the source is unreadable
although nothing is wrong with it. -/
theorem accounts_and_verdict :
    (∀ inClass, Reporting.Accounts (Reporting.operation inClass)) ∧
      Reporting.Accounts Reporting.ty ∧
      (∀ close, Reporting.Accounts (Reporting.tysBefore close)) ∧
      Reporting.Accounts Reporting.constant ∧
      ∀ s : Source,
        Reporting.load s = s.load ∧
        ((∃ m, s.load = .ok m) ↔
          (s.report s.lexicalProblems).totalErrors = 0 ∧
            (Reporting.read s s.tokens).2.totalErrors = 0) ∧
        ∀ r, s.load = .error r →
          r.errors ≠ [] ∧ ∀ d ∈ r.errors, d.message ≠ unreadable.message := by
  refine ⟨fun inClass => (Reporting.reports_operation inClass).accounts
      (Reading.marks_operation (fun _ _ _ _ => trivial) inClass),
    Reporting.reports_ty.accounts Reading.marks_ty,
    fun close => (Reporting.reports_tysBefore close).accounts (Reading.marks_tysBefore close),
    Reporting.reports_constant.accounts Reading.marks_constant,
    fun s => ⟨Reporting.load_eq s, ?_, fun r hr => ?_⟩⟩
  · rw [load_isOk_iff, Reporting.read_eq, s.totalErrors_report]
    change _ ↔ _ ∧ (s.report (Module.ofTokens? s.name s.tokens).2).totalErrors = 0
    rw [s.totalErrors_report, List.length_eq_zero_iff, List.length_eq_zero_iff]
  obtain ⟨hne, rfl⟩ := exists_problems_of_load hr
  rw [report, Report.errors_ofProblems]
  constructor
  · obtain ⟨e, ps, hps⟩ := List.exists_cons_of_ne_nil hne
    rw [hps]
    exact List.cons_ne_nil _ _
  · intro d hd hmessage
    obtain ⟨e, he, rfl⟩ := List.mem_map.1 (List.mem_of_mem_take hd)
    -- no other message begins with the letter that this one begins with
    obtain ⟨c, cs, hbegins, hc⟩ := s.worded_problems e he
    change e.message = unreadable.message at hmessage
    rw [hmessage] at hbegins
    exact hc (List.cons.inj hbegins).1.symm

/-- A wrapper that is never closed. -/
def unclosed : Source := ⟨"unclosed.mlir", "module \x7b"⟩

/-- A wrapper with nothing in it. -/
def hollow : Source := ⟨"hollow.mlir", "module \x7b \x7d"⟩

/-- A constant without a value, read with a report that is full. -/
def bare : Reporter :=
  let s : Source := ⟨"bare.mlir", "%x = om.constant : i8"⟩
  { source := s, cursor := .ofTokens s.tokens, report := s.report (.replicate 20 unreadable) }

/-- The missing brace is reported, although without it there is no module at all, and the missing
value is counted, although there is no room for it. -/
theorem accounts_and_verdict_unclosed :
    (∃ r, unclosed.load = .error r ∧ r.errors ≠ [] ∧
      ∀ d ∈ r.errors, d.message ≠ unreadable.message) ∧
    (∃ m, hollow.load = .ok m) ∧
    ∃ p, (Reporting.operation true).run.run bare = (none, p) ∧ p.report.totalErrors = 21 ∧
      p.report.errors = bare.report.errors := by
  obtain ⟨hoperation, -, -, -, hverdict⟩ := accounts_and_verdict
  refine ⟨?_, ?_, ?_⟩
  · have hread : (Reporting.read unclosed unclosed.tokens).2.totalErrors ≠ 0 := by decide +kernel
    obtain ⟨-, hload, herror⟩ := hverdict unclosed
    cases h : unclosed.load with
    | ok m => exact absurd (hload.1 ⟨m, h⟩).2 hread
    | error r => exact ⟨r, rfl, herror r h⟩
  · exact (hverdict hollow).2.1.2 (by decide +kernel)
  · have hnone : ((Reporting.operation true).run.run bare).1.isNone := by decide +kernel
    cases hrun : (Reporting.operation true).run.run bare with
    | mk o p =>
        rw [hrun, Option.isNone_iff_eq_none] at hnone
        obtain rfl : o = none := hnone
        obtain ⟨hcount, e, -, hreport⟩ := (hoperation true).none bare p hrun
        exact ⟨p, rfl, hcount, hreport ▸ Report.errors_pushError_of_le (by decide +kernel) _⟩

end Source

end ObjectModel
