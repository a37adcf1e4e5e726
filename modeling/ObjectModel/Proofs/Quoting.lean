/-
**What diagnostics quote.**

A diagnostic tells where something is wrong and quotes the line on which that begins.  The place
comes from the tokens, through readers and declarations, and the line is looked up by its number.
Whatever is wrong, and wherever it is found, the place is in the text and the line is there to be
quoted.

Main definitions:

* `Source.Quotes` — a diagnostic points into a source, and quotes the line it points at;
* `Report.Tells` — what a report says are such diagnostics.

Main results:

* `Module.span_mem_of_problems` — the check finds problems at spans of the module;
* `Source.quotes_of_hasPlace` — a problem at a place of a source quotes a line of it;
* `Source.load_quotes` — **all that is wrong with a source is told at its lines**.
-/

import ObjectModel.Proofs.ClassGraph
import ObjectModel.Proofs.Marks
import ObjectModel.Proofs.Positions
import ObjectModel.Registry

set_option relaxedAutoImplicit false
set_option autoImplicit false

namespace ObjectModel

/-! ### Where the check finds problems -/

theorem Action.mem_idents_of_mem_operands {a : Action} {x : Ident} (h : x ∈ a.operands) :
    x ∈ a.idents := by
  cases a with
  | object target actuals _ _ => exact List.mem_cons_of_mem target h
  | field name value _ => exact List.mem_cons_of_mem name h
  | _ => exact h

theorem Action.mem_idents_of_target? {a : Action} {x : Ident} (h : a.target? = some x) :
    x ∈ a.idents := by
  cases a with
  | object target actuals _ _ =>
      obtain rfl := Option.some.inj h
      exact List.mem_cons_self
  | _ => cases h

namespace Operation

variable {op : Operation} {x : Ident}

theorem span_mem_spans (op : Operation) : op.span ∈ op.spans := List.mem_cons_self

theorem span_mem_spans_of_mem_action (h : x ∈ op.action.idents) : x.span ∈ op.spans :=
  List.mem_cons_of_mem _ (List.mem_map_of_mem (List.mem_append_right _ h))

theorem span_mem_spans_of_result (h : op.result = some x) : x.span ∈ op.spans :=
  List.mem_cons_of_mem _ (List.mem_map_of_mem (List.mem_append_left _ (by simp [h])))

end Operation

theorem span_mem_of_undefinedOperands {scope : String → Bool} {op : Operation} {p : Problem}
    (h : p ∈ undefinedOperands scope op) : p.span ∈ op.spans := by
  obtain ⟨x, hx, rfl⟩ := List.mem_map.1 h
  exact op.span_mem_spans_of_mem_action
    (Action.mem_idents_of_mem_operands (List.mem_of_mem_filter hx))

theorem span_mem_of_redefinedResult {scope : List String} {op : Operation} {p : Problem}
    (h : p ∈ redefinedResult scope op) : p.span ∈ op.spans := by
  unfold redefinedResult at h
  split at h
  · next r hr =>
      split at h
      · obtain rfl := List.mem_singleton.1 h
        exact op.span_mem_spans_of_result hr
      · cases h
  · cases h

theorem span_mem_of_fieldProblems {className : String} {fields : List String} {op : Operation}
    {p : Problem} (h : p ∈ fieldProblems className fields op) : p.span ∈ op.spans := by
  unfold fieldProblems at h
  split at h
  · next f hf =>
      split at h
      · obtain rfl := List.mem_singleton.1 h
        unfold Operation.field? at hf
        split at hf
        · next name value ty haction =>
            obtain rfl := Option.some.inj hf
            exact op.span_mem_spans_of_mem_action (by simp [haction, Action.idents])
        · cases hf
      · cases h
  · cases h

theorem span_mem_of_objectProblems {arity? : String → Option Nat} {op : Operation} {p : Problem}
    (h : p ∈ objectProblems arity? op) : p.span ∈ op.spans := by
  unfold objectProblems at h
  split at h
  · next target actuals _ _ haction =>
      have htarget : target.span ∈ op.spans :=
        op.span_mem_spans_of_mem_action (by simp [haction, Action.idents])
      split at h
      · exact List.mem_singleton.1 h ▸ htarget
      · split at h
        · cases h
        · exact List.mem_singleton.1 h ▸ htarget
  · cases h

theorem span_mem_of_symbolProblemsFrom {names : List Ident} {seen : List (String × Span)}
    {p : Problem} (h : p ∈ symbolProblemsFrom seen names) : ∃ x ∈ names, x.span = p.span := by
  induction names generalizing seen with
  | nil => cases h
  | cons name names ih =>
      have hlater {seen : List (String × Span)} (h : p ∈ symbolProblemsFrom seen names) :
          ∃ x ∈ name :: names, x.span = p.span := by
        obtain ⟨x, hx, hspan⟩ := ih h
        exact ⟨x, List.mem_cons_of_mem name hx, hspan⟩
      unfold symbolProblemsFrom at h
      split at h
      · rcases List.mem_cons.1 h with rfl | h
        · exact ⟨name, List.mem_cons_self, rfl⟩
        · exact hlater h
      · exact hlater h

theorem Module.span_mem_of_valueProblemsFrom {ops : List Operation} {scope : List String}
    {p : Problem} (h : p ∈ valueProblemsFrom scope ops) :
    p.span ∈ ops.flatMap Operation.spans := by
  induction ops generalizing scope with
  | nil => cases h
  | cons op ops ih =>
      rw [List.flatMap_cons, List.mem_append]
      unfold valueProblemsFrom at h
      split at h
      · rcases List.mem_cons.1 h with rfl | h
        · exact .inl op.span_mem_spans
        · exact .inr (ih h)
      · rcases List.mem_append.1 h with h | h
        · rcases List.mem_append.1 h with h | h
          · exact .inl (span_mem_of_undefinedOperands h)
          · exact .inl (span_mem_of_redefinedResult h)
        · exact .inr (ih h)

theorem span_mem_of_paramProblemsFrom {className : String} {ps : List Param} {seen : List String}
    {p : Problem} (h : p ∈ paramProblemsFrom className seen ps) :
    p.span ∈ ps.flatMap Param.spans := by
  induction ps generalizing seen with
  | nil => cases h
  | cons q ps ih =>
      rw [List.flatMap_cons, List.mem_append]
      unfold paramProblemsFrom at h
      split at h
      · rcases List.mem_cons.1 h with rfl | h
        · exact .inl List.mem_cons_self
        · exact .inr (ih h)
      · exact .inr (ih h)

namespace ClassDecl

theorem span_mem_of_bodyProblemsFrom {m : Module} {className : String} {ops : List Operation}
    {scope fields : List String} {p : Problem}
    (h : p ∈ bodyProblemsFrom m className scope fields ops) :
    p.span ∈ ops.flatMap Operation.spans := by
  induction ops generalizing scope fields with
  | nil => cases h
  | cons op ops ih =>
      rw [List.flatMap_cons, List.mem_append]
      rw [bodyProblemsFrom] at h
      simp only [List.mem_append] at h
      obtain (((h | h) | h) | h) | h := h
      · exact .inl (span_mem_of_undefinedOperands h)
      · exact .inl (span_mem_of_fieldProblems h)
      · exact .inl (span_mem_of_objectProblems h)
      · exact .inl (span_mem_of_redefinedResult h)
      · exact .inr (ih h)

theorem span_mem_of_problems {m : Module} {c : ClassDecl} {p : Problem} (h : p ∈ c.problems m) :
    p.span ∈ c.innerSpans := by
  refine List.mem_cons_of_mem _ (List.mem_append.2 ?_)
  exact (List.mem_append.1 h).imp span_mem_of_paramProblemsFrom span_mem_of_bodyProblemsFrom

end ClassDecl

namespace Module

variable {m : Module}

theorem mem_spans_of_mem_items {i : Item} (hi : i ∈ m.items) {s : Span} (hs : s ∈ i.spans) :
    s ∈ m.spans :=
  List.mem_cons_of_mem _ (List.mem_flatMap.2 ⟨i, hi, hs⟩)

theorem mem_spans_of_mem_classes {c : ClassDecl} (hc : c ∈ m.classes) {s : Span}
    (hs : s ∈ c.innerSpans) : s ∈ m.spans := by
  obtain ⟨i, hi, hic⟩ := List.mem_filterMap.1 hc
  cases i with
  | ofClass d =>
      obtain rfl := Option.some.inj hic
      exact mem_spans_of_mem_items hi (List.mem_cons_of_mem _ hs)
  | ofHardware h => cases hic
  | ofOperation op => cases hic

theorem span_mem_of_symbolProblems {p : Problem} (h : p ∈ m.symbolProblems) :
    p.span ∈ m.spans := by
  obtain ⟨x, hx, hspan⟩ := span_mem_of_symbolProblemsFrom h
  obtain ⟨i, hi, hix⟩ := List.mem_filterMap.1 hx
  refine mem_spans_of_mem_items hi (List.mem_cons_of_mem _ ?_)
  rw [← hspan]
  cases i with
  | ofClass c =>
      obtain rfl := Option.some.inj hix
      exact List.mem_cons_self
  | ofHardware h =>
      obtain rfl := Option.some.inj hix
      exact List.mem_cons_self
  | ofOperation op => cases hix

theorem span_mem_of_valueProblems {p : Problem} (h : p ∈ m.valueProblems) : p.span ∈ m.spans := by
  obtain ⟨op, hop, hp⟩ := List.mem_flatMap.1 (span_mem_of_valueProblemsFrom h)
  obtain ⟨i, hi, hiop⟩ := List.mem_filterMap.1 hop
  cases i with
  | ofClass c => cases hiop
  | ofHardware h => cases hiop
  | ofOperation op' =>
      obtain rfl := Option.some.inj hiop
      exact mem_spans_of_mem_items hi hp

theorem span_mem_of_cycleProblems {p : Problem} (h : p ∈ m.cycleProblems) : p.span ∈ m.spans := by
  obtain ⟨ks, hproblems, hcloses, -⟩ := (ClassGraph.ofClasses m.classes).exists_closings
  rw [cycleProblems, hproblems] at h
  obtain ⟨k, hk, rfl⟩ := List.mem_map.1 h
  obtain ⟨⟨ts, hts, hi⟩, -⟩ := m.objects_ofClasses ▸ (hcloses k hk).object
  obtain ⟨c, hc, rfl⟩ := Option.map_eq_some_iff.1 hts
  obtain ⟨op, hop, htarget⟩ := List.mem_filterMap.1 (List.mem_of_getElem? hi)
  refine mem_spans_of_mem_classes (List.mem_of_find?_eq_some hc) ?_
  refine List.mem_cons_of_mem _ (List.mem_append_right _ (List.mem_flatMap.2 ⟨op, hop, ?_⟩))
  exact op.span_mem_spans_of_mem_action (Action.mem_idents_of_target? htarget)

end Module

/-! ### Reports -/

/-- What the report says are diagnostics with the property. -/
structure Report.Tells (D : Diagnostic → Prop) (r : Report) : Prop where
  errors : ∀ d ∈ r.errors, D d
  warnings : ∀ d ∈ r.warnings, D d

namespace Report.Tells

variable {D : Diagnostic → Prop} {r : Report}

theorem empty : Report.empty.Tells D := ⟨by simp [Report.empty], by simp [Report.empty]⟩

theorem pushError (h : r.Tells D) {d : Diagnostic} (hd : D d) : (r.pushError d).Tells D where
  errors := by
    intro e he
    unfold Report.pushError at he
    dsimp only at he
    split at he
    · rcases List.mem_append.1 he with he | he
      · exact h.errors e he
      · exact List.mem_singleton.1 he ▸ hd
    · exact h.errors e he
  warnings := h.warnings

theorem pushErrors (h : r.Tells D) {file : String} {quote : Nat → String} {ps : List Problem}
    (hps : ∀ p ∈ ps, D (.ofProblem file quote p)) :
    (r.pushErrors (ps.map (Diagnostic.ofProblem file quote))).Tells D := by
  induction ps generalizing r with
  | nil => exact h
  | cons p ps ih =>
      obtain ⟨hp, hps⟩ := List.forall_mem_cons.1 hps
      exact ih (h.pushError hp) hps

theorem noteUnlessFull (h : r.Tells D) {m : Module} {quote : Nat → String} {ps : List Problem}
    (hps : ∀ p ∈ ps, D (.ofProblem m.file quote p)) : (m.noteUnlessFull quote r ps).Tells D := by
  unfold Module.noteUnlessFull
  split
  · exact h
  · exact h.pushErrors hps

end Report.Tells

/-- The check tells of problems at spans of the module, and of nothing else. -/
theorem Module.tells_check {m : Module} {quote : Nat → String} {D : Diagnostic → Prop}
    (h : ∀ p : Problem, p.span ∈ m.spans → D (.ofProblem m.file quote p)) :
    (m.check quote).Tells D := by
  have hbodies : ∀ (cs : List ClassDecl), cs ⊆ m.classes → ∀ r : Report, r.Tells D →
      (cs.foldl (fun r c => m.noteUnlessFull quote r (c.problems m)) r).Tells D := by
    intro cs
    induction cs with
    | nil => exact fun _ r hr => hr
    | cons c cs ih =>
        intro hcs r hr
        obtain ⟨hc, hcs⟩ := List.cons_subset.1 hcs
        exact ih hcs _ (hr.noteUnlessFull fun p hp =>
          h p (mem_spans_of_mem_classes hc (ClassDecl.span_mem_of_problems hp)))
  refine (hbodies m.classes (List.Subset.refl _) _ ?_).noteUnlessFull fun p hp =>
    h p (span_mem_of_cycleProblems hp)
  refine Report.Tells.empty.pushErrors fun p hp => h p ?_
  exact (List.mem_append.1 hp).elim span_mem_of_symbolProblems span_mem_of_valueProblems

/-! ### Quotations -/

/-- The diagnostic points into the source: at a line that there is, at most one column behind the
last character of that line, a carriage return counted.  It quotes the line it points at. -/
structure Source.Quotes (s : Source) (d : Diagnostic) : Prop where
  one_le_line : 1 ≤ d.span.start.line
  line_le : d.span.start.line ≤ s.lineCount
  one_le_col : 1 ≤ d.span.start.col
  col_le : ∃ l, (Lines.split s.text.toList)[d.span.start.line - 1]? = some l ∧
    d.span.start.col ≤ l.length + 1
  sourceLine : s.line d.span.start.line = some d.sourceLine

namespace Source

variable {s : Source}

/-- A problem at a place of the source quotes the line on which it is. -/
theorem quotes_of_hasPlace {p : Problem} (h : s.HasPlace p.span.start) (file : String) :
    s.Quotes (.ofProblem file s.quote p) := by
  obtain ⟨hline, hcol, l, hl, hle⟩ := h.exists_line
  obtain ⟨n, hn⟩ : ∃ n, p.span.start.line = n + 1 := ⟨_, (Nat.succ_pred_eq_of_pos hline).symm⟩
  rw [hn, Nat.add_sub_cancel] at hl
  have hquoted : s.line p.span.start.line = some (String.ofList (Lines.trimReturn l)) := by
    rw [hn, line_succ, lines, List.getElem?_map, hl]
    rfl
  refine ⟨hline, ?_, hcol, ⟨l, ?_, hle⟩, ?_⟩
  · change p.span.start.line ≤ _
    rw [hn]
    exact (List.getElem?_eq_some_iff.1 hl).1
  · change (Lines.split s.text.toList)[p.span.start.line - 1]? = some l
    rw [hn]
    exact hl
  · change s.line p.span.start.line = some (s.quote p.span.start.line)
    rw [quote, hquoted]
    rfl

theorem tells_report {ps : List Problem} (h : ∀ p ∈ ps, s.HasPlace p.span.start) :
    (s.report ps).Tells s.Quotes :=
  Report.Tells.empty.pushErrors fun p hp => quotes_of_hasPlace (h p hp) s.name

/-- The span around two others begins where one of them begins. -/
theorem HasPlace.merge {a b : Span} (ha : s.HasPlace a.start) (hb : s.HasPlace b.start) :
    s.HasPlace (a.merge b).start :=
  Position.earlier_rec ha hb

/-- What is read of a source stands in it, and so do the problems of reading it. -/
theorem hasPlace_of_ofTokens? (s : Source) :
    (∀ m ∈ (Module.ofTokens? s.name s.tokens).1, ∀ a ∈ m.spans, s.HasPlace a.start) ∧
      ∀ p ∈ (Module.ofTokens? s.name s.tokens).2, s.HasPlace p.span.start := by
  have hts : ∀ t ∈ s.tokens, s.HasPlace t.span.start := fun _ ht => hasPlace_of_mem_tokens ht
  refine (Module.marks_ofTokens? ?_ ?_ hts s.name).imp id fun h p hp => (h p hp).span
  · exact fun _ _ => HasPlace.merge
  · exact Position.origin.reaches_self _

/-- **Every diagnostic points at the text it quotes.**  When a source cannot be loaded, or when no
registry can be built from the module that is loaded from it, every diagnostic of the report points
into the source and quotes the line it points at. -/
theorem load_quotes (s : Source) :
    (∀ r, s.load = .error r → r.Tells s.Quotes) ∧
      ∀ m r, s.load = .ok m → Registry.build m s.quote = .error r → r.Tells s.Quotes := by
  obtain ⟨hmodule, hread⟩ := s.hasPlace_of_ofTokens?
  constructor
  · intro r hr
    have hproblems : ∀ p ∈ s.lexicalProblems ++ (Module.ofTokens? s.name s.tokens).2,
        s.HasPlace p.span.start := fun p hp =>
      (List.mem_append.1 hp).elim hasPlace_of_mem_lexicalProblems (hread p)
    rw [load] at hr
    split at hr
    · cases hr
      exact tells_report fun p hp => hasPlace_of_mem_lexicalProblems hp
    · dsimp only at hr
      split at hr
      · cases hr
      · -- a source that is no module, although nothing is wrong with it
        cases hr
        refine tells_report fun p hp => ?_
        rw [List.mem_singleton.1 hp]
        exact Position.origin.reaches_self _
      · cases hr
        exact tells_report hproblems
  · intro m r hm hr
    obtain ⟨-, hread⟩ := load_eq_ok_iff.1 hm
    unfold Registry.build at hr
    dsimp only at hr
    split at hr
    · cases hr
      refine Module.tells_check fun p hp => quotes_of_hasPlace ?_ m.file
      exact hmodule m (by rw [hread]; rfl) p.span hp
    · cases hr

/-- The lines that are quoted, if there is a report. -/
def quotedLines {α : Type} : Except Report α → List String
  | .ok _ => []
  | .error r => r.errors.map Diagnostic.sourceLine

/-- A text whose second line is no operation.  The line ends with a carriage return. -/
def misspelled : Source := ⟨"misspelled.mlir", "\n  %x = om.konstant 1 : i8\r\n"⟩

/-- A text that is a module, with a field that exposes a value that there is not. -/
def unbound : Source :=
  ⟨"unbound.mlir", "om.class @Box() \x7b\n  om.class.field @size, %size : i8\n\x7d\n"⟩

/-- The line that is no operation is quoted, and so is the field that exposes nothing. -/
theorem load_quotes_misspelled_unbound :
    (∃ r, misspelled.load = .error r ∧ r.Tells misspelled.Quotes ∧
      r.errors.map Diagnostic.sourceLine = ["  %x = om.konstant 1 : i8"]) ∧
    ∃ m r, unbound.load = .ok m ∧ Registry.build m unbound.quote = .error r ∧
      r.Tells unbound.Quotes ∧
      r.errors.map Diagnostic.sourceLine = ["  om.class.field @size, %size : i8"] := by
  constructor
  · have hlines : quotedLines misspelled.load = ["  %x = om.konstant 1 : i8"] := by
      decide +kernel
    cases hload : misspelled.load with
    | ok m =>
        rw [hload] at hlines
        cases hlines
    | error r =>
        rw [hload] at hlines
        exact ⟨r, rfl, misspelled.load_quotes.1 r hload, hlines⟩
  · have hlines : unbound.load.toOption.map (fun m => quotedLines (Registry.build m unbound.quote))
        = some ["  om.class.field @size, %size : i8"] := by
      decide +kernel
    cases hload : unbound.load with
    | error r =>
        rw [hload] at hlines
        cases hlines
    | ok m =>
        rw [hload] at hlines
        have hlines : quotedLines (Registry.build m unbound.quote) =
            ["  om.class.field @size, %size : i8"] := Option.some.inj hlines
        cases hbuild : Registry.build m unbound.quote with
        | ok r =>
            rw [hbuild] at hlines
            cases hlines
        | error r =>
            rw [hbuild] at hlines
            exact ⟨m, r, rfl, hbuild, unbound.load_quotes.2 m r hload hbuild, hlines⟩

end Source

end ObjectModel
