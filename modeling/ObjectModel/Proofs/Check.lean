/-
**The check accepts the well-formed modules.**

The check puts the findings of its parts together in one report and leaves parts out once the
report is full.  A report that is full has errors, so a part that is left out is never the reason
why a module is accepted.

Main results:

* `Module.hasErrors_check_eq_false_iff` — the report has no errors exactly when no part of the
  check finds anything;
* `Module.makes_iff_edge` — the classes that make each other, as the graph has them;
* `Registry.build_eq_ok_iff`, `Registry.build_succeeds_iff` — a registry is built exactly from a
  well-formed module.
-/

import ObjectModel.Proofs.ClassGraph
import ObjectModel.Proofs.WellFormed
import ObjectModel.Registry

set_option relaxedAutoImplicit false
set_option autoImplicit false

namespace ObjectModel

open Relation

/-! ### Reports -/

theorem Report.hasErrors_eq_false_iff {r : Report} :
    r.hasErrors = false ↔ r.totalErrors = 0 := by
  simp [Report.hasErrors]

theorem Report.totalErrors_ofProblems (file : String) (quote : Nat → String)
    (ps : List Problem) : (Report.ofProblems file quote ps).totalErrors = ps.length := by
  simp [Report.ofProblems, Report.empty]

namespace Module

/-- A part of the check that is noted leaves a report without errors only if it finds nothing. -/
theorem totalErrors_noteUnlessFull_eq_zero_iff (m : Module) (quote : Nat → String) (r : Report)
    (ps : List Problem) :
    (m.noteUnlessFull quote r ps).totalErrors = 0 ↔ r.totalErrors = 0 ∧ ps = [] := by
  by_cases hfull : r.isFull = true
  · -- a full report has counted twenty errors, whether or not the part would find more
    have hpos : Report.maxErrors ≤ r.totalErrors := of_decide_eq_true hfull
    rw [noteUnlessFull, if_pos hfull]
    exact ⟨fun h => absurd (h ▸ hpos) (by decide), fun h => h.1⟩
  · rw [noteUnlessFull, if_neg hfull, Report.totalErrors_pushErrors, List.length_map,
      Nat.add_eq_zero_iff, List.length_eq_zero_iff]

theorem totalErrors_foldl_eq_zero_iff (m : Module) (quote : Nat → String) (cs : List ClassDecl)
    (r : Report) :
    (cs.foldl (fun r c => m.noteUnlessFull quote r (c.problems m)) r).totalErrors = 0 ↔
      r.totalErrors = 0 ∧ ∀ c ∈ cs, c.problems m = [] := by
  induction cs generalizing r with
  | nil => simp
  | cons c cs ih =>
      rw [List.foldl_cons, ih, totalErrors_noteUnlessFull_eq_zero_iff]
      simp only [List.mem_cons, forall_eq_or_imp, and_assoc]

/-- The report of a module has no errors exactly when no part of the check finds anything. -/
theorem hasErrors_check_eq_false_iff (m : Module) (quote : Nat → String) :
    (m.check quote).hasErrors = false ↔
      m.symbolProblems = [] ∧ m.valueProblems = [] ∧ (∀ c ∈ m.classes, c.problems m = []) ∧
        m.cycleProblems = [] := by
  rw [Report.hasErrors_eq_false_iff, check, totalErrors_noteUnlessFull_eq_zero_iff,
    totalErrors_foldl_eq_zero_iff, Report.totalErrors_ofProblems, List.length_eq_zero_iff,
    List.append_eq_nil_iff, and_assoc, and_assoc]

end Module

/-! ### The class graph of a module -/

theorem ClassDecl.mem_targets {c : ClassDecl} {t : Ident} :
    t ∈ c.targets ↔ ∃ op ∈ c.body, op.action.target? = some t := by
  simp [ClassDecl.targets]

theorem Action.target?_eq_some_iff {a : Action} {t : Ident} :
    a.target? = some t ↔ ∃ actuals operandTys ty, a = .object t actuals operandTys ty := by
  cases a <;> simp [Action.target?]

/-- With distinct names, a class is found by its name. -/
theorem Module.find?_classes_eq {m : Module} (hnd : m.classNames.Nodup) {c : ClassDecl}
    (hc : c ∈ m.classes) : (m.classes.find? fun d => d.name.name == c.name.name) = some c := by
  cases hf : m.classes.find? fun d => d.name.name == c.name.name with
  | none => exact absurd (List.find?_eq_none.1 hf c hc) (by simp)
  | some d =>
      have hname : d.name.name = c.name.name := by simpa using List.find?_some hf
      rw [List.inj_on_of_nodup_map hnd (List.mem_of_find?_eq_some hf) hc hname]

/-- In a module whose objects are made of classes that exist, the graph has all that is made. -/
theorem Module.makes_iff_edge {m : Module} (hnd : m.classNames.Nodup)
    (hcls : ∀ c ∈ m.classes, c.WellFormed m) (x y : String) :
    m.Makes x y ↔ m.objectGraph.Edge x y := by
  have hfind : ∀ c ∈ m.classes, m.objectGraph.objects? c.name.name = some c.targets := fun c hc =>
    congrArg (Option.map ClassDecl.targets) (m.find?_classes_eq hnd hc)
  constructor
  · rintro ⟨c, hc, rfl, t, ht, rfl⟩
    obtain ⟨i, hi⟩ := List.mem_iff_getElem?.1 ht
    obtain ⟨op, hop, hact⟩ := ClassDecl.mem_targets.1 ht
    obtain ⟨actuals, operandTys, ty, hact⟩ := Action.target?_eq_some_iff.1 hact
    obtain ⟨d, hd, hname, -⟩ := (hcls c hc).objects op hop _ _ _ _ hact
    exact ⟨i, t, ⟨⟨c.targets, hfind c hc, hi⟩, by rw [← hname, hfind d hd]; rfl⟩, rfl⟩
  · rintro ⟨i, t, ⟨⟨ts, hts, hi⟩, -⟩, rfl⟩
    obtain ⟨c, hf, rfl⟩ := Option.map_eq_some_iff.1 hts
    have hname : c.name.name = x := by simpa using List.find?_some hf
    exact ⟨c, List.mem_of_find?_eq_some hf, hname, t, List.mem_of_getElem? hi, rfl⟩

theorem Module.cycleProblems_eq_nil_iff {m : Module} (hnd : m.classNames.Nodup)
    (hcls : ∀ c ∈ m.classes, c.WellFormed m) :
    m.cycleProblems = [] ↔ ∀ x, ¬TransGen m.Makes x x := by
  have heq : m.Makes = m.objectGraph.Edge :=
    funext fun x => funext fun y => propext (m.makes_iff_edge hnd hcls x y)
  rw [Module.cycleProblems, ClassGraph.cycleProblems_eq_nil_iff, m.objects_ofClasses, heq]

/-! ### The verdict -/

/-- No part of the check finds anything exactly in a well-formed module. -/
theorem Module.wellFormed_iff (m : Module) :
    m.WellFormed ↔ m.symbolProblems = [] ∧ m.valueProblems = [] ∧
      (∀ c ∈ m.classes, c.problems m = []) ∧ m.cycleProblems = [] := by
  rw [m.symbolProblems_eq_nil_iff, m.valueProblems_eq_nil_iff]
  constructor
  · intro h
    refine ⟨h.nodup_symbols, ⟨h.no_objects, h.nodup_values, h.usesEarlier⟩, ?_, ?_⟩
    · exact fun c hc =>
        (ClassDecl.problems_eq_nil_iff h.nodup_symbols h.no_objects c).2 (h.classes c hc)
    · exact (m.cycleProblems_eq_nil_iff h.nodup_classNames h.classes).2 h.acyclic
  · rintro ⟨hsym, ⟨hobj, hval, huse⟩, hcls, hcyc⟩
    have hcls' : ∀ c ∈ m.classes, c.WellFormed m := fun c hc =>
      (ClassDecl.problems_eq_nil_iff hsym hobj c).1 (hcls c hc)
    have hnd : m.classNames.Nodup := hsym.sublist m.classNames_sublist
    exact ⟨hsym, hobj, hval, huse, hcls', (m.cycleProblems_eq_nil_iff hnd hcls').1 hcyc⟩

/-- A registry is built from a well-formed module, and it has the declarations of that module. -/
theorem Registry.build_eq_ok_iff {m : Module} {quote : Nat → String} {r : Registry} :
    Registry.build m quote = .ok r ↔ m.WellFormed ∧ r = Registry.ofModule m := by
  rw [m.wellFormed_iff, ← m.hasErrors_check_eq_false_iff quote, Registry.build]
  cases h : (m.check quote).hasErrors with
  | true => simp
  | false => simp [eq_comm]

/-- **A module is accepted exactly when it is well formed**, whatever lines the report would
quote, and then the registry has its declarations. -/
theorem Registry.build_succeeds_iff (m : Module) (quote : Nat → String) :
    (∃ r, Registry.build m quote = .ok r) ↔ m.WellFormed := by
  simp only [Registry.build_eq_ok_iff, exists_and_left, exists_eq, and_true]

end ObjectModel
