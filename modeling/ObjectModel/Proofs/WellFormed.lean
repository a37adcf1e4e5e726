/-
**Well-formed modules.**

The check of a module walks through it with growing lists of names and writes down problems.  This
module says what it looks for without walking: names are distinct, operands are defined before
they are used, objects fit their classes, and no class needs an object of itself.  Each walk is
then shown to find nothing exactly when its part of that holds.

Main definitions:

* `definedNames`, `UsesEarlier` — the names that operations define, and operations that use only
  names of an outer scope or of operations before them;
* `ClassDecl.WellFormed`, `Module.Makes`, `Module.WellFormed` — well-formed classes and modules.

Main results:

* `Module.symbolProblems_eq_nil_iff`, `Module.valueProblems_eq_nil_iff`,
  `ClassDecl.problems_eq_nil_iff` — what it means that a part of the check finds nothing;
* `Module.arity?_eq_some_iff` — with distinct symbols, the arity of a name is that of its class.
-/

import Mathlib.Data.List.Nodup
import Mathlib.Logic.Relation
import ObjectModel.Module.Check

set_option relaxedAutoImplicit false
set_option autoImplicit false

namespace ObjectModel

/-! ### Names and uses -/

/-- The names that operations define. -/
def definedNames (ops : List Operation) : List String := ops.flatMap Operation.resultNames

@[simp] theorem definedNames_nil : definedNames [] = [] := rfl

@[simp] theorem definedNames_cons (op : Operation) (ops : List Operation) :
    definedNames (op :: ops) = op.resultNames ++ definedNames ops := rfl

theorem Operation.mem_resultNames {op : Operation} {x : String} :
    x ∈ op.resultNames ↔ op.defines x = true := by
  cases h : op.result with
  | none => simp [Operation.resultNames, Operation.defines, h]
  | some r => simpa [Operation.resultNames, Operation.defines, h] using eq_comm

theorem Operation.nodup_resultNames (op : Operation) : op.resultNames.Nodup := by
  cases h : op.result <;> simp [Operation.resultNames, h]

theorem mem_definedNames {ops : List Operation} {x : String} :
    x ∈ definedNames ops ↔ ∃ op ∈ ops, op.defines x = true := by
  simp only [definedNames, List.mem_flatMap, Operation.mem_resultNames]

theorem definedNames_append (ops ops' : List Operation) :
    definedNames (ops ++ ops') = definedNames ops ++ definedNames ops' :=
  List.flatMap_append

/-- The results before a position, and those at it or behind it, are all results. -/
theorem definedNames_take_append_drop (i : Nat) (ops : List Operation) :
    definedNames (ops.take i) ++ definedNames (ops.drop i) = definedNames ops := by
  rw [← definedNames_append, List.take_append_drop]

theorem mem_definedNames_take {ops : List Operation} {i j : Nat} {op : Operation} {x : String}
    (hj : ops[j]? = some op) (hdef : op.defines x = true) (hlt : j < i) :
    x ∈ definedNames (ops.take i) := by
  refine mem_definedNames.2 ⟨op, List.mem_of_getElem? (i := j) ?_, hdef⟩
  rw [List.getElem?_take, if_pos hlt]
  exact hj

theorem mem_definedNames_drop {ops : List Operation} {i j : Nat} {op : Operation} {x : String}
    (hj : ops[j]? = some op) (hdef : op.defines x = true) (hle : i ≤ j) :
    x ∈ definedNames (ops.drop i) := by
  refine mem_definedNames.2 ⟨op, List.mem_of_getElem? (i := j - i) ?_, hdef⟩
  rw [List.getElem?_drop, show i + (j - i) = j by omega]
  exact hj

/-- With distinct names, no name is defined both before a position and at it or behind it. -/
theorem disjoint_definedNames {ops : List Operation} (hnd : (definedNames ops).Nodup) (i : Nat) :
    List.Disjoint (definedNames (ops.take i)) (definedNames (ops.drop i)) := by
  rw [← definedNames_take_append_drop i] at hnd
  exact List.disjoint_of_nodup_append hnd

/-- With distinct names, a name that is defined before a position is defined nowhere else. -/
theorem lt_of_defines {ops : List Operation} {i j : Nat} {x : String} {op : Operation}
    (hnd : (definedNames ops).Nodup) (hbefore : x ∈ definedNames (ops.take i))
    (hj : ops[j]? = some op) (hdef : op.defines x = true) : j < i := by
  by_contra hge
  exact disjoint_definedNames hnd i hbefore (mem_definedNames_drop hj hdef (by omega))

/-- Every operand of an operation is a name of the scope `outer` or the result of an operation
before it. -/
def UsesEarlier (outer : String → Prop) (ops : List Operation) : Prop :=
  ∀ (i : Nat) (op : Operation), ops[i]? = some op → ∀ x ∈ op.action.operands,
    outer x.name ∨ x.name ∈ definedNames (ops.take i)

theorem usesEarlier_nil (outer : String → Prop) : UsesEarlier outer [] := by
  intro i op h
  simp at h

/-- Behind its first operation, a list uses the outer scope and the result of that operation. -/
theorem usesEarlier_cons {outer : String → Prop} {op : Operation} {ops : List Operation} :
    UsesEarlier outer (op :: ops) ↔
      (∀ x ∈ op.action.operands, outer x.name) ∧
        UsesEarlier (fun x => outer x ∨ x ∈ op.resultNames) ops := by
  constructor
  · intro h
    refine ⟨fun x hx => by simpa using h 0 op rfl x hx, ?_⟩
    intro i op' hi x hx
    rcases h (i + 1) op' hi x hx with hout | hdef
    · exact .inl (.inl hout)
    · rw [List.take_succ_cons, definedNames_cons, List.mem_append] at hdef
      exact hdef.imp_left .inr
  · rintro ⟨h₀, h⟩ i op' hi x hx
    cases i with
    | zero =>
        obtain rfl : op = op' := by simpa using hi
        exact .inl (h₀ x hx)
    | succ i =>
        rw [List.take_succ_cons, definedNames_cons, List.mem_append, ← or_assoc]
        exact h i op' hi x hx

/-- The scope of a list of uses counts only up to equivalence. -/
theorem usesEarlier_congr {outer outer' : String → Prop} (h : ∀ x, outer x ↔ outer' x)
    (ops : List Operation) : UsesEarlier outer ops ↔ UsesEarlier outer' ops := by
  simp only [UsesEarlier, h]

/-! ### Well-formed declarations -/

/-- A class whose parameters and results have distinct names, whose fields have distinct names,
and which uses only values that are parameters, defined before, or shared by the module.  Each
object it makes is given as many values as the class of that name has parameters. -/
structure ClassDecl.WellFormed (m : Module) (c : ClassDecl) : Prop where
  /-- No two parameters or results have one name. -/
  nodup_values : (c.paramNames ++ definedNames c.body).Nodup
  /-- No two fields have one name. -/
  nodup_fields : (c.fields.map fun f => f.name.name).Nodup
  /-- Values are defined before they are used. -/
  usesEarlier : UsesEarlier (fun x => x ∈ c.paramNames ∨ x ∈ definedNames m.operations) c.body
  /-- Objects are made of classes that exist, with the right number of values. -/
  objects : ∀ op ∈ c.body, ∀ target actuals operandTys ty,
    op.action = .object target actuals operandTys ty →
      ∃ d ∈ m.classes, d.name.name = target.name ∧ d.params.length = actuals.length

/-- The body of the class `x` makes an object of the class `y`. -/
def Module.Makes (m : Module) (x y : String) : Prop :=
  ∃ c ∈ m.classes, c.name.name = x ∧ ∃ t ∈ c.targets, t.name = y

/-- A module whose names are distinct, whose values are defined before they are used, whose
objects fit their classes, and whose classes do not need objects of themselves. -/
structure Module.WellFormed (m : Module) : Prop where
  /-- No two classes or hardware modules have one name. -/
  nodup_symbols : (m.symbols.map Ident.name).Nodup
  /-- Outside of classes no objects are made. -/
  no_objects : ∀ op ∈ m.operations, op.action.target? = none
  /-- No two shared values have one name. -/
  nodup_values : (definedNames m.operations).Nodup
  /-- Shared values are defined before they are used. -/
  usesEarlier : UsesEarlier (fun _ => False) m.operations
  /-- All classes are well formed. -/
  classes : ∀ c ∈ m.classes, c.WellFormed m
  /-- No chain of objects leads back to the class where it began. -/
  acyclic : ∀ x, ¬Relation.TransGen m.Makes x x

/-! ### Symbols -/

theorem symbolProblemsFrom_eq_nil_iff (seen : List (String × Span)) (names : List Ident) :
    symbolProblemsFrom seen names = [] ↔
      (names.map Ident.name).Nodup ∧ ∀ x ∈ names.map Ident.name, x ∉ seen.map Prod.fst := by
  induction names generalizing seen with
  | nil => simp [symbolProblemsFrom]
  | cons n names ih =>
      cases h : seen.lookup n.name with
      | some previous =>
          have hmem : n.name ∈ seen.map Prod.fst := by
            by_contra hn
            have hnone : seen.lookup n.name = none := List.lookup_eq_none_iff.2 fun p hp =>
              bne_iff_ne.2 fun he => hn (List.mem_map.2 ⟨p, hp, he.symm⟩)
            rw [hnone] at h
            exact absurd h (by simp)
          simp only [symbolProblemsFrom, h, reduceCtorEq, false_iff, List.map_cons,
            List.mem_cons, forall_eq_or_imp]
          exact fun hall => hall.2.1 hmem
      | none =>
          have hnot : n.name ∉ seen.map Prod.fst := by
            intro hm
            obtain ⟨p, hp, he⟩ := List.mem_map.1 hm
            have := List.lookup_eq_none_iff.1 h p hp
            simp [he] at this
          simp only [symbolProblemsFrom, h, ih, List.map_cons, List.nodup_cons, List.mem_cons,
            forall_eq_or_imp, not_or]
          constructor
          · rintro ⟨hnd, hall⟩
            exact ⟨⟨fun hn => (hall _ hn).1 rfl, hnd⟩, hnot, fun x hx => (hall x hx).2⟩
          · rintro ⟨⟨hn, hnd⟩, -, hall⟩
            exact ⟨hnd, fun x hx => ⟨fun he => hn (he ▸ hx), hall x hx⟩⟩

theorem Module.symbolProblems_eq_nil_iff (m : Module) :
    m.symbolProblems = [] ↔ (m.symbols.map Ident.name).Nodup := by
  rw [Module.symbolProblems, symbolProblemsFrom_eq_nil_iff]
  simp

/-! ### Values -/

theorem undefinedOperands_eq_nil_iff (scope : String → Bool) (op : Operation) :
    undefinedOperands scope op = [] ↔ ∀ x ∈ op.action.operands, scope x.name = true := by
  simp [undefinedOperands]

theorem redefinedResult_eq_nil_iff (scope : List String) (op : Operation) :
    redefinedResult scope op = [] ↔ ∀ x ∈ op.resultNames, x ∉ scope := by
  cases h : op.result <;> simp [redefinedResult, Operation.resultNames, h]

/-- A list of names, none of them in a scope that grows by the names themselves. -/
theorem nodup_append_and_fresh {names : List String} (h : names.Nodup) (rest scope : List String) :
    ((∀ x ∈ names, x ∉ scope) ∧ rest.Nodup ∧ ∀ x ∈ rest, x ∉ names ++ scope) ↔
      (names ++ rest).Nodup ∧ ∀ x ∈ names ++ rest, x ∉ scope := by
  simp only [List.nodup_append', List.mem_append, not_or, List.disjoint_left]
  constructor
  · rintro ⟨hs, hr, hd⟩
    exact ⟨⟨h, hr, fun x hx hx' => (hd x hx').1 hx⟩, fun x hx =>
      hx.elim (hs x) fun hx => (hd x hx).2⟩
  · rintro ⟨⟨-, hr, hd⟩, hs⟩
    exact ⟨fun x hx => hs x (.inl hx), hr, fun x hx => ⟨fun hx' => hd hx' hx, hs x (.inr hx)⟩⟩

theorem Module.valueProblemsFrom_eq_nil_iff (scope : List String) (ops : List Operation) :
    Module.valueProblemsFrom scope ops = [] ↔
      (∀ op ∈ ops, op.action.target? = none) ∧
        ((definedNames ops).Nodup ∧ ∀ x ∈ definedNames ops, x ∉ scope) ∧
          UsesEarlier (· ∈ scope) ops := by
  induction ops generalizing scope with
  | nil => simp [Module.valueProblemsFrom, usesEarlier_nil]
  | cons op ops ih =>
      cases ht : op.action.target? with
      | some t =>
          have hobj : Module.valueProblemsFrom scope (op :: ops) ≠ [] := by
            unfold Module.valueProblemsFrom
            cases ha : op.action <;> simp_all [Action.target?]
          simp [hobj, ht]
      | none =>
          have hcons : Module.valueProblemsFrom scope (op :: ops) =
              undefinedOperands (· ∈ scope) op ++ redefinedResult scope op
                ++ Module.valueProblemsFrom (op.resultNames ++ scope) ops := by
            rw [Module.valueProblemsFrom]
            split
            · next ha => simp [ha, Action.target?] at ht
            · rfl
          have hscope : UsesEarlier (· ∈ op.resultNames ++ scope) ops ↔
              UsesEarlier (fun x => x ∈ scope ∨ x ∈ op.resultNames) ops :=
            usesEarlier_congr (fun x => by rw [List.mem_append, or_comm]) ops
          rw [hcons, List.append_eq_nil_iff, List.append_eq_nil_iff, undefinedOperands_eq_nil_iff,
            redefinedResult_eq_nil_iff, ih, definedNames_cons, usesEarlier_cons, hscope,
            ← nodup_append_and_fresh op.nodup_resultNames]
          simp only [List.mem_cons, forall_eq_or_imp, ht, true_and, decide_eq_true_eq]
          tauto

theorem Module.valueProblems_eq_nil_iff (m : Module) :
    m.valueProblems = [] ↔
      (∀ op ∈ m.operations, op.action.target? = none) ∧ (definedNames m.operations).Nodup ∧
        UsesEarlier (fun _ => False) m.operations := by
  rw [Module.valueProblems, Module.valueProblemsFrom_eq_nil_iff]
  simp

/-- Where no objects are made outside of classes, all results there are shared. -/
theorem Module.sharedNames_eq {m : Module}
    (h : ∀ op ∈ m.operations, op.action.target? = none) :
    m.sharedNames = definedNames m.operations := by
  have hall : (m.operations.filter fun op => op.action.target?.isNone) = m.operations :=
    List.filter_eq_self.2 fun op hop => by rw [h op hop]; rfl
  rw [Module.sharedNames, hall, definedNames]

/-! ### Classes -/

theorem Item.symbol?_ofClass (c : ClassDecl) : (Item.ofClass c).symbol? = some c.name := rfl

theorem Module.mem_classes {m : Module} {c : ClassDecl} :
    c ∈ m.classes ↔ Item.ofClass c ∈ m.items := by
  simp only [Module.classes, List.mem_filterMap]
  constructor
  · rintro ⟨i, hi, h⟩
    cases i <;> simp_all
  · exact fun h => ⟨_, h, rfl⟩

/-- The names of the classes, in the order of the text. -/
def Module.classNames (m : Module) : List String := m.classes.map fun c => c.name.name

/-- The names of the classes are among the symbols. -/
theorem Module.classNames_sublist (m : Module) :
    m.classNames.Sublist (m.symbols.map Ident.name) := by
  rw [Module.classNames, Module.classes, Module.symbols, List.map_filterMap, List.map_filterMap]
  induction m.items with
  | nil => simp
  | cons i is ih =>
      cases i with
      | ofClass c => simpa [Item.symbol?] using ih
      | ofHardware h => simpa [Item.symbol?] using ih.cons _
      | ofOperation op => simpa [Item.symbol?] using ih

theorem Module.WellFormed.nodup_classNames {m : Module} (h : m.WellFormed) :
    m.classNames.Nodup :=
  h.nodup_symbols.sublist m.classNames_sublist

/-- Among items with distinct symbols, the first with the symbol of a class is that class. -/
theorem Module.find?_symbol_eq {items : List Item} {c : ClassDecl}
    (hnd : ((items.filterMap Item.symbol?).map Ident.name).Nodup) (hc : Item.ofClass c ∈ items) :
    (items.find? fun i => i.symbol?.any fun s => s.name == c.name.name) =
      some (.ofClass c) := by
  induction items with
  | nil => simp at hc
  | cons i is ih =>
      rw [List.find?_cons]
      rcases List.mem_cons.1 hc with rfl | hc
      · simp [Item.symbol?]
      · have htail : ((is.filterMap Item.symbol?).map Ident.name).Nodup := by
          cases hi : i.symbol? with
          | none => simpa [List.filterMap_cons, hi] using hnd
          | some s => exact (by simpa [List.filterMap_cons, hi] using hnd : _ ∧ _).2
        have hne : (i.symbol?.any fun s => s.name == c.name.name) = false := by
          cases hi : i.symbol? with
          | none => rfl
          | some s =>
              have hs : s.name ∉ (is.filterMap Item.symbol?).map Ident.name := by
                rw [List.filterMap_cons, hi, List.map_cons] at hnd
                exact (List.nodup_cons.1 hnd).1
              rw [Option.any_some, beq_eq_false_iff_ne]
              intro he
              refine hs (List.mem_map.2 ⟨c.name, ?_, he.symm⟩)
              exact List.mem_filterMap.2 ⟨_, hc, rfl⟩
        rw [hne]
        exact ih htail hc

/-- With distinct symbols, the arity of a name is the number of parameters of its class. -/
theorem Module.arity?_eq_some_iff {m : Module} (hnd : (m.symbols.map Ident.name).Nodup)
    {name : String} {n : Nat} :
    m.arity? name = some n ↔ ∃ d ∈ m.classes, d.name.name = name ∧ d.params.length = n := by
  constructor
  · intro h
    rw [Module.arity?] at h
    split at h
    · next c hc =>
        have hname := List.find?_some hc
        rw [Item.symbol?_ofClass, Option.any_some, beq_iff_eq] at hname
        exact ⟨c, Module.mem_classes.2 (List.mem_of_find?_eq_some hc), hname, by simpa using h⟩
    · simp at h
  · rintro ⟨d, hd, rfl, rfl⟩
    rw [Module.arity?, Module.find?_symbol_eq hnd (Module.mem_classes.1 hd)]

theorem objectProblems_eq_nil_iff (arity? : String → Option Nat) (op : Operation) :
    objectProblems arity? op = [] ↔ ∀ target actuals operandTys ty,
      op.action = .object target actuals operandTys ty →
        arity? target.name = some actuals.length := by
  cases ha : op.action with
  | object target actuals operandTys ty =>
      have hiff : (∀ target' actuals' operandTys' ty',
          Action.object target actuals operandTys ty =
            .object target' actuals' operandTys' ty' →
          arity? target'.name = some actuals'.length) ↔
          arity? target.name = some actuals.length := by
        constructor
        · exact fun h => h _ _ _ _ rfl
        · rintro h _ _ _ _ ⟨⟩
          exact h
      rw [hiff]
      cases hn : arity? target.name with
      | none => simp [objectProblems, ha, hn]
      | some n => simp [objectProblems, ha, hn]
  | _ => simp [objectProblems, ha]

theorem fieldProblems_eq_nil_iff (className : String) (fields : List String) (op : Operation) :
    fieldProblems className fields op = [] ↔ ∀ x ∈ op.fieldNames, x ∉ fields := by
  cases h : op.field? <;> simp [fieldProblems, Operation.fieldNames, h]

theorem Operation.nodup_fieldNames (op : Operation) : op.fieldNames.Nodup := by
  cases h : op.field? <;> simp [Operation.fieldNames, h]

namespace ClassDecl

theorem paramProblemsFrom_eq_nil_iff (className : String) (seen : List String)
    (params : List Param) :
    paramProblemsFrom className seen params = [] ↔
      (params.map fun p => p.name.name).Nodup ∧
        ∀ x ∈ params.map fun p => p.name.name, x ∉ seen := by
  induction params generalizing seen with
  | nil => simp [paramProblemsFrom]
  | cons p ps ih =>
      have hone : [p.name.name].Nodup := List.nodup_singleton _
      have hsplit := nodup_append_and_fresh hone (ps.map fun p => p.name.name) seen
      simp only [List.singleton_append, List.mem_singleton, forall_eq] at hsplit
      rw [List.map_cons, ← hsplit]
      by_cases hp : p.name.name ∈ seen
      · simp [paramProblemsFrom, hp]
      · rw [paramProblemsFrom, if_neg hp, ih]
        simp [hp]

/-- The names of the fields that operations declare. -/
theorem map_fields_eq (body : List Operation) :
    ((body.filterMap Operation.field?).map fun f => f.name.name) =
      body.flatMap Operation.fieldNames := by
  induction body with
  | nil => rfl
  | cons op ops ih =>
      cases h : op.field? <;>
        simp [h, Operation.fieldNames, ← ih]

theorem bodyProblemsFrom_eq_nil_iff (m : Module) (className : String)
    (scope fields : List String) (body : List Operation) :
    bodyProblemsFrom m className scope fields body = [] ↔
      UsesEarlier (fun x => x ∈ scope ∨ x ∈ m.sharedNames) body ∧
        ((body.flatMap Operation.fieldNames).Nodup ∧
          ∀ x ∈ body.flatMap Operation.fieldNames, x ∉ fields) ∧
        (∀ op ∈ body, objectProblems m.arity? op = []) ∧
        (definedNames body).Nodup ∧ ∀ x ∈ definedNames body, x ∉ scope := by
  induction body generalizing scope fields with
  | nil => simp [bodyProblemsFrom, usesEarlier_nil]
  | cons op ops ih =>
      have hscope : UsesEarlier (fun x => x ∈ op.resultNames ++ scope ∨ x ∈ m.sharedNames) ops ↔
          UsesEarlier (fun x => (x ∈ scope ∨ x ∈ m.sharedNames) ∨ x ∈ op.resultNames) ops :=
        usesEarlier_congr (fun x => by rw [List.mem_append]; tauto) ops
      rw [bodyProblemsFrom, List.append_eq_nil_iff, List.append_eq_nil_iff,
        List.append_eq_nil_iff, List.append_eq_nil_iff, undefinedOperands_eq_nil_iff,
        fieldProblems_eq_nil_iff, redefinedResult_eq_nil_iff, ih, usesEarlier_cons, hscope,
        definedNames_cons, List.flatMap_cons, ← nodup_append_and_fresh op.nodup_resultNames,
        ← nodup_append_and_fresh op.nodup_fieldNames]
      simp only [List.mem_cons, forall_eq_or_imp, Bool.or_eq_true, decide_eq_true_eq]
      tauto

/-- The check finds nothing in a class exactly when the class is well formed, in a module whose
symbols are distinct and that makes no objects outside of classes. -/
theorem problems_eq_nil_iff {m : Module} (hnd : (m.symbols.map Ident.name).Nodup)
    (hobj : ∀ op ∈ m.operations, op.action.target? = none) (c : ClassDecl) :
    c.problems m = [] ↔ c.WellFormed m := by
  have hfields : (c.fields.map fun f => f.name.name) = c.body.flatMap Operation.fieldNames :=
    map_fields_eq c.body
  have hvalues : (c.paramNames ++ definedNames c.body).Nodup ↔
      c.paramNames.Nodup ∧ (definedNames c.body).Nodup ∧
        ∀ x ∈ definedNames c.body, x ∉ c.paramNames := by
    rw [List.nodup_append', List.disjoint_left]
    exact and_congr_right fun _ => and_congr_right fun _ =>
      ⟨fun h x hx hp => h hp hx, fun h x hp hx => h x hx hp⟩
  rw [problems, List.append_eq_nil_iff, paramProblemsFrom_eq_nil_iff,
    bodyProblemsFrom_eq_nil_iff, m.sharedNames_eq hobj]
  simp only [objectProblems_eq_nil_iff, Module.arity?_eq_some_iff hnd, List.not_mem_nil,
    not_false_eq_true, implies_true, and_true]
  constructor
  · rintro ⟨hp, huses, hf, hobjs, hd⟩
    exact ⟨hvalues.2 ⟨hp, hd⟩, hfields ▸ hf, huses, hobjs⟩
  · rintro ⟨hv, hf, huses, hobjs⟩
    obtain ⟨hp, hd⟩ := hvalues.1 hv
    exact ⟨hp, huses, hfields ▸ hf, hobjs, hd⟩

end ClassDecl

end ObjectModel
