/-
**What readers give.**

A property of the results of readers is followed through composed readers, up to the operations of
a whole module: what the text of an operation cannot say, no operation of a module that was loaded
from a text says.

Main definitions:

* `Reading.Gives`, `Noting.Gives` — every result of a reader has a property;
* `Operation.FieldOrValue` — an operation does not both declare a field and define a value;
* `Module.allOperations` — the operations of a module, inside of classes and outside.

Main results:

* `Noting.mem_itemsFrom` — items have the property that one item has;
* `Reading.gives_operation` — what every operation that is read has;
* `Source.fieldOrValue_of_load` — and hence every operation of a module that was loaded.
-/

import ObjectModel.Module.Reading

set_option relaxedAutoImplicit false
set_option autoImplicit false

namespace ObjectModel

variable {α β : Type}

/-! ### Readers that stop at a problem -/

namespace Reading

/-- Every result of the reader has the property `P`. -/
def Gives (P : α → Prop) (x : Reading α) : Prop := ∀ c a c', x c = .ok a c' → P a

theorem Gives.pure {P : α → Prop} {a : α} (h : P a) : Gives P (Pure.pure a : Reading α) := by
  rintro c a' c' ⟨⟩
  exact h

theorem gives_true (x : Reading α) : Gives (fun _ => True) x := fun _ _ _ _ => trivial

/-- A reader that stops gives nothing, so it gives whatever one likes. -/
theorem gives_failAt {P : α → Prop} (code : Code) (message : String) (span : Span) :
    Gives P (failAt code message span : Reading α) := by
  rintro c a c' ⟨⟩

theorem Gives.bind {Q : α → Prop} {P : β → Prop} {x : Reading α} {f : α → Reading β}
    (hx : Gives Q x) (hf : ∀ a, Q a → Gives P (f a)) : Gives P (x >>= f) := by
  intro c b c' h
  change EStateM.bind x f c = _ at h
  rw [EStateM.bind] at h
  cases hxc : x c with
  | error e c₁ => simp [hxc] at h
  | ok a c₁ =>
      rw [hxc] at h
      exact hf a (hx c a c₁ hxc) c₁ b c' h

/-- What comes first may be anything. -/
theorem Gives.after {P : β → Prop} (x : Reading α) {f : α → Reading β}
    (hf : ∀ a, Gives P (f a)) : Gives P (x >>= f) :=
  (gives_true x).bind fun a _ => hf a

end Reading

/-! ### Readers that note problems -/

namespace Noting

/-- A reader that has noted its problem has stopped there. -/
theorem error_of_run_attempt {x : Reading α} {p p' : Progress}
    (h : (attempt x).run.run p = (none, p')) :
    ∃ e c, x p.cursor = .error e c ∧ p' = ⟨c, p.problems ++ [e]⟩ := by
  cases hx : x p.cursor with
  | ok a c =>
      rw [run_attempt_of_ok hx] at h
      cases h
  | error e c =>
      rw [run_attempt_of_error hx] at h
      exact ⟨e, c, rfl, (Prod.mk.inj h).2.symm⟩

/-- A reader that has a result has noted nothing. -/
theorem ok_of_run_attempt {x : Reading α} {p p' : Progress} {a : α}
    (h : (attempt x).run.run p = (some a, p')) :
    ∃ c, x p.cursor = .ok a c ∧ p' = { p with cursor := c } := by
  cases hx : x p.cursor with
  | ok b c =>
      rw [run_attempt_of_ok hx] at h
      cases h
      exact ⟨c, rfl, rfl⟩
  | error e c =>
      rw [run_attempt_of_error hx] at h
      cases h

/-- Every result of the reader has the property `P`. -/
def Gives (P : α → Prop) (x : Noting α) : Prop :=
  ∀ p a p', x.run.run p = (some a, p') → P a

theorem Gives.pure {P : α → Prop} {a : α} (h : P a) : Gives P (Pure.pure a : Noting α) := by
  rintro p a' p' ⟨⟩
  exact h

theorem gives_true (x : Noting α) : Gives (fun _ => True) x := fun _ _ _ _ => trivial

theorem Gives.attempt {P : α → Prop} {x : Reading α} (h : Reading.Gives P x) :
    Gives P (attempt x) := by
  intro p a p' hr
  obtain ⟨c, hx, -⟩ := ok_of_run_attempt hr
  exact h p.cursor a c hx

theorem Gives.bind {Q : α → Prop} {P : β → Prop} {x : Noting α} {f : α → Noting β}
    (hx : Gives Q x) (hf : ∀ a, Q a → Gives P (f a)) : Gives P (x >>= f) := by
  intro p b p' h
  cases hxp : x.run.run p with
  | mk o p₁ =>
      cases o with
      | none =>
          rw [run_bind_of_none hxp] at h
          cases h
      | some a =>
          rw [run_bind_of_some hxp] at h
          exact hf a (hx p a p₁ hxp) p₁ b p' h

theorem Gives.after {P : β → Prop} (x : Noting α) {f : α → Noting β}
    (hf : ∀ a, Gives P (f a)) : Gives P (x >>= f) :=
  (gives_true x).bind fun a _ => hf a

/-- Items have the property that one item has. -/
theorem mem_itemsFrom {P : α → Prop} {close : TokenKind} {item : Noting α} (h : Gives P item)
    (p : Progress) : ∀ a ∈ (itemsFrom close item p).1, P a := by
  have hread : ∀ p : Progress, ∀ a ∈ (item.run.run p).1.toList, P a := by
    intro p a ha
    cases hr : item.run.run p with
    | mk o p' =>
        rw [hr] at ha
        obtain rfl : o = some a := by simpa using ha
        exact h p a p' hr
  fun_induction itemsFrom close item p with
  | case1 p hstop => simp
  | case2 p hgo read cursor next hless later ih =>
      intro a ha
      rcases List.mem_append.1 ha with ha | ha
      · exact hread p a ha
      · exact ih a ha
  | case3 p hgo read cursor next hless => exact hread p

theorem Gives.items {P : α → Prop} {close : TokenKind} {item : Noting α} (h : Gives P item) :
    Gives (fun as => ∀ a ∈ as, P a) (items close item) := by
  rintro p as p' ⟨⟩
  exact mem_itemsFrom h p

end Noting

/-! ### Fields and values -/

/-- The operation does not both declare a field and define a value. -/
def Operation.FieldOrValue (op : Operation) : Prop :=
  op.result.isSome = true → op.action.isField = false

/-- The operations of an item. -/
def Item.operations : Item → List Operation
  | ofClass c => c.body
  | ofHardware _ => []
  | ofOperation op => [op]

/-- The operations of a module, inside of classes and outside. -/
def Module.allOperations (m : Module) : List Operation := m.items.flatMap Item.operations

theorem Module.mem_allOperations_of_class {m : Module} {c : ClassDecl} {op : Operation}
    (hc : c ∈ m.classes) (hop : op ∈ c.body) : op ∈ m.allOperations := by
  obtain ⟨item, hitem, he⟩ := List.mem_filterMap.1 hc
  refine List.mem_flatMap.2 ⟨item, hitem, ?_⟩
  cases item with
  | ofClass d =>
      obtain rfl : d = c := by simpa using he
      exact hop
  | ofHardware h => simp at he
  | ofOperation op' => simp at he

theorem Module.mem_allOperations_of_shared {m : Module} {op : Operation}
    (hop : op ∈ m.operations) : op ∈ m.allOperations := by
  obtain ⟨item, hitem, he⟩ := List.mem_filterMap.1 hop
  refine List.mem_flatMap.2 ⟨item, hitem, ?_⟩
  cases item with
  | ofOperation op' =>
      obtain rfl : op' = op := by simpa using he
      simp [Item.operations]
  | ofHardware h => simp at he
  | ofClass d => simp at he

namespace Reading

/-- The check of the result lets no field pass that defines a value. -/
theorem gives_checkResult (result : Option Ident) (a : Action) (span : Span) :
    Gives (fun _ => result.isSome = true → a.isField = false) (checkResult result a span) := by
  unfold checkResult
  split
  · exact gives_failAt _ _ _
  · next hboth =>
      have hnot : result.isSome = true → a.isField = false := fun hr => by
        simpa [hr] using hboth
      split
      · exact gives_failAt _ _ _
      · exact Gives.pure hnot

/-- An operation that is read does not both declare a field and define a value. -/
theorem gives_operation (inClass : Bool) :
    Gives Operation.FieldOrValue (operation inClass) := by
  unfold operation
  refine Gives.after _ fun start => Gives.after _ fun result => ?_
  refine Gives.after _ fun nameSpan => Gives.after _ fun name => ?_
  refine Gives.after _ fun action => (gives_checkResult result action nameSpan).bind fun _ h => ?_
  exact Gives.after _ fun span => Gives.after _ fun _ => Gives.pure h

end Reading

namespace Noting

theorem gives_classDecl : Gives (fun c => ∀ op ∈ c.body, op.FieldOrValue) classDecl := by
  unfold classDecl
  refine Gives.after _ fun start => Gives.after _ fun header => ?_
  refine (Gives.items (Gives.attempt (Reading.gives_operation true))).bind fun body hbody => ?_
  exact Gives.after _ fun span => Gives.pure hbody

theorem gives_item : Gives (fun item => ∀ op ∈ item.operations, op.FieldOrValue) item := by
  unfold item
  refine Gives.after _ fun k => ?_
  split
  · exact gives_classDecl.bind fun c hc => Gives.pure hc
  · exact Gives.after _ fun h => Gives.pure (by simp [Item.operations])
  · exact (Gives.attempt (Reading.gives_operation false)).bind fun op hop =>
      Gives.pure (by simpa [Item.operations] using hop)
  · exact (Gives.attempt (Reading.gives_operation false)).bind fun op hop =>
      Gives.pure (by simpa [Item.operations] using hop)
  · exact Gives.attempt (Reading.Gives.after _ fun _ => Reading.gives_failAt _ _ _)
  · exact Gives.attempt (Reading.Gives.after _ fun _ =>
      Reading.Gives.after _ fun _ => Reading.gives_failAt _ _ _)

theorem gives_moduleItems :
    Gives (fun items => ∀ item ∈ items, ∀ op ∈ item.operations, op.FieldOrValue) moduleItems := by
  unfold moduleItems
  refine Gives.after _ fun k => ?_
  split
  · exact Gives.after _ fun _ => (Gives.items gives_item).bind fun items hitems =>
      Gives.after _ fun _ => Gives.pure hitems
  · exact Gives.items gives_item

theorem gives_module (file : String) :
    Gives (fun m => ∀ op ∈ m.allOperations, op.FieldOrValue) (module file) := by
  unfold module
  refine Gives.after _ fun _ => Gives.after _ fun start => ?_
  refine gives_moduleItems.bind fun items hitems => Gives.after _ fun next => ?_
  have hend : ∀ span, Gives (fun m : Module => ∀ op ∈ m.allOperations, op.FieldOrValue)
      (pure { file, items, span }) := by
    intro span
    refine Gives.pure fun op hop => ?_
    obtain ⟨item, hitem, hop⟩ := List.mem_flatMap.1 hop
    exact hitems item hitem op hop
  split
  · exact Gives.after _ fun _ => Gives.after _ fun last => hend _
  · exact Gives.after _ fun last => hend _

end Noting

/-- A module is loaded from a source exactly when it is read from the tokens of the source and no
problem is found, neither in the tokens nor in reading them. -/
theorem Source.load_eq_ok_iff {s : Source} {m : Module} :
    s.load = .ok m ↔ s.lexicalProblems = [] ∧ Module.ofTokens? s.name s.tokens = (some m, []) := by
  rw [Source.load]
  cases hl : s.lexicalProblems with
  | nil =>
      obtain ⟨o, ps⟩ := Module.ofTokens? s.name s.tokens
      cases o <;> cases ps <;> simp [Report.maxErrors]
  | cons q qs =>
      split
      · simp
      · cases (Module.ofTokens? s.name s.tokens).1 <;> simp

/-- No operation of a module that was loaded both declares a field and defines a value. -/
theorem Source.fieldOrValue_of_load {s : Source} {m : Module} (h : s.load = .ok m) :
    ∀ op ∈ m.allOperations, op.FieldOrValue := by
  obtain ⟨-, hread⟩ := Source.load_eq_ok_iff.1 h
  rw [Module.ofTokens?] at hread
  cases hr : (Noting.module s.name).run.run { cursor := .ofTokens s.tokens } with
  | mk o p =>
      rw [hr] at hread
      obtain ⟨rfl, -⟩ := Prod.mk.inj hread
      exact Noting.gives_module s.name _ m p hr

end ObjectModel
