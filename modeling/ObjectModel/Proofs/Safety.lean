/-
**Accepted modules do not go wrong.**

What the check has found to be there is there when evaluation asks for it: names have values,
objects inside of objects have classes, and these get as many values as they have parameters.

Main definitions:

* `EvalError.Possible` — the errors that the check does not rule out.

Main results:

* `Meaning.raises_upTo` — inside of an object only these errors are possible;
* `Registry.instantiate_does_not_go_wrong` — of the others, a call has only those that are due to
  the call itself.
-/

import ObjectModel.Proofs.Errors
import ObjectModel.Proofs.Memo
import ObjectModel.Proofs.Reading
import ObjectModel.Proofs.Scope

set_option relaxedAutoImplicit false
set_option autoImplicit false

namespace ObjectModel

/-- The errors that the check does not rule out inside of an object.  If no operation both declares
a field and defines a value, which is what `reads` says, then no value is asked for that only a
field could define. -/
def EvalError.Possible (reads : Prop) : EvalError → Prop
  | undefinedValue .. | classNotFound .. | parameterArity .. => False
  | typeMismatch message _ => reads → message ≠ fieldMessage
  | _ => True

theorem EvalError.OfValue.possible {reads : Prop} {loc : Location} {e : EvalError}
    (h : e.OfValue loc) : e.Possible reads := by
  cases h with
  | mismatch hne => exact fun _ => hne
  | symbol path => exact trivial

/-- An operation that defines a value declares no field, unless it does both. -/
theorem Operation.FieldOrValue.isField_eq_false {op : Operation} (h : op.FieldOrValue)
    {x : String} (hdef : op.defines x = true) : op.action.isField = false := by
  refine h ?_
  rw [Operation.defines] at hdef
  cases hres : op.result with
  | none => simp [hres] at hdef
  | some y => rfl

theorem Scope.Holds.mem_allOperations {m : Module} {σ : Scope} {i : Nat} {op : Operation}
    (hop : σ.Holds m i op) (hσ : σ.Proper m) : op ∈ m.allOperations := by
  rw [Scope.Holds] at hop
  cases hbody : σ.body with
  | none =>
      rw [hbody] at hop
      exact Module.mem_allOperations_of_shared hop
  | some p =>
      rw [hbody] at hop
      exact Module.mem_allOperations_of_class (hσ p.1 p.2 hbody).1 (List.mem_of_getElem? hop)

namespace Meaning

variable {m : Module} {maxDepth : Nat} {find : Scoping} {reads : Prop}

/-- An object of a class that exists, with as many values as it has parameters, has only errors
that are possible for what its fields expose. -/
theorem raises_object {names : Names} {σ : Scope} {c : Class} {name : String}
    {actuals : List Value} (site : Option Location)
    (hc : (Registry.ofModule m).class? name = some c) (hlen : c.params.length = actuals.length)
    (hfields : ∀ i op x, c.body[i]? = some op → x ∈ op.action.operands → ∀ span,
      Raises (EvalError.Possible reads) (names (σ.enter c actuals) i x.name span)) :
    Raises (EvalError.Possible reads)
      (object (Registry.ofModule m) maxDepth names σ name actuals site) := by
  refine Raises.object ?_ ?_ ?_ ?_
  · intro hnone
    rw [hc] at hnone
    cases hnone
  · exact fun _ _ => trivial
  · intro d e hd he
    obtain rfl : c = d := by simpa [hc] using hd
    cases he with
    | arity hne => exact absurd hlen hne
    | mismatch index name expected actual => exact trivial
  · intro d hd _ i f hf
    obtain rfl : c = d := by simpa [hc] using hd
    obtain ⟨op, hop, hfield⟩ := ClassDecl.exists_operand_of_placed hf
    exact hfields i op f.value hop hfield f.span

/-- An operand of an operation of the module has only errors that are possible. -/
theorem raises_upTo (hm : m.WellFormed) (hfind : find.Lawful)
    (hreads : reads → ∀ op ∈ m.allOperations, op.FieldOrValue) (n : Nat) :
    ∀ (σ : Scope) (i : Nat) (op : Operation) (x : Ident), σ.Proper m → σ.Holds m i op →
      x ∈ op.action.operands → ∀ span, Raises (EvalError.Possible reads)
        (upTo (Registry.ofModule m) maxDepth find n σ i x.name span) := by
  induction n with
  | zero =>
      intro σ i op x _ _ _ span e he
      cases he
  | succ n ih =>
      intro σ i op x hσ hop hx span
      obtain ⟨d, hd⟩ := exists_definition? hm hfind hσ hop hx
      rw [upTo_succ, hd]
      cases d with
      | bound v => exact Raises.pure v
      | computed τ j def' =>
          obtain ⟨hτ, hholds, hdefines⟩ := holds_of_definition? hfind hd
          have hproper : τ.Proper m := by
            rcases hτ with rfl | rfl
            · exact hσ
            · exact Scope.proper_outside m _
          refine Raises.operation (fun y hy => ih τ j def' y hproper hholds hy y.span)
            (fun e he => he.possible) ?_ ?_
          · intro hfield hr
            have hnot := (hreads hr def' (hholds.mem_allOperations hproper)).isField_eq_false
              hdefines
            rw [hfield] at hnot
            cases hnot
          · intro target actuals operandTys ty hact vs hvs
            obtain ⟨c, params, hbody, hj⟩ := hholds.in_class hm
              (Action.target?_eq_some_iff.2 ⟨actuals, operandTys, ty, hact⟩)
            have hc := (hproper c params hbody).1
            obtain ⟨e, he, hlen⟩ := hm.exists_class hc (List.mem_of_getElem? hj) hact
            -- operands have as many values as there are, which is what the class asks for
            refine raises_object _ he (by rw [hlen, hvs]) fun i' op' x' hop' hx' span' => ?_
            have hmem := (Registry.mem_of_class? he).1
            exact ih (τ.enter e vs) i' op' x' (Scope.Proper.enter τ hmem (by rw [hlen, hvs]))
              hop' hx' span'

end Meaning

/-! ### The call -/

/-- The errors that the check does not rule out for a call that makes an object of the class
`name`: those that are due to the call, and those that are possible inside of the object. -/
inductive EvalError.PossibleFor (m : Module) (name : String) (actuals : List Value)
    (reads : Prop) : EvalError → Prop where
  | noClass (h : ∀ c ∈ m.classes, c.name.name ≠ name) (loc : Location) :
      PossibleFor m name actuals reads (classNotFound name loc)
  | arity {c : ClassDecl} (hc : c ∈ m.classes) (hname : c.name.name = name)
      (hlen : c.params.length ≠ actuals.length) (formals texts : List String) (loc : Location) :
      PossibleFor m name actuals reads
        (parameterArity name c.params.length actuals.length formals texts loc)
  | inner {e : EvalError} (h : e.Possible reads) : PossibleFor m name actuals reads e

/-- What a call means is possible for it. -/
theorem Registry.Yields.possibleFor {m : Module} {maxDepth : Nat} {find : Scoping} {name : String}
    {actuals : List Value} {reads : Prop} {e : EvalError} (hm : m.WellFormed)
    (hfind : find.Lawful) (hreads : reads → ∀ op ∈ m.allOperations, op.FieldOrValue)
    (h : (Registry.ofModule m).Yields maxDepth find name actuals (.error e)) :
    e.PossibleFor m name actuals reads := by
  obtain ⟨n, hn⟩ := h
  refine Meaning.Raises.object ?_ ?_ ?_ ?_ e hn
  · exact fun hnone => .noClass (Registry.class?_eq_none_iff.1 hnone) _
  · exact fun c hc => .inner trivial
  · intro c e hc he
    obtain ⟨hmem, hname⟩ := Registry.mem_of_class? hc
    cases he with
    | arity hne =>
        rw [hname]
        exact .arity hmem hname hne _ _ _
    | mismatch index x expected actual => exact .inner trivial
  · intro c hc hlen i f hf
    obtain ⟨op, hop, hfield⟩ := ClassDecl.exists_operand_of_placed hf
    have hproper := Scope.Proper.enter ⟨0, none⟩ (Registry.mem_of_class? hc).1 hlen
    exact (Meaning.raises_upTo hm hfind hreads n _ i op f.value hproper hop hfield f.span).mono
      fun e he => .inner he

/-- **Accepted modules do not go wrong.**  When a call on an accepted module ends in an error, no
value was missing; a class was missing only if it is the one that was asked for; values for
parameters were too many or too few only if the caller passed them; and in a module that was loaded
from a text no value was asked for that only a field could define. -/
theorem Registry.instantiate_does_not_go_wrong {m : Module} {quote : Nat → String} {r : Registry}
    {maxDepth : Nat} {name : String} {actuals : List Value} {f : Failure}
    (hbuild : Registry.build m quote = .ok r)
    (h : r.instantiate maxDepth name actuals = some (.error f)) :
    (∀ x loc, f.cause ≠ .undefinedValue x loc) ∧
    (∀ x loc, f.cause = .classNotFound x loc → x = name ∧ ∀ c ∈ m.classes, c.name.name ≠ name) ∧
    (∀ x expected actual formals texts loc,
      f.cause = .parameterArity x expected actual formals texts loc →
        x = name ∧ ∃ c ∈ m.classes, c.name.name = name ∧ c.params.length = expected ∧
          actuals.length = actual ∧ expected ≠ actual) ∧
    ∀ s : Source, s.load = .ok m → ∀ loc, f.cause ≠ .typeMismatch EvalError.fieldMessage loc := by
  obtain ⟨hm, rfl⟩ := Registry.build_eq_ok_iff.1 hbuild
  obtain ⟨res, hyields, hres⟩ := Registry.yields_of_instantiate hm.no_objects h
  cases res with
  | ok o => cases hres
  | error e =>
      cases hres
      have hpossible : e.PossibleFor m name actuals (∃ s : Source, s.load = .ok m) :=
        hyields.possibleFor hm Scoping.lawful_whole fun ⟨s, hs⟩ => Source.fieldOrValue_of_load hs
      refine ⟨?_, ?_, ?_, ?_⟩
      · rintro x loc rfl
        cases hpossible with
        | inner hinner => exact hinner
      · rintro x loc rfl
        cases hpossible with
        | noClass hnone => exact ⟨rfl, hnone⟩
        | inner hinner => exact absurd hinner id
      · rintro x expected actual formals texts loc rfl
        cases hpossible with
        | arity hc hname hlen => exact ⟨rfl, _, hc, hname, rfl, rfl, hlen⟩
        | inner hinner => exact absurd hinner id
      · rintro s hs loc rfl
        cases hpossible with
        | inner hinner => exact hinner ⟨s, hs⟩ rfl

/-- Two classes: a device passes its label, which is a text, as the width of a port, which must be
a whole number. -/
def Module.mislabelled : Module where
  file := "device.mlir"
  span := default
  items := [
    .ofClass {
      name := ⟨"Port", default⟩
      params := [⟨⟨"width", default⟩, .integer, default⟩]
      body := [⟨none, .field ⟨"width", default⟩ ⟨"width", default⟩ .integer, default⟩]
      span := default },
    .ofClass {
      name := ⟨"Device", default⟩
      params := [⟨⟨"label", default⟩, .string, default⟩]
      body := [
        ⟨some ⟨"port", default⟩, .object ⟨"Port", default⟩ [⟨"label", default⟩] [.string]
          (.object "Port"), default⟩,
        ⟨none, .field ⟨"port", default⟩ ⟨"port", default⟩ (.object "Port"), default⟩]
      span := default }]

/-- The module is accepted, and a device cannot be made: the error is the one of the port's width,
and nothing is missing. -/
theorem Registry.instantiate_mislabelled_does_not_go_wrong :
    Registry.build Module.mislabelled (fun _ => "") = .ok (ofModule Module.mislabelled) ∧
    ∃ f : Failure, (ofModule Module.mislabelled).instantiate 8 "Device" [.string "left"] =
        some (.error f) ∧
      f.cause = .parameterTypeMismatch "Port" 0 "width" .integer "string"
        (.ofSpan "device.mlir" default) ∧
      (∀ x loc, f.cause ≠ .undefinedValue x loc) ∧
      (∀ x loc, f.cause = .classNotFound x loc →
        x = "Device" ∧ ∀ c ∈ Module.mislabelled.classes, c.name.name ≠ "Device") := by
  have hbuild : Registry.build Module.mislabelled (fun _ => "") =
      .ok (ofModule Module.mislabelled) := rfl
  have hrun : (ofModule Module.mislabelled).instantiate 8 "Device" [.string "left"] =
      some (.error ⟨.parameterTypeMismatch "Port" 0 "width" .integer "string"
        (.ofSpan "device.mlir" default), .instantiate⟩) := rfl
  obtain ⟨hvalues, hclasses, -, -⟩ := Registry.instantiate_does_not_go_wrong hbuild hrun
  exact ⟨hbuild, _, hrun, rfl, hvalues, hclasses⟩

end ObjectModel
