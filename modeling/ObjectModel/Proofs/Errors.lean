/-
**The errors that something may end in.**

What may go wrong is followed through composed computations and meanings: a predicate that holds
of the errors of the parts holds of the errors of the whole.

Main definitions:

* `Eval.Raises`, `Meaning.Raises` — every error that something ends in has a property;
* `EvalError.OfValue` — errors of values and symbols at a place;
* `EvalError.OfActuals` — errors of the values for the parameters of a class.

Main results:

* `Eval.raises_constant`, `Eval.raises_buildMap`, `Eval.raises_checkActuals` — the errors of
  constants, of maps and of the values for parameters;
* `Meaning.Raises.object`, `Meaning.Raises.operation` — the errors of an object and of an operation
  are those of its names and of itself.
-/

import ObjectModel.Proofs.Meaning

set_option relaxedAutoImplicit false
set_option autoImplicit false

namespace ObjectModel

/-! ### Kinds of errors -/

namespace EvalError

/-- The message about an operation that declares a field and does not define a value. -/
def fieldMessage : String := "'om.class.field' does not define a value"

/-- An error of a value that does not fit, or of a symbol that there is not, at the place `loc`. -/
inductive OfValue (loc : Location) : EvalError → Prop where
  | mismatch {message : String} (h : message ≠ fieldMessage) :
      OfValue loc (typeMismatch message loc)
  | symbol (path : SymbolPath) : OfValue loc (symbolResolution path loc)

/-- An error of the values `actuals` for the parameters of the class `c`, at the place `loc`. -/
inductive OfActuals (c : Class) (actuals : List Value) (loc : Location) : EvalError → Prop where
  | arity (h : c.params.length ≠ actuals.length) : OfActuals c actuals loc
      (parameterArity c.name.name c.params.length actuals.length (c.params.map Param.text)
        (actuals.map Value.text) loc)
  | mismatch (index : Nat) (name : String) (expected : Ty) (actual : String) :
      OfActuals c actuals loc (parameterTypeMismatch c.name.name index name expected actual loc)

/-- A text that ends otherwise is not the message about fields. -/
theorem append_ne_fieldMessage (s : String) {t : String}
    (h : ¬t.toList <:+ fieldMessage.toList) : s ++ t ≠ fieldMessage := by
  intro he
  refine h ⟨s.toList, ?_⟩
  rw [← he, String.toList_append]

/-- A text that begins otherwise is not the message about fields. -/
theorem prepend_ne_fieldMessage {s : String} (t : String)
    (h : ¬s.toList <+: fieldMessage.toList) : s ++ t ≠ fieldMessage := by
  intro he
  refine h ⟨t.toList, ?_⟩
  rw [← he, String.toList_append]

end EvalError

/-! ### Errors of computations -/

namespace Eval

open EvalError (OfValue OfActuals)

variable {α β : Type} {P : EvalError → Prop}

/-- Every error that the computation ends in has the property `P`. -/
abbrev Raises (P : EvalError → Prop) (x : Eval α) : Prop := Keeps (fun _ => True) P x

theorem raises_keyKind (ty : Ty) (loc : Location) : Raises (OfValue loc) (keyKind ty loc) := by
  unfold keyKind
  split
  · exact Keeps.pure _
  · exact Keeps.throw (.mismatch (EvalError.append_ne_fieldMessage _ (by decide)))

theorem raises_constantKeyKind (ty : Ty) (loc : Location) :
    Raises (OfValue loc) (constantKeyKind ty loc) := by
  unfold constantKeyKind
  split
  · exact raises_keyKind _ _
  · exact Keeps.pure _

theorem raises_keyOfText (k : KeyKind) (text : String) (loc : Location) :
    Raises (OfValue loc) (keyOfText k text loc) := by
  unfold keyOfText
  split
  · exact Keeps.pure _
  · split
    · exact Keeps.pure _
    · exact Keeps.throw (.mismatch (EvalError.append_ne_fieldMessage _ (by decide)))

theorem raises_reference (r : Registry) (p : SymbolPath) (loc : Location) :
    Raises (OfValue loc) (reference r p loc) := by
  unfold reference
  split
  · exact (Keeps.write fun _ h => h).bind fun _ => Keeps.pure _
  · next e he =>
      rw [Registry.resolve] at he
      split at he
      · cases he
      · cases he
        exact Keeps.throw (.symbol p)

mutual

/-- A constant ends in an error of its values or symbols. -/
theorem raises_constant (r : Registry) (loc : Location) :
    ∀ (a : Attribute) (ty : Ty), Raises (OfValue loc) (constant r loc a ty)
  | .integer _, _ => Keeps.pure _
  | .string _, _ => Keeps.pure _
  | .list elementTy es, _ => (raises_constants r loc elementTy es).bind fun _ => Keeps.pure _
  | .map valueTy es, ty => (raises_constantKeyKind ty loc).bind fun k =>
      (raises_constantEntries r loc k valueTy es).bind fun _ => Keeps.pure _
  | .ref p, _ => raises_reference r p loc

theorem raises_constants (r : Registry) (loc : Location) (ty : Ty) :
    ∀ as : List Attribute, Raises (OfValue loc) (constants r loc ty as)
  | [] => Keeps.pure _
  | a :: as => (raises_constant r loc a ty).bind fun _ =>
      (raises_constants r loc ty as).bind fun _ => Keeps.pure _

theorem raises_constantEntries (r : Registry) (loc : Location) (k : KeyKind) (ty : Ty) :
    ∀ es : List (String × Attribute), Raises (OfValue loc) (constantEntries r loc k ty es)
  | [] => Keeps.pure _
  | (text, a) :: es => (raises_keyOfText k text loc).bind fun _ =>
      (raises_constant r loc a ty).bind fun _ =>
        (raises_constantEntries r loc k ty es).bind fun _ => Keeps.pure _

end

theorem raises_entryOf (k : KeyKind) (loc : Location) (entry : Value) :
    Raises (OfValue loc) (entryOf k loc entry) := by
  unfold entryOf
  split
  · split
    · exact Keeps.pure _
    · refine Keeps.throw (.mismatch ?_)
      rw [String.append_assoc, String.append_assoc]
      exact EvalError.prepend_ne_fieldMessage _ (by decide)
  · exact Keeps.throw (.mismatch (EvalError.prepend_ne_fieldMessage _ (by decide)))

theorem raises_writeEntries (k : KeyKind) (loc : Location) (es : List Value) :
    ∀ entries : List (Key × Value), Raises (OfValue loc) (writeEntries k loc entries es) := by
  induction es with
  | nil => exact fun _ => Keeps.pure _
  | cons e es ih =>
      intro entries
      rw [writeEntries]
      refine (raises_entryOf k loc e).bind fun p => ?_
      dsimp only
      split
      · exact (Keeps.write fun _ h => h).bind fun _ => ih _
      · exact ih _

/-- The map of a list of pairs ends in an error of its values. -/
theorem raises_buildMap (es : List Value) (keyTy valueTy : Ty) (loc : Location) :
    Raises (OfValue loc) (buildMap es keyTy valueTy loc) :=
  (raises_keyKind keyTy loc).bind fun k =>
    (raises_writeEntries k loc es []).bind fun _ => Keeps.pure _

/-- A parameter is told by its position, its name and its type, and the value by what it is. -/
theorem ofActuals_of_mismatch? {c : Class} {actuals : List Value} {loc : Location}
    {e : EvalError} (ps : List Param) (vs : List Value) (index : Nat)
    (h : mismatch? c loc index ps vs = some e) : OfActuals c actuals loc e := by
  induction ps generalizing vs index with
  | nil => simp [mismatch?] at h
  | cons p ps ih =>
      cases vs with
      | nil => simp [mismatch?] at h
      | cons v vs =>
          rw [mismatch?] at h
          split at h
          · exact ih vs (index + 1) h
          · cases h
            exact .mismatch index p.name.name p.ty v.kind.text

theorem raises_checkActuals (c : Class) (actuals : List Value) (loc : Location) :
    Raises (OfActuals c actuals loc) (checkActuals c actuals loc) := by
  unfold checkActuals
  split
  · next h => exact Keeps.throw (.arity h)
  · split
    · next e he => exact Keeps.throw (ofActuals_of_mismatch? _ _ 0 he)
    · exact Keeps.pure _

end Eval

/-! ### Errors of meanings -/

namespace Meaning

open EvalError (OfValue OfActuals)

variable {α β : Type} {P : EvalError → Prop}

/-- Every error that is meant has the property `P`. -/
def Raises (P : EvalError → Prop) (p : Meaning α) : Prop := ∀ e, p.run = some (.error e) → P e

theorem Raises.mono {Q : EvalError → Prop} {p : Meaning α} (h : Raises P p)
    (hPQ : ∀ e, P e → Q e) : Raises Q p := fun e he => hPQ e (h e he)

theorem Raises.pure (a : α) : Raises P (Pure.pure a : Meaning α) := by
  intro e h
  simp at h

theorem Raises.throw {e : EvalError} (he : P e) : Raises P (MonadExcept.throw e : Meaning α) := by
  intro e' h
  cases run_throw_eq_some_iff.1 h
  exact he

/-- The second meaning counts only for what the first one means. -/
theorem Raises.bind {p : Meaning α} {f : α → Meaning β} (hp : Raises P p)
    (hf : ∀ a, p.run = some (.ok a) → Raises P (f a)) : Raises P (p >>= f) := by
  intro e h
  rcases run_bind_eq_some_iff.1 h with ⟨e', he', he⟩ | ⟨a, ha, hfa⟩
  · cases he
    exact hp e he'
  · exact hf a ha e hfa

theorem Raises.mapM {f : α → Meaning β} {as : List α} (h : ∀ a ∈ as, Raises P (f a)) :
    Raises P (as.mapM f) := by
  induction as with
  | nil => exact Raises.pure _
  | cons a as ih =>
      rw [List.mapM_cons]
      refine (h a (by simp)).bind fun b _ => ?_
      exact (ih fun a' ha' => h a' (List.mem_cons_of_mem _ ha')).bind fun bs _ => Raises.pure _

theorem Raises.ofEval {x : Eval α} (hx : Eval.Raises P x) : Raises P (ofEval x) := by
  intro e h
  obtain ⟨t, ht⟩ := run_ofEval_eq_some_iff.1 h
  exact (hx {} _ t trivial ht).2 e rfl

variable {r : Registry} {maxDepth : Nat} {names : Names} {σ : Scope}

/-- The errors of an object are those of its class, of the depth, of the values for its parameters
and of what its fields expose. -/
theorem Raises.object {name : String} {actuals : List Value} {site : Option Location}
    (hclass : r.class? name = none → P (.classNotFound name (site.getD .unknown)))
    (hdepth : ∀ c, r.class? name = some c →
      P (.depthExceeded c.name.name maxDepth (site.getD c.location)))
    (hactuals : ∀ c e, r.class? name = some c → OfActuals c actuals (site.getD c.location) e → P e)
    (hfields : ∀ c, r.class? name = some c → c.params.length = actuals.length →
      ∀ i f, (i, f) ∈ c.placedFields →
        Raises P (names (σ.enter c actuals) i f.value.name f.span)) :
    Raises P (Meaning.object r maxDepth names σ name actuals site) := by
  unfold Meaning.object
  split
  · next hc => exact Raises.throw (hclass hc)
  · next c hc =>
      split
      · exact Raises.throw (hdepth c hc)
      · have hcheck : Raises P (Meaning.ofEval (Eval.checkActuals c actuals
            (site.getD c.location))) :=
          (Raises.ofEval (Eval.raises_checkActuals c actuals _)).mono fun e he =>
            hactuals c e hc he
        refine hcheck.bind fun u hu => ?_
        have hlen := length_params_eq_of_run hu
        have hvalues : Raises P (fieldValues names (σ.enter c actuals) c) :=
          Raises.mapM fun p hp => (hfields c hc hlen p.1 p.2 hp).bind fun _ _ => Raises.pure _
        exact hvalues.bind fun _ _ => Raises.pure _

/-- The errors of an operation are those of its operands, of what it makes of their values, and
the one about fields. -/
theorem Raises.operation {i : Nat} {op : Operation}
    (hoperands : ∀ x ∈ op.action.operands, Raises P (names σ i x.name x.span))
    (hvalue : ∀ e, OfValue (r.location op.span) e → P e)
    (hfield : op.action.isField = true →
      P (.typeMismatch EvalError.fieldMessage (r.location op.span)))
    (hobject : ∀ target actuals operandTys ty, op.action = .object target actuals operandTys ty →
      ∀ vs, vs.length = actuals.length →
        Raises P (Meaning.object r maxDepth names σ target.name vs
          (some (r.location op.span)))) :
    Raises P (Meaning.operation r maxDepth names σ i op) := by
  unfold Meaning.operation
  cases hact : op.action with
  | constant value ty =>
      exact (Raises.ofEval (Eval.raises_constant r _ value ty)).mono hvalue
  | object target actuals operandTys ty =>
      rw [hact] at hoperands
      refine (Raises.mapM hoperands).bind fun vs hvs => ?_
      exact (hobject target actuals operandTys ty hact vs (length_operands hvs)).bind fun _ _ =>
        Raises.pure _
  | listCreate elements elementTy =>
      rw [hact] at hoperands
      exact (Raises.mapM hoperands).bind fun _ _ => Raises.pure _
  | tupleCreate elements elementTys =>
      rw [hact] at hoperands
      exact (Raises.mapM hoperands).bind fun _ _ => Raises.pure _
  | mapCreate entries keyTy valueTy =>
      rw [hact] at hoperands
      refine (Raises.mapM hoperands).bind fun vs _ => ?_
      exact (Raises.ofEval (Eval.raises_buildMap vs keyTy valueTy _)).mono hvalue
  | field name value ty => exact Raises.throw (hfield (by rw [hact]; rfl))

end Meaning

end ObjectModel
