/-
**Looser types.**

A type can be made looser by putting the type of all values in the place of some of its parts, and
types of whole numbers in the place of each other.  Every value that conforms to a type conforms to
the looser one.  So a class whose parameters have looser types takes all values that it took
before, and a call that goes well with the stricter types goes well with the looser ones.

Main definitions:

* `Ty.Loosens` — a type with some of its parts replaced;
* `ClassDecl.Loosens`, `Module.Loosens` — classes and modules with looser types of parameters;
* `Class.untyped` — what is left of a class when the types of its parameters are forgotten;
* `Meaning.Admits` — a meaning is the same as another one, unless that is a type mismatch.

Main results:

* `Ty.Loosens.within` — a type is within every looser type;
* `Meaning.admits_upTo` — with looser types names mean the same, where nothing was rejected;
* `Registry.loosening_rejects_nothing` — **looser types never reject more**.
-/

import ObjectModel.Proofs.FieldTypes
import ObjectModel.Proofs.Narrowing
import ObjectModel.Proofs.Unused

set_option relaxedAutoImplicit false
set_option autoImplicit false

namespace ObjectModel

/-! ### Types -/

namespace Ty

/-- The second type is the first one with some of its parts replaced: any part by the type of all
values, and a type of whole numbers by another one. -/
inductive Loosens : Ty → Ty → Prop where
  | any (s : Ty) : Loosens s .any
  | integers {s t : Ty} (hs : s.isInteger = true) (ht : t.isInteger = true) : Loosens s t
  | string : Loosens .string .string
  | ref : Loosens .ref .ref
  | object (className : String) : Loosens (.object className) (.object className)
  | list {s t : Ty} (h : Loosens s t) : Loosens (.list s) (.list t)
  | map {k l s t : Ty} (hkeys : Loosens k l) (h : Loosens s t) : Loosens (.map k s) (.map l t)
  | tuple {ss ts : List Ty} (h : List.Forall₂ Loosens ss ts) : Loosens (.tuple ss) (.tuple ts)

mutual

/-- Nothing has to be replaced. -/
theorem Loosens.refl : ∀ t : Ty, t.Loosens t
  | .integer => .integers rfl rfl
  | .bits _ => .integers rfl rfl
  | .string => .string
  | .ref => .ref
  | .any => .any _
  | .list t => .list (Loosens.refl t)
  | .map k t => .map (Loosens.refl k) (Loosens.refl t)
  | .tuple ts => .tuple (forall₂_loosens_refl ts)
  | .object c => .object c

theorem forall₂_loosens_refl : ∀ ts : List Ty, List.Forall₂ Loosens ts ts
  | [] => .nil
  | t :: ts => .cons (Loosens.refl t) (forall₂_loosens_refl ts)

end

theorem ofTy?_of_isInteger {t : Ty} (h : t.isInteger = true) :
    KeyKind.ofTy? t = some .integer := by
  cases t with
  | integer | bits => rfl
  | _ => cases h

/-- A looser type of keys accepts the kinds of keys that the type accepts. -/
theorem Loosens.keysWithin {k l : Ty} (h : k.Loosens l) : k.keysWithin l = true := by
  refine List.all_eq_true.2 fun kind _ => ?_
  cases h with
  | any =>
      have hany : Ty.any.acceptsKeys kind = true := rfl
      rw [hany, Bool.or_true]
  | integers hk hl =>
      rw [acceptsKeys, acceptsKeys, ofTy?_of_isInteger hk, ofTy?_of_isInteger hl, Bool.not_or_self]
  | string | ref | object => exact Bool.not_or_self _
  -- no keys are of such types
  | list | map | tuple => rfl

theorem within_of_isInteger {s t : Ty} (hs : s.isInteger = true) (ht : t.isInteger = true) :
    s.within t = true := by
  cases s with
  | integer | bits =>
      cases t with
      | integer | bits => rfl
      | _ => cases ht
  | _ => cases hs

mutual

/-- A type is within every looser type. -/
theorem Loosens.within : ∀ {s t : Ty}, s.Loosens t → s.within t = true
  | s, t, h => by
      cases h with
      | any => cases s <;> rfl
      | integers hs ht => exact within_of_isInteger hs ht
      | string | ref => rfl
      | object c => simp [Ty.within]
      | list h => exact h.within
      | map hkeys h => rw [Ty.within, hkeys.keysWithin, h.within, Bool.and_self]
      | tuple h => exact eachWithin_of_loosens h

theorem eachWithin_of_loosens : ∀ {ss ts : List Ty}, List.Forall₂ Loosens ss ts →
    eachWithin ss ts = true
  | [], _, .nil => rfl
  | _ :: _, _, .cons h hs => by
      rw [eachWithin, h.within, eachWithin_of_loosens hs, Bool.and_self]

end

end Ty

/-! ### Parameters -/

/-- The parameter `q` is the parameter `p`, perhaps with a looser type. -/
structure Param.Loosens (p q : Param) : Prop where
  name : q.name = p.name
  ty : p.ty.Loosens q.ty
  span : q.span = p.span

/-- The class `d` is the class `c`, perhaps with looser types of parameters. -/
structure ClassDecl.Loosens (c d : ClassDecl) : Prop where
  name : d.name = c.name
  params : List.Forall₂ Param.Loosens c.params d.params
  body : d.body = c.body
  span : d.span = c.span

theorem ClassDecl.Loosens.refl (c : ClassDecl) : c.Loosens c :=
  ⟨rfl, List.forall₂_same.2 fun p _ => ⟨rfl, .refl p.ty, rfl⟩, rfl, rfl⟩

theorem ClassDecl.Loosens.paramNames {c d : ClassDecl} (h : c.Loosens d) :
    d.paramNames = c.paramNames := by
  rw [ClassDecl.paramNames, ClassDecl.paramNames, ← List.forall₂_eq_eq_eq,
    List.forall₂_map_left_iff, List.forall₂_map_right_iff]
  exact h.params.flip.imp fun q p hpq => by rw [hpq.name]

/-- So it is with a class of a loaded module. -/
structure Class.Loosens (c d : Class) : Prop where
  decl : c.toClassDecl.Loosens d.toClassDecl
  file : d.file = c.file

/-- A class without the types of its parameters. -/
def Class.untyped (c : Class) : Class :=
  { c with params := c.params.map fun p => { p with ty := .any } }

theorem Class.untyped_name (c : Class) : c.untyped.name = c.name := rfl

namespace Class.Loosens

variable {c d : Class} (h : c.Loosens d)

include h

theorem name : d.name = c.name := h.decl.name

theorem location : d.location = c.location := by
  rw [Class.location, Class.location, h.file, h.decl.span]

theorem length_params : d.params.length = c.params.length := h.decl.params.length_eq.symm

/-- Without the types it is the same class. -/
theorem untyped : d.untyped = c.untyped := by
  have hparams : (d.params.map fun p => { p with ty := Ty.any }) =
      c.params.map fun p => { p with ty := Ty.any } := by
    rw [← List.forall₂_eq_eq_eq, List.forall₂_map_left_iff, List.forall₂_map_right_iff]
    exact h.decl.params.flip.imp fun q p hpq => by rw [hpq.name, hpq.span]
  rw [Class.untyped, Class.untyped, hparams]
  obtain ⟨⟨_, _, _, _⟩, _⟩ := c
  obtain ⟨⟨_, _, _, _⟩, _⟩ := d
  obtain ⟨⟨rfl, -, rfl, rfl⟩, rfl⟩ := h
  rfl

end Class.Loosens

/-! ### Values for parameters -/

namespace Eval

/-- What is reported as a mismatch is a value that does not conform to its parameter. -/
theorem mismatch?_eq_some {c : Class} {loc : Location} {e : EvalError} :
    ∀ {ps : List Param} {vs : List Value} {index : Nat}, mismatch? c loc index ps vs = some e →
      ∃ i p v, ps[i]? = some p ∧ vs[i]? = some v ∧ v.conforms p.ty = false ∧
        e = .parameterTypeMismatch c.name.name (index + i) p.name.name p.ty v.kind.text loc
  | [], _, _, h => by cases h
  | _ :: _, [], _, h => by cases h
  | p :: ps, v :: vs, index, h => by
      rw [mismatch?] at h
      split at h
      · obtain ⟨i, q, w, hq, hw, hnot, rfl⟩ := mismatch?_eq_some h
        exact ⟨i + 1, q, w, hq, hw, hnot, by rw [Nat.add_right_comm]; rfl⟩
      · next hv => exact ⟨0, p, v, rfl, rfl, by simpa using hv, (Option.some.inj h).symm⟩

/-- What is wrong with values that are given to a class: there are too many or too few of them, or
one does not conform to its parameter. -/
def complaint? (c : Class) (vs : List Value) (loc : Location) : Option EvalError :=
  if c.params.length ≠ vs.length then
    some (.parameterArity c.name.name c.params.length vs.length (c.params.map Param.text)
      (vs.map Value.text) loc)
  else mismatch? c loc 0 c.params vs

theorem checkActuals_eq (c : Class) (vs : List Value) (loc : Location) :
    checkActuals c vs loc = (complaint? c vs loc).elim (pure ()) throw := by
  unfold checkActuals complaint?
  split
  · rfl
  · cases mismatch? c loc 0 c.params vs <;> rfl

theorem ends_checkActuals_ok_iff {c : Class} {vs : List Value} {loc : Location}
    {s t : EvalState} :
    Ends (checkActuals c vs loc) s (.ok ()) t ↔ complaint? c vs loc = none ∧ t = s := by
  rw [checkActuals_eq]
  cases complaint? c vs loc with
  | none => simp
  | some e => simp

theorem ends_checkActuals_error_iff {c : Class} {vs : List Value} {loc : Location}
    {s t : EvalState} {e : EvalError} :
    Ends (checkActuals c vs loc) s (.error e) t ↔ complaint? c vs loc = some e ∧ t = s := by
  rw [checkActuals_eq]
  cases complaint? c vs loc with
  | none => simp
  | some e => simp [eq_comm]

end Eval

/-- The error is about a value that does not conform to its parameter. -/
def EvalError.isMismatch : EvalError → Bool
  | parameterTypeMismatch .. => true
  | _ => false

/-- The error without the types of parameters, which are listed where there are too many or too few
values. -/
def EvalError.untyped : EvalError → EvalError
  | parameterArity className expected actual _ actuals loc =>
      parameterArity className expected actual [] actuals loc
  | e => e

theorem EvalError.isMismatch_untyped (e : EvalError) : e.untyped.isMismatch = e.isMismatch := by
  cases e <;> rfl

namespace Class.Loosens

variable {c d : Class} (h : c.Loosens d) {vs : List Value} {loc : Location}

include h

/-- **A value that is rejected with the looser types is one that the stricter type rejects.** -/
theorem exists_not_conforms {e : EvalError} (he : Eval.mismatch? d loc 0 d.params vs = some e) :
    ∃ i p v, c.params[i]? = some p ∧ vs[i]? = some v ∧ v.conforms p.ty = false ∧
      ∃ ty, e = .parameterTypeMismatch c.name.name i p.name.name ty v.kind.text loc := by
  obtain ⟨i, q, v, hq, hv, hnot, rfl⟩ := Eval.mismatch?_eq_some he
  obtain ⟨p, hp, hpq⟩ := h.decl.params.exists_getElem? hq
  refine ⟨i, p, v, hp, hv, ?_, q.ty, by rw [h.name, hpq.name, Nat.zero_add]⟩
  rw [Bool.eq_false_iff] at hnot ⊢
  exact fun hconforms => hnot (Value.conforms_of_within hpq.ty.within hconforms)

/-- What the stricter types find nothing wrong with, the looser ones find nothing wrong with. -/
theorem mismatch?_eq_none (hnone : Eval.mismatch? c loc 0 c.params vs = none) :
    Eval.mismatch? d loc 0 d.params vs = none := by
  refine Option.eq_none_iff_forall_ne_some.2 fun e he => ?_
  obtain ⟨i, p, v, hp, hv, hnot, -⟩ := h.exists_not_conforms he
  have hmem : (p, v) ∈ c.params.zip vs :=
    List.mem_of_getElem? (List.getElem?_zip_eq_some.2 ⟨hp, hv⟩)
  have hconforms := Eval.mismatch?_eq_none_iff.1 hnone _ hmem
  rw [hnot] at hconforms
  cases hconforms

theorem complaint?_eq_none (hnone : Eval.complaint? c vs loc = none) :
    Eval.complaint? d vs loc = none := by
  unfold Eval.complaint? at hnone ⊢
  rw [h.length_params]
  split at hnone
  · cases hnone
  · next hlength =>
      rw [if_neg hlength]
      exact h.mismatch?_eq_none hnone

/-- A mismatch that the looser types complain of is one for the stricter type. -/
theorem exists_not_conforms_of_complaint {e : EvalError}
    (he : Eval.complaint? d vs loc = some e) (hmismatch : e.isMismatch = true) :
    ∃ i p v, c.params[i]? = some p ∧ vs[i]? = some v ∧ v.conforms p.ty = false ∧
      ∃ ty, e = .parameterTypeMismatch c.name.name i p.name.name ty v.kind.text loc := by
  unfold Eval.complaint? at he
  split at he
  · cases he
    cases hmismatch
  · exact h.exists_not_conforms he

end Class.Loosens

/-! ### Meanings -/

/-- How a call ends with looser types, when with the stricter ones it ends in the first way: in the
same way, as far as `g` shows and but for types that an error lists.  After a mismatch it may go on,
and end in any way. -/
inductive LooserOutcome {α β : Type} (g : α → β) :
    Option (Except EvalError α) → Option (Except EvalError α) → Prop where
  | nothing : LooserOutcome g none none
  | value {a b : α} (h : g b = g a) : LooserOutcome g (some (.ok a)) (some (.ok b))
  | error {e e' : EvalError} (h : e'.untyped = e.untyped) :
      LooserOutcome g (some (.error e)) (some (.error e'))
  | mismatch {e : EvalError} (h : e.isMismatch = true) (res : Option (Except EvalError α)) :
      LooserOutcome g (some (.error e)) res

namespace Meaning

variable {α β γ δ ι : Type}

/-- The second meaning is how the first one ends with looser types. -/
def Admits (g : α → β) (p q : Meaning α) : Prop := LooserOutcome g p.run q.run

/-- A value is the same with looser types, as far as `g` shows. -/
theorem Admits.exists_value {g : α → β} {p q : Meaning α} (h : Admits g p q) {a : α}
    (hp : p.run = some (.ok a)) : ∃ b, q.run = some (.ok b) ∧ g b = g a := by
  rw [Admits, hp] at h
  generalize q.run = res at h ⊢
  cases h with
  | value h => exact ⟨_, rfl, h⟩

/-- A mismatch with looser types is one with the stricter types before. -/
theorem Admits.exists_mismatch {g : α → β} {p q : Meaning α} (h : Admits g p q) {e' : EvalError}
    (hq : q.run = some (.error e')) (he' : e'.isMismatch = true) :
    ∃ e, p.run = some (.error e) ∧ e.isMismatch = true := by
  rw [Admits, hq] at h
  generalize p.run = res at h ⊢
  cases h with
  | mismatch h => exact ⟨_, rfl, h⟩
  | error h =>
      refine ⟨_, rfl, ?_⟩
      rwa [← EvalError.isMismatch_untyped, ← h, EvalError.isMismatch_untyped]

theorem Admits.of_sameUnder {g : α → β} {p q : Meaning α} (h : SameUnder g p q) :
    Admits g p q := by
  have hrun : (g <$> p).run = (g <$> q).run := congrArg ExceptT.run h
  rw [ExceptT.run_map, ExceptT.run_map] at hrun
  unfold Admits
  cases hp : p.run with
  | none =>
      cases hq : q.run with
      | none => exact .nothing
      | some res' => simp [hp, hq] at hrun
  | some res =>
      cases hq : q.run with
      | none => simp [hp, hq] at hrun
      | some res' =>
          have hres : res.map g = res'.map g := by simpa [hp, hq] using hrun
          cases res with
          | error e =>
              cases res' with
              | error e' =>
                  obtain rfl : e = e' := by simpa [Except.map] using hres
                  exact .error rfl
              | ok b => cases hres
          | ok a =>
              cases res' with
              | error e' => cases hres
              | ok b => exact .value (Except.ok.inj hres).symm

theorem Admits.refl (g : α → β) (p : Meaning α) : Admits g p p :=
  Admits.of_sameUnder (SameUnder.refl g p)

theorem Admits.pure {g : α → β} {a b : α} (h : g b = g a) :
    Admits g (Pure.pure a) (Pure.pure b) := .value h

/-- A mismatch in what comes first is the mismatch of the whole. -/
theorem Admits.bind {g : α → β} {k : γ → δ} {p q : Meaning α} {F G : α → Meaning γ}
    (h : Admits g p q) (hF : ∀ a b, g b = g a → Admits k (F a) (G b)) :
    Admits k (p >>= F) (q >>= G) := by
  unfold Admits at h ⊢
  rw [ExceptT.run_bind, ExceptT.run_bind]
  cases h with
  | nothing => exact .nothing
  | value h => exact hF _ _ h
  | error h => exact .error h
  | mismatch h res => exact .mismatch h _

theorem Admits.mapM {g : α → β} {f f' : ι → Meaning α} {is : List ι}
    (h : ∀ i ∈ is, Admits g (f i) (f' i)) : Admits (List.map g) (is.mapM f) (is.mapM f') := by
  induction is with
  | nil => exact Admits.refl _ _
  | cons i is ih =>
      rw [List.mapM_cons, List.mapM_cons]
      refine (h i List.mem_cons_self).bind fun a b hab => ?_
      refine (ih fun j hj => h j (List.mem_cons_of_mem _ hj)).bind fun as bs habs => ?_
      exact Admits.pure (by rw [List.map_cons, List.map_cons, hab, habs])

/-- The values for the parameters of a class. -/
theorem admits_checkActuals {c d : Class} (h : c.Loosens d) (vs : List Value) (loc : Location) :
    Admits id (ofEval (Eval.checkActuals c vs loc)) (ofEval (Eval.checkActuals d vs loc)) := by
  have hrun : ∀ c : Class, (ofEval (Eval.checkActuals c vs loc)).run =
      some ((Eval.complaint? c vs loc).elim (.ok ()) .error) := by
    intro c
    rw [Eval.checkActuals_eq]
    cases Eval.complaint? c vs loc <;> rfl
  rw [Admits, hrun, hrun, Eval.complaint?, Eval.complaint?, h.length_params, h.name]
  split
  · exact .error rfl
  · cases hc : Eval.mismatch? c loc 0 c.params vs with
    | none =>
        rw [h.mismatch?_eq_none hc]
        exact .value rfl
    | some e =>
        obtain ⟨i, p, v, -, -, -, rfl⟩ := Eval.mismatch?_eq_some hc
        exact .mismatch rfl _

end Meaning

/-! ### Definitions -/

/-- The registry `r'` is the registry `r`, perhaps with looser types of the parameters of classes. -/
structure Registry.Loosens (r r' : Registry) : Prop where
  file : r'.file = r.file
  declares : r'.declares = r.declares
  classes : ∀ name, Option.Rel Class.Loosens (r.class? name) (r'.class? name)
  values : r'.value? = r.value?

/-- Two scopes of such classes, in which the parameters are bound to the same values but for types
of parameters behind the objects in them. -/
structure Scope.Loosens (σ τ : Scope) : Prop where
  depth : τ.depth = σ.depth
  body : Option.Rel (fun p q => p.1.Loosens q.1 ∧
    Entries.mapClass Class.untyped q.2 = Entries.mapClass Class.untyped p.2) σ.body τ.body

theorem Scope.Loosens.outside {σ τ : Scope} (h : σ.Loosens τ) : σ.outside.Loosens τ.outside :=
  ⟨h.depth, .none⟩

/-- Two values of a parameter that are the same in this way, or two times the result of one
operation. -/
inductive Definition.Loosens : Definition → Definition → Prop where
  | bound {v w : Value} (h : w.mapClass Class.untyped = v.mapClass Class.untyped) :
      Loosens (.bound v) (.bound w)
  | computed {σ τ : Scope} (hσ : σ.Loosens τ) (i : Nat) (op : Operation) :
      Loosens (.computed σ i op) (.computed τ i op)

namespace Registry.Loosens

variable {r r' : Registry} (hr : r.Loosens r') {σ τ : Scope} (hσ : σ.Loosens τ)

include hr hσ

theorem shared? (x : String) :
    Option.Rel Definition.Loosens (Meaning.shared? r σ x) (Meaning.shared? r' τ x) := by
  rw [Meaning.shared?, Meaning.shared?, hr.values]
  cases r.value? x with
  | none => exact .none
  | some op => exact .some (.computed hσ.outside 0 op)

/-- A name stands for the same with looser types. -/
theorem definition? (find : Scoping) (i : Nat) (x : String) :
    Option.Rel Definition.Loosens (Meaning.definition? r find σ i x)
      (Meaning.definition? r' find τ i x) := by
  rw [Meaning.definition?, Meaning.definition?]
  rcases exists_of_rel hσ.body with ⟨hs, ht⟩ | ⟨⟨c, params⟩, ⟨d, params'⟩, hs, ht, hcd, hbound⟩
  · rw [hs, ht]
    exact hr.shared? hσ x
  · rw [hs, ht]
    dsimp only at hcd hbound ⊢
    rcases exists_of_rel (Entries.rel_lookup_of_mapClass hbound x) with
      ⟨hp, hq⟩ | ⟨v, w, hp, hq, hvw⟩
    · rw [hp, hq, hcd.decl.body]
      dsimp only
      cases find c.body i x with
      | none => exact hr.shared? hσ x
      | some p => exact .some (.computed hσ p.1 p.2)
    · rw [hp, hq]
      exact .some (.bound hvw)

end Registry.Loosens

/-! ### Objects and operations -/

namespace Meaning

section Names

variable {r r' : Registry} {maxDepth : Nat} {N M : Names} (hr : r.Loosens r')
  (hnames : ∀ {σ τ : Scope}, σ.Loosens τ → ∀ i x span,
    Admits (Value.mapClass Class.untyped) (N σ i x span) (M τ i x span))

include hnames

theorem Admits.fieldValues {σ τ : Scope} (hσ : σ.Loosens τ) {c d : Class} (hcd : c.Loosens d) :
    Admits (Entries.mapClass Class.untyped) (fieldValues N σ c) (fieldValues M τ d) := by
  unfold Meaning.fieldValues
  rw [ClassDecl.placedFields, ClassDecl.placedFields, hcd.decl.body]
  refine Admits.mapM (g := fun e : String × Value => (e.1, e.2.mapClass Class.untyped))
    fun p _ => ?_
  refine (hnames hσ p.1 p.2.value.name p.2.span).bind fun v w hvw => ?_
  exact Admits.pure (by rw [hvw])

include hr

/-- With looser types an object is the same, but for the types. -/
theorem Admits.object {σ τ : Scope} (hdepth : τ.depth = σ.depth) (name : String)
    {us vs : List Value}
    (h : vs.map (Value.mapClass Class.untyped) = us.map (Value.mapClass Class.untyped))
    (site : Option Location) :
    Admits (Object.mapClass Class.untyped) (object r maxDepth N σ name us site)
      (object r' maxDepth M τ name vs site) := by
  have hclass := hr.classes name
  unfold Meaning.object
  rcases exists_of_rel hclass with ⟨hc, hd⟩ | ⟨c, d, hc, hd, hcd⟩
  · rw [hc, hd]
    exact Admits.refl _ _
  · rw [hc, hd]
    dsimp only
    rw [hdepth, hcd.name, hcd.location]
    split
    · exact Admits.refl _ _
    · rw [Eval.checkActuals_eq_of_mapClass Class.untyped_name h]
      refine (admits_checkActuals hcd us _).bind fun _ _ _ => ?_
      have henter : (σ.enter c us).Loosens (τ.enter d vs) :=
        ⟨congrArg (· + 1) hdepth, .some ⟨hcd, ClassDecl.mapClass_bind hcd.decl.paramNames h⟩⟩
      refine (Admits.fieldValues hnames henter hcd).bind fun es es' hes => Admits.pure ?_
      rw [Object.mapClass, Object.mapClass, ← Entries.ofList_mapClass, hes,
        Entries.ofList_mapClass, hcd.untyped]

/-- So it is with the result of an operation. -/
theorem Admits.operation {σ τ : Scope} (hσ : σ.Loosens τ) (i : Nat) (op : Operation) :
    Admits (Value.mapClass Class.untyped) (operation r maxDepth N σ i op)
      (operation r' maxDepth M τ i op) := by
  have hoperands : ∀ xs, Admits (List.map (Value.mapClass Class.untyped)) (operands N σ i xs)
      (operands M τ i xs) := fun xs => Admits.mapM fun x _ => hnames hσ i x.name x.span
  have hloc : r'.location op.span = r.location op.span := by
    rw [Registry.location, Registry.location, hr.file]
  unfold Meaning.operation
  rw [hloc]
  cases op.action with
  | constant value ty =>
      dsimp only
      rw [Eval.constant_congr hr.declares]
      exact Admits.refl _ _
  | object target actuals operandTys ty =>
      refine (hoperands actuals).bind fun us vs h => ?_
      refine (Admits.object hr hnames hσ.depth target.name h _).bind fun o o' ho => ?_
      exact Admits.pure (by rw [← Object.toValue_mapClass, ho, Object.toValue_mapClass])
  | listCreate elements elementTy =>
      refine (hoperands elements).bind fun us vs h => Admits.pure ?_
      rw [Value.mapClass, Value.mapClass, Value.mapClassAll_eq, Value.mapClassAll_eq, h]
  | tupleCreate elements elementTys =>
      refine (hoperands elements).bind fun us vs h => Admits.pure ?_
      rw [Value.mapClass, Value.mapClass, Value.mapClassAll_eq, Value.mapClassAll_eq, h]
  | mapCreate entries keyTy valueTy =>
      refine (hoperands entries).bind fun us vs h => Admits.of_sameUnder ?_
      rw [SameUnder, map_ofEval, map_ofEval, ← Eval.buildMap_mapClass Class.untyped_name, ← h,
        Eval.buildMap_mapClass Class.untyped_name]
  | field name value ty => exact Admits.refl _ _

end Names

/-- With looser types names mean the same, where no value was rejected. -/
theorem admits_upTo {r r' : Registry} (hr : r.Loosens r') (maxDepth : Nat) (find : Scoping)
    (n : Nat) : ∀ {σ τ : Scope}, σ.Loosens τ → ∀ i x span,
      Admits (Value.mapClass Class.untyped) (upTo r maxDepth find n σ i x span)
        (upTo r' maxDepth find n τ i x span) := by
  induction n with
  | zero => exact fun _ _ _ _ => .nothing
  | succ n ih =>
      intro σ τ hσ i x span
      have hlocation : r'.location span = r.location span := by
        rw [Registry.location, Registry.location, hr.file]
      rw [upTo_succ, upTo_succ, hlocation]
      rcases exists_of_rel (hr.definition? hσ find i x) with ⟨hd, he⟩ | ⟨d, e, hd, he, hde⟩
      · rw [hd, he]
        exact Admits.refl _ _
      · rw [hd, he]
        cases hde with
        | bound h => exact Admits.pure h
        | computed hσ j op => exact Admits.operation hr ih hσ j op

end Meaning

/-! ### Modules -/

/-- The same item, or a class with looser types of parameters. -/
inductive Item.Loosens : Item → Item → Prop where
  | same (i : Item) : Loosens i i
  | ofClass {c d : ClassDecl} (h : c.Loosens d) : Loosens (.ofClass c) (.ofClass d)

/-- The module `m'` is the module `m`, perhaps with looser types of the parameters of classes. -/
structure Module.Loosens (m m' : Module) : Prop where
  file : m'.file = m.file
  items : List.Forall₂ Item.Loosens m.items m'.items
  span : m'.span = m.span

namespace Module.Loosens

variable {m m' : Module} (h : m.Loosens m')

include h

/-- What is taken from items is the same when it does not hang on the types of parameters. -/
theorem filterMap_items {α : Type} {f : Item → Option α}
    (hf : ∀ {c d : ClassDecl}, c.Loosens d → f (.ofClass d) = f (.ofClass c)) :
    m'.items.filterMap f = m.items.filterMap f := by
  have hsame : List.Forall₂ Eq (m.items.filterMap f) (m'.items.filterMap f) := by
    refine List.rel_filterMap (fun i j hij => ?_) h.items
    have hij : f j = f i := by
      cases hij with
      | same => rfl
      | ofClass hcd => exact hf hcd
    rw [hij]
    cases f i with
    | none => exact .none
    | some a => exact .some rfl
  rw [List.forall₂_eq_eq_eq] at hsame
  exact hsame.symm

theorem symbols : m'.symbols = m.symbols := h.filterMap_items fun hcd => congrArg some hcd.name

theorem operations : m'.operations = m.operations := h.filterMap_items fun _ => rfl

theorem hardware : m'.hardware = m.hardware := h.filterMap_items fun _ => rfl

theorem classes : List.Forall₂ ClassDecl.Loosens m.classes m'.classes := by
  refine List.rel_filterMap (fun i j hij => ?_) h.items
  cases hij with
  | ofClass hcd => exact .some hcd
  | same =>
      cases i with
      | ofClass c => exact .some (.refl c)
      | ofHardware | ofOperation => exact .none

/-- **With looser types a well-formed module is well formed.** -/
theorem wellFormed (hm : m.WellFormed) : m'.WellFormed where
  nodup_symbols := h.symbols ▸ hm.nodup_symbols
  no_objects := h.operations ▸ hm.no_objects
  nodup_values := h.operations ▸ hm.nodup_values
  usesEarlier := h.operations ▸ hm.usesEarlier
  classes := by
    intro d hd
    obtain ⟨c, hc, hcd⟩ := h.classes.exists_left hd
    have hwf := hm.classes c hc
    refine ⟨?_, ?_, ?_, ?_⟩
    · rw [hcd.paramNames, hcd.body]
      exact hwf.nodup_values
    · rw [ClassDecl.fields, hcd.body]
      exact hwf.nodup_fields
    · rw [hcd.paramNames, hcd.body, h.operations]
      exact hwf.usesEarlier
    · rw [hcd.body]
      intro op hop target actuals operandTys ty hact
      obtain ⟨e, he, hname, hlength⟩ := hwf.objects op hop target actuals operandTys ty hact
      obtain ⟨e', he', hee⟩ := h.classes.exists_right he
      exact ⟨e', he', by rw [hee.name, hname], by rw [← hee.params.length_eq, hlength]⟩
  acyclic := by
    intro x hx
    refine hm.acyclic x (Relation.TransGen.mono ?_ x x hx)
    rintro y z ⟨d, hd, hy, t, ht, hz⟩
    obtain ⟨c, hc, hcd⟩ := h.classes.exists_left hd
    refine ⟨c, hc, by rw [← hcd.name, hy], t, ?_, hz⟩
    rwa [ClassDecl.targets, hcd.body] at ht

/-- The registries are related as the modules are. -/
theorem registry : (Registry.ofModule m).Loosens (Registry.ofModule m') := by
  have hclasses : List.Forall₂ Class.Loosens (Registry.ofModule m).classes
      (Registry.ofModule m').classes := by
    rw [Registry.ofModule, Registry.ofModule, List.forall₂_map_left_iff,
      List.forall₂_map_right_iff]
    exact h.classes.imp fun c d hcd => ⟨hcd, h.file⟩
  refine ⟨h.file, Registry.declares_of_forall₂ h.hardware hclasses fun c d hcd => hcd.name,
    fun name => ?_, ?_⟩
  · refine hclasses.rel_find? fun c d hcd => ?_
    rw [hcd.name]
  · funext name
    rw [Registry.value?, Registry.ofModule, h.operations]
    rfl

/-- What making an object means with looser types. -/
theorem admits_object (maxDepth n : Nat) (name : String) (actuals : List Value) :
    Meaning.Admits (Object.mapClass Class.untyped)
      (Meaning.object (Registry.ofModule m) maxDepth
        (Meaning.upTo (Registry.ofModule m) maxDepth .whole n) ⟨0, none⟩ name actuals none)
      (Meaning.object (Registry.ofModule m') maxDepth
        (Meaning.upTo (Registry.ofModule m') maxDepth .whole n) ⟨0, none⟩ name actuals none) :=
  Meaning.Admits.object h.registry (Meaning.admits_upTo h.registry maxDepth .whole n) rfl name rfl
    none

/-- A call that makes an object with the stricter types makes it with the looser ones. -/
theorem exists_object (hm : m.WellFormed) {maxDepth : Nat} {name : String} {actuals : List Value}
    {o : Object} (ho : (Registry.ofModule m).instantiate maxDepth name actuals = some (.ok o)) :
    ∃ o', (Registry.ofModule m').instantiate maxDepth name actuals = some (.ok o') ∧
      o'.mapClass Class.untyped = o.mapClass Class.untyped := by
  obtain ⟨res, ⟨n, hn⟩, hres⟩ := (Registry.instantiate_eq_some_iff hm).1 ho
  cases res with
  | error e => cases hres
  | ok a =>
      obtain rfl : o = a := Except.ok.inj hres
      obtain ⟨o', hn', hsame⟩ := (h.admits_object maxDepth n name actuals).exists_value hn
      exact ⟨o', (Registry.instantiate_eq_some_iff (h.wellFormed hm)).2 ⟨_, ⟨n, hn'⟩, rfl⟩, hsame⟩

/-- A call that ends in a mismatch with the looser types ends in one with the stricter ones. -/
theorem exists_mismatch (hm : m.WellFormed) {maxDepth : Nat} {name : String}
    {actuals : List Value} {f' : Failure}
    (hf' : (Registry.ofModule m').instantiate maxDepth name actuals = some (.error f'))
    (hmismatch : f'.cause.isMismatch = true) :
    ∃ f, (Registry.ofModule m).instantiate maxDepth name actuals = some (.error f) ∧
      f.cause.isMismatch = true := by
  obtain ⟨res, ⟨n, hn⟩, hres⟩ := (Registry.instantiate_eq_some_iff (h.wellFormed hm)).1 hf'
  cases res with
  | ok a => cases hres
  | error e' =>
      obtain rfl : f' = ⟨e', .instantiate⟩ := Except.error.inj hres
      obtain ⟨e, hn', he⟩ :=
        (h.admits_object maxDepth n name actuals).exists_mismatch hn hmismatch
      exact ⟨_, (Registry.instantiate_eq_some_iff hm).2 ⟨_, ⟨n, hn'⟩, rfl⟩, he⟩

end Module.Loosens

/-- **Looser types never reject more.**  A value that conforms to a type conforms to every looser
type.  A class whose parameters have looser types takes all values that it took before, and a value
that it rejects is one that it rejected before.  A module with such classes is accepted when it was
accepted before; a call on it makes the same object as before, but for these types, and it ends in a
type mismatch only if it did before. -/
theorem Registry.loosening_rejects_nothing :
    (∀ s t : Ty, s.Loosens t → ∀ v : Value, v.conforms s = true → v.conforms t = true) ∧
    (∀ c d : Class, c.Loosens d → ∀ (vs : List Value) (loc : Location) (s t : EvalState),
      (Eval.Ends (Eval.checkActuals c vs loc) s (.ok ()) t →
        Eval.Ends (Eval.checkActuals d vs loc) s (.ok ()) t) ∧
      ∀ e, Eval.Ends (Eval.checkActuals d vs loc) s (.error e) t → e.isMismatch = true →
        ∃ i p v, c.params[i]? = some p ∧ vs[i]? = some v ∧ v.conforms p.ty = false ∧
          ∃ ty, e = .parameterTypeMismatch c.name.name i p.name.name ty v.kind.text loc) ∧
    ∀ (m m' : Module) (quote quote' : Nat → String) (r : Registry),
      Registry.build m quote = .ok r → m.Loosens m' →
        ∃ r', Registry.build m' quote' = .ok r' ∧ ∀ maxDepth name actuals,
          (∀ o, r.instantiate maxDepth name actuals = some (.ok o) →
            ∃ o', r'.instantiate maxDepth name actuals = some (.ok o') ∧
              o'.mapClass Class.untyped = o.mapClass Class.untyped) ∧
          ∀ f', r'.instantiate maxDepth name actuals = some (.error f') →
            f'.cause.isMismatch = true →
              ∃ f, r.instantiate maxDepth name actuals = some (.error f) ∧
                f.cause.isMismatch = true := by
  refine ⟨fun s t hst v hv => Value.conforms_of_within hst.within hv, ?_, ?_⟩
  · intro c d hcd vs loc s t
    refine ⟨fun hok => ?_, fun e herror hmismatch => ?_⟩
    · obtain ⟨hnone, rfl⟩ := Eval.ends_checkActuals_ok_iff.1 hok
      exact Eval.ends_checkActuals_ok_iff.2 ⟨hcd.complaint?_eq_none hnone, rfl⟩
    · obtain ⟨hsome, -⟩ := Eval.ends_checkActuals_error_iff.1 herror
      exact hcd.exists_not_conforms_of_complaint hsome hmismatch
  · intro m m' quote quote' r hbuild h
    obtain ⟨hm, rfl⟩ := Registry.build_eq_ok_iff.1 hbuild
    exact ⟨ofModule m', Registry.build_eq_ok_iff.2 ⟨h.wellFormed hm, rfl⟩,
      fun maxDepth name actuals =>
        ⟨fun o ho => h.exists_object hm ho, fun f' hf' he => h.exists_mismatch hm hf' he⟩⟩

/-- A card that shows its pages. -/
def ClassDecl.card (ty : Ty) : ClassDecl where
  name := ⟨"Card", default⟩
  params := [⟨⟨"pages", default⟩, ty, default⟩]
  body := [⟨none, .field ⟨"pages", default⟩ ⟨"pages", default⟩ .any, default⟩]
  span := default

/-- An index that keeps its pages on a card.  Both classes have a parameter of the type. -/
def Module.indexed (ty : Ty) : Module where
  file := "index.mlir"
  span := default
  items := [
    .ofClass (.card ty),
    .ofClass {
      name := ⟨"Index", default⟩
      params := [⟨⟨"pages", default⟩, ty, default⟩]
      body := [
        ⟨some ⟨"card", default⟩, .object ⟨"Card", default⟩ [⟨"pages", default⟩] [.any]
          (.object "Card"), default⟩,
        ⟨none, .field ⟨"card", default⟩ ⟨"card", default⟩ (.object "Card"), default⟩]
      span := default }]

theorem ClassDecl.card_loosens {s t : Ty} (h : s.Loosens t) :
    (ClassDecl.card s).Loosens (ClassDecl.card t) :=
  ⟨rfl, .cons ⟨rfl, h, rfl⟩ .nil, rfl, rfl⟩

theorem Module.indexed_loosens {s t : Ty} (h : s.Loosens t) :
    (Module.indexed s).Loosens (Module.indexed t) :=
  ⟨rfl, .cons (.ofClass (ClassDecl.card_loosens h))
    (.cons (.ofClass ⟨rfl, .cons ⟨rfl, h, rfl⟩ .nil, rfl, rfl⟩) .nil), rfl⟩

/-- Pages by their numbers, each with lines of a text and a number. -/
def Ty.pages : Ty := .map (.bits 8) (.list (.tuple [.string, .integer]))

/-- The same with all keys, with anything in the place of a text, and with numbers of some width. -/
def Ty.anyPages : Ty := .map .any (.list (.tuple [.any, .bits 32]))

/-- One page with one line. -/
def Value.page : Value :=
  .map .integer .any [(.integer 1, .list .any [.tuple [.string "a", .integer 3]])]

/-- A page goes on the card with both types, and a text with neither. -/
theorem Registry.loosening_rejects_nothing_indexed :
    Ty.pages.Loosens Ty.anyPages ∧ Value.page.conforms .pages = true ∧
    Value.page.conforms .anyPages = true ∧
    (∃ c d : Class, c.toClassDecl = .card .pages ∧ d.toClassDecl = .card .anyPages ∧
      c.Loosens d ∧ Eval.Ends (Eval.checkActuals c [.page] .unknown) {} (.ok ()) {} ∧
      Eval.Ends (Eval.checkActuals d [.page] .unknown) {} (.ok ()) {}) ∧
    Registry.build (Module.indexed .pages) (fun _ => "") =
      .ok (ofModule (Module.indexed .pages)) ∧
    (Module.indexed .pages).Loosens (Module.indexed .anyPages) ∧
    (∃ o o', (ofModule (Module.indexed .pages)).instantiate 8 "Index" [.page] = some (.ok o) ∧
      (ofModule (Module.indexed .anyPages)).instantiate 8 "Index" [.page] = some (.ok o') ∧
      o'.mapClass Class.untyped = o.mapClass Class.untyped) ∧
    ∃ f f', (ofModule (Module.indexed .anyPages)).instantiate 8 "Index" [.string "a"] =
        some (.error f') ∧ f'.cause.isMismatch = true ∧
      (ofModule (Module.indexed .pages)).instantiate 8 "Index" [.string "a"] = some (.error f) ∧
      f.cause.isMismatch = true := by
  obtain ⟨htypes, hclasses, hmodules⟩ := Registry.loosening_rejects_nothing
  have hloosens : Ty.pages.Loosens Ty.anyPages :=
    .map (.any _) (.list (.tuple (.cons (.any _) (.cons (.integers rfl rfl) .nil))))
  have hpage : Value.page.conforms .pages = true := by decide
  have hcards : Class.Loosens ⟨.card .pages, "index.mlir"⟩ ⟨.card .anyPages, "index.mlir"⟩ :=
    ⟨ClassDecl.card_loosens hloosens, rfl⟩
  have hbuild : Registry.build (Module.indexed .pages) (fun _ => "") =
      .ok (ofModule (Module.indexed .pages)) := rfl
  have hindexed := Module.indexed_loosens hloosens
  obtain ⟨r', hr', hcalls⟩ := hmodules _ _ _ (fun _ => "") _ hbuild hindexed
  obtain ⟨-, rfl⟩ := Registry.build_eq_ok_iff.1 hr'
  refine ⟨hloosens, hpage, htypes _ _ hloosens _ hpage, ?_, hbuild, hindexed, ?_, ?_⟩
  · exact ⟨_, _, rfl, rfl, hcards, rfl, (hclasses _ _ hcards [.page] .unknown {} {}).1 rfl⟩
  · obtain ⟨o', ho', hsame⟩ := (hcalls 8 "Index" [.page]).1 _ rfl
    exact ⟨_, o', rfl, ho', hsame⟩
  · obtain ⟨f, hf, hmismatch⟩ := (hcalls 8 "Index" [.string "a"]).2 _ rfl rfl
    exact ⟨f, _, rfl, rfl, hf, hmismatch⟩

end ObjectModel
