/-
**Declared types of fields.**

A field is declared with a type, and neither the check nor evaluation compares its value with it.
The value has the type if the text of the module shows it: a parameter has values of its own type,
a constant is what it is written as, and a list, a tuple, a map or an object is what it is made
of.  A module whose declarations can all be read off in this way makes only objects whose fields
have their declared types; without that they may have others.

Main definitions:

* `Module.Types`, `Module.ActionTypes` — the text shows that a name or an action has values of a
  type;
* `Module.FieldsTyped` — it shows that all fields have values of their types;
* `Object.FieldsConform` — the fields of an object have values of their types.

Main results:

* `Meaning.gives_object_typed`, `Meaning.gives_operation_typed` — what is made of values of the
  types that the text shows;
* `Meaning.gives_upTo_typed` — names have values of the types that the text shows;
* `Registry.fields_conform` — so have the fields of all objects that a call makes;
* `Registry.fields_need_not_conform` — an object whose field does not have its declared type.
-/

import ObjectModel.Proofs.Begun
import ObjectModel.Proofs.Conformance

set_option relaxedAutoImplicit false
set_option autoImplicit false

namespace ObjectModel

/-! ### What the text shows -/

mutual

/-- The text shows that a name, in the body of a class or outside of all classes, has values of a
type. -/
inductive Module.Types (m : Module) : Option ClassDecl → String → Ty → Prop where
  /-- All values are of the type of all values. -/
  | any {scope : Option ClassDecl} {x : String} : Types m scope x .any
  /-- A parameter has values of its own type. -/
  | param {c : ClassDecl} {p : Param} {x : String} {t : Ty} (hp : p ∈ c.params)
      (hname : p.name.name = x) (ht : p.ty.within t = true) : Types m (some c) x t
  /-- What the body of a class defines has the values of its operation. -/
  | inside {c : ClassDecl} {op : Operation} {x : String} {t : Ty} (hop : op ∈ c.body)
      (hdef : op.defines x = true) (haction : ActionTypes m (some c) op.action t) :
      Types m (some c) x t
  /-- What a class does not define is shared. -/
  | outside {c : ClassDecl} {x : String} {t : Ty} (hparam : x ∉ c.paramNames)
      (hbody : x ∉ definedNames c.body) (hshared : Types m none x t) : Types m (some c) x t
  /-- A shared name has the values of its operation. -/
  | shared {op : Operation} {x : String} {t : Ty} (hop : op ∈ m.operations)
      (hdef : op.defines x = true) (haction : ActionTypes m none op.action t) : Types m none x t

/-- The text shows that an action has values of a type. -/
inductive Module.ActionTypes (m : Module) : Option ClassDecl → Action → Ty → Prop where
  /-- A constant is what it is written as. -/
  | constant {scope : Option ClassDecl} {a : Attribute} {written t : Ty}
      (ha : a.conforms written t = true) : ActionTypes m scope (.constant a written) t
  /-- An object is of the class of which it is made. -/
  | object {scope : Option ClassDecl} {target : Ident} {actuals : List Ident}
      {operandTys : List Ty} {ty : Ty} :
      ActionTypes m scope (.object target actuals operandTys ty) (.object target.name)
  /-- A list is made of its elements, whatever type is written down for them. -/
  | listCreate {scope : Option ClassDecl} {elements : List Ident} {elementTy t : Ty}
      (helements : ∀ x ∈ elements, Types m scope x.name t) :
      ActionTypes m scope (.listCreate elements elementTy) (.list t)
  /-- So is a tuple. -/
  | tupleCreate {scope : Option ClassDecl} {elements : List Ident} {elementTys ts : List Ty}
      (hlen : elements.length = ts.length)
      (helements : ∀ p ∈ elements.zip ts, Types m scope p.1.name p.2) :
      ActionTypes m scope (.tupleCreate elements elementTys) (.tuple ts)
  /-- A map has keys of the kind that is written down, and the values of its pairs. -/
  | mapCreate {scope : Option ClassDecl} {entries : List Ident} {keyTy valueTy kt t : Ty}
      (hkeys : (KeyKind.ofTy? keyTy).all kt.acceptsKeys = true)
      (hentries : ∀ x ∈ entries, Types m scope x.name (.tuple [.any, t])) :
      ActionTypes m scope (.mapCreate entries keyTy valueTy) (.map kt t)

end

/-- The text shows that every field exposes values of the type that is written down for it. -/
def Module.FieldsTyped (m : Module) : Prop :=
  ∀ c ∈ m.classes, ∀ f ∈ c.fields, m.Types (some c) f.value.name f.ty

/-- Every field that the class declares has a value, and the value conforms to the type that is
written down for the field. -/
def Object.FieldsConform (o : Object) : Prop :=
  ∀ f ∈ o.cls.fields, ∃ v, o.field? f.name.name = some v ∧ v.conforms f.ty = true

/-! ### Values of the types that the text shows -/

/-- The class in whose body names are used. -/
def Scope.cls? (σ : Scope) : Option ClassDecl := σ.body.map fun p => p.1.toClassDecl

theorem Scope.exists_body_of_cls? {σ : Scope} {c : ClassDecl} (h : σ.cls? = some c) :
    ∃ d params, σ.body = some (d, params) ∧ d.toClassDecl = c := by
  obtain ⟨⟨d, params⟩, hbody, rfl⟩ := Option.map_eq_some_iff.1 h
  exact ⟨d, params, hbody, rfl⟩

/-- Parameters are bound to values of their types. -/
def Scope.BindsTyped (σ : Scope) : Prop :=
  ∀ c params, σ.body = some (c, params) →
    ∀ e ∈ params, ∃ p ∈ c.params, p.name.name = e.1 ∧ e.2.conforms p.ty = true

theorem Scope.bindsTyped_outside (σ : Scope) : σ.outside.BindsTyped :=
  fun _ _ h => by cases h

theorem Eval.mismatch?_eq_none_iff {c : Class} {loc : Location} {ps : List Param}
    {vs : List Value} {index : Nat} :
    mismatch? c loc index ps vs = none ↔ ∀ e ∈ ps.zip vs, e.2.conforms e.1.ty = true := by
  induction ps generalizing vs index with
  | nil => simp [mismatch?]
  | cons p ps ih =>
      cases vs with
      | nil => simp [mismatch?]
      | cons v vs =>
          rw [mismatch?, List.zip_cons_cons, List.forall_mem_cons]
          split
          · next hv => rw [ih, and_iff_right hv]
          · next hv => simp [hv]

/-- Values that fit the parameters of a class conform to their types. -/
theorem Eval.conforms_of_checkActuals {c : Class} {actuals : List Value} {loc : Location}
    {s t : EvalState} (h : Ends (checkActuals c actuals loc) s (.ok ()) t) :
    ∀ e ∈ c.params.zip actuals, e.2.conforms e.1.ty = true := by
  unfold checkActuals at h
  split at h
  · simp at h
  · split at h
    · simp at h
    · next hnone => exact Eval.mismatch?_eq_none_iff.1 hnone

/-- Where an object is made, parameters are bound to values of their types. -/
theorem Scope.bindsTyped_enter (σ : Scope) {c : Class} {actuals : List Value}
    (h : ∀ e ∈ c.params.zip actuals, e.2.conforms e.1.ty = true) :
    (σ.enter c actuals).BindsTyped := by
  intro c' params hbody e he
  cases hbody
  have hzip := Entries.mem_of_mem_ofList he
  rw [ClassDecl.paramNames, List.zip_map_left, List.mem_map] at hzip
  obtain ⟨e', he', rfl⟩ := hzip
  exact ⟨e'.1, (List.of_mem_zip he').1, rfl, h e' he'⟩

namespace Meaning

variable {m : Module} {maxDepth : Nat} {names : Names}

/-- The value has every type that the text shows for the name. -/
def HasTypes (m : Module) (scope : Option ClassDecl) (x : String) (v : Value) : Prop :=
  ∀ t, m.Types scope x t → v.conforms t = true

/-- Names have values of the types that the text shows, wherever parameters do. -/
def Names.Typed (m : Module) (names : Names) : Prop :=
  ∀ (σ : Scope), σ.Proper m → σ.BindsTyped → ∀ i x span,
    Gives (HasTypes m σ.cls? x) (names σ i x span)

theorem gives_operands_typed (hnames : names.Typed m) {σ : Scope} (hσ : σ.Proper m)
    (hbinds : σ.BindsTyped) (i : Nat) (xs : List Ident) :
    Gives (List.Forall₂ (fun x v => HasTypes m σ.cls? x.name v) xs) (operands names σ i xs) :=
  Gives.mapM fun x _ => hnames σ hσ hbinds i x.name x.span

/-- Values of the types that the text shows for the elements of a tuple conform to its type. -/
theorem eachConforms_of_hasTypes {scope : Option ClassDecl} {xs : List Ident} {vs : List Value}
    (h : List.Forall₂ (fun x v => HasTypes m scope x.name v) xs vs) {ts : List Ty}
    (hlen : xs.length = ts.length) (ht : ∀ p ∈ xs.zip ts, m.Types scope p.1.name p.2) :
    Value.eachConforms vs ts = true := by
  induction h generalizing ts with
  | nil =>
      obtain rfl : ts = [] := List.length_eq_zero_iff.1 hlen.symm
      rfl
  | cons hv _ ih =>
      cases ts with
      | nil => cases hlen
      | cons t ts =>
          rw [List.zip_cons_cons, List.forall_mem_cons] at ht
          rw [Value.eachConforms, Bool.and_eq_true]
          exact ⟨hv t ht.1, ih (Nat.succ.inj hlen) ht.2⟩

/-- An object that is made of values of the types of its fields has them in its fields. -/
theorem fieldsConform_ofList {c : Class} (hnd : (c.fields.map fun f => f.name.name).Nodup)
    {es : List (String × Value)}
    (h : List.Forall₂ (fun f e => e.1 = f.name.name ∧ e.2.conforms f.ty = true) c.fields es) :
    Object.FieldsConform ⟨c, Entries.ofList es⟩ := by
  intro f hf
  have hkey : f.name.name ∈ Entries.keys (Entries.ofList es) := by
    rw [Entries.mem_keys_ofList, keys_of_forall₂ (R := fun f v => v.conforms f.ty = true) h]
    exact List.mem_map.2 ⟨f, hf, rfl⟩
  obtain ⟨v, hv⟩ := Option.isSome_iff_exists.1 (Entries.isSome_lookup_iff.2 hkey)
  refine ⟨v, hv, ?_⟩
  obtain ⟨before, after, hsplit, -⟩ := List.lookup_eq_some_iff.1 hv
  have hmem : (f.name.name, v) ∈ es := Entries.mem_of_mem_ofList (by simp [hsplit])
  obtain ⟨f', hf', hname, hconforms⟩ := h.exists_left hmem
  -- no two fields have one name
  obtain rfl : f = f' := List.inj_on_of_nodup_map hnd hf hf' hname
  exact hconforms

/-- An object is of the class that was asked for, and its fields have the types that are written
down for them. -/
theorem gives_object_typed (hm : m.WellFormed) (htyped : m.FieldsTyped) (hnames : names.Typed m)
    (σ : Scope) (name : String) (actuals : List Value) (site : Option Location) :
    Gives (fun o => o.cls.name.name = name ∧ o.FieldsConform)
      (object (.ofModule m) maxDepth names σ name actuals site) := by
  unfold Meaning.object
  split
  · exact Gives.throw _
  next c hc =>
  split
  · exact Gives.throw _
  obtain ⟨hmem, hname⟩ := Registry.mem_of_class? hc
  intro o ho
  rcases run_bind_eq_some_iff.1 ho with ⟨e, -, he⟩ | ⟨_, hcheck, ho⟩
  · cases he
  obtain ⟨t, hends⟩ := run_ofEval_eq_some_iff.1 hcheck
  have hproper : (σ.enter c actuals).Proper m :=
    Scope.Proper.enter σ hmem (length_params_eq_of_run hcheck)
  have hbinds : (σ.enter c actuals).BindsTyped :=
    σ.bindsTyped_enter (Eval.conforms_of_checkActuals hends)
  have hfields : Gives _ (fieldValues names (σ.enter c actuals) c) :=
    gives_fieldValues (R := fun f v => v.conforms f.ty = true) fun p hp => by
      have hp : p.2 ∈ c.fields := by
        rw [← c.map_placedFields]
        exact List.mem_map.2 ⟨p, hp, rfl⟩
      exact (hnames _ hproper hbinds p.1 p.2.value.name p.2.span).mono fun v hv =>
        hv p.2.ty (htyped _ hmem p.2 hp)
  refine hfields.bind (R := fun o => o.cls.name.name = name ∧ o.FieldsConform) ?_ o ho
  exact fun es hes => Gives.pure ⟨hname, fieldsConform_ofList (hm.classes _ hmem).nodup_fields hes⟩

/-- An operation has values of the types that the text shows for its action. -/
theorem gives_operation_typed (hm : m.WellFormed) (htyped : m.FieldsTyped)
    (hnames : names.Typed m) {σ : Scope} (hσ : σ.Proper m) (hbinds : σ.BindsTyped) (i : Nat)
    {op : Operation} {t : Ty} (ht : m.ActionTypes σ.cls? op.action t) :
    Gives (fun v => v.conforms t = true) (operation (.ofModule m) maxDepth names σ i op) := by
  have hoperands := gives_operands_typed hnames hσ hbinds i
  unfold Meaning.operation
  generalize op.action = action at ht
  cases ht with
  | constant ha => exact Gives.ofEval (Eval.gives_constant_conforms _ _ _ ha)
  | @object _ target actuals operandTys ty =>
      refine (hoperands actuals).bind fun vs _ => ?_
      refine (gives_object_typed hm htyped hnames σ target.name vs _).bind fun o ho => ?_
      exact Gives.pure (by simp [Object.toValue, Value.conforms, ho.1])
  | @listCreate _ elements elementTy t helements =>
      refine (hoperands elements).bind fun vs hvs => Gives.pure ?_
      exact Value.conforms_list_iff.2 ⟨_, vs, rfl,
        hvs.forall_mem_right fun x hx v hv => hv t (helements x hx)⟩
  | @tupleCreate _ elements elementTys ts hlen helements =>
      refine (hoperands elements).bind fun vs hvs => Gives.pure ?_
      exact Value.conforms_tuple_iff.2 ⟨vs, rfl, eachConforms_of_hasTypes hvs hlen helements⟩
  | @mapCreate _ entries keyTy valueTy kt t hkeys hentries =>
      refine (hoperands entries).bind fun vs hvs => Gives.ofEval ?_
      exact Eval.gives_buildMap_conforms hkeys
        (hvs.forall_mem_right fun x hx v hv => hv _ (hentries x hx))

/-- A name that stands for a shared value has values of the types that the text shows outside of
all classes. -/
theorem gives_shared_typed (hm : m.WellFormed) (htyped : m.FieldsTyped) (hnames : names.Typed m)
    {σ : Scope} {x : String} {t : Ty} (ht : m.Types none x t) {d : Definition}
    (hd : shared? (.ofModule m) σ x = some d) :
    Gives (fun v => v.conforms t = true) (value (.ofModule m) maxDepth names d) := by
  cases ht with
  | any => exact fun v _ => v.conforms_any
  | shared hop hdef haction =>
      obtain rfl := Option.some.inj ((shared?_of_mem hm hop hdef σ).symm.trans hd)
      exact gives_operation_typed hm htyped hnames (Scope.proper_outside m σ.depth)
        σ.bindsTyped_outside 0 haction

/-- What a name stands for has values of the types that the text shows for the name. -/
theorem gives_value_typed (hm : m.WellFormed) (htyped : m.FieldsTyped) (hnames : names.Typed m)
    {σ : Scope} (hσ : σ.Proper m) (hbinds : σ.BindsTyped) {i : Nat} {x : String} {d : Definition}
    (hd : definition? (.ofModule m) .whole σ i x = some d) :
    Gives (HasTypes m σ.cls? x) (value (.ofModule m) maxDepth names d) := by
  intro v hv t ht
  generalize hscope : σ.cls? = scope at ht
  cases ht with
  | any => exact v.conforms_any
  | @param c p x t hp hname ht =>
      obtain ⟨c, params, hbody, rfl⟩ := Scope.exists_body_of_cls? hscope
      obtain ⟨w, hw, hbound⟩ :=
        definition?_of_param hσ hbody (List.mem_map.2 ⟨p, hp, hname⟩) i
      obtain rfl := Option.some.inj (hbound.symm.trans hd)
      obtain rfl : w = v := by simpa [value] using hv
      -- no two parameters have one name
      obtain ⟨p', hp', hname', hconforms⟩ := hbinds c params hbody _ hw
      have hnd := (hm.classes _ (hσ c params hbody).1).nodup_values
      obtain rfl : p' = p := List.inj_on_of_nodup_map (List.nodup_append'.1 hnd).1 hp' hp
        (hname'.trans hname.symm)
      exact Value.conforms_of_within ht hconforms
  | inside hop hdef haction =>
      obtain ⟨c, params, hbody, rfl⟩ := Scope.exists_body_of_cls? hscope
      obtain ⟨j, hcomputed⟩ := definition?_of_body hm hσ hbody hop hdef i
      obtain rfl := Option.some.inj (hcomputed.symm.trans hd)
      exact gives_operation_typed hm htyped hnames hσ hbinds j (hscope ▸ haction) v hv
  | outside hparam hbody' hshared =>
      obtain ⟨c, params, hbody, rfl⟩ := Scope.exists_body_of_cls? hscope
      rw [definition?_of_outside hσ hbody hparam hbody'] at hd
      exact gives_shared_typed hm htyped hnames hshared hd v hv
  | shared hop hdef haction =>
      have hbody : σ.body = none := Option.map_eq_none_iff.1 hscope
      rw [definition?, hbody] at hd
      exact gives_shared_typed hm htyped hnames (.shared hop hdef haction) hd v hv

/-- Names have values of the types that the text shows, however deep operations ask for
operands. -/
theorem gives_upTo_typed (hm : m.WellFormed) (htyped : m.FieldsTyped) (n : Nat) :
    (upTo (.ofModule m) maxDepth .whole n).Typed m := by
  induction n with
  | zero =>
      intro σ _ _ i x span v h
      cases h
  | succ n ih =>
      intro σ hσ hbinds i x span
      rw [upTo_succ]
      cases hd : definition? (.ofModule m) .whole σ i x with
      | none => exact Gives.throw _
      | some d => exact gives_value_typed hm htyped ih hσ hbinds hd

end Meaning

/-! ### The call -/

namespace Registry

/-- What the text gives names makes objects whose fields have their declared types. -/
theorem fieldsConform_of_meaning {m : Module} (hm : m.WellFormed) (htyped : m.FieldsTyped)
    {maxDepth k : Nat} {σ : Scope} {target : String} {vs : List Value} {site : Option Location}
    {o : Object} (h : (Meaning.object (ofModule m) maxDepth
      (Meaning.upTo (ofModule m) maxDepth .whole k) σ target vs site).run = some (.ok o)) :
    o.FieldsConform :=
  (Meaning.gives_object_typed hm htyped (Meaning.gives_upTo_typed hm htyped k) σ target vs site
    o h).2

/-- So does whatever object a call begins to make. -/
theorem Begun.fieldsConform {m : Module} (hm : m.WellFormed) (htyped : m.FieldsTyped)
    {maxDepth : Nat} {name target : String} {actuals vs : List Value} {site : Option Location}
    {s : EvalState}
    (hbegun : (ofModule m).Begun maxDepth name actuals (.object target vs site) s) {n : Nat}
    {o : Object} {t : EvalState}
    (hends : Eval.Ends (Eval.instantiate (ofModule m) maxDepth
      (Eval.resolveUpTo (ofModule m) maxDepth n) target vs site) s (.ok o) t) :
    o.FieldsConform := by
  obtain ⟨σ, -, -, hmeant⟩ := hbegun.meant hm.no_objects
  obtain ⟨k, hk⟩ := (hmeant _).1 ⟨n, t, hends⟩
  exact fieldsConform_of_meaning hm htyped hk

/-- **Fields have their declared types where the text shows it.**  When the text of an accepted
module shows the types of all fields, the fields of every object that a call returns or makes on
its way have values that conform to the types written down for them.  All objects that the journal
of the call tells of are among these. -/
theorem fields_conform {m : Module} {quote : Nat → String} {r : Registry}
    (hbuild : Registry.build m quote = .ok r) (htyped : m.FieldsTyped) {maxDepth : Nat}
    {name : String} {actuals : List Value} :
    (∀ o, r.instantiate maxDepth name actuals = some (.ok o) → o.FieldsConform) ∧
    (∀ target vs site s, r.Begun maxDepth name actuals (.object target vs site) s →
      ∀ n o t, Eval.Ends (Eval.instantiate r maxDepth (Eval.resolveUpTo r maxDepth n) target vs
        site) s (.ok o) t → o.FieldsConform) ∧
    ∀ res journal, r.run maxDepth name actuals = some (res, journal) →
      ∀ target k depth, .instantiating target k depth ∈ journal →
        ∃ vs site s, r.Begun maxDepth name actuals (.object target vs site) s ∧ vs.length = k ∧
          s.frames.length = depth ∧
          ∀ n o t, Eval.Ends (Eval.instantiate r maxDepth (Eval.resolveUpTo r maxDepth n) target vs
            site) s (.ok o) t → o.FieldsConform := by
  obtain ⟨hm, rfl⟩ := Registry.build_eq_ok_iff.1 hbuild
  refine ⟨fun o ho => ?_, fun _ _ _ _ hbegun _ _ _ => hbegun.fieldsConform hm htyped, ?_⟩
  · obtain ⟨res, ⟨k, hk⟩, hres⟩ := Registry.yields_of_instantiate hm.no_objects ho
    cases res with
    | error e => cases hres
    | ok o' =>
        cases hres
        exact fieldsConform_of_meaning hm htyped hk
  · intro res journal hrun target k depth htold
    obtain ⟨vs, site, s, hbegun, hlength, hdepth⟩ := exists_begun_of_instantiating hrun htold
    exact ⟨vs, site, s, hbegun, hlength, hdepth, fun _ _ _ => hbegun.fieldsConform hm htyped⟩

end Registry

/-- A crate with one box twice in a list that is written down as one of anything.  The boxes have
the label of the crate. -/
def Module.crated : Module where
  file := "crate.mlir"
  span := default
  items := [
    .ofOperation ⟨some ⟨"size", default⟩, .constant (.integer 1) (.bits 8), default⟩,
    .ofClass {
      name := ⟨"Box", default⟩
      params := [⟨⟨"label", default⟩, .string, default⟩, ⟨⟨"width", default⟩, .bits 8, default⟩]
      body := [
        ⟨none, .field ⟨"label", default⟩ ⟨"label", default⟩ .string, default⟩,
        ⟨none, .field ⟨"width", default⟩ ⟨"width", default⟩ .integer, default⟩,
        ⟨none, .field ⟨"size", default⟩ ⟨"size", default⟩ .integer, default⟩]
      span := default },
    .ofClass {
      name := ⟨"Crate", default⟩
      params := [⟨⟨"label", default⟩, .string, default⟩]
      body := [
        ⟨some ⟨"width", default⟩, .constant (.integer 2) (.bits 8), default⟩,
        ⟨some ⟨"box", default⟩, .object ⟨"Box", default⟩ [⟨"label", default⟩, ⟨"width", default⟩]
          [.string, .bits 8] (.object "Box"), default⟩,
        ⟨some ⟨"boxes", default⟩, .listCreate [⟨"box", default⟩, ⟨"box", default⟩] .any, default⟩,
        ⟨none, .field ⟨"boxes", default⟩ ⟨"boxes", default⟩ (.list (.object "Box")), default⟩]
      span := default }]

theorem Module.fieldsTyped_crated : Module.crated.FieldsTyped := by
  refine List.forall_mem_cons.2 ⟨?box, List.forall_mem_cons.2 ⟨?crate, by simp⟩⟩
  case box =>
    refine List.forall_mem_cons.2 ⟨.param List.mem_cons_self rfl rfl, ?_⟩
    refine List.forall_mem_cons.2 ⟨.param (List.mem_cons_of_mem _ List.mem_cons_self) rfl rfl, ?_⟩
    refine List.forall_mem_cons.2 ⟨.outside (by decide) (by decide) ?_, by simp⟩
    exact .shared List.mem_cons_self rfl (.constant rfl)
  case crate =>
    refine List.forall_mem_cons.2 ⟨.inside (List.mem_of_getElem? (i := 2) rfl) rfl ?_, by simp⟩
    refine .listCreate fun x hx => ?_
    obtain rfl : x = ⟨"box", default⟩ := by simpa using hx
    exact .inside (List.mem_of_getElem? (i := 1) rfl) rfl .object

/-- The fields of a crate and of the box that is made for it have their declared types. -/
theorem Registry.fields_conform_crated :
    Registry.build Module.crated (fun _ => "") = .ok (ofModule Module.crated) ∧
    Module.crated.FieldsTyped ∧
    (∃ o, (ofModule Module.crated).instantiate 8 "Crate" [.string "tea"] = some (.ok o) ∧
      o.FieldsConform) ∧
    ∃ vs site s n o t,
      (ofModule Module.crated).Begun 8 "Crate" [.string "tea"] (.object "Box" vs site) s ∧
      Eval.Ends (Eval.instantiate (ofModule Module.crated) 8
        (Eval.resolveUpTo (ofModule Module.crated) 8 n) "Box" vs site) s (.ok o) t ∧
      o.FieldsConform ∧ o.field? "width" = some (.integer 2) := by
  have hbuild : Registry.build Module.crated (fun _ => "") = .ok (ofModule Module.crated) := rfl
  have hcrate : (ofModule Module.crated).instantiate 8 "Crate" [.string "tea"] = some (.ok _) :=
    rfl
  obtain ⟨hreturned, hmade, -⟩ := @Registry.fields_conform Module.crated _ _ hbuild
    Module.fieldsTyped_crated 8 "Crate" [.string "tea"]
  have hfield := @Eval.Begins.field (ofModule Module.crated) 8 "Crate" [.string "tea"] none _
    [] [] ⟨⟨"boxes", default⟩, ⟨"boxes", default⟩, .list (.object "Box"), default⟩ 3 _ {} _ _
    rfl (by decide) rfl rfl rfl
  -- the list asks for the box, and the operation of the box makes it
  have hlist := Relation.ReflTransGen.tail (.single hfield) (Eval.Begins.inside rfl rfl)
  have hbox := (hlist.tail (@Eval.Begins.operand _ 8 _ _ [] [⟨"box", default⟩] ⟨"box", default⟩ 3
    _ _ _ rfl rfl rfl)).tail (Eval.Begins.inside rfl rfl)
  have hbegun : (ofModule Module.crated).Begun 8 "Crate" [.string "tea"] _ _ :=
    hbox.tail (@Eval.Begins.nested _ 8 _ _ ⟨"Box", default⟩
      [⟨"label", default⟩, ⟨"width", default⟩] [.string, .bits 8] (.object "Box") 3 _ _ _ rfl rfl)
  exact ⟨hbuild, Module.fieldsTyped_crated, ⟨_, hcrate, hreturned _ hcrate⟩,
    _, _, _, 3, _, _, hbegun, rfl, hmade _ _ _ _ hbegun 3 _ _ rfl, rfl⟩

/-- A box that declares a size and exposes its label there. -/
def Module.missized : Module where
  file := "box.mlir"
  span := default
  items := [
    .ofClass {
      name := ⟨"Box", default⟩
      params := [⟨⟨"label", default⟩, .string, default⟩]
      body := [⟨none, .field ⟨"size", default⟩ ⟨"label", default⟩ .integer, default⟩]
      span := default }]

/-- The check accepts the box, a call makes it, and its size is a text. -/
theorem Registry.fields_need_not_conform :
    Registry.build Module.missized (fun _ => "") = .ok (ofModule Module.missized) ∧
    ∃ o, (ofModule Module.missized).instantiate 8 "Box" [.string "wide"] = some (.ok o) ∧
      o.field? "size" = some (.string "wide") ∧ ¬o.FieldsConform := by
  refine ⟨rfl, _, rfl, rfl, fun h => ?_⟩
  obtain ⟨v, hv, hconforms⟩ := h _ List.mem_cons_self
  obtain rfl : Value.string "wide" = v := Option.some.inj hv
  cases hconforms

end ObjectModel
