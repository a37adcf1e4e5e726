/-
**Names in the scopes of a well-formed module.**

In a well-formed module every operand of every operation has a definition in each scope in which
the operation may be evaluated, and that definition is again an operation of the module.  Nothing
else about the check is used when names are followed through an evaluation.

Main definitions:

* `Scoping.Lawful` — a rule for finding definitions that finds operations of the body, and finds
  at least those before the use;
* `Scope.Proper`, `Scope.Holds` — the scopes of a module, and the operations that stand in them.

Main results:

* `Meaning.exists_definition?` — operands have definitions;
* `Meaning.holds_of_definition?` — definitions are operations of the scope or shared ones;
* `Meaning.definition?_of_param`, `Meaning.definition?_of_body`, `Meaning.definition?_of_outside` —
  what a name stands for in a class, where no two of its definitions have one name;
* `Scope.Proper.enter` — the body of a class is a proper scope;
* `Module.WellFormed.exists_class`, `Registry.makes_of_class?` — objects are made of classes that
  exist, and which these are.
-/

import ObjectModel.Proofs.Check
import ObjectModel.Proofs.Meaning

set_option relaxedAutoImplicit false
set_option autoImplicit false

namespace ObjectModel

/-! ### Parameters -/

theorem Entries.isSome_lookup_iff {κ α : Type} [DecidableEq κ] {es : List (κ × α)} {k : κ} :
    (es.lookup k).isSome = true ↔ k ∈ keys es := by
  rw [List.lookup_isSome_iff, keys, List.mem_map]
  simp only [beq_iff_eq]
  exact exists_congr fun e => and_congr_right fun _ => eq_comm

theorem Entries.mem_keys_ofList {κ α : Type} [DecidableEq κ] {es : List (κ × α)} {k : κ} :
    k ∈ keys (ofList es) ↔ k ∈ keys es := by
  rw [keys_ofList, List.mem_eraseDups]

/-- When there is a value for each parameter, all parameters are bound. -/
theorem ClassDecl.exists_bind {c : ClassDecl} {actuals : List Value}
    (hlen : c.params.length = actuals.length) {x : String} (hx : x ∈ c.paramNames) :
    ∃ v, (c.bind actuals).lookup x = some v := by
  have hkeys : Entries.keys (c.paramNames.zip actuals) = c.paramNames :=
    List.map_fst_zip (Nat.le_of_eq (by rw [ClassDecl.paramNames, List.length_map, hlen]))
  rw [← Option.isSome_iff_exists, Entries.isSome_lookup_iff, ClassDecl.bind,
    Entries.mem_keys_ofList, hkeys]
  exact hx

/-- Nothing else is bound. -/
theorem ClassDecl.mem_paramNames_of_bind {c : ClassDecl} {actuals : List Value} {x : String}
    {v : Value} (h : (c.bind actuals).lookup x = some v) : x ∈ c.paramNames := by
  have hx : x ∈ Entries.keys (c.paramNames.zip actuals) := by
    rw [← Entries.mem_keys_ofList, ← Entries.isSome_lookup_iff]
    exact Option.isSome_iff_exists.2 ⟨v, h⟩
  obtain ⟨p, hp, rfl⟩ := List.mem_map.1 hx
  exact (List.of_mem_zip hp).1

/-! ### Classes -/

/-- The classes of a registry are those of its module. -/
theorem Registry.mem_of_class? {m : Module} {name : String} {c : Class}
    (h : (ofModule m).class? name = some c) :
    c.toClassDecl ∈ m.classes ∧ c.name.name = name := by
  obtain ⟨d, hd, rfl⟩ := List.mem_map.1 (List.mem_of_find?_eq_some h)
  exact ⟨hd, by simpa using List.find?_some h⟩

theorem Registry.class?_eq_none_iff {m : Module} {name : String} :
    (ofModule m).class? name = none ↔ ∀ c ∈ m.classes, c.name.name ≠ name := by
  simp [Registry.class?, ofModule]

/-- The class of an object in the body of another class is one that this class makes objects of. -/
theorem Registry.makes_of_class? {m : Module} {c : ClassDecl} (hc : c ∈ m.classes)
    {op : Operation} (hop : op ∈ c.body) {target : Ident}
    (htarget : op.action.target? = some target) {d : Class}
    (hd : (ofModule m).class? target.name = some d) :
    d.toClassDecl ∈ m.classes ∧ m.Makes c.name.name d.name.name := by
  obtain ⟨hmem, hname⟩ := Registry.mem_of_class? hd
  exact ⟨hmem, c, hc, rfl, target, ClassDecl.mem_targets.2 ⟨op, hop, htarget⟩, hname.symm⟩

/-- With distinct names, a class is found by its name. -/
theorem Module.WellFormed.eq_of_name {m : Module} (hm : m.WellFormed) {c d : ClassDecl}
    (hc : c ∈ m.classes) (hd : d ∈ m.classes) (h : c.name.name = d.name.name) : c = d :=
  List.inj_on_of_nodup_map hm.nodup_classNames hc hd h

/-- An object in the body of a class is made of a class that exists and is given as many values as
that class has parameters. -/
theorem Module.WellFormed.exists_class {m : Module} (hm : m.WellFormed) {c : ClassDecl}
    (hc : c ∈ m.classes) {op : Operation} (hop : op ∈ c.body) {target : Ident}
    {actuals : List Ident} {operandTys : List Ty} {ty : Ty}
    (hact : op.action = .object target actuals operandTys ty) :
    ∃ d : Class, (Registry.ofModule m).class? target.name = some d ∧
      d.params.length = actuals.length := by
  obtain ⟨d, hd, hname, hlen⟩ := (hm.classes c hc).objects op hop _ _ _ _ hact
  cases hcls : (Registry.ofModule m).class? target.name with
  | none => exact absurd hname (Registry.class?_eq_none_iff.1 hcls d hd)
  | some e =>
      obtain ⟨he, hename⟩ := Registry.mem_of_class? hcls
      refine ⟨e, rfl, ?_⟩
      rw [hm.eq_of_name he hd (hename.trans hname.symm)]
      exact hlen

/-! ### Scopes -/

/-- A rule for finding definitions in a body: it finds operations of the body that define the name,
and it finds one if there is one before the use. -/
structure Scoping.Lawful (find : Scoping) : Prop where
  /-- What is found is an operation of the body that defines the name. -/
  found : ∀ {body i name j op}, find body i name = some (j, op) →
    body[j]? = some op ∧ op.defines name = true
  /-- Something is found if the name is defined before the use. -/
  finds : ∀ {body i name}, name ∈ definedNames (body.take i) → (find body i name).isSome = true

theorem isSome_locate_iff {name : String} {ops : List Operation} :
    (locate name ops).isSome = true ↔ name ∈ definedNames ops := by
  rw [Option.isSome_iff_ne_none, ne_eq, locate_eq_none_iff, mem_definedNames]
  simp

theorem Scoping.lawful_whole : Scoping.whole.Lawful where
  found h := locate_eq_some h
  finds h := by
    refine isSome_locate_iff.2 ?_
    obtain ⟨op, hop, hdef⟩ := mem_definedNames.1 h
    exact mem_definedNames.2 ⟨op, List.mem_of_mem_take hop, hdef⟩

theorem Scoping.lawful_text : Scoping.text.Lawful where
  found {body i name j op} h := by
    obtain ⟨hj, hdef⟩ := locate_eq_some h
    rw [List.getElem?_take] at hj
    split at hj
    · exact ⟨hj, hdef⟩
    · cases hj
  finds h := isSome_locate_iff.2 h

/-- A scope of the module: its class is one of the module, and exactly the parameters of the class
are bound. -/
def Scope.Proper (m : Module) (σ : Scope) : Prop :=
  ∀ c params, σ.body = some (c, params) →
    c.toClassDecl ∈ m.classes ∧ ∀ x, x ∈ c.paramNames ↔ ∃ v, params.lookup x = some v

/-- The operation stands at the position `i` of the scope.  Outside of classes positions do not
count. -/
def Scope.Holds (m : Module) (σ : Scope) (i : Nat) (op : Operation) : Prop :=
  match σ.body with
  | some (c, _) => c.body[i]? = some op
  | none => op ∈ m.operations

theorem Scope.proper_outside (m : Module) (d : Nat) : Scope.Proper m ⟨d, none⟩ := by
  intro c params h
  cases h

/-- The body of a class is a proper scope when there is a value for each parameter. -/
theorem Scope.Proper.enter {m : Module} (σ : Scope) {c : Class} {actuals : List Value}
    (hc : c.toClassDecl ∈ m.classes) (hlen : c.params.length = actuals.length) :
    (σ.enter c actuals).Proper m := by
  rintro c' params h
  obtain ⟨rfl, rfl⟩ : c = c' ∧ c.bind actuals = params := by simpa [Scope.enter] using h
  refine ⟨hc, fun x => ⟨ClassDecl.exists_bind hlen, ?_⟩⟩
  rintro ⟨v, hv⟩
  exact ClassDecl.mem_paramNames_of_bind hv

theorem Operation.mem_operands_of_field? {op : Operation} {f : Field} (h : op.field? = some f) :
    f.value ∈ op.action.operands := by
  cases hact : op.action <;> simp [Operation.field?, hact] at h
  rw [← h]
  simp [Action.operands]

/-- A field exposes an operand of the operation that declares it. -/
theorem ClassDecl.exists_operand_of_placed {c : ClassDecl} {i : Nat} {f : Field}
    (h : (i, f) ∈ c.placedFields) :
    ∃ op, c.body[i]? = some op ∧ f.value ∈ op.action.operands := by
  obtain ⟨op, hop, hfield⟩ := ClassDecl.getElem?_of_mem_placedFields h
  exact ⟨op, hop, Operation.mem_operands_of_field? hfield⟩

theorem ClassDecl.exists_operand_of_mem_fields {c : ClassDecl} {f : Field} (h : f ∈ c.fields) :
    ∃ i op, c.body[i]? = some op ∧ i < c.body.length ∧ f.value ∈ op.action.operands := by
  rw [← c.map_placedFields] at h
  obtain ⟨⟨i, f'⟩, hp, rfl⟩ := List.mem_map.1 h
  obtain ⟨op, hop, hx⟩ := ClassDecl.exists_operand_of_placed hp
  exact ⟨i, op, hop, (List.getElem?_eq_some_iff.1 hop).1, hx⟩

/-- In a scope what is no parameter is not bound. -/
theorem Scope.Proper.unbound {m : Module} {σ : Scope} (hσ : σ.Proper m) {c : Class}
    {params : List (String × Value)} (hbody : σ.body = some (c, params)) {x : String}
    (hx : x ∉ c.paramNames) : params.lookup x = none := by
  rw [← Option.not_isSome_iff_eq_none, Option.isSome_iff_exists, ← (hσ c params hbody).2]
  exact hx

/-- In a scope only the operations of a class make objects. -/
theorem Scope.Holds.in_class {m : Module} (hm : m.WellFormed) {σ : Scope} {i : Nat}
    {op : Operation} (hop : σ.Holds m i op) {t : Ident} (ht : op.action.target? = some t) :
    ∃ c params, σ.body = some (c, params) ∧ c.body[i]? = some op := by
  rw [Scope.Holds] at hop
  cases hbody : σ.body with
  | none =>
      rw [hbody] at hop
      rw [hm.no_objects op hop] at ht
      cases ht
  | some p =>
      rw [hbody] at hop
      exact ⟨p.1, p.2, rfl, hop⟩

/-! ### Definitions -/

/-- With distinct names, an operation that defines a name is the one that is found. -/
theorem find?_defines {ops : List Operation} (hnd : (definedNames ops).Nodup) {op : Operation}
    (hop : op ∈ ops) {x : String} (hdef : op.defines x = true) :
    ops.find? (fun op => op.defines x) = some op := by
  induction ops with
  | nil => cases hop
  | cons op' ops ih =>
      rw [definedNames_cons] at hnd
      rcases List.mem_cons.1 hop with rfl | hop
      · exact List.find?_cons_of_pos hdef
      · have hnot : ¬op'.defines x = true := fun hdef' =>
          List.disjoint_of_nodup_append hnd (Operation.mem_resultNames.2 hdef')
            (mem_definedNames.2 ⟨op, hop, hdef⟩)
        rw [List.find?_cons, Bool.eq_false_iff.2 hnot]
        exact ih (List.nodup_append'.1 hnd).2.1 hop

namespace Meaning

variable {m : Module} {find : Scoping} {σ : Scope} {i : Nat} {op : Operation}

/-- A shared value has an operation. -/
theorem exists_shared? {x : String} (hx : x ∈ definedNames m.operations) (σ : Scope) :
    ∃ d, shared? (Registry.ofModule m) σ x = some d := by
  obtain ⟨op, hop, hdef⟩ := mem_definedNames.1 hx
  have hsome : ((Registry.ofModule m).value? x).isSome = true :=
    List.find?_isSome.2 ⟨op, hop, hdef⟩
  obtain ⟨op', hop'⟩ := Option.isSome_iff_exists.1 hsome
  exact ⟨_, by rw [shared?, hop', Option.map_some]⟩

/-- **Operands have definitions**: whatever an operation uses is bound, defined in the body of the
class, or shared. -/
theorem exists_definition? (hm : m.WellFormed) (hfind : find.Lawful) (hσ : σ.Proper m)
    (hop : σ.Holds m i op) {x : Ident} (hx : x ∈ op.action.operands) :
    ∃ d, definition? (Registry.ofModule m) find σ i x.name = some d := by
  rw [Scope.Holds] at hop
  rw [definition?]
  cases hbody : σ.body with
  | none =>
      rw [hbody] at hop
      obtain ⟨j, hj⟩ := List.mem_iff_getElem?.1 hop
      rcases hm.usesEarlier j op hj x hx with hfalse | hdef
      · exact absurd hfalse id
      · obtain ⟨op', hop', hd⟩ := mem_definedNames.1 hdef
        exact exists_shared? (mem_definedNames.2 ⟨op', List.mem_of_mem_take hop', hd⟩) σ
  | some p =>
      obtain ⟨c, params⟩ := p
      rw [hbody] at hop
      obtain ⟨hc, hparams⟩ := hσ c params hbody
      dsimp only
      cases hp : params.lookup x.name with
      | some v => exact ⟨_, rfl⟩
      | none =>
          cases hf : find c.body i x.name with
          | some q => exact ⟨_, rfl⟩
          | none =>
              -- the check saw a parameter, a shared value, or an operation before the use
              rcases (hm.classes _ hc).usesEarlier i op hop x hx with (hpar | hshared) | hdef
              · obtain ⟨v, hv⟩ := (hparams x.name).1 hpar
                rw [hp] at hv
                cases hv
              · exact exists_shared? hshared σ
              · have hsome := hfind.finds hdef
                rw [hf] at hsome
                cases hsome

/-- In the body of a class a name stands for a value of a parameter, for the result of an operation
of the body, or for a shared value. -/
theorem definition?_inside (r : Registry) (hfind : find.Lawful) {c : Class}
    {params : List (String × Value)} (hbody : σ.body = some (c, params)) (i : Nat) (x : String) :
    (∃ v, definition? r find σ i x = some (.bound v)) ∨
      (∃ j op, definition? r find σ i x = some (.computed σ j op) ∧ c.body[j]? = some op ∧
        op.defines x = true) ∨
      definition? r find σ i x = shared? r σ x := by
  rw [definition?, hbody]
  dsimp only
  cases params.lookup x with
  | some v => exact .inl ⟨v, rfl⟩
  | none =>
      cases hf : find c.body i x with
      | none => exact .inr (.inr rfl)
      | some q =>
          obtain ⟨hj, hdef⟩ := hfind.found (show find c.body i x = some (q.1, q.2) from hf)
          exact .inr (.inl ⟨q.1, q.2, rfl, hj, hdef⟩)

/-- A definition that is computed is an operation of the scope or a shared one. -/
theorem holds_of_definition? (hfind : find.Lawful) {x : String} {τ : Scope} {j : Nat}
    (h : definition? (Registry.ofModule m) find σ i x = some (.computed τ j op)) :
    (τ = σ ∨ τ = σ.outside) ∧ τ.Holds m j op ∧ op.defines x = true := by
  have hshared : shared? (Registry.ofModule m) σ x = some (.computed τ j op) →
      (τ = σ ∨ τ = σ.outside) ∧ τ.Holds m j op ∧ op.defines x = true := by
    intro h
    obtain ⟨op', hop', he⟩ := Option.map_eq_some_iff.1 h
    obtain ⟨rfl, -, rfl⟩ : σ.outside = τ ∧ 0 = j ∧ op' = op := by simpa using he
    have hdef : op'.defines x = true := by simpa using List.find?_some hop'
    exact ⟨.inr rfl, List.mem_of_find?_eq_some hop', hdef⟩
  cases hbody : σ.body with
  | none =>
      rw [definition?, hbody] at h
      exact hshared h
  | some p =>
      obtain ⟨c, params⟩ := p
      rcases definition?_inside (Registry.ofModule m) hfind hbody i x with
        ⟨v, hv⟩ | ⟨k, op', hk, hget, hdef⟩ | hs
      · simp [hv] at h
      · obtain ⟨rfl, rfl, rfl⟩ : σ = τ ∧ k = j ∧ op' = op := by simpa [hk] using h
        refine ⟨.inl rfl, ?_, hdef⟩
        rw [Scope.Holds, hbody]
        exact hget
      · exact hshared (hs ▸ h)

/-- A parameter is bound. -/
theorem definition?_of_param {c : Class} {params : List (String × Value)} (hσ : σ.Proper m)
    (hbody : σ.body = some (c, params)) {x : String} (hx : x ∈ c.paramNames) (i : Nat) :
    ∃ v, (x, v) ∈ params ∧
      definition? (Registry.ofModule m) .whole σ i x = some (.bound v) := by
  obtain ⟨v, hv⟩ := ((hσ c params hbody).2 x).1 hx
  obtain ⟨before, after, hparams, -⟩ := List.lookup_eq_some_iff.1 hv
  refine ⟨v, by simp [hparams], ?_⟩
  simp only [definition?, hbody, hv]

/-- A name that an operation of the body defines stands for its result. -/
theorem definition?_of_body (hm : m.WellFormed) {c : Class} {params : List (String × Value)}
    (hσ : σ.Proper m) (hbody : σ.body = some (c, params)) (hop : op ∈ c.body) {x : String}
    (hdef : op.defines x = true) (i : Nat) :
    ∃ j, definition? (Registry.ofModule m) .whole σ i x = some (.computed σ j op) := by
  have hnd := (hm.classes _ (hσ c params hbody).1).nodup_values
  have hunbound := hσ.unbound hbody fun hx =>
    List.disjoint_of_nodup_append hnd hx (mem_definedNames.2 ⟨op, hop, hdef⟩)
  have hfind := find?_defines (List.nodup_append'.1 hnd).2.1 hop hdef
  rw [← map_locate, Option.map_eq_some_iff] at hfind
  obtain ⟨⟨j, op'⟩, hj, rfl⟩ := hfind
  exact ⟨j, by simp [definition?, hbody, hunbound, Scoping.whole, hj]⟩

/-- A name that a class does not define stands for a shared value. -/
theorem definition?_of_outside {c : Class} {params : List (String × Value)} (hσ : σ.Proper m)
    (hbody : σ.body = some (c, params)) {x : String} (hparam : x ∉ c.paramNames)
    (hnot : x ∉ definedNames c.body) (i : Nat) :
    definition? (Registry.ofModule m) .whole σ i x = shared? (Registry.ofModule m) σ x := by
  have hunbound := hσ.unbound hbody hparam
  have hlocate : locate x c.body = none := by
    rw [← Option.not_isSome_iff_eq_none, isSome_locate_iff]
    exact hnot
  simp [definition?, hbody, hunbound, Scoping.whole, hlocate]

/-- A shared name stands for the result of the operation that defines it. -/
theorem shared?_of_mem (hm : m.WellFormed) (hop : op ∈ m.operations) {x : String}
    (hdef : op.defines x = true) (σ : Scope) :
    shared? (Registry.ofModule m) σ x = some (.computed σ.outside 0 op) := by
  have hvalue : (Registry.ofModule m).value? x = some op := find?_defines hm.nodup_values hop hdef
  rw [shared?, hvalue, Option.map_some]

end Meaning

end ObjectModel
