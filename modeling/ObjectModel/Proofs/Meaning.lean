/-
**What names mean.**

Evaluation keeps every value it has computed.  This module says what the values are without
keeping anything: a frame has the values of the parameters and nothing else, and each use of a name
evaluates the operation that defines it again.  Which operation of a class body defines a name may
hang on where the name is used, so evaluation is told for any rule that says how it is found.

Main definitions:

* `Scope` — where a name is used: how many objects are being made, and the class body with the
  values of its parameters;
* `Scoping`, `Scoping.whole`, `Scoping.text` — how the operation that defines a name is found: in
  the whole body, or in the text before the use;
* `Definition`, `Meaning.definition?` — what a name stands for at a use;
* `Meaning.upTo` — the meaning of names, when operations ask for operands at most so deep;
* `Registry.Yields` — the meaning of making an object.

Main results:

* `Meaning.Refines.operation`, `Meaning.Refines.object` — what is built from names means at least
  as much as the names do;
* `Meaning.upTo_refines` — asking deeper changes no meaning;
* `Registry.Yields.unique` — an object has one meaning at most.
-/

import ObjectModel.Proofs.Run

set_option relaxedAutoImplicit false
set_option autoImplicit false

namespace ObjectModel

/-! ### Scopes and definitions -/

/-- The values that the parameters of a class are bound to. -/
def ClassDecl.bind (c : ClassDecl) (actuals : List Value) : List (String × Value) :=
  Entries.ofList (c.paramNames.zip actuals)

/-- The fields of a class, each with the position of the operation that declares it. -/
def ClassDecl.placedFields (c : ClassDecl) : List (Nat × Field) :=
  c.body.zipIdx.filterMap fun p => p.1.field?.map fun f => (p.2, f)

/-- Where a name is used. -/
structure Scope where
  /-- How many objects are being made. -/
  depth : Nat
  /-- The class in whose body the name is used, with the values of its parameters.  Outside of all
  classes there is none. -/
  body : Option (Class × List (String × Value))
  deriving Inhabited

/-- The same, outside of all classes. -/
def Scope.outside (σ : Scope) : Scope := { σ with body := none }

/-- The scope of the body of a class, inside the objects that are being made. -/
def Scope.enter (σ : Scope) (c : Class) (actuals : List Value) : Scope :=
  ⟨σ.depth + 1, some (c, c.bind actuals)⟩

/-- The first of some operations that defines a name, with its position. -/
def locate (name : String) : List Operation → Option (Nat × Operation)
  | [] => none
  | op :: ops =>
      if op.defines name then some (0, op) else (locate name ops).map fun p => (p.1 + 1, p.2)

/-- How the operation that defines a name is found in a body, from the position of the use. -/
abbrev Scoping := List Operation → Nat → String → Option (Nat × Operation)

/-- In the whole body, wherever the name is used. -/
def Scoping.whole : Scoping := fun body _ name => locate name body

/-- In the text before the use. -/
def Scoping.text : Scoping := fun body i name => locate name (body.take i)

/-- What a name stands for. -/
inductive Definition where
  /-- A value that a parameter is bound to. -/
  | bound (v : Value)
  /-- The result of an operation that stands at the position `i` of the scope `σ`. -/
  | computed (σ : Scope) (i : Nat) (op : Operation)

/-! ### Meanings -/

/-- What something means: a value or an error, or nothing where the search for it does not end. -/
abbrev Meaning (α : Type) := ExceptT EvalError Option α

namespace Meaning

/-- What a computation means that does not look at the state. -/
def ofEval {α : Type} (x : Eval α) : Meaning α := ExceptT.mk ((x.run.run {}).map Prod.fst)

/-- What a shared value stands for. -/
def shared? (r : Registry) (σ : Scope) (name : String) : Option Definition :=
  (r.value? name).map (.computed σ.outside 0)

/-- What a name stands for where the operation at the position `i` uses it: in a class the value of
a parameter, or else the result of an operation of the body, or else a shared value. -/
def definition? (r : Registry) (find : Scoping) (σ : Scope) (i : Nat) (name : String) :
    Option Definition :=
  match σ.body with
  | some (c, params) =>
      match params.lookup name with
      | some v => some (.bound v)
      | none =>
          match find c.body i name with
          | some (j, op) => some (.computed σ j op)
          | none => shared? r σ name
  | none => shared? r σ name

/-- The meaning of names: in a scope, where the operation at a position uses them.  The span is
that of the use. -/
abbrev Names := Scope → Nat → String → Span → Meaning Value

/-- The meaning of the operands of the operation at the position `i`. -/
def operands (names : Names) (σ : Scope) (i : Nat) (xs : List Ident) : Meaning (List Value) :=
  xs.mapM fun x => names σ i x.name x.span

/-- The meaning of the fields of a class. -/
def fieldValues (names : Names) (σ : Scope) (c : Class) : Meaning (List (String × Value)) :=
  c.placedFields.mapM fun p => do
    return (p.2.name.name, ← names σ p.1 p.2.value.name p.2.span)

/-- The meaning of an object of the class `name`, made in a scope. -/
def object (r : Registry) (maxDepth : Nat) (names : Names) (σ : Scope) (name : String)
    (actuals : List Value) (site : Option Location) : Meaning Object :=
  match r.class? name with
  | none => throw (.classNotFound name (site.getD .unknown))
  | some c =>
      if maxDepth ≤ σ.depth then
        throw (.depthExceeded c.name.name maxDepth (site.getD c.location))
      else do
        ofEval (Eval.checkActuals c actuals (site.getD c.location))
        return ⟨c, Entries.ofList (← fieldValues names (σ.enter c actuals) c)⟩

/-- The meaning of the operation at the position `i`. -/
def operation (r : Registry) (maxDepth : Nat) (names : Names) (σ : Scope) (i : Nat)
    (op : Operation) : Meaning Value :=
  match op.action with
  | .constant value ty => ofEval (Eval.constant r (r.location op.span) value ty)
  | .object target actuals _ _ => do
      let vs ← operands names σ i actuals
      return (← object r maxDepth names σ target.name vs (some (r.location op.span))).toValue
  | .listCreate elements elementTy => return .list elementTy (← operands names σ i elements)
  | .tupleCreate elements _ => return .tuple (← operands names σ i elements)
  | .mapCreate entries keyTy valueTy => do
      let vs ← operands names σ i entries
      ofEval (Eval.buildMap vs keyTy valueTy (r.location op.span))
  | .field .. =>
      throw (.typeMismatch "'om.class.field' does not define a value" (r.location op.span))

/-- The meaning of a definition. -/
def value (r : Registry) (maxDepth : Nat) (names : Names) : Definition → Meaning Value
  | .bound v => return v
  | .computed σ i op => operation r maxDepth names σ i op

/-- The meaning of names, when operations ask for operands at most `n` deep. -/
def upTo (r : Registry) (maxDepth : Nat) (find : Scoping) : Nat → Names
  | 0 => fun _ _ _ _ => ExceptT.mk none
  | n + 1 => fun σ i name span =>
      match definition? r find σ i name with
      | some d => value r maxDepth (upTo r maxDepth find n) d
      | none => throw (.undefinedValue name (r.location span))

end Meaning

/-- Making an object of the class `name` means the result `res`, when the operation that defines a
name is found by `find`. -/
def Registry.Yields (r : Registry) (maxDepth : Nat) (find : Scoping) (name : String)
    (actuals : List Value) (res : Except EvalError Object) : Prop :=
  ∃ n, (Meaning.object r maxDepth (Meaning.upTo r maxDepth find n) ⟨0, none⟩ name actuals
    none).run = some res

/-! ### Finding definitions -/

theorem locate_eq_some {name : String} {ops : List Operation} {j : Nat} {op : Operation}
    (h : locate name ops = some (j, op)) : ops[j]? = some op ∧ op.defines name = true := by
  induction ops generalizing j with
  | nil => simp [locate] at h
  | cons op' ops ih =>
      rw [locate] at h
      split at h
      · next hd =>
          obtain ⟨rfl, rfl⟩ : 0 = j ∧ op' = op := by simpa using h
          exact ⟨rfl, hd⟩
      · obtain ⟨⟨k, op''⟩, hk, he⟩ := Option.map_eq_some_iff.1 h
        obtain ⟨rfl, rfl⟩ : k + 1 = j ∧ op'' = op := by simpa using he
        exact ih hk

theorem map_locate (name : String) (ops : List Operation) :
    (locate name ops).map Prod.snd = ops.find? fun op => op.defines name := by
  induction ops with
  | nil => rfl
  | cons op ops ih =>
      rw [locate, List.find?_cons]
      cases h : op.defines name with
      | true => rfl
      | false =>
          rw [if_neg (by simp), Option.map_map, ← ih]
          rfl

theorem locate_eq_none_iff {name : String} {ops : List Operation} :
    locate name ops = none ↔ ∀ op ∈ ops, op.defines name = false := by
  rw [← Option.map_eq_none_iff (f := Prod.snd), map_locate]
  simp

/-- The fields that are found with their positions are the fields of the class. -/
theorem ClassDecl.map_placedFields (c : ClassDecl) : c.placedFields.map Prod.snd = c.fields := by
  have hall : ∀ (ops : List Operation) (k : Nat), ((ops.zipIdx k).filterMap fun p =>
      p.1.field?.map fun f => (p.2, f)).map Prod.snd = ops.filterMap Operation.field? := by
    intro ops
    induction ops with
    | nil => exact fun _ => rfl
    | cons op ops ih =>
        intro k
        rw [List.zipIdx_cons, List.filterMap_cons, List.filterMap_cons]
        cases h : op.field? with
        | none => simpa [h] using ih (k + 1)
        | some f => simpa [h] using ih (k + 1)
  exact hall c.body 0

/-- A field stands where it is said to stand. -/
theorem ClassDecl.getElem?_of_mem_placedFields {c : ClassDecl} {i : Nat} {f : Field}
    (h : (i, f) ∈ c.placedFields) : ∃ op, c.body[i]? = some op ∧ op.field? = some f := by
  obtain ⟨⟨op, k⟩, hmem, he⟩ := List.mem_filterMap.1 h
  obtain ⟨f', hf', he⟩ := Option.map_eq_some_iff.1 he
  obtain ⟨rfl, rfl⟩ := Prod.mk.inj he
  exact ⟨op, by simpa using List.mem_zipIdx_iff_getElem?.1 hmem, hf'⟩

/-! ### Composed meanings -/

namespace Meaning

variable {α β : Type}

@[simp] theorem run_pure_eq_some_iff {a : α} {res : Except EvalError α} :
    (pure a : Meaning α).run = some res ↔ res = .ok a := by
  simp [eq_comm]

@[simp] theorem run_throw_eq_some_iff {e : EvalError} {res : Except EvalError α} :
    (throw e : Meaning α).run = some res ↔ res = .error e := by
  simp [eq_comm]

/-- One meaning after the other is the first one's error, or the second one's meaning. -/
theorem run_bind_eq_some_iff {p : Meaning α} {f : α → Meaning β} {res : Except EvalError β} :
    (p >>= f).run = some res ↔
      (∃ e, p.run = some (.error e) ∧ res = .error e) ∨
        ∃ a, p.run = some (.ok a) ∧ (f a).run = some res := by
  rw [ExceptT.run_bind]
  cases p.run with
  | none => simp
  | some r =>
      cases r with
      | error e => simp [eq_comm]
      | ok a => simp

theorem run_map_eq_some_iff {p : Meaning α} {f : α → β} {res : Except EvalError β} :
    (f <$> p).run = some res ↔ ∃ r, p.run = some r ∧ res = r.map f := by
  rw [ExceptT.run_map]
  simp [eq_comm]

theorem run_mapM_cons_eq_some_iff {f : α → Meaning β} {a : α} {as : List α}
    {res : Except EvalError (List β)} :
    ((a :: as).mapM f).run = some res ↔
      (∃ e, (f a).run = some (.error e) ∧ res = .error e) ∨
        ∃ b, (f a).run = some (.ok b) ∧
          ∃ r, (as.mapM f).run = some r ∧ res = r.map (b :: ·) := by
  rw [List.mapM_cons, run_bind_eq_some_iff]
  simp only [bind_pure_comp, run_map_eq_some_iff]

theorem run_ofEval_eq_some_iff {x : Eval α} {res : Except EvalError α} :
    (ofEval x).run = some res ↔ ∃ t, Eval.Ends x {} res t := by
  change (x.run.run {}).map Prod.fst = some res ↔ _
  rw [Option.map_eq_some_iff]
  constructor
  · rintro ⟨⟨res', t⟩, ht, rfl⟩
    exact ⟨t, ht⟩
  · rintro ⟨t, ht⟩
    exact ⟨(res, t), ht, rfl⟩

/-- Values that fit the parameters of a class are as many as these. -/
theorem length_params_eq_of_run {c : Class} {actuals : List Value} {loc : Location} {u : Unit}
    (h : (ofEval (Eval.checkActuals c actuals loc)).run = some (.ok u)) :
    c.params.length = actuals.length := by
  obtain ⟨t, ht⟩ := run_ofEval_eq_some_iff.1 h
  exact Eval.length_params_eq_of_ends ht

/-- Operands mean as many values as they are. -/
theorem length_operands {names : Names} {σ : Scope} {i : Nat} {xs : List Ident} {vs : List Value}
    (h : (operands names σ i xs).run = some (.ok vs)) : vs.length = xs.length := by
  unfold operands at h
  induction xs generalizing vs with
  | nil =>
      have hnil : Except.ok vs = .ok [] := run_pure_eq_some_iff.1 h
      cases hnil
      rfl
  | cons x xs ih =>
      rcases run_mapM_cons_eq_some_iff.1 h with ⟨e, -, he⟩ | ⟨v, -, r, hr, he⟩
      · cases he
      · cases r with
        | error e => cases he
        | ok ws =>
            obtain rfl : vs = v :: ws := by simpa [Except.map] using he
            rw [List.length_cons, List.length_cons, ih hr]

/-! ### More meaning -/

/-- Where `p` means something, `q` means the same. -/
def Refines (p q : Meaning α) : Prop := ∀ res, p.run = some res → q.run = some res

theorem Refines.refl (p : Meaning α) : Refines p p := fun _ h => h

theorem Refines.trans {p q u : Meaning α} (h : Refines p q) (h' : Refines q u) : Refines p u :=
  fun res hres => h' res (h res hres)

/-- What comes second counts only for what comes first means. -/
theorem Refines.bind {p q : Meaning α} {f g : α → Meaning β} (h : Refines p q)
    (hf : ∀ a, p.run = some (.ok a) → Refines (f a) (g a)) : Refines (p >>= f) (q >>= g) := by
  intro res hres
  rw [run_bind_eq_some_iff] at hres ⊢
  rcases hres with ⟨e, he, rfl⟩ | ⟨a, ha, hres⟩
  · exact .inl ⟨e, h _ he, rfl⟩
  · exact .inr ⟨a, h _ ha, hf a ha _ hres⟩

theorem Refines.mapM {f g : α → Meaning β} {as : List α} (h : ∀ a ∈ as, Refines (f a) (g a)) :
    Refines (as.mapM f) (as.mapM g) := by
  induction as with
  | nil => exact Refines.refl _
  | cons a as ih =>
      have htail := ih fun b hb => h b (List.mem_cons_of_mem _ hb)
      intro res hres
      rw [run_mapM_cons_eq_some_iff] at hres ⊢
      rcases hres with ⟨e, he, rfl⟩ | ⟨b, hb, r, hr, rfl⟩
      · exact .inl ⟨e, h a (by simp) _ he, rfl⟩
      · exact .inr ⟨b, h a (by simp) _ hb, r, htail _ hr, rfl⟩

section Names

variable {r : Registry} {maxDepth : Nat} {N M : Names} {σ : Scope}

/-- An object means at least what it does with less meaning of what its fields expose. -/
theorem Refines.object {name : String} {actuals : List Value} {site : Option Location}
    (h : ∀ c, r.class? name = some c → c.params.length = actuals.length →
      ∀ i f, (i, f) ∈ c.placedFields →
        Refines (N (σ.enter c actuals) i f.value.name f.span)
          (M (σ.enter c actuals) i f.value.name f.span)) :
    Refines (object r maxDepth N σ name actuals site)
      (object r maxDepth M σ name actuals site) := by
  unfold Meaning.object
  split
  · exact Refines.refl _
  · next c hc =>
      split
      · exact Refines.refl _
      · refine (Refines.refl _).bind fun _ hcheck => ?_
        have hlen := length_params_eq_of_run hcheck
        have hvalues : Refines (fieldValues N (σ.enter c actuals) c)
            (fieldValues M (σ.enter c actuals) c) :=
          Refines.mapM fun p hp => (h c hc hlen p.1 p.2 hp).bind fun _ _ => Refines.refl _
        exact hvalues.bind fun _ _ => Refines.refl _

/-- An operation means at least what it does with less meaning of its operands and of the object
that it makes. -/
theorem Refines.operation {i : Nat} {op : Operation}
    (h : ∀ x ∈ op.action.operands, Refines (N σ i x.name x.span) (M σ i x.name x.span))
    (hobject : ∀ target actuals operandTys ty, op.action = .object target actuals operandTys ty →
      ∀ vs, vs.length = actuals.length →
        Refines (Meaning.object r maxDepth N σ target.name vs (some (r.location op.span)))
          (Meaning.object r maxDepth M σ target.name vs (some (r.location op.span)))) :
    Refines (operation r maxDepth N σ i op) (operation r maxDepth M σ i op) := by
  unfold Meaning.operation
  cases hact : op.action with
  | constant value ty => exact Refines.refl _
  | object target actuals operandTys ty =>
      rw [hact] at h
      refine (Refines.mapM h).bind fun vs hvs => ?_
      exact (hobject target actuals operandTys ty hact vs (length_operands hvs)).bind fun _ _ =>
        Refines.refl _
  | listCreate elements elementTy =>
      rw [hact] at h
      exact (Refines.mapM h).bind fun _ _ => Refines.refl _
  | tupleCreate elements elementTys =>
      rw [hact] at h
      exact (Refines.mapM h).bind fun _ _ => Refines.refl _
  | mapCreate entries keyTy valueTy =>
      rw [hact] at h
      exact (Refines.mapM h).bind fun _ _ => Refines.refl _
  | field name value ty => exact Refines.refl _

end Names

theorem upTo_succ (r : Registry) (maxDepth : Nat) (find : Scoping) (n : Nat) (σ : Scope) (i : Nat)
    (name : String) (span : Span) :
    upTo r maxDepth find (n + 1) σ i name span =
      match definition? r find σ i name with
      | some d => value r maxDepth (upTo r maxDepth find n) d
      | none => throw (.undefinedValue name (r.location span)) := rfl

/-- A name means what the operation means that computes it. -/
theorem run_upTo_of_computed {r : Registry} {maxDepth : Nat} {find : Scoping} {σ τ : Scope}
    {i j n : Nat} {name : String} {op : Operation} {span : Span} {res : Except EvalError Value}
    (hdef : definition? r find σ i name = some (.computed τ j op))
    (h : (operation r maxDepth (upTo r maxDepth find n) τ j op).run = some res) :
    (upTo r maxDepth find (n + 1) σ i name span).run = some res := by
  rw [upTo_succ, hdef]
  exact h

/-- Asking deeper changes no meaning. -/
theorem upTo_refines {r : Registry} {maxDepth : Nat} {find : Scoping} {n m : Nat} (hnm : n ≤ m) :
    ∀ σ i name span, Refines (upTo r maxDepth find n σ i name span)
      (upTo r maxDepth find m σ i name span) := by
  induction n generalizing m with
  | zero =>
      intro σ i name span res hres
      cases hres
  | succ n ih =>
      obtain ⟨m, rfl⟩ := Nat.exists_eq_add_of_lt hnm
      have hdeeper := ih (m := n + m) (by omega)
      intro σ i name span
      rw [upTo_succ, upTo_succ]
      split
      · next d _ =>
          cases d with
          | bound v => exact Refines.refl _
          | computed τ j op =>
              exact Refines.operation (fun x _ => hdeeper τ j x.name x.span)
                fun _ _ _ _ _ vs _ => Refines.object fun _ _ _ _ _ _ => hdeeper _ _ _ _
      · exact Refines.refl _

theorem operation_refines {r : Registry} {maxDepth : Nat} {find : Scoping} {n m : Nat}
    (hnm : n ≤ m) (σ : Scope) (i : Nat) (op : Operation) :
    Refines (operation r maxDepth (upTo r maxDepth find n) σ i op)
      (operation r maxDepth (upTo r maxDepth find m) σ i op) :=
  Refines.operation (fun _ _ => upTo_refines hnm _ _ _ _) fun _ _ _ _ _ _ _ =>
    Refines.object fun _ _ _ _ _ _ => upTo_refines hnm _ _ _ _

theorem object_refines {r : Registry} {maxDepth : Nat} {find : Scoping} {n m : Nat} (hnm : n ≤ m)
    (σ : Scope) (name : String) (actuals : List Value) (site : Option Location) :
    Refines (object r maxDepth (upTo r maxDepth find n) σ name actuals site)
      (object r maxDepth (upTo r maxDepth find m) σ name actuals site) :=
  Refines.object fun _ _ _ _ _ _ => upTo_refines hnm _ _ _ _

end Meaning

/-- An object has one meaning at most. -/
theorem Registry.Yields.unique {r : Registry} {maxDepth : Nat} {find : Scoping} {name : String}
    {actuals : List Value} {res res' : Except EvalError Object}
    (h : r.Yields maxDepth find name actuals res) (h' : r.Yields maxDepth find name actuals res') :
    res = res' := by
  obtain ⟨n, hn⟩ := h
  obtain ⟨m, hm⟩ := h'
  have hn := Meaning.object_refines (Nat.le_max_left n m) _ _ _ _ _ hn
  have hm := Meaning.object_refines (Nat.le_max_right n m) _ _ _ _ _ hm
  simpa [hn] using hm

end ObjectModel
