/-
**What evaluation looks at.**

Of a module, evaluation looks at the headers and fields of its classes, at the operations that
define the names which other operations use, and at its symbols.  Two modules that agree in all of
that give the same results, whatever else stands in them and in whatever order.  The results agree
in all but the classes behind objects, of which one may forget what the modules disagree in.

Main definitions:

* `Uses` — a name is an operand of one of several operations;
* `Class.Narrows`, `Registry.Narrows` — agreement in what evaluation looks at;
* `Scope.Narrows`, `Definition.Narrows` — scopes, and what names stand for there, that agree;
* `Meaning.SameUnder` — two meanings are the same as far as a function shows.

Main results:

* `Registry.Narrows.definition?` — names that are used stand for what agrees;
* `Meaning.sameUnder_upTo` — so they mean the same;
* `Registry.Narrows.instantiate` — so calls end in the same results.
-/

import ObjectModel.Proofs.Depth
import ObjectModel.Proofs.MapClass

set_option relaxedAutoImplicit false
set_option autoImplicit false

namespace ObjectModel

/-! ### Agreement -/

/-- One of the operations has an operand of the name. -/
def Uses (ops : List Operation) (x : String) : Prop :=
  ∃ op ∈ ops, ∃ y ∈ op.action.operands, y.name = x

/-- The class `d` has the header and the fields of `c`, and what the operations of `c` use is
defined in both by the same operations.  What `f` keeps of a class is the same. -/
structure Class.Narrows (f : Class → Class) (c d : Class) : Prop where
  image : f d = f c
  name : d.name = c.name
  params : d.params = c.params
  location : d.location = c.location
  fields : d.fields = c.fields
  definitions : ∀ x, Uses c.body x → d.definition? x = c.definition? x

theorem Class.Narrows.refl (f : Class → Class) (c : Class) : c.Narrows f c :=
  ⟨rfl, rfl, rfl, rfl, rfl, fun _ _ => rfl⟩

/-- An operation of the registry has an operand of the name. -/
def Registry.Uses (r : Registry) (x : String) : Prop :=
  ObjectModel.Uses r.values x ∨ ∃ c ∈ r.classes, ObjectModel.Uses c.body x

/-- The registry `r'` declares the symbols of `r`, its classes are as those of `r`, and what the
operations of `r` use is shared in both as the result of the same operations. -/
structure Registry.Narrows (f : Class → Class) (r r' : Registry) : Prop where
  file : r'.file = r.file
  declares : r'.declares = r.declares
  classes : ∀ name, Option.Rel (Class.Narrows f) (r.class? name) (r'.class? name)
  values : ∀ x, r.Uses x → r'.value? x = r.value? x

/-- The same symbols are declared by the same hardware modules and classes of the same names, in
whatever order these stand. -/
theorem Registry.declares_congr {r r' : Registry} (hhardware : r'.hardware.Perm r.hardware)
    (hnames : (r'.classes.map fun c => c.name.name).Perm (r.classes.map fun c => c.name.name)) :
    r'.declares = r.declares := by
  have hclasses : ∀ (r : Registry) (top : String), (r.classes.any fun c => c.name.name == top) =
      (r.classes.map fun c => c.name.name).any fun x => x == top := fun r top => by
    rw [List.any_map]
    rfl
  funext p
  unfold Registry.declares
  split
  · rw [hhardware.any_eq, hclasses, hclasses, hnames.any_eq]
  · rw [hhardware.any_eq]
  · rfl

/-- So it is where the classes are related one by one, and related classes have one name. -/
theorem Registry.declares_of_forall₂ {r r' : Registry} (hhardware : r'.hardware = r.hardware)
    {R : Class → Class → Prop} (hclasses : List.Forall₂ R r.classes r'.classes)
    (hname : ∀ c d, R c d → d.name = c.name) : r'.declares = r.declares := by
  refine declares_congr (.of_eq hhardware) (.of_eq (Eq.symm ?_))
  rw [← List.forall₂_eq_eq_eq, List.forall₂_map_left_iff, List.forall₂_map_right_iff]
  exact hclasses.imp fun c d hcd => by rw [hname c d hcd]

/-- An operation of the scope has an operand of the name. -/
def Scope.Uses (r : Registry) (σ : Scope) (x : String) : Prop :=
  match σ.body with
  | some (c, _) => ObjectModel.Uses c.body x
  | none => ObjectModel.Uses r.values x

/-- Two scopes of classes that agree, with values of the parameters that agree under `f`. -/
structure Scope.Narrows (f : Class → Class) (r : Registry) (σ τ : Scope) : Prop where
  depth : τ.depth = σ.depth
  body : Option.Rel (fun p q => p.1 ∈ r.classes ∧ p.1.Narrows f q.1 ∧
    Entries.mapClass f q.2 = Entries.mapClass f p.2) σ.body τ.body

theorem Scope.Narrows.outside {f : Class → Class} {r : Registry} {σ τ : Scope}
    (h : σ.Narrows f r τ) : σ.outside.Narrows f r τ.outside :=
  ⟨h.depth, .none⟩

/-! ### Definitions -/

/-- Two values of a parameter that agree under `f`, or two times the result of one operation, in
scopes that agree.  What the operation uses is used in its scope. -/
inductive Definition.Narrows (f : Class → Class) (r : Registry) :
    Definition → Definition → Prop where
  | bound {v w : Value} (h : w.mapClass f = v.mapClass f) : Narrows f r (.bound v) (.bound w)
  | computed {σ τ : Scope} {i j : Nat} {op : Operation} (hσ : σ.Narrows f r τ)
      (huses : ∀ x ∈ op.action.operands, σ.Uses r x.name) :
      Narrows f r (.computed σ i op) (.computed τ j op)

namespace Registry.Narrows

variable {f : Class → Class} {r r' : Registry} (hr : r.Narrows f r') {σ τ : Scope}
  (hσ : σ.Narrows f r τ) {x : String}

include hr hσ

/-- A shared value that is used is the result of one operation in both modules. -/
theorem shared? (hx : r.Uses x) :
    Option.Rel (Definition.Narrows f r) (Meaning.shared? r σ x) (Meaning.shared? r' τ x) := by
  rw [Meaning.shared?, Meaning.shared?, hr.values x hx]
  cases hop : r.value? x with
  | none => exact .none
  | some op =>
      exact .some (.computed hσ.outside fun y hy =>
        ⟨op, List.mem_of_find?_eq_some hop, y, hy, rfl⟩)

/-- A name that is used stands for definitions that agree. -/
theorem definition? (i j : Nat) (hx : σ.Uses r x) :
    Option.Rel (Definition.Narrows f r) (Meaning.definition? r .whole σ i x)
      (Meaning.definition? r' .whole τ j x) := by
  rw [Meaning.definition?, Meaning.definition?]
  rw [Scope.Uses] at hx
  rcases exists_of_rel hσ.body with ⟨hs, ht⟩ | ⟨⟨c, params⟩, ⟨d, params'⟩, hs, ht, hc, hcd, hbound⟩
  · rw [hs] at hx
    rw [hs, ht]
    exact hr.shared? hσ (.inl hx)
  · rw [hs] at hx
    rw [hs, ht]
    dsimp only at hx hc hcd hbound ⊢
    have hfind : (locate x d.body).map Prod.snd = (locate x c.body).map Prod.snd := by
      rw [map_locate, map_locate]
      exact hcd.definitions x hx
    rcases exists_of_rel (Entries.rel_lookup_of_mapClass hbound x) with
      ⟨hp, hq⟩ | ⟨v, w, hp, hq, hvw⟩
    · rw [hp, hq]
      dsimp only [Scoping.whole]
      cases hj : locate x c.body with
      | none =>
          rw [hj, Option.map_none, Option.map_eq_none_iff] at hfind
          rw [hfind]
          exact hr.shared? hσ (.inr ⟨c, hc, hx⟩)
      | some p =>
          obtain ⟨⟨k, op⟩, hk, rfl⟩ := Option.map_eq_some_iff.1 (hfind.trans (by rw [hj]; rfl))
          rw [hk]
          refine .some (.computed hσ fun y hy => ?_)
          rw [Scope.Uses, hs]
          exact ⟨p.2, List.mem_of_getElem? (locate_eq_some hj).1, y, hy, rfl⟩
    · rw [hp, hq]
      exact .some (.bound hvw)

end Registry.Narrows

/-! ### Constants and actual values -/

/-- Parameters of the same names are bound to the same values, as far as `f` shows. -/
theorem ClassDecl.mapClass_bind {f : Class → Class} {c d : ClassDecl}
    (hnames : d.paramNames = c.paramNames) {us vs : List Value}
    (h : vs.map (Value.mapClass f) = us.map (Value.mapClass f)) :
    Entries.mapClass f (d.bind vs) = Entries.mapClass f (c.bind us) := by
  rw [ClassDecl.bind, ClassDecl.bind, ← Entries.ofList_mapClass, ← Entries.ofList_mapClass,
    ← Entries.zip_mapClass, ← Entries.zip_mapClass, h, hnames]

namespace Eval

mutual

/-- A constant is the same where the same symbols are declared. -/
theorem constant_congr {r r' : Registry} (h : r'.declares = r.declares) (loc : Location) :
    ∀ (a : Attribute) (ty : Ty), constant r' loc a ty = constant r loc a ty
  | .integer _, _ | .string _, _ => rfl
  | .list elementTy es, _ => by rw [constant, constant, constants_congr h loc es elementTy]
  | .map valueTy es, _ => by
      rw [constant, constant]
      exact bind_congr fun k => by rw [constantEntries_congr h loc k valueTy es]
  | .ref p, _ => by rw [constant, constant, reference, reference, Registry.resolve, h]; rfl

theorem constants_congr {r r' : Registry} (h : r'.declares = r.declares) (loc : Location) :
    ∀ (as : List Attribute) (ty : Ty), constants r' loc ty as = constants r loc ty as
  | [], _ => rfl
  | a :: as, ty => by
      rw [constants, constants, constant_congr h loc a ty, constants_congr h loc as ty]

theorem constantEntries_congr {r r' : Registry} (h : r'.declares = r.declares) (loc : Location)
    (k : KeyKind) (ty : Ty) : ∀ es : List (String × Attribute),
      constantEntries r' loc k ty es = constantEntries r loc k ty es
  | [] => rfl
  | (text, a) :: es => by
      rw [constantEntries, constantEntries, constant_congr h loc a ty,
        constantEntries_congr h loc k ty es]

end

/-- The same is said against values where two classes have one header. -/
theorem checkActuals_congr {c d : Class} (hname : d.name = c.name) (hparams : d.params = c.params)
    (vs : List Value) (loc : Location) : checkActuals d vs loc = checkActuals c vs loc := by
  have hmismatch : ∀ (ps : List Param) (vs : List Value) (index : Nat),
      mismatch? d loc index ps vs = mismatch? c loc index ps vs := by
    intro ps
    induction ps with
    | nil => exact fun _ _ => rfl
    | cons p ps ih =>
        intro vs index
        cases vs with
        | nil => rfl
        | cons v vs => rw [mismatch?, mismatch?, ih, hname]
  rw [checkActuals, checkActuals, hmismatch, hname, hparams]

end Eval

/-! ### Meanings that are the same as far as shows -/

namespace Meaning

variable {α β γ δ ι κ : Type}

/-- The two meanings are the same as far as `g` shows: one and the same error, or values that `g`
does not tell apart, or nothing both times. -/
def SameUnder (g : α → β) (p q : Meaning α) : Prop := g <$> p = g <$> q

theorem SameUnder.refl (g : α → β) (p : Meaning α) : SameUnder g p p := rfl

theorem SameUnder.pure {g : α → β} {a b : α} (h : g a = g b) :
    SameUnder g (Pure.pure a) (Pure.pure b) := by
  rw [SameUnder, map_pure, map_pure, h]

theorem SameUnder.bind {g : α → β} {k : γ → δ} {p q : Meaning α} {F G : α → Meaning γ}
    (h : SameUnder g p q) (hF : ∀ a b, g a = g b → SameUnder k (F a) (G b)) :
    SameUnder k (p >>= F) (q >>= G) := by
  have hrun : (g <$> p).run = (g <$> q).run := congrArg ExceptT.run h
  rw [ExceptT.run_map, ExceptT.run_map] at hrun
  unfold SameUnder
  rw [map_bind, map_bind]
  refine ExceptT.ext ?_
  rw [ExceptT.run_bind, ExceptT.run_bind]
  cases hp : p.run with
  | none =>
      cases hq : q.run with
      | none => rfl
      | some res' => simp [hp, hq, Except.map] at hrun
  | some res =>
      cases hq : q.run with
      | none => simp [hp, hq, Except.map] at hrun
      | some res' =>
          cases res with
          | error e =>
              cases res' with
              | error e' =>
                  obtain rfl : e = e' := by simpa [hp, hq, Except.map] using hrun
                  rfl
              | ok b => simp [hp, hq, Except.map] at hrun
          | ok a =>
              cases res' with
              | error e' => simp [hp, hq, Except.map] at hrun
              | ok b =>
                  have hab : g a = g b := by simpa [hp, hq, Except.map] using hrun
                  exact congrArg ExceptT.run (hF a b hab)

theorem SameUnder.mapM {R : ι → κ → Prop} {g : α → β} {f : ι → Meaning α} {f' : κ → Meaning α}
    {is : List ι} {js : List κ} (hlists : List.Forall₂ R is js)
    (h : ∀ i ∈ is, ∀ j, R i j → SameUnder g (f i) (f' j)) :
    SameUnder (List.map g) (is.mapM f) (js.mapM f') := by
  induction hlists with
  | nil => exact SameUnder.refl _ _
  | @cons i j is js hij _ ih =>
      rw [List.mapM_cons, List.mapM_cons]
      refine (h i List.mem_cons_self j hij).bind fun a b hab => ?_
      refine (ih fun i' hi' => h i' (List.mem_cons_of_mem _ hi')).bind fun as bs habs => ?_
      exact SameUnder.pure (by rw [List.map_cons, List.map_cons, hab, habs])

theorem map_ofEval (g : α → β) (x : Eval α) : g <$> ofEval x = ofEval (g <$> x) := by
  refine ExceptT.ext ?_
  have hright : (g <$> x).run.run {} = (x.run.run {}).map fun p => (p.1.map g, p.2) := by
    rw [ExceptT.run_map, StateT.run_map]
    rfl
  have hleft : (ofEval (g <$> x)).run = ((g <$> x).run.run {}).map Prod.fst := rfl
  rw [ExceptT.run_map, hleft, hright, Option.map_map]
  exact Option.map_map _ _ _

/-! ### Objects and operations -/

section Names

variable {f : Class → Class} {r r' : Registry} {maxDepth : Nat} {N M : Names}
  (hf : ∀ c, (f c).name = c.name) (hr : r.Narrows f r')
  (hnames : ∀ {σ τ : Scope}, σ.Narrows f r τ → ∀ i j x span, σ.Uses r x →
    SameUnder (Value.mapClass f) (N σ i x span) (M τ j x span))

include hnames

/-- Fields are the same as far as `f` shows, when names are that are used. -/
theorem SameUnder.fieldValues {σ τ : Scope} (hσ : σ.Narrows f r τ) {c d : Class}
    (hcd : c.Narrows f d) (huses : ∀ x, ObjectModel.Uses c.body x → σ.Uses r x) :
    SameUnder (Entries.mapClass f) (fieldValues N σ c) (fieldValues M τ d) := by
  -- the fields are the same, but they may stand elsewhere in the two bodies
  have hfields : List.Forall₂ (fun p q : Nat × Field => p.2 = q.2) c.placedFields
      d.placedFields := by
    have heq := hcd.fields
    rw [← c.map_placedFields, ← d.map_placedFields, eq_comm, ← List.forall₂_eq_eq_eq,
      List.forall₂_map_left_iff, List.forall₂_map_right_iff] at heq
    exact heq
  refine (SameUnder.mapM (g := fun e : String × Value => (e.1, e.2.mapClass f)) hfields
    fun p hp q hpq => ?_)
  obtain ⟨op, hop, hx⟩ := ClassDecl.exists_operand_of_placed hp
  rw [← hpq]
  refine (hnames hσ p.1 q.1 p.2.value.name p.2.span
    (huses _ ⟨op, List.mem_of_getElem? hop, _, hx, rfl⟩)).bind fun v w hvw => ?_
  exact SameUnder.pure (by rw [hvw])

include hf hr

/-- Objects are the same as far as `f` shows, when they are made of such values. -/
theorem SameUnder.object {σ τ : Scope} (hdepth : τ.depth = σ.depth) (name : String)
    {us vs : List Value} (h : vs.map (Value.mapClass f) = us.map (Value.mapClass f))
    (site : Option Location) :
    SameUnder (Object.mapClass f) (object r maxDepth N σ name us site)
      (object r' maxDepth M τ name vs site) := by
  have hclass := hr.classes name
  unfold Meaning.object
  rcases exists_of_rel hclass with ⟨hc, hd⟩ | ⟨c, d, hc, hd, hcd⟩
  · rw [hc, hd]
    exact SameUnder.refl _ _
  · rw [hc, hd]
    dsimp only
    rw [hdepth, hcd.name, hcd.location]
    split
    · exact SameUnder.refl _ _
    · have hcheck : Eval.checkActuals d vs (site.getD c.location) =
          Eval.checkActuals c us (site.getD c.location) := by
        rw [Eval.checkActuals_congr hcd.name hcd.params, Eval.checkActuals_eq_of_mapClass hf h]
      rw [hcheck]
      refine (SameUnder.refl id _).bind fun _ _ _ => ?_
      have hparams : d.paramNames = c.paramNames := by
        rw [ClassDecl.paramNames, ClassDecl.paramNames, hcd.params]
      have henter : (σ.enter c us).Narrows f r (τ.enter d vs) :=
        ⟨congrArg (· + 1) hdepth, .some ⟨List.mem_of_find?_eq_some hc, hcd,
          ClassDecl.mapClass_bind hparams h⟩⟩
      refine (SameUnder.fieldValues hnames henter hcd fun x hx => hx).bind
        fun es es' hes => SameUnder.pure ?_
      rw [Object.mapClass, Object.mapClass, ← Entries.ofList_mapClass, hes,
        Entries.ofList_mapClass, hcd.image]

/-- So it is with operations, wherever they stand. -/
theorem SameUnder.operation {σ τ : Scope} (hσ : σ.Narrows f r τ) (i j : Nat) {op : Operation}
    (huses : ∀ x ∈ op.action.operands, σ.Uses r x.name) :
    SameUnder (Value.mapClass f) (operation r maxDepth N σ i op)
      (operation r' maxDepth M τ j op) := by
  have hoperands : ∀ xs, (∀ x ∈ xs, x ∈ op.action.operands) →
      SameUnder (List.map (Value.mapClass f)) (operands N σ i xs) (operands M τ j xs) := by
    intro xs hxs
    refine SameUnder.mapM (R := Eq) (List.forall₂_refl xs) ?_
    rintro x hx _ rfl
    exact hnames hσ i j x.name x.span (huses x (hxs x hx))
  have hloc : r'.location op.span = r.location op.span := by
    rw [Registry.location, Registry.location, hr.file]
  unfold Meaning.operation
  rw [hloc]
  cases hact : op.action with
  | constant value ty =>
      dsimp only
      rw [Eval.constant_congr hr.declares]
      exact SameUnder.refl _ _
  | object target actuals operandTys ty =>
      rw [hact] at hoperands
      refine (hoperands actuals fun _ hx => hx).bind fun us vs h => ?_
      refine (SameUnder.object hf hr hnames hσ.depth target.name h.symm _).bind fun o o' ho => ?_
      exact SameUnder.pure (by rw [← Object.toValue_mapClass, ho, Object.toValue_mapClass])
  | listCreate elements elementTy =>
      rw [hact] at hoperands
      refine (hoperands elements fun _ hx => hx).bind fun us vs h => SameUnder.pure ?_
      rw [Value.mapClass, Value.mapClass, Value.mapClassAll_eq, Value.mapClassAll_eq, h]
  | tupleCreate elements elementTys =>
      rw [hact] at hoperands
      refine (hoperands elements fun _ hx => hx).bind fun us vs h => SameUnder.pure ?_
      rw [Value.mapClass, Value.mapClass, Value.mapClassAll_eq, Value.mapClassAll_eq, h]
  | mapCreate entries keyTy valueTy =>
      rw [hact] at hoperands
      refine (hoperands entries fun _ hx => hx).bind fun us vs h => ?_
      rw [SameUnder, map_ofEval, map_ofEval, ← Eval.buildMap_mapClass hf, h,
        Eval.buildMap_mapClass hf]
  | field name value ty => exact SameUnder.refl _ _

/-- And so it is with definitions. -/
theorem SameUnder.value {d e : Definition} (hde : d.Narrows f r e) :
    SameUnder (Value.mapClass f) (value r maxDepth N d) (value r' maxDepth M e) := by
  cases hde with
  | bound h => exact SameUnder.pure h.symm
  | computed hσ huses => exact SameUnder.operation hf hr hnames hσ _ _ huses

end Names

/-- Names that are used mean the same as far as `f` shows. -/
theorem sameUnder_upTo {f : Class → Class} {r r' : Registry} (hf : ∀ c, (f c).name = c.name)
    (hr : r.Narrows f r') (maxDepth n : Nat) : ∀ {σ τ : Scope}, σ.Narrows f r τ →
      ∀ i j x span, σ.Uses r x → SameUnder (Value.mapClass f)
        (upTo r maxDepth .whole n σ i x span) (upTo r' maxDepth .whole n τ j x span) := by
  induction n with
  | zero => exact fun _ _ _ _ _ _ => SameUnder.refl _ _
  | succ n ih =>
      intro σ τ hσ i j x span hx
      have hlocation : r'.location span = r.location span := by
        rw [Registry.location, Registry.location, hr.file]
      rw [upTo_succ, upTo_succ, hlocation]
      rcases exists_of_rel (hr.definition? hσ i j hx) with ⟨hd, he⟩ | ⟨d, e, hd, he, hde⟩
      · rw [hd, he]
        exact SameUnder.refl _ _
      · rw [hd, he]
        exact SameUnder.value hf hr ih hde

end Meaning

/-! ### Calls -/

/-- What a function shows of the result of a call is what it shows of making the object. -/
theorem Registry.map_instantiate_eq_some_iff {α : Type} (g : Object → α) {m : Module}
    (hm : m.WellFormed) {maxDepth : Nat} {name : String} {actuals : List Value}
    {res : Except Failure α} :
    ((ofModule m).instantiate maxDepth name actuals).map (Except.map g) = some res ↔
      ∃ n res', (g <$> Meaning.object (ofModule m) maxDepth
          (Meaning.upTo (ofModule m) maxDepth .whole n) ⟨0, none⟩ name actuals none).run =
            some res' ∧ res = res'.mapError fun cause => ⟨cause, .instantiate⟩ := by
  simp only [Option.map_eq_some_iff, instantiate_eq_some_iff hm, Meaning.run_map_eq_some_iff]
  constructor
  · rintro ⟨_, ⟨res', ⟨n, hn⟩, rfl⟩, rfl⟩
    refine ⟨n, res'.map g, ⟨res', hn, rfl⟩, ?_⟩
    cases res' <;> rfl
  · rintro ⟨n, _, ⟨res', hn, rfl⟩, rfl⟩
    refine ⟨_, ⟨res', ⟨n, hn⟩, rfl⟩, ?_⟩
    cases res' <;> rfl

/-- **Calls on modules that agree in what evaluation looks at end in the same results**, as far as
`f` shows of the classes behind objects. -/
theorem Registry.Narrows.instantiate {f : Class → Class} (hf : ∀ c, (f c).name = c.name)
    {m m' : Module} (hm : m.WellFormed) (hm' : m'.WellFormed)
    (h : (ofModule m).Narrows f (ofModule m')) (maxDepth : Nat) (name : String)
    (actuals : List Value) :
    ((ofModule m').instantiate maxDepth name actuals).map (Except.map (Object.mapClass f)) =
      ((ofModule m).instantiate maxDepth name actuals).map (Except.map (Object.mapClass f)) := by
  refine Option.ext fun res => ?_
  rw [map_instantiate_eq_some_iff _ hm, map_instantiate_eq_some_iff _ hm']
  refine exists_congr fun n => ?_
  have hsame : Meaning.SameUnder (Object.mapClass f)
      (Meaning.object (ofModule m) maxDepth (Meaning.upTo (ofModule m) maxDepth .whole n) ⟨0, none⟩
        name actuals none)
      (Meaning.object (ofModule m') maxDepth (Meaning.upTo (ofModule m') maxDepth .whole n)
        ⟨0, none⟩ name actuals none) :=
    Meaning.SameUnder.object hf h (Meaning.sameUnder_upTo hf h maxDepth n) rfl name rfl none
  rw [Meaning.SameUnder] at hsame
  rw [hsame]

/-- And in the very same results, where the classes are the same ones. -/
theorem Registry.Narrows.instantiate_eq {m m' : Module} (hm : m.WellFormed) (hm' : m'.WellFormed)
    (h : (ofModule m).Narrows id (ofModule m')) (maxDepth : Nat) (name : String)
    (actuals : List Value) :
    (ofModule m').instantiate maxDepth name actuals =
      (ofModule m).instantiate maxDepth name actuals := by
  have hid : Except.map (Object.mapClass id) = (id : Except Failure Object → _) := by
    funext res
    cases res with
    | error e => rfl
    | ok o => exact congrArg Except.ok o.mapClass_id
  have hsame := h.instantiate (f := id) (fun _ => rfl) hm hm' maxDepth name actuals
  rwa [hid, Option.map_id, id, id] at hsame

end ObjectModel
