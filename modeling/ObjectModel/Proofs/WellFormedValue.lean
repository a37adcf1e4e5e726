/-
**Evaluation makes well-formed values.**

A type does not say all that a value has to be: the keys of a map are of one kind and none comes
twice, an object has the fields of its class and in their order, and a reference names a symbol that
is declared.  Constants, containers and objects are each made so that it holds of them when it holds
of their parts; so it holds of all that evaluation makes of values of which it holds.  The same goes
for every property that is handed on in this way.

Main definitions:

* `Module.Declares` — a path names a symbol of a module;
* `Value.WellFormed` — a value is what its kind says, and so are all its parts;
* `Value.Hereditary` — a property of values that is handed on;
* `Eval.Gives`, `Meaning.Gives` — every value that something ends in has a property.

Main results:

* `Eval.gives_constant`, `Eval.gives_buildMap` — constants and maps have what is handed on;
* `Meaning.gives_upTo_of` — so have the values of names;
* `Value.Hereditary.of_instantiate` — so have the objects that calls make;
* `Registry.wellFormed_of_instantiate` — these are well formed.
-/

import ObjectModel.Proofs.Depth
import ObjectModel.Proofs.OneByOne

set_option relaxedAutoImplicit false
set_option autoImplicit false

namespace ObjectModel

/-! ### Well-formed values -/

/-- The path names a symbol of the module. -/
inductive Module.Declares (m : Module) : SymbolPath → Prop where
  /-- A class. -/
  | ofClass {c : ClassDecl} (hc : c ∈ m.classes) : Declares m ⟨[c.name.name]⟩
  /-- A hardware module. -/
  | ofHardware {h : HardwareModule} (hh : h ∈ m.hardware) : Declares m ⟨[h.name.name]⟩
  /-- A symbol inside a hardware module. -/
  | inner {h : HardwareModule} {x : Ident} (hh : h ∈ m.hardware) (hx : x ∈ h.innerSymbols) :
      Declares m ⟨[h.name.name, x.name]⟩

/-- A value is what its kind says, and so are all the values in it. -/
inductive Value.WellFormed (m : Module) : Value → Prop where
  | integer (n : Int64) : WellFormed m (.integer n)
  | string (s : String) : WellFormed m (.string s)
  | list {ty : Ty} {vs : List Value} (helements : ∀ v ∈ vs, WellFormed m v) :
      WellFormed m (.list ty vs)
  | tuple {vs : List Value} (helements : ∀ v ∈ vs, WellFormed m v) : WellFormed m (.tuple vs)
  /-- No key of a map comes twice, and all are of its kind. -/
  | map {k : KeyKind} {ty : Ty} {es : List (Key × Value)} (hnodup : (Entries.keys es).Nodup)
      (hkind : ∀ key ∈ Entries.keys es, key.kind = k) (hvalues : ∀ e ∈ es, WellFormed m e.2) :
      WellFormed m (.map k ty es)
  /-- The fields of an object are those of its class, each once and in their order. -/
  | object {c : Class} {fields : List (String × Value)}
      (hfields : Entries.keys fields = c.fields.map fun f => f.name.name)
      (hnodup : (Entries.keys fields).Nodup) (hvalues : ∀ e ∈ fields, WellFormed m e.2) :
      WellFormed m (.object c fields)
  /-- A reference names a symbol. -/
  | ref {p : SymbolPath} (hp : m.Declares p) : WellFormed m (.ref p)

/-- The second half of a well-formed pair is well formed. -/
theorem Value.WellFormed.of_pair {m : Module} {key v : Value}
    (h : (Value.tuple [key, v]).WellFormed m) : v.WellFormed m := by
  cases h with
  | tuple helements => exact helements v (by simp)

/-- A property that is handed on: it holds of the values that evaluation makes of values of which it
holds, of a pair only if it holds of the second half. -/
structure Value.Hereditary (m : Module) (P : Value → Prop) : Prop where
  integer : ∀ n, P (.integer n)
  string : ∀ s, P (.string s)
  list : ∀ {ty : Ty} {vs : List Value}, (∀ v ∈ vs, P v) → P (.list ty vs)
  tuple : ∀ {vs : List Value}, (∀ v ∈ vs, P v) → P (.tuple vs)
  map : ∀ {k : KeyKind} {ty : Ty} {es : List (Key × Value)}, (Entries.keys es).Nodup →
    (∀ key ∈ Entries.keys es, key.kind = k) → (∀ e ∈ es, P e.2) → P (.map k ty es)
  object : ∀ {c : Class} {fields : List (String × Value)}, c.toClassDecl ∈ m.classes →
    Entries.keys fields = (c.fields.map fun f => f.name.name) → (Entries.keys fields).Nodup →
    (∀ e ∈ fields, P e.2) → P (.object c fields)
  ref : ∀ {p : SymbolPath}, m.Declares p → P (.ref p)
  of_pair : ∀ {key v : Value}, P (.tuple [key, v]) → P v

theorem Value.WellFormed.hereditary (m : Module) : Value.Hereditary m (Value.WellFormed m) where
  integer := .integer
  string := .string
  list := .list
  tuple := .tuple
  map := .map
  object _ := .object
  ref := .ref
  of_pair := .of_pair

/-- What a registry finds is declared. -/
theorem Module.Declares.of_declares {m : Module} {p : SymbolPath}
    (h : (Registry.ofModule m).declares p = true) : m.Declares p := by
  obtain ⟨segments⟩ := p
  unfold Registry.declares at h
  split at h
  · next top hp =>
      obtain rfl : segments = [top] := hp
      rw [Bool.or_eq_true, List.any_eq_true, List.any_eq_true] at h
      obtain ⟨x, hx, hname⟩ | ⟨c, hc, hname⟩ := h
      · obtain rfl : x.name.name = top := by simpa using hname
        exact .ofHardware hx
      · obtain ⟨d, hd, rfl⟩ := List.mem_map.1 hc
        obtain rfl : d.name.name = top := by simpa using hname
        exact .ofClass hd
  · next top inner hp =>
      obtain rfl : segments = [top, inner] := hp
      obtain ⟨x, hx, hnames⟩ := List.any_eq_true.1 h
      rw [Bool.and_eq_true, List.any_eq_true] at hnames
      obtain ⟨htop, y, hy, hinner⟩ := hnames
      obtain rfl : x.name.name = top := by simpa using htop
      obtain rfl : y.name = inner := by simpa using hinner
      exact .inner hx hy
  · cases h

/-! ### Tables of entries -/

namespace Entries

variable {κ α : Type} [DecidableEq κ]

/-- After a write there is what was written, and what was there. -/
theorem mem_insert {e : κ × α} {k : κ} {v : α} {es : List (κ × α)} (h : e ∈ insert k v es) :
    e = (k, v) ∨ e ∈ es := by
  induction es with
  | nil => exact .inl (by simpa using h)
  | cons e' es ih =>
      rw [insert] at h
      split at h
      · exact (List.mem_cons.1 h).imp_right (List.mem_cons_of_mem _)
      · rcases List.mem_cons.1 h with rfl | h
        · exact .inr List.mem_cons_self
        · exact (ih h).imp_right (List.mem_cons_of_mem _)

/-- A table has no entries but those that were written. -/
theorem mem_of_mem_ofList {e : κ × α} {es : List (κ × α)} (h : e ∈ ofList es) : e ∈ es := by
  have hfold : ∀ (es t : List (κ × α)),
      e ∈ es.foldl (fun t e => insert e.1 e.2 t) t → e ∈ t ∨ e ∈ es := by
    intro es
    induction es with
    | nil => exact fun t h => .inl h
    | cons e' es ih =>
        intro t h
        rcases ih _ h with h | h
        · rcases mem_insert h with rfl | h
          · exact .inr List.mem_cons_self
          · exact .inl h
        · exact .inr (List.mem_cons_of_mem _ h)
  exact (hfold es [] h).elim (fun h => absurd h (List.not_mem_nil)) id

/-- If no key is written twice, the keys stay in the order of writing. -/
theorem keys_ofList_of_nodup {es : List (κ × α)} (h : (keys es).Nodup) :
    keys (ofList es) = keys es := by
  rw [keys_ofList]
  generalize keys es = ks at h
  induction ks with
  | nil => rfl
  | cons k ks ih =>
      obtain ⟨hk, hks⟩ := List.nodup_cons.1 h
      have hothers : (ks.filter fun j => !j == k) = ks :=
        List.filter_eq_self.2 fun j hj => by
          have hne : j ≠ k := fun he => hk (he ▸ hj)
          simpa using hne
      rw [List.eraseDups_cons, hothers, ih hks]

end Entries

/-! ### The values of computations -/

namespace Eval

variable {α β : Type} {Q : α → Prop}

/-- Every value that the computation ends in has the property `Q`. -/
def Gives (Q : α → Prop) (x : Eval α) : Prop := ∀ s a t, Ends x s (.ok a) t → Q a

theorem Gives.pure {a : α} (ha : Q a) : Gives Q (Pure.pure a : Eval α) := by
  intro s b t h
  cases (ends_pure_iff.1 h).1
  exact ha

theorem Gives.throw (e : EvalError) : Gives Q (MonadExcept.throw e : Eval α) := by
  intro s a t h
  cases (ends_throw_iff.1 h).1

theorem Gives.bind {R : β → Prop} {x : Eval α} {f : α → Eval β} (hx : Gives Q x)
    (hf : ∀ a, Q a → Gives R (f a)) : Gives R (x >>= f) := by
  intro s b t h
  rcases ends_bind_iff.1 h with ⟨e, -, he⟩ | ⟨a, u, ha, hfa⟩
  · cases he
  · exact hf a (hx s a u ha) u b t hfa

theorem gives_true (x : Eval α) : Gives (fun _ => True) x := fun _ _ _ _ => trivial

theorem gives_keyOfText (k : KeyKind) (text : String) (loc : Location) :
    Gives (fun key => key.kind = k) (keyOfText k text loc) := by
  unfold keyOfText
  cases k with
  | string => exact Gives.pure rfl
  | integer =>
      dsimp only
      split
      · exact Gives.pure rfl
      · exact Gives.throw _

variable {m : Module} {P : Value → Prop}

theorem gives_reference (hP : Value.Hereditary m P) (p : SymbolPath) (loc : Location) :
    Gives P (reference (.ofModule m) p loc) := by
  unfold reference
  split
  · next v hv =>
      rw [Registry.resolve] at hv
      split at hv
      · next hp =>
          cases hv
          exact (gives_true _).bind fun _ _ => Gives.pure (hP.ref (.of_declares hp))
      · cases hv
  · exact Gives.throw _

mutual

/-- Constants have what is handed on. -/
theorem gives_constant (hP : Value.Hereditary m P) (loc : Location) :
    ∀ (a : Attribute) (ty : Ty), Gives P (constant (.ofModule m) loc a ty)
  | .integer n, _ => Gives.pure (hP.integer n)
  | .string s, _ => Gives.pure (hP.string s)
  | .list elementTy es, _ =>
      (gives_constants hP loc elementTy es).bind fun _ hvs => Gives.pure (hP.list hvs)
  | .map valueTy es, ty => (gives_true (constantKeyKind ty loc)).bind fun k _ =>
      (gives_constantEntries hP loc k valueTy es).bind fun _ hes =>
        Gives.pure (hP.map (Entries.nodup_keys_ofList _)
          (fun key hkey => by
            obtain ⟨e, he, rfl⟩ := List.mem_map.1 hkey
            exact (hes e (Entries.mem_of_mem_ofList he)).1)
          fun e he => (hes e (Entries.mem_of_mem_ofList he)).2)
  | .ref p, _ => gives_reference hP p loc

theorem gives_constants (hP : Value.Hereditary m P) (loc : Location) (ty : Ty) :
    ∀ as : List Attribute, Gives (fun vs => ∀ v ∈ vs, P v) (constants (.ofModule m) loc ty as)
  | [] => Gives.pure (by simp)
  | a :: as => (gives_constant hP loc a ty).bind fun _ hv =>
      (gives_constants hP loc ty as).bind fun _ hvs =>
        Gives.pure (List.forall_mem_cons.2 ⟨hv, hvs⟩)

theorem gives_constantEntries (hP : Value.Hereditary m P) (loc : Location) (k : KeyKind)
    (ty : Ty) :
    ∀ es : List (String × Attribute),
      Gives (fun entries => ∀ e ∈ entries, e.1.kind = k ∧ P e.2)
        (constantEntries (.ofModule m) loc k ty es)
  | [] => Gives.pure (by simp)
  | (text, a) :: es => (gives_keyOfText k text loc).bind fun _ hkey =>
      (gives_constant hP loc a ty).bind fun _ hv =>
        (gives_constantEntries hP loc k ty es).bind fun _ hes =>
          Gives.pure (List.forall_mem_cons.2 ⟨⟨hkey, hv⟩, hes⟩)

end

/-- What is written into a map is a pair of a key of the kind and a value. -/
theorem gives_entryOf (k : KeyKind) (loc : Location) (entry : Value) :
    Gives (fun e => e.1.kind = k ∧ ∃ key, entry = .tuple [key, e.2]) (entryOf k loc entry) := by
  unfold entryOf
  split
  · next key v =>
      split
      · next key' hkey =>
          obtain ⟨-, hkind⟩ := Option.filter_eq_some_iff.1 hkey
          exact Gives.pure ⟨by simpa using hkind, key, rfl⟩
      · exact Gives.throw _
  · exact Gives.throw _

/-- A table keeps its keys apart and of one kind while pairs are written into it, and its values
have what the second halves of the pairs have. -/
theorem gives_writeEntries {k : KeyKind} {loc : Location} {es : List Value}
    (hes : ∀ e ∈ es, ∀ key v, e = .tuple [key, v] → P v) : ∀ {entries : List (Key × Value)},
      (Entries.keys entries).Nodup → (∀ e ∈ entries, e.1.kind = k ∧ P e.2) →
        Gives (fun entries => (Entries.keys entries).Nodup ∧ ∀ e ∈ entries, e.1.kind = k ∧ P e.2)
          (writeEntries k loc entries es) := by
  induction es with
  | nil => exact fun hnodup hentries => Gives.pure ⟨hnodup, hentries⟩
  | cons e es ih =>
      intro entries hnodup hentries
      rw [writeEntries]
      refine (gives_entryOf k loc e).bind fun p hp => ?_
      obtain ⟨hkind, key, hpair⟩ := hp
      have hrest : Gives _ (writeEntries k loc (Entries.insert p.1 p.2 entries) es) :=
        ih (fun e' he' => hes e' (List.mem_cons_of_mem _ he'))
          (Entries.nodup_keys_insert hnodup p.1 p.2) fun e' he' => by
            rcases Entries.mem_insert he' with rfl | he'
            · exact ⟨hkind, hes e List.mem_cons_self key p.2 hpair⟩
            · exact hentries e' he'
      dsimp only
      split
      · exact (gives_true _).bind fun _ _ => hrest
      · exact hrest

/-- So has the map of a list of pairs. -/
theorem gives_buildMap (hP : Value.Hereditary m P) {es : List Value} (hes : ∀ e ∈ es, P e)
    (keyTy valueTy : Ty) (loc : Location) : Gives P (buildMap es keyTy valueTy loc) :=
  (gives_true (keyKind keyTy loc)).bind fun k _ =>
    (gives_writeEntries (fun e he _ _ heq => hP.of_pair (heq ▸ hes e he)) (by simp) (by simp)).bind
      fun entries hentries => Gives.pure (hP.map hentries.1
        (fun key hkey => by
          obtain ⟨e, he, rfl⟩ := List.mem_map.1 hkey
          exact (hentries.2 e he).1)
        fun e he => (hentries.2 e he).2)

end Eval

/-! ### The values of meanings -/

namespace Meaning

section Gives

variable {α β : Type} {Q : α → Prop}

/-- Every value that is meant has the property `Q`. -/
def Gives (Q : α → Prop) (p : Meaning α) : Prop := ∀ a, p.run = some (.ok a) → Q a

theorem Gives.pure {a : α} (ha : Q a) : Gives Q (Pure.pure a : Meaning α) := by
  intro b h
  cases run_pure_eq_some_iff.1 h
  exact ha

theorem Gives.throw (e : EvalError) : Gives Q (MonadExcept.throw e : Meaning α) := by
  intro a h
  cases run_throw_eq_some_iff.1 h

theorem Gives.bind {R : β → Prop} {p : Meaning α} {f : α → Meaning β} (hp : Gives Q p)
    (hf : ∀ a, Q a → Gives R (f a)) : Gives R (p >>= f) := by
  intro b h
  rcases run_bind_eq_some_iff.1 h with ⟨e, -, he⟩ | ⟨a, ha, hfa⟩
  · cases he
  · exact hf a (hp a ha) b hfa

/-- One after the other, each of the values is related to what it comes from. -/
theorem Gives.mapM {R : α → β → Prop} {f : α → Meaning β} {as : List α}
    (h : ∀ a ∈ as, Gives (R a) (f a)) : Gives (List.Forall₂ R as) (as.mapM f) := by
  induction as with
  | nil => exact Gives.pure .nil
  | cons a as ih =>
      rw [List.mapM_cons]
      refine (h a List.mem_cons_self).bind fun b hb => ?_
      refine (ih fun a' ha' => h a' (List.mem_cons_of_mem _ ha')).bind fun bs hbs => ?_
      exact Gives.pure (.cons hb hbs)

theorem Gives.mono {R : α → Prop} {p : Meaning α} (h : Gives Q p) (hQR : ∀ a, Q a → R a) :
    Gives R p := fun a ha => hQR a (h a ha)

theorem Gives.ofEval {x : Eval α} (hx : Eval.Gives Q x) : Gives Q (ofEval x) := by
  intro a h
  obtain ⟨t, ht⟩ := run_ofEval_eq_some_iff.1 h
  exact hx {} a t ht

theorem gives_true (p : Meaning α) : Gives (fun _ => True) p := fun _ _ => trivial

end Gives

end Meaning

/-- The parameters of the class in whose body names are used have values with the property. -/
def Scope.Has (P : Value → Prop) (σ : Scope) : Prop :=
  ∀ c params, σ.body = some (c, params) → ∀ p ∈ params, P p.2

theorem Scope.has_outside (P : Value → Prop) (σ : Scope) : σ.outside.Has P :=
  fun _ _ h => by cases h

theorem Scope.has_enter {P : Value → Prop} (σ : Scope) (c : Class) {actuals : List Value}
    (h : ∀ v ∈ actuals, P v) : (σ.enter c actuals).Has P := by
  intro c' params hbody p hp
  cases hbody
  exact h p.2 (List.of_mem_zip (Entries.mem_of_mem_ofList hp)).2

namespace Meaning

variable {m : Module} {maxDepth : Nat} {names : Names} {P : Value → Prop}

/-- Names have values with the property in scopes whose parameters have such values. -/
def Names.Give (P : Value → Prop) (names : Names) : Prop :=
  ∀ (σ : Scope), σ.Has P → ∀ i name span, Gives P (names σ i name span)

theorem gives_operands (hnames : names.Give P) {σ : Scope} (hσ : σ.Has P) (i : Nat)
    (xs : List Ident) : Gives (fun vs => ∀ v ∈ vs, P v) (operands names σ i xs) := by
  have hall : Gives (List.Forall₂ (fun _ v => P v) xs) (operands names σ i xs) :=
    Gives.mapM fun x _ => hnames σ hσ i x.name x.span
  exact hall.mono fun _ hvs => hvs.forall_mem_right fun _ _ _ hv => hv

/-- Each field of an object is named, and its value is related to it if what it exposes has only
such values. -/
theorem gives_fieldValues {R : Field → Value → Prop} {σ : Scope} {c : Class}
    (h : ∀ p ∈ c.placedFields, Gives (R p.2) (names σ p.1 p.2.value.name p.2.span)) :
    Gives (List.Forall₂ (fun f e => e.1 = f.name.name ∧ R f e.2) c.fields)
      (fieldValues names σ c) := by
  have hall : Gives (List.Forall₂ (fun p e => e.1 = p.2.name.name ∧ R p.2 e.2) c.placedFields)
      (fieldValues names σ c) :=
    Gives.mapM fun p hp => (h p hp).bind fun _ hv => Gives.pure ⟨rfl, hv⟩
  refine hall.mono fun es hes => ?_
  rw [← c.map_placedFields, List.forall₂_map_left_iff]
  exact hes

/-- The names of fields are written down in their order. -/
theorem keys_of_forall₂ {R : Field → Value → Prop} {fields : List Field}
    {es : List (String × Value)}
    (h : List.Forall₂ (fun f e => e.1 = f.name.name ∧ R f e.2) fields es) :
    Entries.keys es = fields.map fun f => f.name.name := by
  induction h with
  | nil => rfl
  | cons he _ ih => rw [Entries.keys_cons, List.map_cons, he.1, ih]

/-- A value that a name stands for is one of those of the parameters. -/
theorem bound_of_definition? {r : Registry} {find : Scoping} {σ : Scope} {i : Nat} {x : String}
    {v : Value} (h : definition? r find σ i x = some (.bound v)) :
    ∃ c params, σ.body = some (c, params) ∧ (x, v) ∈ params := by
  have hshared : shared? r σ x ≠ some (.bound v) := by
    intro hs
    obtain ⟨op, -, he⟩ := Option.map_eq_some_iff.1 hs
    cases he
  rw [definition?] at h
  split at h
  · next c params hbody =>
      refine ⟨c, params, hbody, ?_⟩
      cases hv : params.lookup x with
      | some w =>
          obtain rfl : w = v := by simpa [hv] using h
          obtain ⟨before, after, rfl, -⟩ := List.lookup_eq_some_iff.1 hv
          simp
      | none =>
          rw [hv] at h
          dsimp only at h
          split at h
          · cases h
          · exact absurd h hshared
  · exact absurd h hshared

section Hereditary

variable (hP : Value.Hereditary m P)

include hP

/-- An object has what is handed on, and the fields of its class. -/
theorem gives_object_of (hm : m.WellFormed) (hnames : names.Give P) (σ : Scope) (name : String)
    {actuals : List Value} (hactuals : ∀ v ∈ actuals, P v) (site : Option Location) :
    Gives (fun o => P o.toValue ∧ (Registry.ofModule m).class? name = some o.cls ∧
        Entries.keys o.fields = o.cls.fields.map fun f => f.name.name)
      (object (.ofModule m) maxDepth names σ name actuals site) := by
  unfold Meaning.object
  split
  · exact Gives.throw _
  · next c hc =>
      split
      · exact Gives.throw _
      · refine (gives_true _).bind fun _ _ => ?_
        have hmem := (Registry.mem_of_class? hc).1
        have hfields : Gives _ (fieldValues names (σ.enter c actuals) c) :=
          gives_fieldValues (R := fun _ v => P v) fun p _ =>
            hnames _ (σ.has_enter c hactuals) p.1 p.2.value.name p.2.span
        refine hfields.bind fun es hes => ?_
        have hkeys := keys_of_forall₂ hes
        have hnodup : (Entries.keys es).Nodup := by
          rw [hkeys]
          exact (hm.classes _ hmem).nodup_fields
        have hfields : Entries.keys (Entries.ofList es) = c.fields.map fun f => f.name.name := by
          rw [Entries.keys_ofList_of_nodup hnodup, hkeys]
        have hvalues : ∀ e ∈ Entries.ofList es, P e.2 := fun e he =>
          hes.forall_mem_right (fun _ _ _ hv => hv.2) e (Entries.mem_of_mem_ofList he)
        exact Gives.pure
          ⟨hP.object hmem hfields (Entries.nodup_keys_ofList es) hvalues, hc, hfields⟩

/-- So has the value of an operation. -/
theorem gives_operation_of (hm : m.WellFormed) (hnames : names.Give P) {σ : Scope}
    (hσ : σ.Has P) (i : Nat) (op : Operation) :
    Gives P (operation (.ofModule m) maxDepth names σ i op) := by
  unfold Meaning.operation
  cases op.action with
  | constant value ty => exact Gives.ofEval (Eval.gives_constant hP _ value ty)
  | object target actuals operandTys ty =>
      exact (gives_operands hnames hσ i actuals).bind fun vs hvs =>
        (gives_object_of hP hm hnames σ target.name hvs _).bind fun o ho => Gives.pure ho.1
  | listCreate elements elementTy =>
      exact (gives_operands hnames hσ i elements).bind fun vs hvs => Gives.pure (hP.list hvs)
  | tupleCreate elements elementTys =>
      exact (gives_operands hnames hσ i elements).bind fun vs hvs => Gives.pure (hP.tuple hvs)
  | mapCreate entries keyTy valueTy =>
      exact (gives_operands hnames hσ i entries).bind fun vs hvs =>
        Gives.ofEval (Eval.gives_buildMap hP hvs keyTy valueTy _)
  | field name value ty => exact Gives.throw _

/-- So have the values of names, however deep operations ask for operands. -/
theorem gives_upTo_of (hm : m.WellFormed) {find : Scoping} (hfind : find.Lawful) (n : Nat) :
    (upTo (.ofModule m) maxDepth find n).Give P := by
  induction n with
  | zero =>
      intro σ _ i name span v h
      cases h
  | succ n ih =>
      intro σ hσ i name span
      rw [upTo_succ]
      cases hd : definition? (.ofModule m) find σ i name with
      | none => exact Gives.throw _
      | some d =>
          cases d with
          | bound v =>
              obtain ⟨c, params, hbody, hv⟩ := bound_of_definition? hd
              exact Gives.pure (hσ c params hbody _ hv)
          | computed τ j op =>
              have hτ : τ.Has P := by
                rcases (holds_of_definition? hfind hd).1 with rfl | rfl
                · exact hσ
                · exact Scope.has_outside P σ
              exact gives_operation_of hP hm ih hτ j op

end Hereditary

/-- An object is well formed. -/
theorem gives_object (hm : m.WellFormed) (hnames : names.Give (Value.WellFormed m)) (σ : Scope)
    (name : String) {actuals : List Value} (hactuals : ∀ v ∈ actuals, v.WellFormed m)
    (site : Option Location) :
    Gives (fun o => o.toValue.WellFormed m ∧ (Registry.ofModule m).class? name = some o.cls)
      (object (.ofModule m) maxDepth names σ name actuals site) :=
  (gives_object_of (Value.WellFormed.hereditary m) hm hnames σ name hactuals site).mono
    fun _ ho => ⟨ho.1, ho.2.1⟩

/-- The values of names are well formed. -/
theorem gives_upTo (hm : m.WellFormed) {find : Scoping} (hfind : find.Lawful) (n : Nat) :
    (upTo (.ofModule m) maxDepth find n).Give (Value.WellFormed m) :=
  gives_upTo_of (Value.WellFormed.hereditary m) hm hfind n

end Meaning

/-- What is handed on is handed to the objects that calls on accepted modules make.  They are of the
class that was asked for, and their fields are those of the class. -/
theorem Value.Hereditary.of_instantiate {m : Module} {P : Value → Prop}
    (hP : Value.Hereditary m P) (hm : m.WellFormed) {maxDepth : Nat} {name : String}
    {actuals : List Value} (hactuals : ∀ v ∈ actuals, P v) {o : Object}
    (h : (Registry.ofModule m).instantiate maxDepth name actuals = some (.ok o)) :
    P o.toValue ∧ (Registry.ofModule m).class? name = some o.cls ∧
      Entries.keys o.fields = o.cls.fields.map fun f => f.name.name := by
  obtain ⟨res, ⟨n, hn⟩, hres⟩ := Registry.yields_of_instantiate hm.no_objects h
  cases res with
  | error e => cases hres
  | ok o' =>
      cases hres
      exact Meaning.gives_object_of hP hm (Meaning.gives_upTo_of hP hm Scoping.lawful_whole n)
        ⟨0, none⟩ name hactuals none o hn

/-- **Evaluation makes well-formed values.**  When the values for the parameters are well formed, an
object that a call on an accepted module makes is well formed, and it is of the class that was asked
for. -/
theorem Registry.wellFormed_of_instantiate {m : Module} {quote : Nat → String} {r : Registry}
    (hbuild : Registry.build m quote = .ok r) {maxDepth : Nat} {name : String}
    {actuals : List Value} (hactuals : ∀ v ∈ actuals, v.WellFormed m) {o : Object}
    (h : r.instantiate maxDepth name actuals = some (.ok o)) :
    o.toValue.WellFormed m ∧ r.class? name = some o.cls := by
  obtain ⟨hm, rfl⟩ := Registry.build_eq_ok_iff.1 hbuild
  obtain ⟨res, ⟨n, hn⟩, hres⟩ := Registry.yields_of_instantiate hm.no_objects h
  cases res with
  | error e => cases hres
  | ok o' =>
      cases hres
      exact Meaning.gives_object hm (Meaning.gives_upTo hm Scoping.lawful_whole n) ⟨0, none⟩ name
        hactuals none o hn

/-- A board with a light, and a lamp that has the light under one number, written down twice. -/
def Module.lit : Module where
  file := "lamp.mlir"
  span := default
  items := [
    .ofHardware ⟨⟨"Board", default⟩, [⟨"led", default⟩], default⟩,
    .ofClass {
      name := ⟨"Lamp", default⟩
      params := [⟨⟨"label", default⟩, .string, default⟩]
      body := [
        ⟨some ⟨"led", default⟩, .constant (.ref ⟨["Board", "led"]⟩) .ref, default⟩,
        ⟨some ⟨"one", default⟩, .constant (.integer 1) .integer, default⟩,
        ⟨some ⟨"pair", default⟩, .tupleCreate [⟨"one", default⟩, ⟨"led", default⟩]
          [.integer, .ref], default⟩,
        ⟨some ⟨"map", default⟩, .mapCreate [⟨"pair", default⟩, ⟨"pair", default⟩] .integer .ref,
          default⟩,
        ⟨none, .field ⟨"leds", default⟩ ⟨"map", default⟩ (.map .integer .ref), default⟩,
        ⟨none, .field ⟨"label", default⟩ ⟨"label", default⟩ .string, default⟩]
      span := default }]

/-- The map of a lamp has its key once. -/
theorem Registry.wellFormed_of_instantiate_lit :
    Registry.build Module.lit (fun _ => "") = .ok (ofModule Module.lit) ∧
    (∀ v ∈ [Value.string "desk"], v.WellFormed Module.lit) ∧
    ∃ o, (ofModule Module.lit).instantiate 8 "Lamp" [.string "desk"] = some (.ok o) ∧
      o.toValue.WellFormed Module.lit ∧ (ofModule Module.lit).class? "Lamp" = some o.cls ∧
      Entries.keys o.fields = ["leds", "label"] ∧
      o.field? "leds" = some (.map .integer .ref [(.integer 1, .ref ⟨["Board", "led"]⟩)]) := by
  have hbuild : Registry.build Module.lit (fun _ => "") = .ok (ofModule Module.lit) := rfl
  have hactuals : ∀ v ∈ [Value.string "desk"], v.WellFormed Module.lit := by
    intro v hv
    obtain rfl := List.mem_singleton.1 hv
    exact .string "desk"
  have hlamp : (ofModule Module.lit).instantiate 8 "Lamp" [.string "desk"] = some (.ok _) := rfl
  obtain ⟨hwf, hclass⟩ := Registry.wellFormed_of_instantiate hbuild hactuals hlamp
  exact ⟨hbuild, hactuals, _, hlamp, hwf, hclass, rfl, rfl⟩

end ObjectModel
