/-
**Two ways of building a map.**

A map is written down as a constant, whose keys are texts, or it is built from pairs that other
operations make.  Texts become keys by the type of the map, so that different texts may be one key.
Both ways write the entries one after the other into an empty table, where a key that comes again
keeps its place and takes the new value.

Main definitions:

* `KeyKind.read?`, `Key.written` — the key that a text is read as, and the constant of a key;
* `Eval.Always` — a computation that ends with one value in every state;
* `Registry.Computes`, `Registry.MakesPair` — a name is computed by an operation with such an
  action, and it stands for the pair of an entry;
* `Registry.MakesMap` — a name is computed as the map of some entries, in one of the two ways.

Main results:

* `Eval.Ends.always` — the value of a constant hangs neither on the state nor on where it stands;
* `Eval.always_constantEntries`, `Eval.always_writeEntries` — what each of the two loops makes;
* `Registry.maps_agree` — **both ways make the same map**.
-/

import ObjectModel.Proofs.Check
import ObjectModel.Proofs.Depth
import ObjectModel.Proofs.WellFormedValue

set_option relaxedAutoImplicit false
set_option autoImplicit false

namespace ObjectModel

/-! ### Keys -/

/-- The key that a text is read as in a map whose keys are of a kind. -/
def KeyKind.read? : KeyKind → String → Option Key
  | .integer, text => (Decimal.int64? text).map .integer
  | .string, text => some (.string text)

/-- The constant of a key. -/
def Key.written : Key → Attribute
  | .integer n => .integer n
  | .string s => .string s

theorem KeyKind.kind_of_read? {k : KeyKind} {text : String} {key : Key}
    (h : k.read? text = some key) : key.kind = k := by
  cases k with
  | integer =>
      obtain ⟨n, -, rfl⟩ := Option.map_eq_some_iff.1 h
      rfl
  | string =>
      cases h
      rfl

namespace Eval

variable {α β : Type} {r : Registry}

/-! ### Computations that end with one value -/

/-- The computation ends with the value `a`, whatever the state. -/
def Always (x : Eval α) (a : α) : Prop := ∀ s, ∃ t, Ends x s (.ok a) t

theorem Always.pure (a : α) : Always (Pure.pure a : Eval α) a :=
  fun s => ⟨s, ends_pure_iff.2 ⟨rfl, rfl⟩⟩

theorem Always.write (e : Event) : Always (Eval.write e) () :=
  fun _ => ⟨_, ends_write_iff.2 ⟨rfl, rfl⟩⟩

theorem Always.bind {x : Eval α} {f : α → Eval β} {a : α} {b : β} (hx : Always x a)
    (hf : Always (f a) b) : Always (x >>= f) b := by
  intro s
  obtain ⟨u, hu⟩ := hx s
  obtain ⟨t, ht⟩ := hf u
  exact ⟨t, ends_bind_iff.2 (.inr ⟨a, u, hu, ht⟩)⟩

/-- What ends with a value has a first part that does. -/
theorem exists_of_ends_bind {x : Eval α} {f : α → Eval β} {s t : EvalState} {b : β}
    (h : Ends (x >>= f) s (.ok b) t) : ∃ a u, Ends x s (.ok a) u ∧ Ends (f a) u (.ok b) t := by
  rcases ends_bind_iff.1 h with ⟨e, -, he⟩ | h
  · cases he
  · exact h

theorem eq_of_ends_pure {a b : α} {s t : EvalState}
    (h : Ends (Pure.pure a : Eval α) s (.ok b) t) : b = a := by
  obtain ⟨he, -⟩ := ends_pure_iff.1 h
  exact Except.ok.inj he

/-! ### Constants -/

variable {loc : Location} {s t : EvalState}

theorem Ends.always_keyKind (loc' : Location) {ty : Ty} {k : KeyKind}
    (h : Ends (keyKind ty loc) s (.ok k) t) : Always (keyKind ty loc') k := by
  unfold keyKind at h ⊢
  split at h
  · next k' hk =>
      rw [eq_of_ends_pure h]
      exact Always.pure k'
  · cases (ends_throw_iff.1 h).1

theorem Ends.always_constantKeyKind (loc' : Location) {ty : Ty} {k : KeyKind}
    (h : Ends (constantKeyKind ty loc) s (.ok k) t) : Always (constantKeyKind ty loc') k := by
  cases ty with
  | map keyTy valueTy =>
      have hkind : Ends (keyKind keyTy loc) s (.ok k) t := h
      exact hkind.always_keyKind loc'
  | _ =>
      rw [eq_of_ends_pure h]
      exact Always.pure _

/-- A text that is read as a key becomes that key, wherever it stands. -/
theorem always_keyOfText {k : KeyKind} {text : String} {key : Key}
    (h : k.read? text = some key) (loc : Location) : Always (keyOfText k text loc) key := by
  cases k with
  | integer =>
      obtain ⟨n, hn, rfl⟩ := Option.map_eq_some_iff.1 h
      rw [keyOfText, hn]
      exact Always.pure _
  | string =>
      cases h
      exact Always.pure _

/-- A text that becomes a key is read as that key. -/
theorem read?_of_ends {k : KeyKind} {text : String} {key : Key}
    (h : Ends (keyOfText k text loc) s (.ok key) t) : k.read? text = some key := by
  cases k with
  | integer =>
      rw [keyOfText] at h
      split at h
      · next n hn => rw [eq_of_ends_pure h, KeyKind.read?, hn, Option.map_some]
      · cases (ends_throw_iff.1 h).1
  | string => rw [eq_of_ends_pure h, KeyKind.read?]

theorem Ends.always_reference (loc' : Location) {p : SymbolPath} {v : Value}
    (h : Ends (reference r p loc) s (.ok v) t) : Always (reference r p loc') v := by
  unfold reference Registry.resolve at h ⊢
  by_cases hp : r.declares p
  · rw [if_pos hp] at h ⊢
    obtain ⟨_, _, -, hv⟩ := exists_of_ends_bind h
    rw [eq_of_ends_pure hv]
    exact (Always.write _).bind (Always.pure _)
  · rw [if_neg hp] at h
    cases (ends_throw_iff.1 h).1

mutual

/-- The value of a constant hangs neither on the state nor on where the constant stands. -/
theorem Ends.always (loc' : Location) : ∀ (a : Attribute) (ty : Ty) {s t : EvalState} {v : Value},
    Ends (constant r loc a ty) s (.ok v) t → Always (constant r loc' a ty) v
  | .integer n, ty, s, t, v, h => by
      rw [constant] at h ⊢
      rw [eq_of_ends_pure h]
      exact Always.pure _
  | .string text, ty, s, t, v, h => by
      rw [constant] at h ⊢
      rw [eq_of_ends_pure h]
      exact Always.pure _
  | .list elementTy es, ty, s, t, v, h => by
      rw [constant] at h ⊢
      obtain ⟨vs, u, hvs, hv⟩ := exists_of_ends_bind h
      rw [eq_of_ends_pure hv]
      exact (Ends.always_constants loc' elementTy es hvs).bind (Always.pure _)
  | .map valueTy es, ty, s, t, v, h => by
      rw [constant] at h ⊢
      obtain ⟨k, u, hk, h⟩ := exists_of_ends_bind h
      obtain ⟨entries, u', hentries, hv⟩ := exists_of_ends_bind h
      rw [eq_of_ends_pure hv]
      exact (Ends.always_constantKeyKind loc' hk).bind
        ((Ends.always_constantEntries loc' k valueTy es hentries).bind (Always.pure _))
  | .ref p, ty, s, t, v, h => by
      rw [constant] at h ⊢
      exact Ends.always_reference loc' h

theorem Ends.always_constants (loc' : Location) (ty : Ty) :
    ∀ (as : List Attribute) {s t : EvalState} {vs : List Value},
      Ends (constants r loc ty as) s (.ok vs) t → Always (constants r loc' ty as) vs
  | [], s, t, vs, h => by
      rw [constants] at h ⊢
      rw [eq_of_ends_pure h]
      exact Always.pure _
  | a :: as, s, t, vs, h => by
      rw [constants] at h ⊢
      obtain ⟨v, u, hv, h⟩ := exists_of_ends_bind h
      obtain ⟨ws, u', hws, hvs⟩ := exists_of_ends_bind h
      rw [eq_of_ends_pure hvs]
      exact (Ends.always loc' a ty hv).bind
        ((Ends.always_constants loc' ty as hws).bind (Always.pure _))

theorem Ends.always_constantEntries (loc' : Location) (k : KeyKind) (ty : Ty) :
    ∀ (es : List (String × Attribute)) {s t : EvalState} {entries : List (Key × Value)},
      Ends (constantEntries r loc k ty es) s (.ok entries) t →
        Always (constantEntries r loc' k ty es) entries
  | [], s, t, entries, h => by
      rw [constantEntries] at h ⊢
      rw [eq_of_ends_pure h]
      exact Always.pure _
  | (text, a) :: es, s, t, entries, h => by
      rw [constantEntries] at h ⊢
      obtain ⟨key, u, hkey, h⟩ := exists_of_ends_bind h
      obtain ⟨v, u', hv, h⟩ := exists_of_ends_bind h
      obtain ⟨rest, u'', hrest, hentries⟩ := exists_of_ends_bind h
      rw [eq_of_ends_pure hentries]
      -- a text that was a key once is a key of that kind wherever its entry stands
      exact (always_keyOfText (read?_of_ends hkey) loc').bind
        ((Ends.always loc' a ty hv).bind
          ((Ends.always_constantEntries loc' k ty es hrest).bind (Always.pure _)))

end

/-- The constant of a key has the key as its value. -/
theorem always_written (r : Registry) (loc : Location) (key : Key) (ty : Ty) :
    Always (constant r loc key.written ty) key.toValue := by
  cases key with
  | integer n => exact Always.pure _
  | string text => exact Always.pure _

/-! ### The two loops -/

/-- The entry of a constant map stands for a key and a value. -/
def StandsFor (r : Registry) (k : KeyKind) (valueTy : Ty) (e : String × Attribute)
    (p : Key × Value) : Prop :=
  k.read? e.1 = some p.1 ∧ ∀ loc, Always (constant r loc e.2 valueTy) p.2

/-- The pair of a key and a value. -/
def pairOf (p : Key × Value) : Value := .tuple [p.1.toValue, p.2]

/-- The entries of a constant map are read one by one. -/
theorem always_constantEntries {k : KeyKind} {valueTy : Ty} {es : List (String × Attribute)}
    {ps : List (Key × Value)} (h : List.Forall₂ (StandsFor r k valueTy) es ps) (loc : Location) :
    Always (constantEntries r loc k valueTy es) ps := by
  induction h with
  | nil => exact Always.pure _
  | cons he hes ih =>
      rw [constantEntries]
      exact (always_keyOfText he.1 loc).bind ((he.2 loc).bind (ih.bind (Always.pure _)))

theorem always_entryOf {k : KeyKind} {p : Key × Value} (hp : p.1.kind = k) (loc : Location) :
    Always (entryOf k loc (pairOf p)) p := by
  have hkey : Key.ofValue? p.1.toValue = some p.1 := Key.ofValue?_eq_some_iff.2 rfl
  simp only [entryOf, pairOf, hkey, Option.filter_some, hp, decide_true, if_true]
  exact Always.pure _

/-- Pairs are written one by one, and a key that comes again is only noted in the journal. -/
theorem always_writeEntries {k : KeyKind} {ps : List (Key × Value)}
    (h : ∀ p ∈ ps, p.1.kind = k) (loc : Location) (entries : List (Key × Value)) :
    Always (writeEntries k loc entries (ps.map pairOf))
      (ps.foldl (fun t p => Entries.insert p.1 p.2 t) entries) := by
  induction ps generalizing entries with
  | nil => exact Always.pure _
  | cons p ps ih =>
      have hrest := ih (fun q hq => h q (List.mem_cons_of_mem _ hq))
        (Entries.insert p.1 p.2 entries)
      rw [List.map_cons, writeEntries]
      -- whether the key is new decides only what the journal says
      refine (always_entryOf (h p List.mem_cons_self) loc).bind ?_
      dsimp only
      split
      · exact (Always.write _).bind hrest
      · exact hrest

theorem always_keyKind {keyTy : Ty} {k : KeyKind} (h : KeyKind.ofTy? keyTy = some k)
    (loc : Location) : Always (keyKind keyTy loc) k := by
  rw [keyKind, h]
  exact Always.pure _

/-- The map of a constant: its entries are written into a table. -/
theorem always_constant_map {keyTy valueTy : Ty} {k : KeyKind}
    (hk : KeyKind.ofTy? keyTy = some k) {es : List (String × Attribute)} {ps : List (Key × Value)}
    (h : List.Forall₂ (StandsFor r k valueTy) es ps) (loc : Location) :
    Always (constant r loc (.map valueTy es) (.map keyTy valueTy))
      (.map k valueTy (Entries.ofList ps)) := by
  rw [constant]
  exact Always.bind (always_keyKind hk loc)
    ((always_constantEntries h loc).bind (Always.pure _))

/-- The map of pairs: they are written into a table. -/
theorem always_buildMap {keyTy valueTy : Ty} {k : KeyKind} (hk : KeyKind.ofTy? keyTy = some k)
    {ps : List (Key × Value)} (h : ∀ p ∈ ps, p.1.kind = k) (loc : Location) :
    Always (buildMap (ps.map pairOf) keyTy valueTy loc)
      (.map k valueTy (Entries.ofList ps)) := by
  rw [buildMap]
  exact (always_keyKind hk loc).bind ((always_writeEntries h loc []).bind (Always.pure _))

end Eval

/-! ### What names stand for -/

/-- The operation that computes a name which is used in the body of a class or outside of all
classes, and where the operands of the operation are looked up. -/
inductive Registry.Finds (r : Registry) :
    Option Class → String → Option Class → Operation → Prop where
  /-- The class defines the name. -/
  | body {c : Class} {name : String} {op : Operation} (hparam : name ∉ c.paramNames)
      (hop : c.definition? name = some op) : Finds r (some c) name (some c) op
  /-- No class defines the name, and it is shared. -/
  | shared {scope : Option Class} {name : String} {op : Operation}
      (hclass : ∀ c, scope = some c → name ∉ c.paramNames ∧ c.definition? name = none)
      (hop : r.value? name = some op) : Finds r scope name none op

/-- The name is computed by an operation with such an action. -/
def Registry.Computes (r : Registry) (scope : Option Class) (name : String) (action : Action)
    (scope' : Option Class) : Prop :=
  ∃ op, r.Finds scope name scope' op ∧ op.action = action

/-- The name is computed from an entry of a constant map: it is the tuple of the constant of its
key and of the constant of its value. -/
def Registry.MakesPair (r : Registry) (scope : Option Class) (k : KeyKind) (keyTy valueTy : Ty)
    (e : String × Attribute) (x : Ident) : Prop :=
  ∃ scope' keyScope valueScope key y z tys, k.read? e.1 = some key ∧
    r.Computes scope x.name (.tupleCreate [y, z] tys) scope' ∧
    r.Computes scope' y.name (.constant key.written keyTy) keyScope ∧
    r.Computes scope' z.name (.constant e.2 valueTy) valueScope

/-- The name is computed as the map of some entries, in one of two ways. -/
inductive Registry.MakesMap (r : Registry) (scope : Option Class) (k : KeyKind)
    (keyTy valueTy : Ty) (es : List (String × Attribute)) (name : String) : Prop where
  /-- The map is a constant. -/
  | constant {scope' : Option Class}
      (h : r.Computes scope name (.constant (.map valueTy es) (.map keyTy valueTy)) scope')
  /-- The map is created from pairs. -/
  | pairs {scope' : Option Class} {xs : List Ident}
      (h : r.Computes scope name (.mapCreate xs keyTy valueTy) scope')
      (hpairs : List.Forall₂ (r.MakesPair scope' k keyTy valueTy) es xs)

namespace Meaning

open Eval (Always StandsFor pairOf)

variable {α β : Type} {m : Module} {σ : Scope} {maxDepth n : Nat}

theorem run_ofEval_of_always {x : Eval α} {a : α} (h : Always x a) :
    (ofEval x).run = some (.ok a) := run_ofEval_eq_some_iff.2 (h {})

theorem run_bind_of_ok {p : Meaning α} {f : α → Meaning β} {a : α} {res : Except EvalError β}
    (hp : p.run = some (.ok a)) (hf : (f a).run = some res) : (p >>= f).run = some res :=
  run_bind_eq_some_iff.2 (.inr ⟨a, hp, hf⟩)

theorem run_mapM_of_forall₂ {f : α → Meaning β} {as : List α} {bs : List β}
    (h : List.Forall₂ (fun a b => (f a).run = some (.ok b)) as bs) :
    (as.mapM f).run = some (.ok bs) := by
  induction h with
  | nil => exact run_pure_eq_some_iff.2 rfl
  | cons hb _ ih => exact run_mapM_cons_eq_some_iff.2 (.inr ⟨_, hb, _, ih, rfl⟩)

/-- The operation that computes a name is what the name stands for. -/
theorem definition?_of_finds (hσ : σ.Proper m) {name : String} {scope' : Option Class}
    {op : Operation} (h : (Registry.ofModule m).Finds (σ.body.map Prod.fst) name scope' op) :
    ∃ τ j, τ.body.map Prod.fst = scope' ∧ τ.Proper m ∧
      ∀ i, definition? (.ofModule m) .whole σ i name = some (.computed τ j op) := by
  generalize hscope : σ.body.map Prod.fst = scope at h
  cases h with
  | @body c _ _ hparam hop =>
      obtain ⟨⟨_, params⟩, hbody, rfl⟩ := Option.map_eq_some_iff.1 hscope
      -- a parameter of that name would come first
      have hunbound := hσ.unbound hbody hparam
      rw [Class.definition?, ← map_locate, Option.map_eq_some_iff] at hop
      obtain ⟨⟨j, _⟩, hj, rfl⟩ := hop
      exact ⟨σ, j, hscope, hσ, fun i => by simp [definition?, hbody, hunbound, Scoping.whole, hj]⟩
  | shared hclass hop =>
      refine ⟨σ.outside, 0, rfl, Scope.proper_outside m σ.depth, fun i => ?_⟩
      have hshared : shared? (.ofModule m) σ name = some (.computed σ.outside 0 op) := by
        rw [shared?, hop, Option.map_some]
      cases hbody : σ.body with
      | none => rw [definition?, hbody, hshared]
      | some p =>
          obtain ⟨c, params⟩ := p
          obtain ⟨hparam, hnot⟩ := hclass c (by rw [← hscope, hbody, Option.map_some])
          rw [Class.definition?, ← map_locate, Option.map_eq_none_iff] at hnot
          simp [definition?, hbody, hσ.unbound hbody hparam, Scoping.whole, hnot, hshared]

/-- A name means what the operation means that computes it, wherever that is. -/
theorem run_upTo_of_computes (hσ : σ.Proper m) {name : String} {action : Action}
    {scope' : Option Class} {v : Value}
    (h : (Registry.ofModule m).Computes (σ.body.map Prod.fst) name action scope')
    (hrun : ∀ τ j op, τ.Proper m → τ.body.map Prod.fst = scope' → op.action = action →
      (operation (.ofModule m) maxDepth (upTo (.ofModule m) maxDepth .whole n) τ j op).run =
        some (.ok v)) (i : Nat) (span : Span) :
    (upTo (.ofModule m) maxDepth .whole (n + 1) σ i name span).run = some (.ok v) := by
  obtain ⟨op, hfinds, haction⟩ := h
  obtain ⟨τ, j, hscope', hτ, hdef⟩ := definition?_of_finds hσ hfinds
  exact run_upTo_of_computed (hdef i) (hrun τ j op hτ hscope' haction)

theorem run_upTo_constant (hσ : σ.Proper m) {name : String} {a : Attribute} {ty : Ty}
    {scope' : Option Class} {v : Value}
    (h : (Registry.ofModule m).Computes (σ.body.map Prod.fst) name (.constant a ty) scope')
    (hv : ∀ loc, Always (Eval.constant (.ofModule m) loc a ty) v) (i : Nat) (span : Span) :
    (upTo (.ofModule m) maxDepth .whole (n + 1) σ i name span).run = some (.ok v) := by
  refine run_upTo_of_computes hσ h (fun τ j op _ _ haction => ?_) i span
  rw [operation, haction]
  exact run_ofEval_of_always (hv _)

/-- The name of an entry means its pair. -/
theorem run_upTo_pair (hσ : σ.Proper m) {k : KeyKind} {keyTy valueTy : Ty}
    {e : String × Attribute} {p : Key × Value} {x : Ident}
    (h : (Registry.ofModule m).MakesPair (σ.body.map Prod.fst) k keyTy valueTy e x)
    (he : StandsFor (.ofModule m) k valueTy e p) (i : Nat) (span : Span) :
    (upTo (.ofModule m) maxDepth .whole (n + 2) σ i x.name span).run =
      some (.ok (pairOf p)) := by
  obtain ⟨scope', _, _, key, y, z, tys, hkey, htuple, hy, hz⟩ := h
  obtain rfl : key = p.1 := Option.some.inj (hkey.symm.trans he.1)
  refine run_upTo_of_computes hσ htuple (fun τ j op hτ hscope' haction => ?_) i span
  subst hscope'
  have hvalues := run_mapM_of_forall₂ (f := fun x : Ident =>
    upTo (.ofModule m) maxDepth .whole (n + 1) τ j x.name x.span) (.cons
      (run_upTo_constant hτ hy (fun loc => Eval.always_written _ loc p.1 keyTy) j y.span)
      (.cons (run_upTo_constant hτ hz he.2 j z.span) .nil))
  rw [operation, haction]
  exact run_bind_of_ok hvalues (run_pure_eq_some_iff.2 rfl)

/-- The name of a map means the table of its entries, in whichever way it is computed. -/
theorem run_upTo_map (hσ : σ.Proper m) {k : KeyKind} {keyTy valueTy : Ty}
    (hk : KeyKind.ofTy? keyTy = some k) {es : List (String × Attribute)}
    {ps : List (Key × Value)} (hes : List.Forall₂ (StandsFor (.ofModule m) k valueTy) es ps)
    {name : String}
    (h : (Registry.ofModule m).MakesMap (σ.body.map Prod.fst) k keyTy valueTy es name)
    (i : Nat) (span : Span) :
    (upTo (.ofModule m) maxDepth .whole (n + 3) σ i name span).run =
      some (.ok (.map k valueTy (Entries.ofList ps))) := by
  cases h with
  | constant h => exact run_upTo_constant hσ h (Eval.always_constant_map hk hes) i span
  | @pairs _ xs h hpairs =>
      refine run_upTo_of_computes hσ h (fun τ j op hτ hscope' haction => ?_) i span
      subst hscope'
      have hvalues : List.Forall₂ (fun (x : Ident) v =>
          (upTo (.ofModule m) maxDepth .whole (n + 2) τ j x.name x.span).run = some (.ok v))
          xs (ps.map pairOf) := by
        -- the entries, what they stand for and the names of their pairs go in step
        clear h haction
        induction hpairs generalizing ps with
        | nil =>
            cases hes
            exact .nil
        | cons hpair _ ih =>
            cases hes with
            | cons he hes => exact .cons (run_upTo_pair hτ hpair he j _) (ih hes)
      have hkinds : ∀ p ∈ ps, p.1.kind = k :=
        hes.forall_mem_right fun _ _ _ he => KeyKind.kind_of_read? he.1
      rw [operation, haction]
      exact run_bind_of_ok (run_mapM_of_forall₂ hvalues)
        (run_ofEval_of_always (Eval.always_buildMap hk hkinds _))

/-- An object whose fields all mean one value has it in all of its fields. -/
theorem exists_run_object_of_fields {name : String} {c : Class} {actuals : List Value} {v : Value}
    (hc : (Registry.ofModule m).class? name = some c) (hdepth : 0 < maxDepth)
    (hcheck : Always (Eval.checkActuals c actuals c.location) ())
    (h : ∀ f ∈ c.fields, ∀ i, (upTo (.ofModule m) maxDepth .whole n
      (Scope.enter ⟨0, none⟩ c actuals) i f.value.name f.span).run = some (.ok v)) :
    ∃ fields, (object (.ofModule m) maxDepth (upTo (.ofModule m) maxDepth .whole n) ⟨0, none⟩ name
        actuals none).run = some (.ok ⟨c, fields⟩) ∧
      ∀ f ∈ c.fields, fields.lookup f.name.name = some v := by
  have hplaced : List.Forall₂ (fun (p : Nat × Field) (e : String × Value) =>
      (do return (p.2.name.name, ← upTo (.ofModule m) maxDepth .whole n
        (Scope.enter ⟨0, none⟩ c actuals) p.1 p.2.value.name p.2.span) :
          Meaning (String × Value)).run = some (.ok e))
      c.placedFields (c.placedFields.map fun p => (p.2.name.name, v)) := by
    rw [List.forall₂_map_right_iff, List.forall₂_same]
    intro p hp
    have hf : p.2 ∈ c.fields := by
      rw [← c.map_placedFields]
      exact List.mem_map_of_mem hp
    exact run_bind_of_ok (h p.2 hf p.1) (run_pure_eq_some_iff.2 rfl)
  refine ⟨Entries.ofList (c.placedFields.map fun p => (p.2.name.name, v)), ?_, ?_⟩
  · rw [object, hc]
    dsimp only
    rw [if_neg (by omega)]
    exact run_bind_of_ok (run_ofEval_of_always hcheck)
      (run_bind_of_ok (run_mapM_of_forall₂ hplaced) (run_pure_eq_some_iff.2 rfl))
  · intro f hf
    rw [← c.map_placedFields] at hf
    obtain ⟨p, hp, rfl⟩ := List.mem_map.1 hf
    obtain ⟨w, hw⟩ : ∃ w, (Entries.ofList (c.placedFields.map fun p =>
        (p.2.name.name, v))).lookup p.2.name.name = some w := by
      rw [← Option.isSome_iff_exists, Entries.isSome_lookup_iff, Entries.mem_keys_ofList]
      simpa [Entries.keys] using ⟨p.1, p.2, hp, rfl⟩
    -- a later field of the same name may have written this value, and it has the same one
    obtain ⟨before, after, hsplit, -⟩ := List.lookup_eq_some_iff.1 hw
    have hmem := Entries.mem_of_mem_ofList (e := (p.2.name.name, w)) (by rw [hsplit]; simp)
    obtain ⟨q, -, hq⟩ := List.mem_map.1 hmem
    rw [hw, (Prod.mk.inj hq).2]

end Meaning

/-! ### Both ways make one map -/

/-- What the entries of a constant map stand for, when their texts are keys and their values have
a meaning. -/
theorem Eval.exists_standsFor {r : Registry} {k : KeyKind} {valueTy : Ty}
    {es : List (String × Attribute)}
    (hkeys : k = .integer → ∀ e ∈ es, (Decimal.int64? e.1).isSome)
    (hvalues : ∀ e ∈ es, ∃ loc s v t, Ends (constant r loc e.2 valueTy) s (.ok v) t) :
    ∃ ps, List.Forall₂ (StandsFor r k valueTy) es ps := by
  induction es with
  | nil => exact ⟨[], .nil⟩
  | cons e es ih =>
      obtain ⟨ps, hps⟩ := ih (fun hk e' he' => hkeys hk e' (List.mem_cons_of_mem _ he'))
        fun e' he' => hvalues e' (List.mem_cons_of_mem _ he')
      obtain ⟨key, hkey⟩ : ∃ key, k.read? e.1 = some key := by
        cases k with
        | integer =>
            obtain ⟨n, hn⟩ := Option.isSome_iff_exists.1 (hkeys rfl e List.mem_cons_self)
            exact ⟨.integer n, by rw [KeyKind.read?, hn, Option.map_some]⟩
        | string => exact ⟨.string e.1, rfl⟩
      obtain ⟨loc, s, v, t, hv⟩ := hvalues e List.mem_cons_self
      exact ⟨(key, v) :: ps, .cons ⟨hkey, fun loc' => Ends.always loc' e.2 valueTy hv⟩ hps⟩

/-- **Both ways of building a map agree.**  Let the texts of some entries be keys of the kind that
the type of the keys asks for, and let each of their constants have a value.  Then there is one
map, whose keys are the keys of the texts in the order of their first occurrence, each bound to the
value of its last occurrence.  The constant map of the entries has it as its value; the map that is
created from their pairs is it, whatever the state; and in an accepted module every object of a
class whose fields are computed in these two ways is made and has it in all of its fields. -/
theorem Registry.maps_agree {m : Module} {quote : Nat → String} {r : Registry}
    (hbuild : Registry.build m quote = .ok r) {keyTy valueTy : Ty} {k : KeyKind}
    (hk : KeyKind.ofTy? keyTy = some k) {es : List (String × Attribute)}
    (hkeys : k = .integer → ∀ e ∈ es, (Decimal.int64? e.1).isSome)
    (hvalues : ∀ e ∈ es, ∃ loc s v t,
      Eval.Ends (Eval.constant r loc e.2 valueTy) s (.ok v) t) :
    ∃ ps entries, List.Forall₂ (Eval.StandsFor r k valueTy) es ps ∧
      Entries.keys entries = (Entries.keys ps).eraseDups ∧
      (∀ key, entries.lookup key = ps.reverse.lookup key) ∧
      (∀ maxDepth resolve scope op,
        op.action = .constant (.map valueTy es) (.map keyTy valueTy) →
          (Eval.operation r maxDepth resolve scope op).Always (.map k valueTy entries)) ∧
      (∀ maxDepth resolve scope op xs s u, op.action = .mapCreate xs keyTy valueTy →
        Eval.Ends (Eval.resolveAll resolve scope xs) s (.ok (ps.map Eval.pairOf)) u →
          ∃ t, Eval.Ends (Eval.operation r maxDepth resolve scope op) s
            (.ok (.map k valueTy entries)) t) ∧
      ∀ maxDepth name c actuals, 0 < maxDepth → r.class? name = some c →
        (Eval.checkActuals c actuals c.location).Always () →
        (∀ f ∈ c.fields, r.MakesMap (some c) k keyTy valueTy es f.value.name) →
          ∃ fields, r.instantiate maxDepth name actuals = some (.ok ⟨c, fields⟩) ∧
            ∀ f ∈ c.fields, fields.lookup f.name.name = some (.map k valueTy entries) := by
  obtain ⟨hm, rfl⟩ := Registry.build_eq_ok_iff.1 hbuild
  obtain ⟨ps, hps⟩ := Eval.exists_standsFor hkeys hvalues
  have hkinds : ∀ p ∈ ps, p.1.kind = k :=
    hps.forall_mem_right fun _ _ _ he => KeyKind.kind_of_read? he.1
  refine ⟨ps, Entries.ofList ps, hps, Entries.keys_ofList ps, Entries.lookup_ofList ps,
    ?_, ?_, ?_⟩
  · intro maxDepth resolve scope op haction
    rw [Eval.operation, haction]
    exact Eval.always_constant_map hk hps _
  · intro maxDepth resolve scope op xs s u haction hxs
    have hmap : (Eval.buildMap (ps.map Eval.pairOf) keyTy valueTy _).Always _ :=
      Eval.always_buildMap hk hkinds ((ofModule m).location op.span)
    obtain ⟨t, ht⟩ := hmap u
    rw [Eval.operation, haction]
    exact ⟨t, Eval.ends_bind_iff.2 (.inr ⟨_, u, hxs, ht⟩)⟩
  · intro maxDepth name c actuals hdepth hc hcheck hfields
    obtain ⟨t, ht⟩ := hcheck {}
    have hσ : (Scope.enter ⟨0, none⟩ c actuals).Proper m :=
      .enter _ (mem_of_class? hc).1 (Eval.length_params_eq_of_ends ht)
    obtain ⟨fields, hrun, hlookup⟩ := Meaning.exists_run_object_of_fields (n := 3) hc hdepth hcheck
      fun f hf i => Meaning.run_upTo_map (n := 0) hσ hk hps (hfields f hf) i f.span
    refine ⟨fields, (Registry.instantiate_eq_some_iff hm).2 ⟨_, ⟨3, hrun⟩, rfl⟩, hlookup⟩

/-- Prices by numbers.  Two of the texts are one number. -/
def Attribute.prices : List (String × Attribute) :=
  [("1", .string "a"), ("2", .string "b"), ("+01", .string "c")]

/-- The class of the prices, which are written down once as a constant and created once from
pairs. -/
def Class.priced : Class where
  name := ⟨"Prices", default⟩
  params := []
  body := [
    ⟨some ⟨"a", default⟩, .constant (.string "a") .string, default⟩,
    ⟨some ⟨"b", default⟩, .constant (.string "b") .string, default⟩,
    ⟨some ⟨"c", default⟩, .constant (.string "c") .string, default⟩,
    ⟨some ⟨"p", default⟩, .tupleCreate [⟨"one", default⟩, ⟨"a", default⟩] [.integer, .string],
      default⟩,
    ⟨some ⟨"q", default⟩, .tupleCreate [⟨"two", default⟩, ⟨"b", default⟩] [.integer, .string],
      default⟩,
    ⟨some ⟨"r", default⟩, .tupleCreate [⟨"one", default⟩, ⟨"c", default⟩] [.integer, .string],
      default⟩,
    ⟨some ⟨"written", default⟩, .constant (.map .string Attribute.prices) (.map .integer .string),
      default⟩,
    ⟨some ⟨"created", default⟩, .mapCreate [⟨"p", default⟩, ⟨"q", default⟩, ⟨"r", default⟩]
      .integer .string, default⟩,
    ⟨none, .field ⟨"written", default⟩ ⟨"written", default⟩ (.map .integer .string), default⟩,
    ⟨none, .field ⟨"created", default⟩ ⟨"created", default⟩ (.map .integer .string), default⟩]
  span := default
  file := "prices.mlir"

/-- The numbers are shared. -/
def Module.priced : Module where
  file := "prices.mlir"
  span := default
  items := [
    .ofOperation ⟨some ⟨"one", default⟩, .constant (.integer 1) .integer, default⟩,
    .ofOperation ⟨some ⟨"two", default⟩, .constant (.integer 2) .integer, default⟩,
    .ofClass Class.priced.toClassDecl]

/-- In both maps of prices the texts `1` and `+01` are one key, which comes first and has the price
that is written last. -/
theorem Registry.maps_agree_priced :
    Registry.build Module.priced (fun _ => "") = .ok (ofModule Module.priced) ∧
    KeyKind.ofTy? .integer = some .integer ∧
    (∀ e ∈ Attribute.prices, (Decimal.int64? e.1).isSome) ∧
    (∀ e ∈ Attribute.prices, ∃ loc s v t, Eval.Ends
      (Eval.constant (ofModule Module.priced) loc e.2 .string) s (.ok v) t) ∧
    ∃ fields entries,
      (ofModule Module.priced).instantiate 1 "Prices" [] = some (.ok ⟨Class.priced, fields⟩) ∧
      fields.lookup "written" = some (.map .integer .string entries) ∧
      fields.lookup "created" = some (.map .integer .string entries) ∧
      Entries.keys entries = [.integer 1, .integer 2] ∧
      entries.lookup (.integer 1) = some (.string "c") := by
  have hbuild : Registry.build Module.priced (fun _ => "") = .ok (ofModule Module.priced) := rfl
  have hk : KeyKind.ofTy? .integer = some .integer := rfl
  have hkeys : ∀ e ∈ Attribute.prices, (Decimal.int64? e.1).isSome := by decide
  have hvalues : ∀ e ∈ Attribute.prices, ∃ loc s v t, Eval.Ends
      (Eval.constant (ofModule Module.priced) loc e.2 .string) s (.ok v) t := by
    simp only [Attribute.prices, List.forall_mem_cons, List.not_mem_nil, false_implies,
      implies_true, and_true]
    exact ⟨⟨.unknown, {}, _, _, rfl⟩, ⟨.unknown, {}, _, _, rfl⟩, ⟨.unknown, {}, _, _, rfl⟩⟩
  have hclass : ∀ (name : String), Class.priced.definition? name = none →
      ∀ c, some Class.priced = some c → name ∉ c.paramNames ∧ c.definition? name = none := by
    rintro name hnone _ ⟨⟩
    exact ⟨List.not_mem_nil, hnone⟩
  have hpairs : List.Forall₂ ((ofModule Module.priced).MakesPair (some Class.priced) .integer
      .integer .string) Attribute.prices [⟨"p", default⟩, ⟨"q", default⟩, ⟨"r", default⟩] := by
    refine .cons ⟨_, _, _, .integer 1, _, _, _, rfl, ⟨_, .body List.not_mem_nil rfl, rfl⟩,
      ⟨_, .shared (hclass _ rfl) rfl, rfl⟩, ⟨_, .body List.not_mem_nil rfl, rfl⟩⟩ ?_
    refine .cons ⟨_, _, _, .integer 2, _, _, _, rfl, ⟨_, .body List.not_mem_nil rfl, rfl⟩,
      ⟨_, .shared (hclass _ rfl) rfl, rfl⟩, ⟨_, .body List.not_mem_nil rfl, rfl⟩⟩ ?_
    refine .cons ⟨_, _, _, .integer 1, _, _, _, rfl, ⟨_, .body List.not_mem_nil rfl, rfl⟩,
      ⟨_, .shared (hclass _ rfl) rfl, rfl⟩, ⟨_, .body List.not_mem_nil rfl, rfl⟩⟩ .nil
  have hfields : ∀ f ∈ Class.priced.fields, (ofModule Module.priced).MakesMap (some Class.priced)
      .integer .integer .string Attribute.prices f.value.name := by
    refine List.forall_mem_cons.2 ⟨.constant ⟨_, .body List.not_mem_nil rfl, rfl⟩, ?_⟩
    refine List.forall_mem_cons.2 ⟨.pairs ⟨_, .body List.not_mem_nil rfl, rfl⟩ hpairs, ?_⟩
    exact List.forall_mem_nil _
  obtain ⟨ps, entries, hps, hentries, hlast, -, -, hobject⟩ :=
    Registry.maps_agree hbuild hk (fun _ => hkeys) hvalues
  obtain ⟨fields, hmade, hlookup⟩ := hobject 1 "Prices" Class.priced [] (by decide) rfl
    (fun s => ⟨s, rfl⟩) hfields
  obtain ⟨hwritten, hcreated⟩ := List.forall_mem_cons.1 hlookup
  refine ⟨hbuild, hk, hkeys, hvalues, fields, entries, hmade, hwritten,
    hcreated _ List.mem_cons_self, ?_⟩
  rw [Attribute.prices] at hps
  -- the three entries stand for the keys 1, 2 and 1 again
  obtain _ | ⟨⟨hone, -⟩, _ | ⟨⟨htwo, -⟩, _ | ⟨⟨hone', hlater⟩, _ | _⟩⟩⟩ := hps
  rename_i p q p'
  obtain ⟨t, ht⟩ := hlater .unknown {}
  have hp : p.1 = .integer 1 := (Option.some.inj hone).symm
  have hq : q.1 = .integer 2 := (Option.some.inj htwo).symm
  have hp' : p' = (.integer 1, .string "c") :=
    Prod.ext (Option.some.inj hone').symm (Eval.eq_of_ends_pure ht)
  have hdistinct : [Key.integer 1, .integer 2, .integer 1].eraseDups =
      [.integer 1, .integer 2] := by decide
  rw [hentries, hlast]
  simp [hp, hq, hp', hdistinct]

end ObjectModel
