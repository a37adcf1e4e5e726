/-
**Equal inputs give equal outputs.**

A call that is given other values for the parameters, which count as equal to the first ones, does
the same as before step by step: it asks for the same names in the same order, keeps values that
count as equal under the same names, and writes the same journal.  So it ends in an object that
counts as equal, or in the very same error, with the same texts of values in it.

Main definitions:

* `SameResult` — two results are related values, or one and the same error;
* `EvalState.Same` — two states know values that count as equal under the same names;
* `Eval.SideBySide` — two computations that are begun in such states end in related results and in
  such states, or neither ends.

Main results:

* `Eval.SideBySide.bind`, `Eval.SideBySide.inFrame`, … — composed computations;
* `Eval.sideBySide_resolveUpTo` — asking for a name;
* `Registry.run_same` — a call, with its journal;
* `Registry.instantiate_same_actuals` — equal inputs give equal outputs.
-/

import ObjectModel.Proofs.SameValue
import ObjectModel.Proofs.Termination

set_option relaxedAutoImplicit false
set_option autoImplicit false

namespace ObjectModel

/-! ### Results and states -/

/-- Two things that may be missing are related when both are missing, or when both are there and
are related. -/
theorem exists_of_rel {α β : Type} {R : α → β → Prop} {p : Option α} {q : Option β}
    (h : Option.Rel R p q) :
    (p = none ∧ q = none) ∨ ∃ a b, p = some a ∧ q = some b ∧ R a b := by
  cases h with
  | none => exact .inl ⟨rfl, rfl⟩
  | some h => exact .inr ⟨_, _, rfl, rfl, h⟩

/-- Two results are alike: values that are related, or one and the same error. -/
inductive SameResult {ε α β : Type} (R : α → β → Prop) : Except ε α → Except ε β → Prop where
  | ok {a : α} {b : β} (h : R a b) : SameResult R (.ok a) (.ok b)
  | error (e : ε) : SameResult R (.error e) (.error e)

/-- Two objects count as equal. -/
def Object.Same (o o' : Object) : Prop := o.toValue.same o'.toValue = true

/-- Two frames have one number, and the same names in them with values that count as equal. -/
structure Frame.Same (f g : Frame) : Prop where
  id : f.id = g.id
  values : Entries.Same f.values g.values

/-- Two states know values that count as equal under the same names, and in both the same was
done. -/
structure EvalState.Same (s t : EvalState) : Prop where
  shared : Entries.Same s.shared t.shared
  frames : List.Forall₂ Frame.Same s.frames t.frames
  opened : s.opened = t.opened
  journal : s.journal = t.journal

namespace EvalState

variable {s t : EvalState}

theorem Same.init : Same {} {} := ⟨.nil, .nil, rfl, rfl⟩

theorem Same.write (h : s.Same t) (es : List Event) :
    Same { s with journal := es ++ s.journal } { t with journal := es ++ t.journal } where
  shared := h.shared
  frames := h.frames
  opened := h.opened
  journal := by rw [h.journal]

theorem Same.local? (h : s.Same t) (name : String) :
    Option.Rel (fun v w => v.same w = true) (s.local? name) (t.local? name) := by
  obtain ⟨_, fs, _, _⟩ := s
  obtain ⟨_, gs, _, _⟩ := t
  have hframes : List.Forall₂ Frame.Same fs gs := h.frames
  cases hframes with
  | nil => exact .none
  | cons hf _ => exact hf.values.lookup name

/-- The innermost frame has one number in both. -/
theorem Same.head_id (h : s.Same t) :
    s.frames.head?.map Frame.id = t.frames.head?.map Frame.id := by
  obtain ⟨_, fs, _, _⟩ := s
  obtain ⟨_, gs, _, _⟩ := t
  have hframes : List.Forall₂ Frame.Same fs gs := h.frames
  cases hframes with
  | nil => rfl
  | cons hf _ => exact congrArg some hf.id

theorem Same.keepLocal (h : s.Same t) (name : String) {v w : Value} (hvw : v.same w = true) :
    (s.keepLocal name v).Same (t.keepLocal name w) := by
  obtain ⟨_, fs, _, _⟩ := s
  obtain ⟨_, gs, _, _⟩ := t
  have hframes : List.Forall₂ Frame.Same fs gs := h.frames
  cases hframes with
  | nil => exact h
  | cons hf hfs =>
      exact ⟨h.shared, .cons ⟨hf.id, hf.values.insert name hvw⟩ hfs, h.opened, h.journal⟩

theorem Same.keepShared (h : s.Same t) (name : String) {v w : Value} (hvw : v.same w = true) :
    (s.keepShared name v).Same (t.keepShared name w) :=
  ⟨h.shared.insert name hvw, h.frames, h.opened, h.journal⟩

/-- A new frame has the same number in both. -/
theorem Same.open (h : s.Same t) {vs ws : List (String × Value)} (hvs : Entries.Same vs ws) :
    (Eval.opened vs s).Same (Eval.opened ws t) where
  shared := h.shared
  frames := .cons ⟨congrArg (· + 1) h.opened, hvs⟩ h.frames
  opened := congrArg (· + 1) h.opened
  journal := h.journal

theorem Same.close (h : s.Same t) :
    Same { s with frames := s.frames.drop 1 } { t with frames := t.frames.drop 1 } where
  shared := h.shared
  frames := List.forall₂_drop 1 h.frames
  opened := h.opened
  journal := h.journal

end EvalState

/-! ### Computations side by side -/

namespace Eval

variable {α β γ δ : Type} {R : α → β → Prop} {S : γ → δ → Prop}

/-- Begun in states that know values that count as equal, both computations end in results that are
alike and in such states, or neither ends. -/
def SideBySide (R : α → β → Prop) (x : Eval α) (y : Eval β) : Prop :=
  ∀ s t : EvalState, s.Same t →
    Option.Rel (fun p q => SameResult R p.1 q.1 ∧ p.2.Same q.2) (x.run.run s) (y.run.run t)

theorem SideBySide.pure {a : α} {b : β} (h : R a b) :
    SideBySide R (Pure.pure a : Eval α) (Pure.pure b) :=
  fun _ _ hst => .some ⟨.ok h, hst⟩

theorem SideBySide.throw (e : EvalError) :
    SideBySide R (MonadExcept.throw e : Eval α) (MonadExcept.throw e) :=
  fun _ _ hst => .some ⟨.error e, hst⟩

theorem SideBySide.get : SideBySide EvalState.Same MonadState.get MonadState.get :=
  fun _ _ hst => .some ⟨.ok hst, hst⟩

theorem SideBySide.modify {f g : EvalState → EvalState}
    (h : ∀ s t : EvalState, s.Same t → (f s).Same (g t)) :
    SideBySide Eq (modify f : Eval PUnit) (modify g) :=
  fun s t hst => .some ⟨.ok rfl, h s t hst⟩

theorem SideBySide.write (e : Event) : SideBySide Eq (Eval.write e) (Eval.write e) :=
  SideBySide.modify fun _ _ hst => hst.write [e]

theorem SideBySide.diverge : SideBySide R (diverge : Eval α) (diverge : Eval β) :=
  fun _ _ _ => .none

theorem SideBySide.bind {x : Eval α} {y : Eval β} {f : α → Eval γ} {g : β → Eval δ}
    (hx : SideBySide R x y) (hf : ∀ a b, R a b → SideBySide S (f a) (g b)) :
    SideBySide S (x >>= f) (y >>= g) := by
  intro s t hst
  rw [ExceptT.run_bind, ExceptT.run_bind, StateT.run_bind, StateT.run_bind]
  rcases exists_of_rel (hx s t hst) with ⟨hs, ht⟩ | ⟨p, q, hs, ht, hpq⟩
  · rw [hs, ht]
    exact .none
  · rw [hs, ht]
    obtain ⟨res, s'⟩ := p
    obtain ⟨res', t'⟩ := q
    obtain ⟨hres, hst'⟩ : SameResult R res res' ∧ s'.Same t' := hpq
    cases hres with
    | ok hab => exact hf _ _ hab s' t' hst'
    | error e => exact .some ⟨.error e, hst'⟩

theorem SideBySide.mono {R' : α → β → Prop} {x : Eval α} {y : Eval β} (h : SideBySide R x y)
    (hRR' : ∀ a b, R a b → R' a b) : SideBySide R' x y := by
  have hpure := h.bind fun a b hab => SideBySide.pure (hRR' a b hab)
  rwa [bind_pure, bind_pure] at hpure

theorem SideBySide.write_bind {e : Event} {f : Unit → Eval γ} {g : Unit → Eval δ}
    (h : SideBySide S (f ()) (g ())) : SideBySide S (Eval.write e >>= f) (Eval.write e >>= g) :=
  (SideBySide.write e).bind fun _ _ _ => h

theorem SideBySide.mapM {f : γ → Eval α} {g : γ → Eval β} {cs : List γ}
    (h : ∀ c ∈ cs, SideBySide R (f c) (g c)) :
    SideBySide (List.Forall₂ R) (cs.mapM f) (cs.mapM g) := by
  induction cs with
  | nil => exact SideBySide.pure .nil
  | cons c cs ih =>
      rw [List.mapM_cons, List.mapM_cons]
      refine (h c List.mem_cons_self).bind fun a b hab => ?_
      refine (ih fun c' hc' => h c' (List.mem_cons_of_mem _ hc')).bind fun as bs habs => ?_
      exact SideBySide.pure (.cons hab habs)

theorem SideBySide.inFrame {vs ws : List (String × Value)} {x : Eval α} {y : Eval β}
    (hvs : Entries.Same vs ws) (h : SideBySide R x y) :
    SideBySide R (Eval.inFrame vs x) (Eval.inFrame ws y) := by
  intro s t hst
  change Option.Rel _ ((x.run.run (opened vs s)).map _) ((y.run.run (opened ws t)).map _)
  rcases exists_of_rel (h _ _ (hst.open hvs)) with ⟨hs, ht⟩ | ⟨p, q, hs, ht, hres, hst'⟩
  · rw [hs, ht]
    exact .none
  · rw [hs, ht]
    exact .some ⟨hres, hst'.close⟩

/-- What does not look at the state does not see the difference. -/
theorem Silent.sideBySide {x : Eval α} (h : Silent x) : SideBySide Eq x x := by
  obtain ⟨res, es, -, hall⟩ := h
  intro s t hst
  rw [show x.run.run s = _ from hall s, show x.run.run t = _ from hall t]
  refine .some ⟨?_, hst.write es⟩
  cases res with
  | ok a => exact .ok rfl
  | error e => exact .error e

/-! ### Maps -/

/-- Entries that count as equal are pairs of the same key, or the same is said against them. -/
theorem sideBySide_entryOf (k : KeyKind) (loc : Location) {e e' : Value} (h : e.same e' = true) :
    SideBySide (fun p q => p.1 = q.1 ∧ p.2.same q.2 = true) (entryOf k loc e)
      (entryOf k loc e') := by
  unfold entryOf
  split
  · next key v =>
      obtain ⟨vs, rfl, hvs⟩ := Value.same_tuple_iff.1 h
      obtain ⟨key', vs, rfl, hkey, hvs⟩ := Value.sameAll_cons_iff.1 hvs
      obtain ⟨w, vs, rfl, hvw, hvs⟩ := Value.sameAll_cons_iff.1 hvs
      obtain rfl := Value.sameAll_nil_iff.1 hvs
      dsimp only
      rw [Key.ofValue?_eq_of_same hkey, Value.text_eq_of_same hkey]
      split
      · exact SideBySide.pure ⟨rfl, hvw⟩
      · exact SideBySide.throw _
  · next hpair =>
      split
      · next key w =>
          obtain ⟨key', v, rfl⟩ := (Value.eq_pair_iff_of_same h).2 ⟨key, w, rfl⟩
          exact absurd rfl (hpair key' v)
      · rw [Value.text_eq_of_same h]
        exact SideBySide.throw _

theorem sideBySide_writeEntries (k : KeyKind) (loc : Location) {es es' : List Value}
    (h : Value.sameAll es es' = true) : ∀ {entries entries' : List (Key × Value)},
      Entries.Same entries entries' →
        SideBySide Entries.Same (writeEntries k loc entries es)
          (writeEntries k loc entries' es') := by
  induction es generalizing es' with
  | nil =>
      intro entries entries' hentries
      obtain rfl := Value.sameAll_nil_iff.1 h
      exact SideBySide.pure hentries
  | cons e es ih =>
      intro entries entries' hentries
      obtain ⟨e', es', rfl, he, hes⟩ := Value.sameAll_cons_iff.1 h
      rw [writeEntries, writeEntries]
      refine (sideBySide_entryOf k loc he).bind fun p q hpq => ?_
      obtain ⟨key, v⟩ := p
      obtain ⟨key', w⟩ := q
      obtain ⟨rfl, hvw⟩ : key = key' ∧ v.same w = true := hpq
      dsimp only
      -- a key comes again in both tables or in none
      rw [hentries.keys]
      have hrest := ih hes (hentries.insert key hvw)
      split
      · exact SideBySide.write_bind hrest
      · exact hrest

theorem sideBySide_buildMap {es es' : List Value} (h : Value.sameAll es es' = true)
    (keyTy valueTy : Ty) (loc : Location) :
    SideBySide (fun v w => v.same w = true) (buildMap es keyTy valueTy loc)
      (buildMap es' keyTy valueTy loc) := by
  refine (Silent.keyKind keyTy loc).sideBySide.bind fun k k' hk => ?_
  obtain rfl : k = k' := hk
  refine (sideBySide_writeEntries k loc h .nil).bind fun es es' hes => SideBySide.pure ?_
  exact Value.same_map_iff.2 ⟨_, es', rfl, Entries.sameEntries_iff.2 hes⟩

/-! ### Objects -/

/-- The same is said against values that count as equal. -/
theorem checkActuals_eq_of_sameAll (c : Class) {us vs : List Value}
    (h : Value.sameAll us vs = true) (loc : Location) :
    checkActuals c us loc = checkActuals c vs loc := by
  have hmismatch : ∀ (ps : List Param) (us vs : List Value) (index : Nat),
      Value.sameAll us vs = true → mismatch? c loc index ps us = mismatch? c loc index ps vs := by
    intro ps
    induction ps with
    | nil => exact fun _ _ _ _ => rfl
    | cons p ps ih =>
        intro us vs index h
        cases us with
        | nil => rw [Value.sameAll_nil_iff.1 h]
        | cons u us =>
            obtain ⟨v, vs, rfl, hv, hvs⟩ := Value.sameAll_cons_iff.1 h
            rw [mismatch?, mismatch?, Value.conforms_eq_of_same hv, Value.kind_eq_of_same hv,
              ih us vs (index + 1) hvs]
  unfold checkActuals
  rw [hmismatch c.params us vs 0 h, Value.length_eq_of_sameAll h, Value.map_text_eq_of_sameAll h]

section Resolver

variable {r : Registry} {maxDepth : Nat} {resolve : Resolver}
  (hresolve : ∀ scope name span, SideBySide (fun v w => v.same w = true)
    (resolve scope name span) (resolve scope name span))

include hresolve

theorem sideBySide_fieldValues (c : Class) :
    SideBySide Entries.Same (fieldValues resolve c) (fieldValues resolve c) :=
  SideBySide.mapM fun f _ => SideBySide.write_bind <|
    (hresolve (some c) f.value.name f.span).bind fun _ _ hvw => SideBySide.pure ⟨rfl, hvw⟩

/-- Made of values that count as equal, objects count as equal. -/
theorem sideBySide_instantiate (name : String) {us vs : List Value}
    (h : Value.sameAll us vs = true) (site : Option Location) :
    SideBySide Object.Same (instantiate r maxDepth resolve name us site)
      (instantiate r maxDepth resolve name vs site) := by
  unfold instantiate
  split
  · exact SideBySide.throw _
  · next c hc =>
      refine SideBySide.get.bind fun s t hst => ?_
      rw [checkActuals_eq_of_sameAll c h, Value.length_eq_of_sameAll h,
        show s.frames.length = t.frames.length from hst.frames.length_eq]
      have hfields : SideBySide Object.Same
          (do return (⟨c, Entries.ofList (← fieldValues resolve c)⟩ : Object))
          (do return (⟨c, Entries.ofList (← fieldValues resolve c)⟩ : Object)) :=
        (sideBySide_fieldValues hresolve c).bind fun es es' hes => SideBySide.pure <|
          Value.same_object_iff.2 ⟨c, _, rfl, rfl, Entries.sameFields_iff.2 hes.ofList⟩
      have hmade := SideBySide.inFrame
        (Entries.Same.ofList (Entries.Same.zip h (c.params.map fun p => p.name.name))) hfields
      dsimp only
      split
      · exact SideBySide.throw _
      · refine (Silent.checkActuals c vs (site.getD c.location)).sideBySide.bind fun _ _ _ => ?_
        exact SideBySide.write_bind hmade

theorem sideBySide_resolveAll (scope : Option Class) (xs : List Ident) :
    SideBySide (fun us vs => Value.sameAll us vs = true) (resolveAll resolve scope xs)
      (resolveAll resolve scope xs) := by
  simp only [Value.sameAll_iff]
  exact SideBySide.mapM fun x _ => hresolve scope x.name x.span

/-- So it is with the values of operations. -/
theorem sideBySide_operation (scope : Option Class) (op : Operation) :
    SideBySide (fun v w => v.same w = true) (operation r maxDepth resolve scope op)
      (operation r maxDepth resolve scope op) := by
  have hoperands := sideBySide_resolveAll hresolve scope
  unfold operation
  cases op.action with
  | constant value ty =>
      refine (Silent.constant r _ value ty).sideBySide.mono fun v w h => ?_
      obtain rfl : v = w := h
      exact v.same_self
  | object target actuals operandTys ty =>
      refine (hoperands actuals).bind fun us vs h => ?_
      exact (sideBySide_instantiate hresolve target.name h _).bind fun _ _ ho => SideBySide.pure ho
  | listCreate elements elementTy =>
      refine (hoperands elements).bind fun us vs h => SideBySide.pure ?_
      exact Value.same_list_iff.2 ⟨_, vs, rfl, h⟩
  | tupleCreate elements elementTys =>
      refine (hoperands elements).bind fun us vs h => SideBySide.pure ?_
      exact Value.same_tuple_iff.2 ⟨vs, rfl, h⟩
  | mapCreate entries keyTy valueTy =>
      exact (hoperands entries).bind fun us vs h => sideBySide_buildMap h keyTy valueTy _
  | field name value ty => exact SideBySide.throw _

/-! ### Names -/

theorem sideBySide_resolveShared (name : String) (span : Span) :
    SideBySide (fun v w => v.same w = true) (resolveShared r maxDepth resolve name span)
      (resolveShared r maxDepth resolve name span) := by
  refine SideBySide.get.bind fun s t hst => ?_
  rcases exists_of_rel (hst.shared.lookup name) with ⟨hs, ht⟩ | ⟨v, w, hs, ht, hvw⟩
  · rw [hs, ht]
    dsimp only
    split
    · next op hop =>
        refine SideBySide.write_bind ?_
        refine (sideBySide_operation hresolve none op).bind fun v w hvw => ?_
        exact (SideBySide.modify fun _ _ hst => hst.keepShared name hvw).bind fun _ _ _ =>
          SideBySide.pure hvw
    · exact SideBySide.throw _
  · rw [hs, ht]
    exact SideBySide.pure hvw

theorem sideBySide_resolveLocal (c : Class) (name : String) :
    SideBySide (Option.Rel fun v w => v.same w = true) (resolveLocal r maxDepth resolve c name)
      (resolveLocal r maxDepth resolve c name) := by
  refine SideBySide.get.bind fun s t hst => ?_
  rw [hst.head_id]
  rcases exists_of_rel (hst.local? name) with ⟨hs, ht⟩ | ⟨v, w, hs, ht, hvw⟩
  · rw [hs, ht]
    dsimp only
    split
    · next op hop =>
        refine SideBySide.write_bind ?_
        refine (sideBySide_operation hresolve (some c) op).bind fun v w hvw => ?_
        exact (SideBySide.modify fun _ _ hst => hst.keepLocal name hvw).bind fun _ _ _ =>
          SideBySide.pure (.some hvw)
    · exact SideBySide.pure .none
  · rw [hs, ht]
    exact SideBySide.pure (.some hvw)

end Resolver

/-- Asked for in states that know values that count as equal, a name has values that count as
equal. -/
theorem sideBySide_resolveUpTo (r : Registry) (maxDepth n : Nat) :
    ∀ scope name span, SideBySide (fun v w => v.same w = true)
      (resolveUpTo r maxDepth n scope name span) (resolveUpTo r maxDepth n scope name span) := by
  induction n with
  | zero => exact fun _ _ _ => SideBySide.diverge
  | succ n ih =>
      intro scope name span
      cases scope with
      | none =>
          rw [resolveUpTo_outside]
          exact sideBySide_resolveShared ih name span
      | some c =>
          rw [resolveUpTo_inside]
          refine (sideBySide_resolveLocal ih c name).bind fun found found' hfound => ?_
          cases hfound with
          | some hvw => exact SideBySide.pure hvw
          | none => exact sideBySide_resolveShared ih name span

end Eval

/-! ### The call -/

/-- Given values that count as equal, a call ends in the same way and has the same journal. -/
theorem Registry.run_same (r : Registry) (maxDepth : Nat) (name : String) {us vs : List Value}
    (h : Value.sameAll us vs = true) :
    Option.Rel (fun p q => SameResult Object.Same p.1 q.1 ∧ p.2 = q.2) (r.run maxDepth name us)
      (r.run maxDepth name vs) := by
  have hcall : Eval.SideBySide Object.Same
      (Eval.instantiate r maxDepth (Eval.resolveUpTo r maxDepth (r.size + 1)) name us none)
      (Eval.instantiate r maxDepth (Eval.resolveUpTo r maxDepth (r.size + 1)) name vs none) :=
    Eval.sideBySide_instantiate (Eval.sideBySide_resolveUpTo r maxDepth (r.size + 1)) name h none
  dsimp only [Registry.run]
  rcases exists_of_rel (hcall {} {} .init) with ⟨hs, ht⟩ | ⟨p, q, hs, ht, hres, hst⟩
  · rw [hs, ht]
    exact .none
  · rw [hs, ht]
    exact .some ⟨hres, congrArg List.reverse hst.journal⟩

/-- **Equal inputs give equal outputs.**  Given values for the parameters that count as equal one by
one, a call on an accepted module ends in objects that count as equal, or both times in the very
same error with all that it says; and it ends for both or for neither.  Where no class body
defines the name of a shared value, it ends. -/
theorem Registry.instantiate_same_actuals {m : Module} {quote : Nat → String} {r : Registry}
    (hbuild : Registry.build m quote = .ok r) (maxDepth : Nat) (name : String)
    {us vs : List Value} (h : Value.sameAll us vs = true) :
    Option.Rel (SameResult Object.Same) (r.instantiate maxDepth name us)
        (r.instantiate maxDepth name vs) ∧
      (m.KeepsSharedNames → (r.instantiate maxDepth name us).isSome ∧
        (r.instantiate maxDepth name vs).isSome) := by
  obtain ⟨hm, rfl⟩ := Registry.build_eq_ok_iff.1 hbuild
  refine ⟨?_, fun hnames => ?_⟩
  · unfold Registry.instantiate
    rcases exists_of_rel ((ofModule m).run_same maxDepth name h) with
      ⟨hs, ht⟩ | ⟨p, q, hs, ht, hres, -⟩
    · rw [hs, ht]
      exact .none
    · rw [hs, ht]
      obtain ⟨res, journal⟩ := p
      obtain ⟨res', journal'⟩ := q
      cases hres with
      | ok ho => exact .some (.ok ho)
      | error e => exact .some (.error _)
  · have hends : ∀ ws, ((ofModule m).instantiate maxDepth name ws).isSome := fun ws => by
      obtain ⟨res, t, ht⟩ := Eval.total_call hm hnames maxDepth name ws {}
      dsimp only [Registry.instantiate, Registry.run]
      rw [show (Eval.instantiate _ _ _ name ws none).run.run {} = some (res, t) from ht]
      rfl
    exact ⟨hends us, hends vs⟩

/-- A box with its tags, and with a label that has the tags too. -/
def Module.tagged : Module where
  file := "box.mlir"
  span := default
  items := [
    .ofClass {
      name := ⟨"Label", default⟩
      params := [⟨⟨"tags", default⟩, .list .string, default⟩]
      body := [⟨none, .field ⟨"tags", default⟩ ⟨"tags", default⟩ (.list .string), default⟩]
      span := default },
    .ofClass {
      name := ⟨"Box", default⟩
      params := [⟨⟨"tags", default⟩, .list .string, default⟩]
      body := [
        ⟨some ⟨"label", default⟩, .object ⟨"Label", default⟩ [⟨"tags", default⟩] [.list .string]
          (.object "Label"), default⟩,
        ⟨none, .field ⟨"tags", default⟩ ⟨"tags", default⟩ (.list .string), default⟩,
        ⟨none, .field ⟨"label", default⟩ ⟨"label", default⟩ (.object "Label"), default⟩]
      span := default }]

/-- Of one list of tags, once written down as texts and once as anything, two boxes are made that
count as equal, although their tags still have the types that were written down. -/
theorem Registry.instantiate_tagged_same_actuals :
    Registry.build Module.tagged (fun _ => "") = .ok (ofModule Module.tagged) ∧
    Value.sameAll [.list .string [.string "red"]] [.list .any [.string "red"]] = true ∧
    ∃ o o',
      (ofModule Module.tagged).instantiate 8 "Box" [.list .string [.string "red"]] =
        some (.ok o) ∧
      (ofModule Module.tagged).instantiate 8 "Box" [.list .any [.string "red"]] =
        some (.ok o') ∧
      o.Same o' ∧
      o.field? "tags" = some (.list .string [.string "red"]) ∧
      o'.field? "tags" = some (.list .any [.string "red"]) := by
  have hbuild : Registry.build Module.tagged (fun _ => "") = .ok (ofModule Module.tagged) := rfl
  have hactuals :
      Value.sameAll [.list .string [.string "red"]] [.list .any [.string "red"]] = true := rfl
  obtain ⟨hrel, -⟩ := Registry.instantiate_same_actuals hbuild 8 "Box" hactuals
  refine ⟨hbuild, hactuals, _, _, rfl, rfl, ?_, rfl, rfl⟩
  rcases exists_of_rel hrel with ⟨hnone, -⟩ | ⟨res, res', hres, hres', hsame⟩
  · cases hnone
  · cases hres
    cases hres'
    cases hsame with
    | ok ho => exact ho

end ObjectModel
