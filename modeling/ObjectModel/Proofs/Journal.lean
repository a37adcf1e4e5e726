/-
**The journal while a call goes on.**

The journal only grows, and asking for operands deeper changes nothing that ends.  So whatever a
call begins on its way, it does begin: the journal at that time is the first part of the journal
at the end.

Main definitions:

* `Eval.Refines` — where one computation ends, another one ends in the same way;
* `Eval.Stable` — an invariant of states that no step of evaluation breaks;
* `Eval.Done` — a request that is begun in a state ends in another state.

Main results:

* `Eval.refines_resolveUpTo` — asking deeper changes nothing that ends;
* `Eval.keeps_resolveUpTo`, `Eval.keeps_instantiate` — evaluation keeps stable invariants;
* `Eval.Begins.exists_done` — what is begun by a request that ends, ends before it does;
* `Registry.Begun.journal_suffix` — so it is on the whole way of a call.
-/

import ObjectModel.Proofs.Begun

set_option relaxedAutoImplicit false
set_option autoImplicit false

namespace ObjectModel

namespace Eval

variable {α β : Type} {r : Registry} {maxDepth : Nat}

/-! ### Asking deeper -/

/-- Where the computation `x` ends, `y` ends in the same way. -/
def Refines (x y : Eval α) : Prop := ∀ s res t, Ends x s res t → Ends y s res t

theorem Refines.refl (x : Eval α) : Refines x x := fun _ _ _ h => h

theorem Refines.bind {x y : Eval α} {f g : α → Eval β} (h : Refines x y)
    (hf : ∀ a, Refines (f a) (g a)) : Refines (x >>= f) (y >>= g) := by
  intro s res t hx
  rw [ends_bind_iff] at hx ⊢
  rcases hx with ⟨e, he, rfl⟩ | ⟨a, u, ha, hfa⟩
  · exact .inl ⟨e, h _ _ _ he, rfl⟩
  · exact .inr ⟨a, u, h _ _ _ ha, hf a _ _ _ hfa⟩

theorem Refines.mapM {f g : α → Eval β} {as : List α} (h : ∀ a ∈ as, Refines (f a) (g a)) :
    Refines (as.mapM f) (as.mapM g) := by
  induction as with
  | nil => exact Refines.refl _
  | cons a as ih =>
      rw [List.mapM_cons, List.mapM_cons]
      have htail := ih fun b hb => h b (List.mem_cons_of_mem _ hb)
      exact (h a List.mem_cons_self).bind fun b => htail.bind fun bs => Refines.refl _

theorem Refines.inFrame {values : List (String × Value)} {x y : Eval α} (h : Refines x y) :
    Refines (Eval.inFrame values x) (Eval.inFrame values y) := by
  intro s res t hx
  obtain ⟨u, hu, rfl⟩ := ends_inFrame_iff.1 hx
  exact ends_inFrame_iff.2 ⟨u, h _ _ _ hu, rfl⟩

section Resolvers

variable {resolve resolve' : Resolver}
  (hresolve : ∀ scope x span, Refines (resolve scope x span) (resolve' scope x span))

include hresolve

theorem refines_resolveAll (scope : Option Class) (xs : List Ident) :
    Refines (resolveAll resolve scope xs) (resolveAll resolve' scope xs) :=
  Refines.mapM fun x _ => hresolve scope x.name x.span

theorem refines_fieldValue (c : Class) (f : Field) :
    Refines (fieldValue resolve c f) (fieldValue resolve' c f) :=
  (Refines.refl _).bind fun _ => (hresolve _ _ _).bind fun _ => Refines.refl _

theorem refines_instantiate (name : String) (actuals : List Value) (site : Option Location) :
    Refines (instantiate r maxDepth resolve name actuals site)
      (instantiate r maxDepth resolve' name actuals site) := by
  cases hc : r.class? name with
  | none =>
      rw [instantiate_of_none hc, instantiate_of_none hc]
      exact Refines.refl _
  | some c =>
      have hvalues : Refines (fieldValues resolve c) (fieldValues resolve' c) :=
        Refines.mapM fun f _ => refines_fieldValue hresolve c f
      intro s res t h
      rw [ends_instantiate_iff hc] at h ⊢
      split
      · next hdepth => rwa [if_pos hdepth] at h
      · next hdepth =>
          rw [if_neg hdepth] at h
          revert h
          refine (Refines.refl _).bind (fun _ => (Refines.refl _).bind fun _ => ?_) s res t
          exact Refines.inFrame (hvalues.bind fun _ => Refines.refl _)

theorem refines_operation (scope : Option Class) (op : Operation) :
    Refines (operation r maxDepth resolve scope op) (operation r maxDepth resolve' scope op) := by
  have hoperands := refines_resolveAll hresolve scope
  unfold operation
  cases op.action with
  | constant value ty => exact Refines.refl _
  | object target actuals operandTys ty =>
      exact (hoperands actuals).bind fun vs =>
        (refines_instantiate hresolve target.name vs _).bind fun _ => Refines.refl _
  | listCreate elements elementTy => exact (hoperands elements).bind fun _ => Refines.refl _
  | tupleCreate elements elementTys => exact (hoperands elements).bind fun _ => Refines.refl _
  | mapCreate entries keyTy valueTy => exact (hoperands entries).bind fun _ => Refines.refl _
  | field name value ty => exact Refines.refl _

theorem refines_resolveShared (x : String) (span : Span) :
    Refines (resolveShared r maxDepth resolve x span) (resolveShared r maxDepth resolve' x span) := by
  unfold resolveShared
  refine (Refines.refl _).bind fun s => ?_
  split
  · exact Refines.refl _
  · split
    · exact (Refines.refl _).bind fun _ => (refines_operation hresolve none _).bind fun _ =>
        Refines.refl _
    · exact Refines.refl _

theorem refines_resolveLocal (c : Class) (x : String) :
    Refines (resolveLocal r maxDepth resolve c x) (resolveLocal r maxDepth resolve' c x) := by
  unfold resolveLocal
  refine (Refines.refl _).bind fun s => ?_
  split
  · exact Refines.refl _
  · split
    · exact (Refines.refl _).bind fun _ => (refines_operation hresolve (some c) _).bind fun _ =>
        Refines.refl _
    · exact Refines.refl _

end Resolvers

/-- Asking deeper changes nothing that ends. -/
theorem refines_resolveUpTo {n m : Nat} (hnm : n ≤ m) :
    ∀ scope x span, Refines (resolveUpTo r maxDepth n scope x span)
      (resolveUpTo r maxDepth m scope x span) := by
  induction n generalizing m with
  | zero => exact fun scope x span s res t h => absurd h not_ends_diverge
  | succ n ih =>
      obtain ⟨m, rfl⟩ := Nat.exists_eq_add_of_lt hnm
      have hdeeper := ih (m := n + m) (by omega)
      intro scope x span
      cases scope with
      | none =>
          rw [resolveUpTo_outside, resolveUpTo_outside]
          exact refines_resolveShared hdeeper x span
      | some c =>
          rw [resolveUpTo_inside, resolveUpTo_inside]
          refine (refines_resolveLocal hdeeper c x).bind fun found => ?_
          cases found with
          | some v => exact Refines.refl _
          | none => exact refines_resolveShared hdeeper x span

/-! ### Invariants that no step breaks -/

/-- An invariant of states that no step of evaluation breaks. -/
structure Stable (A : EvalState → Prop) : Prop where
  /-- Something is written down. -/
  note : ∀ e s, A s → A (s.note e)
  /-- A value is kept in the innermost frame. -/
  keepLocal : ∀ x v s, A s → A (s.keepLocal x v)
  /-- A shared value is kept. -/
  keepShared : ∀ x v s, A s → A (s.keepShared x v)
  /-- A frame is opened. -/
  opened : ∀ values s, A s → A (opened values s)
  /-- The innermost frame is gone. -/
  closed : ∀ s, A s → A { s with frames := s.frames.drop 1 }

section Stable

variable {A : EvalState → Prop} (hA : Stable A)

include hA

theorem Stable.silent {x : Eval α} (hx : Silent x) : Keeps A (fun _ => True) x :=
  hx.keeps (fun e _ => hA.note e) fun _ _ _ _ _ => ⟨trivial, fun _ _ => trivial⟩

theorem Stable.write (e : Event) : Keeps A (fun _ => True) (write e) := Keeps.write (hA.note e)

section Resolver

variable {resolve : Resolver}
  (hresolve : ∀ scope x span, Keeps A (fun _ => True) (resolve scope x span))

include hresolve

omit hA in
theorem keeps_resolveAll (scope : Option Class) (xs : List Ident) :
    Keeps A (fun _ => True) (resolveAll resolve scope xs) :=
  Keeps.mapM fun x _ => hresolve scope x.name x.span

theorem keeps_fieldValue (c : Class) (f : Field) :
    Keeps A (fun _ => True) (fieldValue resolve c f) :=
  (hA.write _).bind fun _ => (hresolve _ _ _).bind fun _ => Keeps.pure _

theorem keeps_instantiate (name : String) (actuals : List Value) (site : Option Location) :
    Keeps A (fun _ => True) (instantiate r maxDepth resolve name actuals site) := by
  cases hc : r.class? name with
  | none =>
      rw [instantiate_of_none hc]
      exact Keeps.throw trivial
  | some c =>
      have hvalues : Keeps A (fun _ => True) (fieldValues resolve c) :=
        Keeps.mapM fun f _ => keeps_fieldValue hA hresolve c f
      have hframe := (hvalues.bind fun vs =>
        Keeps.pure (⟨c, Entries.ofList vs⟩ : Object)).inFrame (hA.opened (c.bind actuals)) hA.closed
      intro s res t hs h
      rw [ends_instantiate_iff hc] at h
      split at h
      · obtain ⟨rfl, rfl⟩ := h
        exact ⟨hs, fun _ _ => trivial⟩
      · exact ((hA.silent (Silent.checkActuals c actuals _)).bind fun _ =>
          (hA.write _).bind fun _ => hframe) s res t hs h

theorem keeps_operation (scope : Option Class) (op : Operation) :
    Keeps A (fun _ => True) (operation r maxDepth resolve scope op) := by
  have hoperands := keeps_resolveAll hresolve scope
  unfold operation
  cases op.action with
  | constant value ty => exact hA.silent (Silent.constant r _ value ty)
  | object target actuals operandTys ty =>
      exact (hoperands actuals).bind fun vs =>
        (keeps_instantiate hA hresolve target.name vs _).bind fun _ => Keeps.pure _
  | listCreate elements elementTy => exact (hoperands elements).bind fun _ => Keeps.pure _
  | tupleCreate elements elementTys => exact (hoperands elements).bind fun _ => Keeps.pure _
  | mapCreate entries keyTy valueTy =>
      exact (hoperands entries).bind fun vs => hA.silent (Silent.buildMap vs keyTy valueTy _)
  | field name value ty => exact Keeps.throw trivial

theorem keeps_resolveShared (x : String) (span : Span) :
    Keeps A (fun _ => True) (resolveShared r maxDepth resolve x span) := by
  unfold resolveShared
  refine Keeps.get.bind fun s => ?_
  split
  · exact Keeps.pure _
  · split
    · exact (hA.write _).bind fun _ => (keeps_operation hA hresolve none _).bind fun v =>
        (Keeps.modify (hA.keepShared x v)).bind fun _ => Keeps.pure _
    · exact Keeps.throw trivial

theorem keeps_resolveLocal (c : Class) (x : String) :
    Keeps A (fun _ => True) (resolveLocal r maxDepth resolve c x) := by
  unfold resolveLocal
  refine Keeps.get.bind fun s => ?_
  split
  · exact Keeps.pure _
  · split
    · exact (hA.write _).bind fun _ => (keeps_operation hA hresolve (some c) _).bind fun v =>
        (Keeps.modify (hA.keepLocal x v)).bind fun _ => Keeps.pure _
    · exact Keeps.pure _

end Resolver

/-- Asking for the value of a name keeps what no step breaks. -/
theorem keeps_resolveUpTo (n : Nat) :
    ∀ scope x span, Keeps A (fun _ => True) (resolveUpTo r maxDepth n scope x span) := by
  induction n with
  | zero => exact fun _ _ _ _ _ _ _ h => absurd h not_ends_diverge
  | succ n ih =>
      intro scope x span
      cases scope with
      | none =>
          rw [resolveUpTo_outside]
          exact keeps_resolveShared hA ih x span
      | some c =>
          rw [resolveUpTo_inside]
          refine (keeps_resolveLocal hA ih c x).bind fun found => ?_
          cases found with
          | some v => exact Keeps.pure v
          | none => exact keeps_resolveShared hA ih x span

end Stable

/-- No step takes anything out of the journal. -/
theorem stable_journal (journal : List Event) : Stable fun s => journal <:+ s.journal where
  note _ _ hs := hs.trans (List.suffix_cons _ _)
  keepLocal x v s hs := by
    unfold EvalState.keepLocal
    split <;> exact hs
  keepShared _ _ _ hs := hs
  opened _ _ hs := hs
  closed _ hs := hs

/-- The computation writes the journal on. -/
abbrev Grows (x : Eval α) : Prop :=
  ∀ journal, Keeps (fun s => journal <:+ s.journal) (fun _ => True) x

theorem Ends.journal_suffix {x : Eval α} {s t : EvalState} {res : Except EvalError α}
    (h : Ends x s res t) (hx : Grows x) : s.journal <:+ t.journal :=
  (hx s.journal s res t (List.suffix_refl _) h).1

theorem grows_resolveUpTo (n : Nat) (scope : Option Class) (x : String) (span : Span) :
    Grows (resolveUpTo r maxDepth n scope x span) :=
  fun journal => keeps_resolveUpTo (stable_journal journal) n scope x span

theorem grows_instantiate (n : Nat) (name : String) (actuals : List Value)
    (site : Option Location) :
    Grows (instantiate r maxDepth (resolveUpTo r maxDepth n) name actuals site) := fun journal =>
  keeps_instantiate (stable_journal journal) (keeps_resolveUpTo (stable_journal journal) n) name
    actuals site

theorem grows_operation (n : Nat) (scope : Option Class) (op : Operation) :
    Grows (operation r maxDepth (resolveUpTo r maxDepth n) scope op) := fun journal =>
  keeps_operation (stable_journal journal) (keeps_resolveUpTo (stable_journal journal) n) scope op

/-! ### What is begun, ends -/

/-- The first part of two computations one after the other ends before both do. -/
theorem exists_ends_of_bind {x : Eval α} {f : α → Eval β} (hf : ∀ a, Grows (f a))
    {s t : EvalState} {res : Except EvalError β} (h : Ends (x >>= f) s res t) :
    ∃ res' u, Ends x s res' u ∧ u.journal <:+ t.journal := by
  rcases ends_bind_iff.1 h with ⟨e, he, -⟩ | ⟨a, u, ha, hfa⟩
  · exact ⟨_, t, he, List.suffix_refl _⟩
  · exact ⟨_, u, ha, hfa.journal_suffix (hf a)⟩

/-- Each of several computations one after the other ends before all do. -/
theorem exists_ends_of_mapM {f : α → Eval β} (hf : ∀ a, Grows (f a)) {before after : List α}
    {a : α} {vs : List β} {s u t : EvalState} {res : Except EvalError (List β)}
    (hbefore : Ends (before.mapM f) s (.ok vs) u)
    (h : Ends ((before ++ a :: after).mapM f) s res t) :
    ∃ res' w, Ends (f a) u res' w ∧ w.journal <:+ t.journal := by
  induction before generalizing s vs res with
  | nil =>
      obtain ⟨-, rfl⟩ := ends_mapM_nil_iff.1 hbefore
      rw [List.nil_append, List.mapM_cons] at h
      refine exists_ends_of_bind (fun b journal => ?_) h
      exact (Keeps.mapM fun a' _ => hf a' journal).bind fun bs => Keeps.pure _
  | cons b before ih =>
      rw [ends_mapM_cons_iff] at hbefore
      rcases hbefore with ⟨e, -, he⟩ | ⟨v, w, hv, r', hr', hvs⟩
      · cases he
      · rw [List.cons_append, ends_mapM_cons_iff] at h
        rcases h with ⟨e, he, -⟩ | ⟨v', w', hv', r'', hr'', -⟩
        · cases (hv.unique he).1
        · obtain ⟨-, rfl⟩ := hv.unique hv'
          cases r' with
          | error e => cases hvs
          | ok vs' => exact ih hr' hr''

/-- The request, begun in a state, ends in the state `t` when operands are asked for at most `n`
deep. -/
def Done (r : Registry) (maxDepth n : Nat) (t : EvalState) : Request × EvalState → Prop
  | (.object name actuals site, s) =>
      ∃ res, Ends (instantiate r maxDepth (resolveUpTo r maxDepth n) name actuals site) s res t
  | (.name scope x span, s) => ∃ res, Ends (resolveUpTo r maxDepth n scope x span) s res t
  | (.operation scope op, s) =>
      ∃ res, Ends (operation r maxDepth (resolveUpTo r maxDepth n) scope op) s res t

/-- A request writes the journal on. -/
theorem Done.journal_suffix {n : Nat} {t : EvalState} {p : Request × EvalState}
    (h : Done r maxDepth n t p) : p.2.journal <:+ t.journal := by
  obtain ⟨request, s⟩ := p
  cases request with
  | object name actuals site =>
      obtain ⟨res, hres⟩ := h
      exact hres.journal_suffix (grows_instantiate n name actuals site)
  | name scope x span =>
      obtain ⟨res, hres⟩ := h
      exact hres.journal_suffix (grows_resolveUpTo n scope x span)
  | operation scope op =>
      obtain ⟨res, hres⟩ := h
      exact hres.journal_suffix (grows_operation n scope op)

/-- A request that ends, ends in the same state if operands are asked for deeper. -/
theorem Done.mono {n m : Nat} (hnm : n ≤ m) {t : EvalState} {p : Request × EvalState}
    (h : Done r maxDepth n t p) : Done r maxDepth m t p := by
  have hdeeper := @refines_resolveUpTo r maxDepth _ _ hnm
  obtain ⟨request, s⟩ := p
  cases request with
  | object name actuals site =>
      obtain ⟨res, hres⟩ := h
      exact ⟨res, refines_instantiate hdeeper name actuals site _ _ _ hres⟩
  | name scope x span =>
      obtain ⟨res, hres⟩ := h
      exact ⟨res, hdeeper scope x span _ _ _ hres⟩
  | operation scope op =>
      obtain ⟨res, hres⟩ := h
      exact ⟨res, refines_operation hdeeper scope op _ _ _ hres⟩

/-- An operation that is no field asks for its operands first. -/
theorem exists_ends_resolveAll {n : Nat} {scope : Option Class} {op : Operation}
    (hvalue : op.action.isField = false) {s t : EvalState} {res : Except EvalError Value}
    (h : Ends (operation r maxDepth (resolveUpTo r maxDepth n) scope op) s res t) :
    ∃ res' u, Ends (resolveAll (resolveUpTo r maxDepth n) scope op.action.operands) s res' u ∧
      u.journal <:+ t.journal := by
  have hgrows := h.journal_suffix (grows_operation n scope op)
  unfold operation at h
  cases hop : op.action with
  | constant value ty => exact ⟨_, s, ends_mapM_nil_iff.2 ⟨rfl, rfl⟩, hgrows⟩
  | object target actuals operandTys ty =>
      rw [hop] at h
      exact exists_ends_of_bind (fun vs journal =>
        (grows_instantiate n target.name vs _ journal).bind fun _ => Keeps.pure _) h
  | listCreate elements elementTy =>
      rw [hop] at h
      exact exists_ends_of_bind (fun vs journal => Keeps.pure _) h
  | tupleCreate elements elementTys =>
      rw [hop] at h
      exact exists_ends_of_bind (fun vs journal => Keeps.pure _) h
  | mapCreate entries keyTy valueTy =>
      rw [hop] at h
      exact exists_ends_of_bind (fun vs journal =>
        (stable_journal journal).silent (Silent.buildMap vs keyTy valueTy _)) h
  | field name value ty =>
      rw [hop] at hvalue
      cases hvalue

/-- What a shared value asks for, if it is not kept, ends before it does. -/
theorem exists_ends_of_resolveShared {n : Nat} {x : String} {span : Span} {op : Operation}
    {s t : EvalState} {res : Except EvalError Value} (hkept : s.shared.lookup x = none)
    (hop : r.value? x = some op)
    (h : Ends (resolveShared r maxDepth (resolveUpTo r maxDepth n) x span) s res t) :
    ∃ u, Done r maxDepth n u (.operation none op, s.note (.computing 0 x)) ∧
      u.journal <:+ t.journal := by
  rw [ends_resolveShared_iff] at h
  simp only [hkept, hop, ends_write_bind_iff] at h
  obtain ⟨res', u, hu, hsuffix⟩ := exists_ends_of_bind (fun v journal =>
    (Keeps.modify ((stable_journal journal).keepShared x v)).bind fun _ => Keeps.pure v) h
  exact ⟨u, ⟨res', hu⟩, hsuffix⟩

/-- So does what a value of a class body asks for. -/
theorem exists_ends_of_resolveLocal {n : Nat} {c : Class} {x : String} {op : Operation}
    {s t : EvalState} {res : Except EvalError (Option Value)} (hkept : s.local? x = none)
    (hop : c.definition? x = some op)
    (h : Ends (resolveLocal r maxDepth (resolveUpTo r maxDepth n) c x) s res t) :
    ∃ u, Done r maxDepth n u
        (.operation (some c) op, s.note (.computing ((s.frames.head?.map Frame.id).getD 0) x)) ∧
      u.journal <:+ t.journal := by
  rw [ends_resolveLocal_iff] at h
  simp only [hkept, hop, ends_write_bind_iff] at h
  obtain ⟨res', u, hu, hsuffix⟩ := exists_ends_of_bind (fun v journal =>
    (Keeps.modify ((stable_journal journal).keepLocal x v)).bind fun _ => Keeps.pure (some v)) h
  exact ⟨u, ⟨res', hu⟩, hsuffix⟩

/-- If a name ends, so did what it asks for. -/
theorem Done.name_inside {n : Nat} {t : EvalState} {c : Class} {x : String} {span : Span}
    {s : EvalState} {op : Operation} (h : Done r maxDepth n t (.name (some c) x span, s))
    (hkept : s.local? x = none) (hop : c.definition? x = some op) :
    ∃ m u, Done r maxDepth m u
        (.operation (some c) op, s.note (.computing ((s.frames.head?.map Frame.id).getD 0) x)) ∧
      u.journal <:+ t.journal := by
  obtain ⟨res, hres⟩ := h
  cases n with
  | zero => exact absurd hres not_ends_diverge
  | succ n =>
      rw [resolveUpTo_inside] at hres
      obtain ⟨res', u, hu, hsuffix⟩ := exists_ends_of_bind (fun found journal => by
        cases found with
        | some v => exact Keeps.pure v
        | none =>
            exact keeps_resolveShared (stable_journal journal)
              (keeps_resolveUpTo (stable_journal journal) n) x span) hres
      obtain ⟨w, hw, hw'⟩ := exists_ends_of_resolveLocal hkept hop hu
      exact ⟨n, w, hw, hw'.trans hsuffix⟩

theorem Done.name_shared {n : Nat} {t : EvalState} {scope : Option Class} {x : String}
    {span : Span} {s : EvalState} {op : Operation}
    (h : Done r maxDepth n t (.name scope x span, s))
    (hscope : ∀ c, scope = some c → s.local? x = none ∧ c.definition? x = none)
    (hkept : s.shared.lookup x = none) (hop : r.value? x = some op) :
    ∃ m u, Done r maxDepth m u (.operation none op, s.note (.computing 0 x)) ∧
      u.journal <:+ t.journal := by
  obtain ⟨res, hres⟩ := h
  cases n with
  | zero => exact absurd hres not_ends_diverge
  | succ n =>
      have hshared : Ends (resolveShared r maxDepth (resolveUpTo r maxDepth n) x span) s res t := by
        cases scope with
        | none => rwa [resolveUpTo_outside] at hres
        | some c =>
            obtain ⟨hlocal, hdef⟩ := hscope c rfl
            have hnothing : Ends (resolveLocal r maxDepth (resolveUpTo r maxDepth n) c x) s
                (.ok none) s := by
              rw [ends_resolveLocal_iff]
              simp only [hlocal, hdef, and_self]
            rw [resolveUpTo_inside, ends_bind_iff] at hres
            rcases hres with ⟨e, he, -⟩ | ⟨found, u, hu, h⟩
            · cases (hnothing.unique he).1
            · obtain ⟨hfound, rfl⟩ := hnothing.unique hu
              cases hfound
              exact h
      obtain ⟨u, hu, hsuffix⟩ := exists_ends_of_resolveShared hkept hop hshared
      exact ⟨n, u, hu, hsuffix⟩

/-- If an object is made, so was what its fields expose. -/
theorem Done.object_field {n : Nat} {t : EvalState} {name : String} {actuals : List Value}
    {site : Option Location} {c : Class} {before after : List Field} {f : Field}
    {vs : List (String × Value)} {s s' u : EvalState}
    (h : Done r maxDepth n t (.object name actuals site, s))
    (hc : r.class? name = some c) (hdepth : s.frames.length < maxDepth)
    (hactuals : Ends (checkActuals c actuals (site.getD c.location)) s (.ok ()) s')
    (hfields : c.fields = before ++ f :: after)
    (hbefore : Ends (before.mapM (fieldValue (resolveUpTo r maxDepth n) c))
      (opened (c.bind actuals)
        (s'.note (.instantiating c.name.name actuals.length s.frames.length))) (.ok vs) u) :
    ∃ w, Done r maxDepth n w
        (.name (some c) f.value.name f.span, u.note (.evaluating c.name.name f.name.name)) ∧
      w.journal <:+ t.journal := by
  obtain ⟨res, hres⟩ := h
  rw [ends_instantiate_iff hc, if_neg (Nat.not_le.2 hdepth)] at hres
  rcases ends_bind_iff.1 hres with ⟨e, he, -⟩ | ⟨_, w, hw, hres⟩
  · cases (hactuals.unique he).1
  obtain ⟨-, rfl⟩ := hactuals.unique hw
  obtain ⟨v, hv, rfl⟩ := ends_inFrame_iff.1 (ends_write_bind_iff.1 hres)
  obtain ⟨res', w, hw, hsuffix⟩ := exists_ends_of_bind (fun vs journal => Keeps.pure _) hv
  have hmapM : Ends (c.fields.mapM (fieldValue (resolveUpTo r maxDepth n) c)) _ res' w := hw
  rw [hfields] at hmapM
  obtain ⟨res'', w', hw', hsuffix'⟩ := exists_ends_of_mapM (fun f journal =>
    keeps_fieldValue (stable_journal journal) (keeps_resolveUpTo (stable_journal journal) n) c f)
    hbefore hmapM
  obtain ⟨res₁, w₁, hw₁, hsuffix₁⟩ := exists_ends_of_bind (fun v journal => Keeps.pure _)
    (ends_write_bind_iff.1 hw')
  exact ⟨w₁, ⟨res₁, hw₁⟩, (hsuffix₁.trans hsuffix').trans hsuffix⟩

/-- What is begun by a request that ends, ends before it does. -/
theorem Begins.exists_done {n : Nat} {t : EvalState} {p q : Request × EvalState}
    (h : Begins r maxDepth p q) (hp : Done r maxDepth n t p) :
    ∃ m u, Done r maxDepth m u q ∧ u.journal <:+ t.journal := by
  cases h with
  | @field name actuals site c before after f l vs s s' u hc hdepth hactuals hfields hbefore =>
      -- both are looked at when operands are asked for as deep as either of them needs
      have hdeeper := @refines_resolveUpTo r maxDepth _ _ (Nat.le_max_left l n)
      have hbefore : Ends (before.mapM (fieldValue (resolveUpTo r maxDepth (max l n)) c)) _ (.ok vs)
        u := Refines.mapM (fun f _ => refines_fieldValue hdeeper c f) _ _ _ hbefore
      obtain ⟨w, hw, hsuffix⟩ := (hp.mono (Nat.le_max_right l n)).object_field hc hdepth hactuals
        hfields hbefore
      exact ⟨_, w, hw, hsuffix⟩
  | inside hkept hop => exact hp.name_inside hkept hop
  | shared hscope hkept hop => exact hp.name_shared hscope hkept hop
  | @operand scope op before after x l vs s u hvalue hoperands hbefore =>
      have hdeeper := @refines_resolveUpTo r maxDepth _ _ (Nat.le_max_left l n)
      have hbefore : Ends (resolveAll (resolveUpTo r maxDepth (max l n)) scope before) _ (.ok vs)
        u := refines_resolveAll hdeeper scope before _ _ _ hbefore
      obtain ⟨res, hres⟩ := hp.mono (Nat.le_max_right l n)
      obtain ⟨res', w, hw, hsuffix⟩ := exists_ends_resolveAll hvalue hres
      rw [hoperands] at hw
      obtain ⟨res'', w', hw', hsuffix'⟩ := exists_ends_of_mapM
        (fun x : Ident => grows_resolveUpTo (max l n) scope x.name x.span) hbefore hw
      exact ⟨_, w', ⟨res'', hw'⟩, hsuffix'.trans hsuffix⟩
  | @nested scope op target actuals operandTys ty l vs s u haction hactuals =>
      have hdeeper := @refines_resolveUpTo r maxDepth _ _ (Nat.le_max_left l n)
      have hactuals : Ends (resolveAll (resolveUpTo r maxDepth (max l n)) scope actuals) _ (.ok vs)
        u := refines_resolveAll hdeeper scope actuals _ _ _ hactuals
      obtain ⟨res, hres⟩ := hp.mono (Nat.le_max_right l n)
      simp only [operation, haction] at hres
      rcases ends_bind_iff.1 hres with ⟨e, he, -⟩ | ⟨ws, w, hw, hres⟩
      · cases (hactuals.unique he).1
      · obtain ⟨hws, rfl⟩ := hactuals.unique hw
        cases hws
        obtain ⟨res', w, hw, hsuffix⟩ := exists_ends_of_bind (fun o journal => Keeps.pure _) hres
        exact ⟨_, w, ⟨res', hw⟩, hsuffix⟩

end Eval

/-- On the whole way of a call that ends, the journal at the time when a request is begun is the
first part of the journal at the end. -/
theorem Registry.Begun.journal_suffix {r : Registry} {maxDepth n : Nat} {name : String}
    {actuals : List Value} {request : Request} {s t : EvalState}
    {res : Except EvalError Object} (h : r.Begun maxDepth name actuals request s)
    (hcall : Eval.Ends (Eval.instantiate r maxDepth (Eval.resolveUpTo r maxDepth n) name actuals
      none) {} res t) : s.journal <:+ t.journal := by
  have hall : ∀ q,
      Relation.ReflTransGen (Eval.Begins r maxDepth) (.object name actuals none, {}) q →
        ∃ m u, Eval.Done r maxDepth m u q ∧ u.journal <:+ t.journal := by
    intro q hq
    induction hq with
    | refl => exact ⟨n, t, ⟨res, hcall⟩, List.suffix_refl _⟩
    | tail _ hstep ih =>
        obtain ⟨m, u, hu, hsuffix⟩ := ih
        obtain ⟨m', u', hu', hsuffix'⟩ := hstep.exists_done hu
        exact ⟨m', u', hu', hsuffix'.trans hsuffix⟩
  obtain ⟨m, u, hu, hsuffix⟩ := hall _ h
  exact hu.journal_suffix.trans hsuffix

end ObjectModel
