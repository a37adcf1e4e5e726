/-
**Runs of computations.**

Evaluation is written as computations that keep a state, may end in an error and may not end.
This module says when such a computation ends and how, one rule for each way of building it, so
that nothing else needs to look inside.

Main definitions:

* `Eval.Ends` — a computation, begun in a state, ends with a result in another state;
* `Eval.Total` — a computation ends, whatever the state;
* `Eval.Keeps` — a computation keeps an invariant of states, and its errors have a property;
* `Eval.Silent` — a computation that does not look at the state and only writes into the journal.

Main results:

* `Eval.ends_bind_iff`, `Eval.ends_inFrame_iff`, … — how composed computations end;
* `Eval.Total.bind`, `Eval.Total.mapM`, `Eval.Total.inFrame` — what is composed of computations
  that end, ends;
* `Eval.Keeps.bind`, `Eval.Silent.bind` and the like — so it is with invariants and with silence.
-/

import ObjectModel.Registry.Instantiate

set_option relaxedAutoImplicit false
set_option autoImplicit false

namespace ObjectModel

/-- Events of the evaluation of a constant or of a map. -/
inductive Event.OfValue : Event → Prop where
  | resolved (path : SymbolPath) : OfValue (resolved path)
  | duplicateKey (key : Key) (loc : Location) : OfValue (duplicateKey key loc)

namespace Eval

variable {α β : Type}

/-! ### Ends -/

/-- The computation `x`, begun in `s`, ends with the result `res` in the state `t`. -/
def Ends (x : Eval α) (s : EvalState) (res : Except EvalError α) (t : EvalState) : Prop :=
  x.run.run s = some (res, t)

/-- A computation ends in one way at most. -/
theorem Ends.unique {x : Eval α} {s t t' : EvalState} {res res' : Except EvalError α}
    (h : Ends x s res t) (h' : Ends x s res' t') : res = res' ∧ t = t' := by
  rw [Ends, h] at h'
  simpa using h'

@[simp] theorem ends_pure_iff {a : α} {s t : EvalState} {res : Except EvalError α} :
    Ends (pure a) s res t ↔ res = .ok a ∧ t = s := by
  simp [Ends, eq_comm]

@[simp] theorem ends_throw_iff {e : EvalError} {s t : EvalState} {res : Except EvalError α} :
    Ends (throw e) s res t ↔ res = .error e ∧ t = s := by
  simp [Ends, eq_comm]

@[simp] theorem ends_get_iff {s t : EvalState} {res : Except EvalError EvalState} :
    Ends get s res t ↔ res = .ok s ∧ t = s := by
  change some (Except.ok s, s) = some (res, t) ↔ _
  simp [eq_comm]

@[simp] theorem ends_modify_iff {f : EvalState → EvalState} {s t : EvalState}
    {res : Except EvalError PUnit} :
    Ends (modify f) s res t ↔ res = .ok ⟨⟩ ∧ t = f s := by
  change some (Except.ok PUnit.unit, f s) = some (res, t) ↔ _
  simp [eq_comm]

@[simp] theorem ends_write_iff {e : Event} {s t : EvalState} {res : Except EvalError Unit} :
    Ends (write e) s res t ↔ res = .ok () ∧ t = { s with journal := e :: s.journal } :=
  ends_modify_iff

@[simp] theorem not_ends_diverge {s t : EvalState} {res : Except EvalError α} :
    ¬Ends diverge s res t := by
  simp [Ends, diverge, StateT.run]

/-- Two computations one after the other end in the first one's error, or as the second one
does. -/
theorem ends_bind_iff {x : Eval α} {f : α → Eval β} {s t : EvalState}
    {res : Except EvalError β} :
    Ends (x >>= f) s res t ↔
      (∃ e, Ends x s (.error e) t ∧ res = .error e) ∨
        ∃ a u, Ends x s (.ok a) u ∧ Ends (f a) u res t := by
  simp only [Ends, ExceptT.run_bind, StateT.run_bind]
  cases hx : x.run.run s with
  | none => simp
  | some p =>
      obtain ⟨r, u⟩ := p
      cases r with
      | error e =>
          simp only [Option.bind_eq_bind, Option.bind_some, Option.some.injEq, Prod.mk.injEq,
            Except.error.injEq, reduceCtorEq, false_and, exists_false, or_false]
          constructor
          · rintro h
            obtain ⟨rfl, rfl⟩ : Except.error e = res ∧ u = t := by simpa using h
            exact ⟨e, ⟨rfl, rfl⟩, rfl⟩
          · rintro ⟨_, ⟨rfl, rfl⟩, rfl⟩
            rfl
      | ok a =>
          simp only [Option.bind_eq_bind, Option.bind_some, Option.some.injEq, Prod.mk.injEq,
            reduceCtorEq, false_and, exists_false, false_or, Except.ok.injEq]
          constructor
          · exact fun h => ⟨a, u, ⟨rfl, rfl⟩, h⟩
          · rintro ⟨_, _, ⟨rfl, rfl⟩, h⟩
            exact h

theorem ends_write_bind_iff {e : Event} {f : Unit → Eval β} {s t : EvalState}
    {res : Except EvalError β} :
    Ends (write e >>= f) s res t ↔ Ends (f ()) { s with journal := e :: s.journal } res t := by
  rw [ends_bind_iff]
  constructor
  · rintro (⟨e', he', -⟩ | ⟨_, _, hu, h⟩)
    · simp at he'
    · obtain ⟨-, rfl⟩ := ends_write_iff.1 hu
      exact h
  · exact fun h => .inr ⟨(), _, ends_write_iff.2 ⟨rfl, rfl⟩, h⟩

theorem ends_modify_pure_iff {f : EvalState → EvalState} {a : α} {s t : EvalState}
    {res : Except EvalError α} :
    Ends (modify f >>= fun _ => pure a) s res t ↔ res = .ok a ∧ t = f s := by
  rw [ends_bind_iff]
  constructor
  · rintro (⟨e', he', -⟩ | ⟨_, _, hu, h⟩)
    · simp at he'
    · obtain ⟨-, rfl⟩ := ends_modify_iff.1 hu
      exact ends_pure_iff.1 h
  · exact fun h => .inr ⟨⟨⟩, _, ends_modify_iff.2 ⟨rfl, rfl⟩, ends_pure_iff.2 h⟩

theorem ends_map_iff {x : Eval α} {f : α → β} {s t : EvalState} {res : Except EvalError β} :
    Ends (f <$> x) s res t ↔ ∃ r, Ends x s r t ∧ res = r.map f := by
  rw [map_eq_pure_bind, ends_bind_iff]
  constructor
  · rintro (⟨e, he, rfl⟩ | ⟨a, u, ha, hf⟩)
    · exact ⟨_, he, rfl⟩
    · obtain ⟨rfl, rfl⟩ := ends_pure_iff.1 hf
      exact ⟨_, ha, rfl⟩
  · rintro ⟨e | a, hr, rfl⟩
    · exact .inl ⟨e, hr, rfl⟩
    · exact .inr ⟨a, t, hr, by simp [Except.map]⟩

/-- The state in which a computation begins that runs in a new frame. -/
def opened (values : List (String × Value)) (s : EvalState) : EvalState :=
  { s with frames := ⟨s.opened + 1, values⟩ :: s.frames, opened := s.opened + 1 }

theorem ends_inFrame_iff {values : List (String × Value)} {x : Eval α} {s t : EvalState}
    {res : Except EvalError α} :
    Ends (inFrame values x) s res t ↔
      ∃ u, Ends x (opened values s) res u ∧ t = { u with frames := u.frames.drop 1 } := by
  change (x.run.run (opened values s)).map _ = some (res, t) ↔ _
  rw [Option.map_eq_some_iff]
  constructor
  · rintro ⟨⟨r, u⟩, hr, he⟩
    obtain ⟨rfl, rfl⟩ := Prod.mk.inj he
    exact ⟨u, hr, rfl⟩
  · rintro ⟨u, hr, rfl⟩
    exact ⟨(res, u), hr, rfl⟩

@[simp] theorem ends_mapM_nil_iff {f : α → Eval β} {s t : EvalState}
    {res : Except EvalError (List β)} :
    Ends ([].mapM f) s res t ↔ res = .ok [] ∧ t = s := by
  rw [List.mapM_nil, ends_pure_iff]

theorem ends_mapM_cons_iff {f : α → Eval β} {a : α} {as : List α} {s t : EvalState}
    {res : Except EvalError (List β)} :
    Ends ((a :: as).mapM f) s res t ↔
      (∃ e, Ends (f a) s (.error e) t ∧ res = .error e) ∨
        ∃ b u, Ends (f a) s (.ok b) u ∧ ∃ r, Ends (as.mapM f) u r t ∧ res = r.map (b :: ·) := by
  rw [List.mapM_cons, ends_bind_iff]
  simp only [bind_pure_comp, ends_map_iff]

/-! ### Computations that end -/

/-- A computation ends, whatever the state. -/
def Total (x : Eval α) : Prop := ∀ s, ∃ res t, Ends x s res t

theorem Total.pure (a : α) : Total (Pure.pure a : Eval α) :=
  fun _ => ⟨_, _, ends_pure_iff.2 ⟨rfl, rfl⟩⟩

theorem Total.throw (e : EvalError) : Total (MonadExcept.throw e : Eval α) :=
  fun _ => ⟨_, _, ends_throw_iff.2 ⟨rfl, rfl⟩⟩

theorem Total.get : Total (MonadState.get : Eval EvalState) :=
  fun _ => ⟨_, _, ends_get_iff.2 ⟨rfl, rfl⟩⟩

theorem Total.modify (f : EvalState → EvalState) : Total (modify f : Eval PUnit) :=
  fun _ => ⟨_, _, ends_modify_iff.2 ⟨rfl, rfl⟩⟩

theorem Total.write (e : Event) : Total (Eval.write e) := Total.modify _

/-- What begins with a computation that ends, ends if what comes behind it does. -/
theorem Ends.bind_total {x : Eval α} {f : α → Eval β} {s u : EvalState}
    {r : Except EvalError α} (hx : Ends x s r u) (hf : ∀ a, Total (f a)) :
    ∃ res t, Ends (x >>= f) s res t := by
  cases r with
  | error e => exact ⟨_, u, ends_bind_iff.2 (.inl ⟨e, hx, rfl⟩)⟩
  | ok a =>
      obtain ⟨res, t, ht⟩ := hf a u
      exact ⟨res, t, ends_bind_iff.2 (.inr ⟨a, u, hx, ht⟩)⟩

theorem Total.bind {x : Eval α} {f : α → Eval β} (hx : Total x) (hf : ∀ a, Total (f a)) :
    Total (x >>= f) := by
  intro s
  obtain ⟨r, u, hu⟩ := hx s
  exact hu.bind_total hf

theorem Total.map {x : Eval α} {f : α → β} (hx : Total x) : Total (f <$> x) := by
  rw [map_eq_pure_bind]
  exact hx.bind fun a => Total.pure _

theorem Total.mapM {f : α → Eval β} {as : List α} (h : ∀ a ∈ as, Total (f a)) :
    Total (as.mapM f) := by
  induction as with
  | nil => exact Total.pure _
  | cons a as ih =>
      rw [List.mapM_cons]
      have htail : Total (as.mapM f) := ih fun b hb => h b (List.mem_cons_of_mem _ hb)
      exact (h a (by simp)).bind fun b => htail.bind fun bs => Total.pure _

theorem Total.inFrame {values : List (String × Value)} {x : Eval α} (h : Total x) :
    Total (Eval.inFrame values x) := by
  intro s
  obtain ⟨res, u, hu⟩ := h (opened values s)
  exact ⟨res, _, ends_inFrame_iff.2 ⟨u, hu, rfl⟩⟩

/-! ### Computations that keep an invariant -/

/-- The computation keeps the invariant `A`, and every error that it ends in has the property
`P`. -/
def Keeps (A : EvalState → Prop) (P : EvalError → Prop) (x : Eval α) : Prop :=
  ∀ s res t, A s → Ends x s res t → A t ∧ ∀ e, res = .error e → P e

section Keeps

variable {A : EvalState → Prop} {P : EvalError → Prop}

theorem Keeps.pure (a : α) : Keeps A P (Pure.pure a : Eval α) := by
  intro s res t hs h
  obtain ⟨rfl, rfl⟩ := ends_pure_iff.1 h
  exact ⟨hs, by simp⟩

theorem Keeps.throw {e : EvalError} (he : P e) :
    Keeps A P (MonadExcept.throw e : Eval α) := by
  intro s res t hs h
  obtain ⟨rfl, rfl⟩ := ends_throw_iff.1 h
  refine ⟨hs, ?_⟩
  rintro e' ⟨⟩
  exact he

theorem Keeps.get : Keeps A P (MonadState.get : Eval EvalState) := by
  intro s res t hs h
  obtain ⟨rfl, rfl⟩ := ends_get_iff.1 h
  exact ⟨hs, by simp⟩

theorem Keeps.modify {f : EvalState → EvalState} (hf : ∀ s, A s → A (f s)) :
    Keeps A P (modify f : Eval PUnit) := by
  intro s res t hs h
  obtain ⟨rfl, rfl⟩ := ends_modify_iff.1 h
  exact ⟨hf s hs, by simp⟩

theorem Keeps.write {e : Event} (he : ∀ s, A s → A { s with journal := e :: s.journal }) :
    Keeps A P (Eval.write e) := Keeps.modify he

theorem Keeps.bind {x : Eval α} {f : α → Eval β} (hx : Keeps A P x)
    (hf : ∀ a, Keeps A P (f a)) : Keeps A P (x >>= f) := by
  intro s res t hs h
  rcases ends_bind_iff.1 h with ⟨e, he, rfl⟩ | ⟨a, u, ha, hfa⟩
  · obtain ⟨ht, hP⟩ := hx s _ t hs he
    refine ⟨ht, ?_⟩
    rintro e' ⟨⟩
    exact hP e rfl
  · exact hf a u res t (hx s _ u hs ha).1 hfa

theorem Keeps.mapM {f : α → Eval β} {as : List α} (h : ∀ a ∈ as, Keeps A P (f a)) :
    Keeps A P (as.mapM f) := by
  induction as with
  | nil => exact Keeps.pure _
  | cons a as ih =>
      rw [List.mapM_cons]
      have htail := ih fun b hb => h b (List.mem_cons_of_mem _ hb)
      exact (h a (by simp)).bind fun b => htail.bind fun bs => Keeps.pure _

/-- In a new frame another invariant may be kept. -/
theorem Keeps.inFrame {B : EvalState → Prop} {values : List (String × Value)} {x : Eval α}
    (hx : Keeps B P x) (hopen : ∀ s, A s → B (opened values s))
    (hclose : ∀ s, B s → A { s with frames := s.frames.drop 1 }) :
    Keeps A P (Eval.inFrame values x) := by
  intro s res t hs h
  obtain ⟨u, hu, rfl⟩ := ends_inFrame_iff.1 h
  obtain ⟨hB, hP⟩ := hx _ res u (hopen s hs) hu
  exact ⟨hclose u hB, hP⟩

end Keeps

/-! ### Silent computations -/

/-- A computation that does not look at the state: it has a result of its own, and all it does is
to write such events into the journal. -/
def Silent (x : Eval α) : Prop :=
  ∃ (res : Except EvalError α) (es : List Event), (∀ e ∈ es, e.OfValue) ∧
    ∀ s : EvalState, Ends x s res { s with journal := es ++ s.journal }

theorem Silent.total {x : Eval α} (h : Silent x) : Total x := by
  obtain ⟨res, es, -, h⟩ := h
  exact fun s => ⟨res, _, h s⟩

/-- A silent computation keeps what does not hang on the events that it writes. -/
theorem Silent.keeps {x : Eval α} {A : EvalState → Prop} {P : EvalError → Prop} (h : Silent x)
    (hA : ∀ e : Event, e.OfValue → ∀ s, A s → A { s with journal := e :: s.journal })
    (hP : Keeps (fun _ => True) P x) : Keeps A P x := by
  intro s res t hs hx
  refine ⟨?_, (hP s res t trivial hx).2⟩
  obtain ⟨res', es, hes, hall⟩ := h
  obtain ⟨-, rfl⟩ := hx.unique (hall s)
  clear hall hx
  induction es with
  | nil => exact hs
  | cons e es ih =>
      have hrest := ih fun e' he' => hes e' (List.mem_cons_of_mem _ he')
      exact hA e (hes e List.mem_cons_self) { s with journal := es ++ s.journal } hrest

theorem Silent.pure (a : α) : Silent (Pure.pure a : Eval α) := ⟨.ok a, [], by simp, by simp⟩

theorem Silent.throw (e : EvalError) : Silent (MonadExcept.throw e : Eval α) :=
  ⟨.error e, [], by simp, by simp⟩

theorem Silent.write {e : Event} (he : e.OfValue) : Silent (Eval.write e) :=
  ⟨.ok (), [e], by simpa using he, by simp⟩

theorem Silent.bind {x : Eval α} {f : α → Eval β} (hx : Silent x) (hf : ∀ a, Silent (f a)) :
    Silent (x >>= f) := by
  obtain ⟨r, es, hes, hr⟩ := hx
  cases r with
  | error e => exact ⟨.error e, es, hes, fun s => ends_bind_iff.2 (.inl ⟨e, hr s, rfl⟩)⟩
  | ok a =>
      obtain ⟨res, es', hes', hf⟩ := hf a
      refine ⟨res, es' ++ es, ?_, fun s => ends_bind_iff.2 (.inr ⟨a, _, hr s, ?_⟩)⟩
      · intro e he
        exact (List.mem_append.1 he).elim (hes' e) (hes e)
      · simpa using hf { s with journal := es ++ s.journal }

theorem Silent.map {x : Eval α} {f : α → β} (hx : Silent x) : Silent (f <$> x) := by
  rw [map_eq_pure_bind]
  exact hx.bind fun a => Silent.pure _

theorem Silent.keyKind (ty : Ty) (loc : Location) : Silent (Eval.keyKind ty loc) := by
  unfold Eval.keyKind
  split
  · exact Silent.pure _
  · exact Silent.throw _

theorem Silent.constantKeyKind (ty : Ty) (loc : Location) :
    Silent (Eval.constantKeyKind ty loc) := by
  unfold Eval.constantKeyKind
  split
  · exact Silent.keyKind _ _
  · exact Silent.pure _

theorem Silent.keyOfText (k : KeyKind) (text : String) (loc : Location) :
    Silent (Eval.keyOfText k text loc) := by
  unfold Eval.keyOfText
  split
  · exact Silent.pure _
  · split
    · exact Silent.pure _
    · exact Silent.throw _

theorem Silent.reference (r : Registry) (p : SymbolPath) (loc : Location) :
    Silent (Eval.reference r p loc) := by
  unfold Eval.reference
  split
  · exact (Silent.write (.resolved p)).bind fun _ => Silent.pure _
  · exact Silent.throw _

mutual

/-- The value of a constant does not hang on the state. -/
theorem Silent.constant (r : Registry) (loc : Location) :
    ∀ (a : Attribute) (ty : Ty), Silent (Eval.constant r loc a ty)
  | .integer _, _ => Silent.pure _
  | .string _, _ => Silent.pure _
  | .list elementTy es, _ => (Silent.constants r loc elementTy es).bind fun _ => Silent.pure _
  | .map valueTy es, ty => (Silent.constantKeyKind ty loc).bind fun k =>
      (Silent.constantEntries r loc k valueTy es).bind fun _ => Silent.pure _
  | .ref p, _ => Silent.reference r p loc

theorem Silent.constants (r : Registry) (loc : Location) (ty : Ty) :
    ∀ as : List Attribute, Silent (Eval.constants r loc ty as)
  | [] => Silent.pure _
  | a :: as => (Silent.constant r loc a ty).bind fun _ =>
      (Silent.constants r loc ty as).bind fun _ => Silent.pure _

theorem Silent.constantEntries (r : Registry) (loc : Location) (k : KeyKind) (ty : Ty) :
    ∀ es : List (String × Attribute), Silent (Eval.constantEntries r loc k ty es)
  | [] => Silent.pure _
  | (text, a) :: es => (Silent.keyOfText k text loc).bind fun _ =>
      (Silent.constant r loc a ty).bind fun _ =>
        (Silent.constantEntries r loc k ty es).bind fun _ => Silent.pure _

end

theorem Silent.entryOf (k : KeyKind) (loc : Location) (entry : Value) :
    Silent (Eval.entryOf k loc entry) := by
  unfold Eval.entryOf
  split
  · split
    · exact Silent.pure _
    · exact Silent.throw _
  · exact Silent.throw _

theorem Silent.writeEntries (k : KeyKind) (loc : Location) (es : List Value) :
    ∀ entries : List (Key × Value), Silent (Eval.writeEntries k loc entries es) := by
  induction es with
  | nil => exact fun _ => Silent.pure _
  | cons e es ih =>
      intro entries
      rw [Eval.writeEntries]
      refine (Silent.entryOf k loc e).bind fun p => ?_
      dsimp only
      split
      · exact (Silent.write (.duplicateKey p.1 loc)).bind fun _ => ih _
      · exact ih _

/-- The map of a list of pairs does not hang on the state. -/
theorem Silent.buildMap (es : List Value) (keyTy valueTy : Ty) (loc : Location) :
    Silent (Eval.buildMap es keyTy valueTy loc) :=
  (Silent.keyKind keyTy loc).bind fun k =>
    (Silent.writeEntries k loc es []).bind fun _ => Silent.pure _

theorem Silent.checkActuals (c : Class) (actuals : List Value) (loc : Location) :
    Silent (Eval.checkActuals c actuals loc) := by
  unfold Eval.checkActuals
  split
  · exact Silent.throw _
  · split
    · exact Silent.throw _
    · exact Silent.pure _

/-- Values that fit the parameters of a class are as many as these. -/
theorem length_params_eq_of_ends {c : Class} {actuals : List Value} {loc : Location}
    {s t : EvalState} {u : Unit} (h : Ends (checkActuals c actuals loc) s (.ok u) t) :
    c.params.length = actuals.length := by
  unfold checkActuals at h
  split at h
  · simp at h
  · next hlen => exact Decidable.not_not.1 hlen

/-! ### Names and objects -/

variable {r : Registry} {maxDepth : Nat} {resolve : Resolver}

theorem instantiate_of_none {name : String} (h : r.class? name = none) (actuals : List Value)
    (site : Option Location) :
    instantiate r maxDepth resolve name actuals site =
      throw (.classNotFound name (site.getD .unknown)) := by
  rw [instantiate, h]

/-- An object of a class that exists: the depth is looked at first, then the values, and then the
fields are evaluated in a new frame. -/
theorem ends_instantiate_iff {name : String} {c : Class} (h : r.class? name = some c)
    {actuals : List Value} {site : Option Location} {s t : EvalState}
    {res : Except EvalError Object} :
    Ends (instantiate r maxDepth resolve name actuals site) s res t ↔
      if maxDepth ≤ s.frames.length then
        res = .error (.depthExceeded c.name.name maxDepth (site.getD c.location)) ∧ t = s
      else
        Ends (do
          checkActuals c actuals (site.getD c.location)
          write (.instantiating c.name.name actuals.length s.frames.length)
          inFrame (Entries.ofList (c.paramNames.zip actuals)) do
            return ⟨c, Entries.ofList (← fieldValues resolve c)⟩) s res t := by
  rw [instantiate, h]
  simp only [ends_bind_iff, ends_get_iff, Except.ok.injEq, reduceCtorEq, false_and, exists_false,
    false_or]
  constructor
  · rintro ⟨_, _, ⟨rfl, rfl⟩, hs⟩
    split at hs <;> rename_i hd
    · rw [if_pos hd]
      simpa [ends_bind_iff] using hs
    · rw [if_neg hd]
      simpa [ends_bind_iff, ClassDecl.paramNames] using hs
  · intro hs
    refine ⟨s, s, ⟨rfl, rfl⟩, ?_⟩
    split at hs <;> rename_i hd
    · rw [if_pos hd]
      simpa [ends_bind_iff] using hs
    · rw [if_neg hd]
      simpa [ends_bind_iff, ClassDecl.paramNames] using hs

/-- A shared value is one that is kept, or else the result of its operation, which is kept. -/
theorem ends_resolveShared_iff {name : String} {span : Span} {s t : EvalState}
    {res : Except EvalError Value} :
    Ends (resolveShared r maxDepth resolve name span) s res t ↔
      match s.shared.lookup name with
      | some v => res = .ok v ∧ t = s
      | none =>
          match r.value? name with
          | some op =>
              Ends (do
                write (.computing 0 name)
                let v ← operation r maxDepth resolve none op
                modify (·.keepShared name v)
                return v) s res t
          | none => res = .error (.undefinedValue name (r.location span)) ∧ t = s := by
  rw [resolveShared, ends_bind_iff]
  simp only [ends_get_iff, Except.ok.injEq, reduceCtorEq, false_and, exists_false, false_or]
  constructor
  · rintro ⟨_, _, ⟨rfl, rfl⟩, hs⟩
    split at hs <;> rename_i hl
    · simpa [hl] using hs
    · split at hs <;> rename_i hop
      · simpa [hl, hop] using hs
      · simpa [hl, hop] using hs
  · intro hs
    refine ⟨s, s, ⟨rfl, rfl⟩, ?_⟩
    split at hs <;> rename_i hl
    · simpa [hl] using hs
    · split at hs <;> rename_i hop
      · simpa [hl, hop] using hs
      · simpa [hl, hop] using hs

/-- A value of a class body is one that is kept, or else the result of an operation of the body,
which is kept. -/
theorem ends_resolveLocal_iff {c : Class} {name : String} {s t : EvalState}
    {res : Except EvalError (Option Value)} :
    Ends (resolveLocal r maxDepth resolve c name) s res t ↔
      match s.local? name with
      | some v => res = .ok (some v) ∧ t = s
      | none =>
          match c.definition? name with
          | some op =>
              Ends (do
                write (.computing ((s.frames.head?.map Frame.id).getD 0) name)
                let v ← operation r maxDepth resolve (some c) op
                modify (·.keepLocal name v)
                return some v) s res t
          | none => res = .ok none ∧ t = s := by
  rw [resolveLocal, ends_bind_iff]
  simp only [ends_get_iff, Except.ok.injEq, reduceCtorEq, false_and, exists_false, false_or]
  constructor
  · rintro ⟨_, _, ⟨rfl, rfl⟩, hs⟩
    split at hs <;> rename_i hl
    · simpa [hl] using hs
    · split at hs <;> rename_i hop
      · simpa [hl, hop] using hs
      · simpa [hl, hop] using hs
  · intro hs
    refine ⟨s, s, ⟨rfl, rfl⟩, ?_⟩
    split at hs <;> rename_i hl
    · simpa [hl] using hs
    · split at hs <;> rename_i hop
      · simpa [hl, hop] using hs
      · simpa [hl, hop] using hs

theorem resolveUpTo_outside (n : Nat) (name : String) (span : Span) :
    resolveUpTo r maxDepth (n + 1) none name span =
      resolveShared r maxDepth (resolveUpTo r maxDepth n) name span := by
  simp [resolveUpTo]

theorem resolveUpTo_inside (n : Nat) (c : Class) (name : String) (span : Span) :
    resolveUpTo r maxDepth (n + 1) (some c) name span =
      (resolveLocal r maxDepth (resolveUpTo r maxDepth n) c name >>= fun
        | some v => pure v
        | none => resolveShared r maxDepth (resolveUpTo r maxDepth n) name span) := rfl

end Eval

end ObjectModel
