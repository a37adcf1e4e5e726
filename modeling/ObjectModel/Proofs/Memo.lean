/-
**What is kept does not matter.**

Evaluation keeps values in frames: those of a class body as long as its object is being made, and
shared ones as long as the whole call.  A state is faithful if every value it keeps is what its
name means.  Evaluation in a faithful state ends in a faithful state, and its result is the
meaning of what was evaluated.

Main definitions:

* `Meaning.Means` — a name of a scope means a value;
* `Meaning.Faithful` — a state that keeps only what names mean;
* `Meaning.Follows` — a computation whose results are meanings, and that keeps states faithful.

Main results:

* `Meaning.Follows.bind`, `Meaning.Follows.inFrame`, … — composed computations;
* `Meaning.resolve_follows` — the value of a name is its meaning;
* `Registry.yields_of_instantiate` — the result of a call is the meaning of making its object.
-/

import ObjectModel.Proofs.Meaning

set_option relaxedAutoImplicit false
set_option autoImplicit false

namespace ObjectModel

namespace Meaning

open Eval (Ends Silent)

variable {α β : Type} {r : Registry} {maxDepth n : Nat} {σ : Scope} {fs : List Frame}

/-! ### Faithful states -/

/-- In the scope `σ` the name means the value `v`. -/
def Means (r : Registry) (maxDepth : Nat) (σ : Scope) (name : String) (v : Value) : Prop :=
  ∃ n d, definition? r .whole σ 0 name = some d ∧
    (value r maxDepth (upTo r maxDepth .whole n) d).run = some (.ok v)

/-- A frame that has the values of the parameters, and otherwise keeps only what names mean. -/
structure FrameFaithful (r : Registry) (maxDepth : Nat) (σ : Scope)
    (params : List (String × Value)) (values : List (String × Value)) : Prop where
  /-- Parameters are bound. -/
  params : ∀ name v, params.lookup name = some v → values.lookup name = some v
  /-- What is kept is what the name means. -/
  means : ∀ name v, values.lookup name = some v → Means r maxDepth σ name v

/-- A name that is not kept is not bound. -/
theorem FrameFaithful.lookup_eq_none {params values : List (String × Value)} {name : String}
    (h : FrameFaithful r maxDepth σ params values) (hl : values.lookup name = none) :
    params.lookup name = none := by
  cases hp : params.lookup name with
  | none => rfl
  | some v =>
      rw [h.params name v hp] at hl
      cases hl

/-- A state in which names are looked up in the scope `σ`, above the frames `fs`, and that keeps
only what names mean. -/
structure Faithful (r : Registry) (maxDepth : Nat) (σ : Scope) (fs : List Frame)
    (s : EvalState) : Prop where
  /-- There are as many frames as objects that are being made. -/
  depth : s.frames.length = σ.depth
  /-- Shared values are what their names mean, however many objects are being made. -/
  shared : ∀ d name v, s.shared.lookup name = some v → Means r maxDepth ⟨d, none⟩ name v
  /-- Outside of classes no frame is looked at. -/
  outside : σ.body = none → s.frames = fs
  /-- In a class body the innermost frame is faithful. -/
  inside : ∀ c params, σ.body = some (c, params) →
    ∃ f, s.frames = f :: fs ∧ FrameFaithful r maxDepth σ params f.values

/-- Faithfulness does not hang on the journal. -/
theorem Faithful.congr {s t : EvalState} (h : Faithful r maxDepth σ fs s)
    (hframes : t.frames = s.frames) (hshared : t.shared = s.shared) :
    Faithful r maxDepth σ fs t where
  depth := by rw [hframes, h.depth]
  shared := by rw [hshared]; exact h.shared
  outside := by rw [hframes]; exact h.outside
  inside := by rw [hframes]; exact h.inside

theorem Faithful.write {s : EvalState} (h : Faithful r maxDepth σ fs s) (e : Event) :
    Faithful r maxDepth σ fs { s with journal := e :: s.journal } :=
  h.congr rfl rfl

/-- What is faithful in a scope is faithful outside of classes, above all frames. -/
theorem Faithful.toOutside {s : EvalState} (h : Faithful r maxDepth σ fs s) :
    Faithful r maxDepth σ.outside s.frames s where
  depth := h.depth
  shared := h.shared
  outside _ := rfl
  inside c params hbody := by simp [Scope.outside] at hbody

/-- With new shared values a state is as faithful as they are. -/
theorem Faithful.withShared {s t : EvalState} (h : Faithful r maxDepth σ fs s)
    (hframes : t.frames = s.frames)
    (hshared : ∀ d name v, t.shared.lookup name = some v → Means r maxDepth ⟨d, none⟩ name v) :
    Faithful r maxDepth σ fs t where
  depth := by rw [hframes, h.depth]
  shared := hshared
  outside := by rw [hframes]; exact h.outside
  inside := by rw [hframes]; exact h.inside

/-- Keeping what a shared name means keeps a state faithful. -/
theorem Faithful.keepShared {s : EvalState} {name : String} {v : Value}
    (h : Faithful r maxDepth σ fs s) (hv : ∀ d, Means r maxDepth ⟨d, none⟩ name v) :
    Faithful r maxDepth σ fs (s.keepShared name v) := by
  refine h.withShared rfl fun d x w hw => ?_
  rw [show (s.keepShared name v).shared = Entries.insert name v s.shared from rfl,
    Entries.lookup_insert] at hw
  split at hw
  · next he =>
      obtain rfl : v = w := by simpa using hw
      exact he ▸ hv d
  · exact h.shared d x w hw

/-- The state in which the body of a class begins is faithful. -/
theorem Faithful.opened {s : EvalState} (h : Faithful r maxDepth σ fs s) (c : Class)
    (actuals : List Value) :
    Faithful r maxDepth (σ.enter c actuals) s.frames (Eval.opened (c.bind actuals) s) where
  depth := by
    change s.frames.length + 1 = σ.depth + 1
    rw [h.depth]
  shared := h.shared
  outside hbody := by simp [Scope.enter] at hbody
  inside := by
    intro c' params hbody
    obtain ⟨rfl, rfl⟩ : c = c' ∧ c.bind actuals = params := by simpa [Scope.enter] using hbody
    refine ⟨_, rfl, fun _ _ hv => hv, ?_⟩
    intro name v hv
    exact ⟨0, .bound v, by simp [definition?, Scope.enter, hv], rfl⟩

/-- Keeping what a name of the body means keeps a state faithful. -/
theorem Faithful.keepLocal {s : EvalState} {name : String} {v : Value}
    (h : Faithful r maxDepth σ fs s) (hinside : σ.body.isSome)
    (hv : Means r maxDepth σ name v)
    (hnot : ∀ c params, σ.body = some (c, params) → params.lookup name = none) :
    Faithful r maxDepth σ fs (s.keepLocal name v) := by
  obtain ⟨⟨c, params⟩, hbody⟩ := Option.isSome_iff_exists.1 hinside
  obtain ⟨f, hf, hff⟩ := h.inside c params hbody
  have hkeep : s.keepLocal name v =
      { s with frames := { f with values := Entries.insert name v f.values } :: fs } := by
    simp [EvalState.keepLocal, hf]
  rw [hkeep]
  refine ⟨?_, h.shared, fun hn => by simp [hn] at hinside, ?_⟩
  · rw [← h.depth, hf]
    rfl
  · intro c' params' hbody'
    obtain ⟨rfl, rfl⟩ : c = c' ∧ params = params' := by simpa [hbody] using hbody'
    refine ⟨_, rfl, ?_, ?_⟩
    · intro x w hw
      have hne : x ≠ name := fun he => by simp [he, hnot c params hbody] at hw
      rw [Entries.lookup_insert, if_neg hne]
      exact hff.params x w hw
    · intro x w hw
      rw [Entries.lookup_insert] at hw
      split at hw
      · next he =>
          obtain rfl : v = w := by simpa using hw
          exact he ▸ hv
      · exact hff.means x w hw

/-! ### Computations that follow meanings -/

/-- In the scope `σ` above the frames `fs`, the computation `x` ends in the meanings of `p`, and it
keeps states faithful.  It ends whenever `p n` means something; more depth means no less. -/
structure Follows (r : Registry) (maxDepth n : Nat) (σ : Scope) (fs : List Frame) (x : Eval α)
    (p : Nat → Meaning α) : Prop where
  /-- More depth means no less. -/
  grows : ∀ {k l : Nat}, k ≤ l → Refines (p k) (p l)
  /-- Results are meanings, and states stay faithful. -/
  ends : ∀ {s t : EvalState} {res : Except EvalError α}, Faithful r maxDepth σ fs s →
    Ends x s res t → (∃ k, (p k).run = some res) ∧ Faithful r maxDepth σ fs t
  /-- What means something is found. -/
  answers : ∀ {s : EvalState} {res : Except EvalError α}, Faithful r maxDepth σ fs s →
    (p n).run = some res → ∃ res' t, Ends x s res' t

/-- What means something is found, and it is what is meant. -/
theorem Follows.finds {x : Eval α} {p : Nat → Meaning α} (h : Follows r maxDepth n σ fs x p)
    {s : EvalState} {res : Except EvalError α} (hs : Faithful r maxDepth σ fs s)
    (hp : (p n).run = some res) : ∃ t, Ends x s res t ∧ Faithful r maxDepth σ fs t := by
  obtain ⟨res', t, ht⟩ := h.answers hs hp
  obtain ⟨⟨k, hk⟩, hfaith⟩ := h.ends hs ht
  have hk := h.grows (Nat.le_max_right n k) _ hk
  have hp := h.grows (Nat.le_max_left n k) _ hp
  obtain rfl : res = res' := by simpa [hp] using hk
  exact ⟨t, ht, hfaith⟩

theorem Follows.pure (a : α) :
    Follows r maxDepth n σ fs (Pure.pure a) (fun _ => Pure.pure a) where
  grows _ := Refines.refl _
  ends hs hx := by
    obtain ⟨rfl, rfl⟩ := Eval.ends_pure_iff.1 hx
    exact ⟨⟨0, rfl⟩, hs⟩
  answers {s _} _ _ := ⟨_, s, Eval.ends_pure_iff.2 ⟨rfl, rfl⟩⟩

theorem Follows.throw (e : EvalError) :
    Follows r maxDepth n σ fs (MonadExcept.throw e : Eval α) (fun _ => MonadExcept.throw e) where
  grows _ := Refines.refl _
  ends hs hx := by
    obtain ⟨rfl, rfl⟩ := Eval.ends_throw_iff.1 hx
    exact ⟨⟨0, rfl⟩, hs⟩
  answers {s _} _ _ := ⟨_, s, Eval.ends_throw_iff.2 ⟨rfl, rfl⟩⟩

/-- What a silent computation ends in is what it means. -/
theorem run_ofEval_of_ends {x : Eval α} (hx : Silent x) {s t : EvalState}
    {res : Except EvalError α} (h : Ends x s res t) :
    (ofEval x).run = some res ∧ t.frames = s.frames ∧ t.shared = s.shared := by
  obtain ⟨res', es, -, hall⟩ := hx
  obtain ⟨rfl, rfl⟩ := h.unique (hall s)
  exact ⟨run_ofEval_eq_some_iff.2 ⟨_, hall {}⟩, rfl, rfl⟩

theorem Follows.silent {x : Eval α} (hx : Silent x) :
    Follows r maxDepth n σ fs x (fun _ => ofEval x) where
  grows _ := Refines.refl _
  ends hs h := by
    obtain ⟨hres, hframes, hshared⟩ := run_ofEval_of_ends hx h
    exact ⟨⟨0, hres⟩, hs.congr hframes hshared⟩
  answers {s _} _ _ := hx.total s

theorem Follows.bind {x : Eval α} {f : α → Eval β} {p : Nat → Meaning α}
    {q : Nat → α → Meaning β} (hx : Follows r maxDepth n σ fs x p)
    (hf : ∀ a, Follows r maxDepth n σ fs (f a) fun k => q k a) :
    Follows r maxDepth n σ fs (x >>= f) (fun k => p k >>= q k) where
  grows hkl := (hx.grows hkl).bind fun a _ => (hf a).grows hkl
  ends hs h := by
    rcases Eval.ends_bind_iff.1 h with ⟨e, he, rfl⟩ | ⟨a, u, ha, hfa⟩
    · obtain ⟨⟨k, hk⟩, ht⟩ := hx.ends hs he
      exact ⟨⟨k, run_bind_eq_some_iff.2 (.inl ⟨e, hk, rfl⟩)⟩, ht⟩
    · obtain ⟨⟨k, hk⟩, hu⟩ := hx.ends hs ha
      obtain ⟨⟨l, hl⟩, ht⟩ := (hf a).ends hu hfa
      -- the larger of the two depths serves both
      have hk' := hx.grows (Nat.le_max_left k l) _ hk
      have hl' := (hf a).grows (Nat.le_max_right k l) _ hl
      exact ⟨⟨max k l, run_bind_eq_some_iff.2 (.inr ⟨a, hk', hl'⟩)⟩, ht⟩
  answers hs hp := by
    rcases run_bind_eq_some_iff.1 hp with ⟨e, he, rfl⟩ | ⟨a, ha, hq⟩
    · obtain ⟨t, ht, -⟩ := hx.finds hs he
      exact ⟨_, t, Eval.ends_bind_iff.2 (.inl ⟨e, ht, rfl⟩)⟩
    · obtain ⟨u, hu, hfaith⟩ := hx.finds hs ha
      obtain ⟨res, t, ht⟩ := (hf a).answers hfaith hq
      exact ⟨res, t, Eval.ends_bind_iff.2 (.inr ⟨a, u, hu, ht⟩)⟩

/-- What only writes into the journal may come before anything. -/
theorem Follows.write_bind {e : Event} {f : Unit → Eval β} {q : Nat → Meaning β}
    (hf : Follows r maxDepth n σ fs (f ()) q) :
    Follows r maxDepth n σ fs (Eval.write e >>= f) q where
  grows := hf.grows
  ends {s t res} hs h := hf.ends (hs.write e) (Eval.ends_write_bind_iff.1 h)
  answers {s res} hs hp := by
    obtain ⟨res', t, ht⟩ := hf.answers (hs.write e) hp
    exact ⟨res', t, Eval.ends_write_bind_iff.2 ht⟩

theorem Follows.mapM {f : α → Eval β} {g : Nat → α → Meaning β} {as : List α}
    (h : ∀ a ∈ as, Follows r maxDepth n σ fs (f a) fun k => g k a) :
    Follows r maxDepth n σ fs (as.mapM f) (fun k => as.mapM (g k)) := by
  induction as with
  | nil =>
      simp only [List.mapM_nil]
      exact Follows.pure []
  | cons a as ih =>
      have htail := ih fun b hb => h b (List.mem_cons_of_mem _ hb)
      simp only [List.mapM_cons]
      exact (h a (by simp)).bind fun b => htail.bind fun bs => Follows.pure _

/-- A computation in the frame of a new object follows what is meant in its body. -/
theorem Follows.inFrame {x : Eval α} {p : Nat → Meaning α} {c : Class} {actuals : List Value}
    (hx : ∀ fs', Follows r maxDepth n (σ.enter c actuals) fs' x p) :
    Follows r maxDepth n σ fs (Eval.inFrame (c.bind actuals) x) p where
  grows := (hx fs).grows
  ends {s t res} hs h := by
    obtain ⟨u, hu, rfl⟩ := Eval.ends_inFrame_iff.1 h
    obtain ⟨hp, hfaith⟩ := (hx s.frames).ends (hs.opened c actuals) hu
    obtain ⟨f, hf, -⟩ := hfaith.inside c (c.bind actuals) rfl
    refine ⟨hp, hs.withShared ?_ hfaith.shared⟩
    simp [hf]
  answers {s res} hs hp := by
    obtain ⟨res', u, hu⟩ := (hx s.frames).answers (hs.opened c actuals) hp
    exact ⟨res', _, Eval.ends_inFrame_iff.2 ⟨u, hu, rfl⟩⟩

/-! ### Shared values -/

/-- Where no objects are made outside of classes, shared values do not hang on how many objects
are being made. -/
theorem upTo_outside (hobj : ∀ op ∈ r.values, op.action.target? = none) {find : Scoping} (n : Nat) :
    ∀ (d d' i : Nat) (name : String) (span : Span),
      upTo r maxDepth find n ⟨d, none⟩ i name span =
        upTo r maxDepth find n ⟨d', none⟩ i name span := by
  induction n with
  | zero => intros; rfl
  | succ n ih =>
      intro d d' i name span
      rw [upTo_succ, upTo_succ, definition?, definition?, shared?, shared?]
      cases hop : r.value? name with
      | none => rfl
      | some op =>
          -- only objects hang on the depth, and there are none outside of classes
          have hnot := hobj op (List.mem_of_find?_eq_some hop)
          have hoperands : ∀ xs, operands (upTo r maxDepth find n) ⟨d, none⟩ 0 xs =
              operands (upTo r maxDepth find n) ⟨d', none⟩ 0 xs := fun xs => by
            simp only [operands, ih d d' 0]
          simp only [Option.map_some, value, Scope.outside, operation]
          cases hact : op.action with
          | object target actuals operandTys ty => simp [hact, Action.target?] at hnot
          | _ => simp only [hoperands]

/-- What a shared value means at one depth it means at any other. -/
theorem means_outside (hobj : ∀ op ∈ r.values, op.action.target? = none) {d d' : Nat}
    {name : String} {v : Value} (h : Means r maxDepth ⟨d, none⟩ name v) :
    Means r maxDepth ⟨d', none⟩ name v := by
  obtain ⟨n, def', hdef, hv⟩ := h
  obtain ⟨op, hop, rfl⟩ := Option.map_eq_some_iff.1 (show shared? r ⟨d, none⟩ name = _ from hdef)
  refine ⟨n, .computed ⟨d', none⟩ 0 op, by simp [definition?, shared?, hop, Scope.outside], ?_⟩
  have heq : upTo r maxDepth .whole (n + 1) ⟨d, none⟩ 0 name ⟨.origin, .origin⟩ =
      upTo r maxDepth .whole (n + 1) ⟨d', none⟩ 0 name ⟨.origin, .origin⟩ :=
    upTo_outside hobj (n + 1) d d' 0 name _
  rw [upTo_succ, upTo_succ] at heq
  simp only [definition?, shared?, hop, Option.map_some, Scope.outside] at heq
  simpa [← heq, Scope.outside] using hv

/-- A name that stands for a shared value means what it does outside of classes. -/
theorem upTo_eq_of_shared {find : Scoping} {i : Nat} {name : String}
    (h : definition? r find σ i name = shared? r σ name) (n : Nat) (span : Span) :
    upTo r maxDepth find (n + 1) σ i name span =
      upTo r maxDepth find (n + 1) σ.outside 0 name span := by
  rw [upTo_succ, upTo_succ, h]
  rfl

/-! ### Operations and objects -/

/-- The results of a resolver are what the names mean, in every scope, and it finds what has a
meaning when operands are asked for at most `n` deep. -/
def Finds (r : Registry) (maxDepth n : Nat) (resolve : Eval.Resolver) : Prop :=
  ∀ σ fs i name span, Follows r maxDepth n σ fs (resolve (σ.body.map Prod.fst) name span)
    fun k => upTo r maxDepth .whole k σ i name span

section Resolver

variable {resolve : Eval.Resolver} (hresolve : Finds r maxDepth n resolve)

include hresolve

theorem Follows.operands (i : Nat) (xs : List Ident) :
    Follows r maxDepth n σ fs (Eval.resolveAll resolve (σ.body.map Prod.fst) xs)
      fun k => operands (upTo r maxDepth .whole k) σ i xs :=
  Follows.mapM fun x _ => hresolve σ fs i x.name x.span

theorem Follows.fieldValues {c : Class} {params : List (String × Value)}
    (hbody : σ.body = some (c, params)) :
    Follows r maxDepth n σ fs (Eval.fieldValues resolve c)
      fun k => fieldValues (upTo r maxDepth .whole k) σ c := by
  unfold Eval.fieldValues
  rw [← c.map_placedFields, List.mapM_map]
  refine Follows.mapM fun p _ => Follows.write_bind ?_
  have hfield := hresolve σ fs p.1 p.2.value.name p.2.span
  rw [hbody] at hfield
  exact hfield.bind fun v => Follows.pure _

/-- What is done for an object of a class that exists, when not too many objects are being made. -/
theorem Follows.made (c : Class) (actuals : List Value) (loc : Location) (e : Event) :
    Follows r maxDepth n σ fs
      (do
        Eval.checkActuals c actuals loc
        Eval.write e
        Eval.inFrame (c.bind actuals) do
          return (⟨c, Entries.ofList (← Eval.fieldValues resolve c)⟩ : Object))
      fun k => do
        ofEval (Eval.checkActuals c actuals loc)
        return ⟨c, Entries.ofList
          (← Meaning.fieldValues (upTo r maxDepth .whole k) (σ.enter c actuals) c)⟩ := by
  refine (Follows.silent (Silent.checkActuals c actuals loc)).bind fun _ => Follows.write_bind ?_
  exact Follows.inFrame fun fs' =>
    (Follows.fieldValues hresolve rfl).bind fun _ => Follows.pure _

/-- The object that is made is the one that is meant. -/
theorem Follows.object (name : String) (actuals : List Value) (site : Option Location) :
    Follows r maxDepth n σ fs (Eval.instantiate r maxDepth resolve name actuals site)
      fun k => object r maxDepth (upTo r maxDepth .whole k) σ name actuals site where
  grows hkl := object_refines hkl σ name actuals site
  ends {s t res} hs h := by
    unfold Meaning.object
    cases hc : r.class? name with
    | none =>
        rw [Eval.instantiate_of_none hc, Eval.ends_throw_iff] at h
        obtain ⟨rfl, rfl⟩ := h
        exact ⟨⟨0, by simp⟩, hs⟩
    | some c =>
        rw [Eval.ends_instantiate_iff hc, hs.depth] at h
        by_cases hdepth : maxDepth ≤ σ.depth
        · rw [if_pos hdepth] at h
          obtain ⟨rfl, rfl⟩ := h
          exact ⟨⟨0, by simp [hdepth]⟩, hs⟩
        · rw [if_neg hdepth] at h
          obtain ⟨⟨k, hk⟩, ht⟩ := (Follows.made hresolve c actuals _ _).ends hs h
          exact ⟨⟨k, by simpa [hdepth] using hk⟩, ht⟩
  answers {s res} hs hp := by
    unfold Meaning.object at hp
    cases hc : r.class? name with
    | none =>
        rw [Eval.instantiate_of_none hc]
        exact Eval.Total.throw _ s
    | some c =>
        simp only [Eval.ends_instantiate_iff hc, hs.depth]
        by_cases hdepth : maxDepth ≤ σ.depth
        · simp only [if_pos hdepth]
          exact ⟨_, s, rfl, rfl⟩
        · simp only [if_neg hdepth]
          simp only [hc, if_neg hdepth] at hp
          exact (Follows.made hresolve c actuals _ _).answers hs hp

/-- The result of an operation is what the operation means. -/
theorem Follows.operation (i : Nat) (op : Operation) :
    Follows r maxDepth n σ fs (Eval.operation r maxDepth resolve (σ.body.map Prod.fst) op)
      fun k => operation r maxDepth (upTo r maxDepth .whole k) σ i op := by
  unfold Eval.operation Meaning.operation
  cases op.action with
  | constant value ty => exact Follows.silent (Silent.constant r _ value ty)
  | object target actuals operandTys ty =>
      exact (Follows.operands hresolve i actuals).bind fun vs =>
        (Follows.object hresolve target.name vs _).bind fun _ => Follows.pure _
  | listCreate elements elementTy =>
      exact (Follows.operands hresolve i elements).bind fun _ => Follows.pure _
  | tupleCreate elements elementTys =>
      exact (Follows.operands hresolve i elements).bind fun _ => Follows.pure _
  | mapCreate entries keyTy valueTy =>
      exact (Follows.operands hresolve i entries).bind fun vs =>
        Follows.silent (Silent.buildMap vs keyTy valueTy _)
  | field name value ty => exact Follows.throw _

/-! ### Names -/

/-- The value of a shared name is what the name means. -/
theorem ends_resolveShared (hobj : ∀ op ∈ r.values, op.action.target? = none) {i : Nat}
    {name : String} {span : Span} {s t : EvalState} {res : Except EvalError Value}
    (hdef : definition? r .whole σ i name = shared? r σ name)
    (hs : Faithful r maxDepth σ fs s)
    (h : Ends (Eval.resolveShared r maxDepth resolve name span) s res t) :
    (∃ n, (upTo r maxDepth .whole n σ i name span).run = some res) ∧
      Faithful r maxDepth σ fs t := by
  rw [Eval.ends_resolveShared_iff] at h
  cases hl : s.shared.lookup name with
  | some v =>
      obtain ⟨rfl, rfl⟩ : res = .ok v ∧ t = s := by simpa [hl] using h
      obtain ⟨n, d, hd, hv⟩ := hs.shared σ.depth name v hl
      refine ⟨⟨n + 1, ?_⟩, hs⟩
      rw [upTo_eq_of_shared hdef, upTo_succ, show definition? r .whole σ.outside 0 name = _ from hd]
      exact hv
  | none =>
      cases hop : r.value? name with
      | none =>
          obtain ⟨rfl, rfl⟩ : res = .error (.undefinedValue name (r.location span)) ∧ t = s := by
            simpa [hl, hop] using h
          refine ⟨⟨1, ?_⟩, hs⟩
          rw [upTo_succ, hdef, shared?, hop]
          rfl
      | some op =>
          have hshared : shared? r σ name = some (.computed σ.outside 0 op) := by
            rw [shared?, hop]
            rfl
          simp only [hl, hop, Eval.ends_write_bind_iff] at h
          have hfollows : Follows r maxDepth n σ.outside s.frames
              (Eval.operation r maxDepth resolve none op)
              fun k => operation r maxDepth (upTo r maxDepth .whole k) σ.outside 0 op :=
            Follows.operation hresolve 0 op
          have hwritten := hs.toOutside.write (.computing 0 name)
          -- the operation runs outside of classes and leaves all frames as they are
          rcases Eval.ends_bind_iff.1 h with ⟨e, he, rfl⟩ | ⟨v, u, hv, h⟩
          · obtain ⟨⟨n, hn⟩, hfaith⟩ := hfollows.ends hwritten he
            exact ⟨⟨n + 1, run_upTo_of_computed (hdef.trans hshared) hn⟩,
              hs.withShared (hfaith.outside rfl) hfaith.shared⟩
          · obtain ⟨⟨n, hn⟩, hfaith⟩ := hfollows.ends hwritten hv
            obtain ⟨rfl, rfl⟩ := Eval.ends_modify_pure_iff.1 h
            refine ⟨⟨n + 1, run_upTo_of_computed (hdef.trans hshared) hn⟩, ?_⟩
            have hkept : Means r maxDepth σ.outside name v := ⟨n, _, hshared, hn⟩
            exact (hs.withShared (hfaith.outside rfl) hfaith.shared).keepShared fun d =>
              means_outside hobj hkept

/-- What looking into the body of a class may end in: what the name means, or nothing where the name
stands for a shared value. -/
def FoundInside (r : Registry) (maxDepth : Nat) (σ : Scope) (i : Nat) (name : String)
    (span : Span) : Except EvalError (Option Value) → Prop
  | .ok none => definition? r .whole σ i name = shared? r σ name
  | .ok (some v) => ∃ k, (upTo r maxDepth .whole k σ i name span).run = some (.ok v)
  | .error e => ∃ k, (upTo r maxDepth .whole k σ i name span).run = some (.error e)

/-- In the body of a class, what the body defines is found there and is what the name means. -/
theorem ends_resolveLocal {c : Class} {params : List (String × Value)}
    (hbody : σ.body = some (c, params)) (i : Nat) {name : String} (span : Span)
    {s t : EvalState} {res : Except EvalError (Option Value)} (hs : Faithful r maxDepth σ fs s)
    (h : Ends (Eval.resolveLocal r maxDepth resolve c name) s res t) :
    FoundInside r maxDepth σ i name span res ∧ Faithful r maxDepth σ fs t := by
  obtain ⟨f, hf, hff⟩ := hs.inside c params hbody
  have hlocal : s.local? name = f.values.lookup name := by simp [EvalState.local?, hf]
  rw [Eval.ends_resolveLocal_iff, hlocal] at h
  cases hl : f.values.lookup name with
  | some v =>
      obtain ⟨rfl, rfl⟩ : res = .ok (some v) ∧ t = s := by simpa [hl] using h
      obtain ⟨n, d, hd, hv⟩ := hff.means name v hl
      refine ⟨⟨n + 1, ?_⟩, hs⟩
      rw [upTo_succ, show definition? r .whole σ i name = _ from hd]
      exact hv
  | none =>
      have hparams := hff.lookup_eq_none hl
      have hfind : c.definition? name = (locate name c.body).map Prod.snd :=
        (map_locate name c.body).symm
      cases hop : locate name c.body with
      | none =>
          obtain ⟨rfl, rfl⟩ : res = .ok none ∧ t = s := by simpa [hl, hfind, hop] using h
          refine ⟨?_, hs⟩
          simp [FoundInside, definition?, hbody, hparams, Scoping.whole, hop]
      | some p =>
          obtain ⟨j, op⟩ := p
          -- in the whole body positions do not count, so what is kept for one use serves all uses
          have hdef : ∀ i, definition? r .whole σ i name = some (.computed σ j op) := by
            intro i
            simp [definition?, hbody, hparams, Scoping.whole, hop]
          simp only [hl, hfind, hop, Option.map_some, Eval.ends_write_bind_iff] at h
          have hwritten := hs.write (.computing ((s.frames.head?.map Frame.id).getD 0) name)
          have hfollows : Follows r maxDepth n σ fs
              (Eval.operation r maxDepth resolve (σ.body.map Prod.fst) op)
              fun k => operation r maxDepth (upTo r maxDepth .whole k) σ j op :=
            Follows.operation hresolve j op
          rw [hbody, Option.map_some] at hfollows
          rcases Eval.ends_bind_iff.1 h with ⟨e, he, rfl⟩ | ⟨v, u, hv, h⟩
          · obtain ⟨⟨n, hn⟩, hfaith⟩ := hfollows.ends hwritten he
            exact ⟨⟨n + 1, run_upTo_of_computed (hdef i) hn⟩, hfaith⟩
          · obtain ⟨⟨n, hn⟩, hfaith⟩ := hfollows.ends hwritten hv
            obtain ⟨rfl, rfl⟩ := Eval.ends_modify_pure_iff.1 h
            refine ⟨⟨n + 1, run_upTo_of_computed (hdef i) hn⟩, ?_⟩
            refine hfaith.keepLocal (by simp [hbody]) ⟨n, _, hdef 0, hn⟩ ?_
            intro c' params' hbody'
            obtain ⟨rfl, rfl⟩ : c = c' ∧ params = params' := by simpa [hbody] using hbody'
            exact hparams

/-- A shared name that means something has a value. -/
theorem answers_resolveShared {i : Nat} {name : String} {span : Span} {s : EvalState}
    {res : Except EvalError Value} (hdef : definition? r .whole σ i name = shared? r σ name)
    (hs : Faithful r maxDepth σ fs s)
    (hp : (upTo r maxDepth .whole (n + 1) σ i name span).run = some res) :
    ∃ res' t, Ends (Eval.resolveShared r maxDepth resolve name span) s res' t := by
  simp only [Eval.ends_resolveShared_iff]
  cases hl : s.shared.lookup name with
  | some v => exact ⟨_, s, rfl, rfl⟩
  | none =>
      cases hop : r.value? name with
      | none => exact ⟨_, s, rfl, rfl⟩
      | some op =>
          rw [upTo_succ, hdef, shared?, hop] at hp
          have hfollows : Follows r maxDepth n σ.outside s.frames
              (Eval.operation r maxDepth resolve none op)
              fun k => operation r maxDepth (upTo r maxDepth .whole k) σ.outside 0 op :=
            Follows.operation hresolve 0 op
          obtain ⟨res', t, ht⟩ := hfollows.answers (hs.toOutside.write (.computing 0 name)) hp
          simp only [Eval.ends_write_bind_iff]
          exact ht.bind_total fun v => (Eval.Total.modify _).bind fun _ => Eval.Total.pure _

/-- In the body of a class, looking there for a name that means something ends. -/
theorem answers_resolveLocal {c : Class} {params : List (String × Value)}
    (hbody : σ.body = some (c, params)) {i : Nat} {name : String} {span : Span} {s : EvalState}
    {res : Except EvalError Value} (hs : Faithful r maxDepth σ fs s)
    (hp : (upTo r maxDepth .whole (n + 1) σ i name span).run = some res) :
    ∃ res' t, Ends (Eval.resolveLocal r maxDepth resolve c name) s res' t := by
  obtain ⟨f, hf, hff⟩ := hs.inside c params hbody
  have hlocal : s.local? name = f.values.lookup name := by simp [EvalState.local?, hf]
  simp only [Eval.ends_resolveLocal_iff, hlocal]
  cases hl : f.values.lookup name with
  | some v => exact ⟨_, s, rfl, rfl⟩
  | none =>
      have hparams := hff.lookup_eq_none hl
      have hfind : c.definition? name = (locate name c.body).map Prod.snd :=
        (map_locate name c.body).symm
      cases hop : locate name c.body with
      | none =>
          rw [hop] at hfind
          simp only [hfind, Option.map_none]
          exact ⟨_, s, rfl, rfl⟩
      | some q =>
          obtain ⟨j, op⟩ := q
          rw [hop] at hfind
          rw [upTo_succ, definition?, hbody] at hp
          simp only [hparams, Scoping.whole, hop] at hp
          have hfollows : Follows r maxDepth n σ fs
              (Eval.operation r maxDepth resolve (σ.body.map Prod.fst) op)
              fun k => operation r maxDepth (upTo r maxDepth .whole k) σ j op :=
            Follows.operation hresolve j op
          rw [hbody, Option.map_some] at hfollows
          obtain ⟨res', t, ht⟩ := hfollows.answers
            (hs.write (.computing ((s.frames.head?.map Frame.id).getD 0) name)) hp
          simp only [hfind, Option.map_some, Eval.ends_write_bind_iff]
          exact ht.bind_total fun v => (Eval.Total.modify _).bind fun _ => Eval.Total.pure _

end Resolver

/-- The value of a name is its meaning. -/
theorem resolve_follows (hobj : ∀ op ∈ r.values, op.action.target? = none) (n : Nat) :
    Finds r maxDepth n (Eval.resolveUpTo r maxDepth n) := by
  induction n with
  | zero =>
      intro σ fs i name span
      exact ⟨fun hkl => upTo_refines hkl σ i name span,
        fun _ h => absurd h Eval.not_ends_diverge, fun _ hp => by cases hp⟩
  | succ n ih =>
      intro σ fs i name span
      cases hbody : σ.body with
      | none =>
          rw [Option.map_none, Eval.resolveUpTo_outside]
          have hdef : definition? r .whole σ i name = shared? r σ name := by
            simp [definition?, hbody]
          exact ⟨fun hkl => upTo_refines hkl σ i name span, ends_resolveShared ih hobj hdef,
            answers_resolveShared ih hdef⟩
      | some p =>
          obtain ⟨c, params⟩ := p
          rw [Option.map_some, Eval.resolveUpTo_inside]
          refine ⟨fun hkl => upTo_refines hkl σ i name span, fun {s t res} hs h => ?_,
            fun {s res} hs hp => ?_⟩
          · rcases Eval.ends_bind_iff.1 h with ⟨e, he, rfl⟩ | ⟨found, u, hu, h⟩
            · exact ends_resolveLocal ih hbody i span hs he
            · obtain ⟨hfound, hfaith⟩ := ends_resolveLocal ih hbody i span hs hu
              cases found with
              | none => exact ends_resolveShared ih hobj hfound hfaith h
              | some v =>
                  obtain ⟨rfl, rfl⟩ := Eval.ends_pure_iff.1 h
                  exact ⟨hfound, hfaith⟩
          · obtain ⟨res', u, hu⟩ := answers_resolveLocal ih hbody hs hp
            obtain ⟨hfound, hfaith⟩ := ends_resolveLocal ih hbody i span hs hu
            match res' with
            | .error e => exact ⟨_, u, Eval.ends_bind_iff.2 (.inl ⟨e, hu, rfl⟩)⟩
            | .ok (some v) =>
                exact ⟨_, u, Eval.ends_bind_iff.2
                  (.inr ⟨some v, u, hu, Eval.ends_pure_iff.2 ⟨rfl, rfl⟩⟩)⟩
            | .ok none =>
                obtain ⟨res, t, ht⟩ := answers_resolveShared ih hfound hfaith hp
                exact ⟨res, t, Eval.ends_bind_iff.2 (.inr ⟨none, u, hu, ht⟩)⟩

end Meaning

/-! ### The call -/

theorem Meaning.faithful_init (r : Registry) (maxDepth : Nat) :
    Meaning.Faithful r maxDepth ⟨0, none⟩ [] {} where
  depth := rfl
  shared d name v hv := by simp at hv
  outside _ := rfl
  inside c params hbody := by simp at hbody

theorem Registry.follows_call {r : Registry} (hobj : ∀ op ∈ r.values, op.action.target? = none)
    (maxDepth : Nat) (name : String) (actuals : List Value) :
    Meaning.Follows r maxDepth (r.size + 1) ⟨0, none⟩ []
      (Eval.instantiate r maxDepth (Eval.resolveUpTo r maxDepth (r.size + 1)) name actuals none)
      fun k => Meaning.object r maxDepth (Meaning.upTo r maxDepth .whole k) ⟨0, none⟩ name actuals
        none :=
  Meaning.Follows.object (Meaning.resolve_follows hobj (r.size + 1)) name actuals none

/-- The result of a call is the meaning of making its object. -/
theorem Registry.yields_of_run {r : Registry} {maxDepth : Nat} {name : String}
    {actuals : List Value} {res : Except EvalError Object} {journal : List Event}
    (hobj : ∀ op ∈ r.values, op.action.target? = none)
    (h : r.run maxDepth name actuals = some (res, journal)) :
    r.Yields maxDepth .whole name actuals res := by
  obtain ⟨⟨res', t⟩, ht, he⟩ := Option.map_eq_some_iff.1 h
  obtain ⟨rfl, -⟩ := Prod.mk.inj he
  exact ((Registry.follows_call hobj maxDepth name actuals).ends
    (Meaning.faithful_init r maxDepth) ht).1

/-- What making an object means at the depth of a call, the call ends in. -/
theorem Registry.exists_run_of_object {r : Registry} {maxDepth : Nat} {name : String}
    {actuals : List Value} {res : Except EvalError Object}
    (hobj : ∀ op ∈ r.values, op.action.target? = none)
    (h : (Meaning.object r maxDepth (Meaning.upTo r maxDepth .whole (r.size + 1)) ⟨0, none⟩ name
      actuals none).run = some res) :
    ∃ journal, r.run maxDepth name actuals = some (res, journal) := by
  obtain ⟨t, ht, -⟩ := (Registry.follows_call hobj maxDepth name actuals).finds
    (Meaning.faithful_init r maxDepth) h
  exact ⟨t.journal.reverse, Option.map_eq_some_iff.2 ⟨(res, t), ht, rfl⟩⟩

theorem Registry.yields_of_instantiate {r : Registry} {maxDepth : Nat} {name : String}
    {actuals : List Value} {res : Except Failure Object}
    (hobj : ∀ op ∈ r.values, op.action.target? = none)
    (h : r.instantiate maxDepth name actuals = some res) :
    ∃ res', r.Yields maxDepth .whole name actuals res' ∧
      res = res'.mapError fun cause => ⟨cause, .instantiate⟩ := by
  obtain ⟨⟨res', journal⟩, hrun, rfl⟩ := Option.map_eq_some_iff.1 h
  exact ⟨res', Registry.yields_of_run hobj hrun, rfl⟩

end ObjectModel
