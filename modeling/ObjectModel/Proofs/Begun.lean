/-
**What a call begins on its way.**

A call makes one object, and while it does so it asks for values of names, carries out operations
and makes further objects.  Each of these is a request that is begun in a state.  This module
says which requests begin which others: a request begins another one when it has done, without an
error, all that comes before it.

Main definitions:

* `Request` — an object, the value of a name or of an operation;
* `Eval.Begins` — a request that is begun in a state begins another one in another state;
* `Registry.Begun` — a call begins a request on its way.

Main results:

* `Eval.Begins.standsIn` — requests are begun in states that keep only what names mean;
* `Registry.Begun.standsIn` — so it is on the whole way;
* `Registry.Begun.meant` — an object that is made on the way is what it means to make it;
* `Registry.exists_begun_of_instantiating` — no object is made that was not begun.
-/

import Mathlib.Logic.Relation
import ObjectModel.Proofs.Memo

set_option relaxedAutoImplicit false
set_option autoImplicit false

namespace ObjectModel

/-- Something that evaluation does. -/
inductive Request where
  /-- To make an object of the class `name`. -/
  | object (name : String) (actuals : List Value) (site : Option Location)
  /-- To find the value of a name, in the body of a class or outside of all classes. -/
  | name (scope : Option Class) (name : String) (span : Span)
  /-- To find the value that an operation defines. -/
  | operation (scope : Option Class) (op : Operation)
  deriving Inhabited

/-- The state after an event was written down. -/
def EvalState.note (e : Event) (s : EvalState) : EvalState := { s with journal := e :: s.journal }

namespace Eval

/-! ### Beginning requests -/

/-- The value of one field of a class. -/
def fieldValue (resolve : Resolver) (c : Class) (f : Field) : Eval (String × Value) := do
  write (.evaluating c.name.name f.name.name)
  return (f.name.name, ← resolve (some c) f.value.name f.span)

/-- A request that is begun in a state begins another one in another state. -/
inductive Begins (r : Registry) (maxDepth : Nat) :
    Request × EvalState → Request × EvalState → Prop where
  /-- An object asks for what its fields expose, one after the other, in the frame of its
  parameters. -/
  | field {name : String} {actuals : List Value} {site : Option Location} {c : Class}
      {before after : List Field} {f : Field} {n : Nat} {vs : List (String × Value)}
      {s t u : EvalState}
      (hc : r.class? name = some c) (hdepth : s.frames.length < maxDepth)
      (hactuals : Ends (checkActuals c actuals (site.getD c.location)) s (.ok ()) t)
      (hfields : c.fields = before ++ f :: after)
      (hbefore : Ends (before.mapM (fieldValue (resolveUpTo r maxDepth n) c))
        (opened (c.bind actuals)
          (t.note (.instantiating c.name.name actuals.length s.frames.length))) (.ok vs) u) :
      Begins r maxDepth (.object name actuals site, s)
        (.name (some c) f.value.name f.span, u.note (.evaluating c.name.name f.name.name))
  /-- A name of a class body that is not kept asks for its operation. -/
  | inside {c : Class} {name : String} {span : Span} {op : Operation} {s : EvalState}
      (hkept : s.local? name = none) (hop : c.definition? name = some op) :
      Begins r maxDepth (.name (some c) name span, s)
        (.operation (some c) op,
          s.note (.computing ((s.frames.head?.map Frame.id).getD 0) name))
  /-- A name that no class body defines asks for the operation of a shared value that is not
  kept. -/
  | shared {scope : Option Class} {name : String} {span : Span} {op : Operation} {s : EvalState}
      (hscope : ∀ c, scope = some c → s.local? name = none ∧ c.definition? name = none)
      (hkept : s.shared.lookup name = none) (hop : r.value? name = some op) :
      Begins r maxDepth (.name scope name span, s)
        (.operation none op, s.note (.computing 0 name))
  /-- An operation asks for its operands, one after the other. -/
  | operand {scope : Option Class} {op : Operation} {before after : List Ident} {x : Ident}
      {n : Nat} {vs : List Value} {s u : EvalState}
      (hvalue : op.action.isField = false) (hoperands : op.action.operands = before ++ x :: after)
      (hbefore : Ends (resolveAll (resolveUpTo r maxDepth n) scope before) s (.ok vs) u) :
      Begins r maxDepth (.operation scope op, s) (.name scope x.name x.span, u)
  /-- An operation that makes an object makes it of the values of its operands. -/
  | nested {scope : Option Class} {op : Operation} {target : Ident} {actuals : List Ident}
      {operandTys : List Ty} {ty : Ty} {n : Nat} {vs : List Value} {s u : EvalState}
      (haction : op.action = .object target actuals operandTys ty)
      (hactuals : Ends (resolveAll (resolveUpTo r maxDepth n) scope actuals) s (.ok vs) u) :
      Begins r maxDepth (.operation scope op, s)
        (.object target.name vs (some (r.location op.span)), u)

end Eval

/-- A call that makes an object of the class `name` begins a request in a state. -/
def Registry.Begun (r : Registry) (maxDepth : Nat) (name : String) (actuals : List Value)
    (request : Request) (s : EvalState) : Prop :=
  Relation.ReflTransGen (Eval.Begins r maxDepth) (.object name actuals none, {}) (request, s)

/-! ### The states in which requests are begun -/

/-- The class in whose body the request asks for names is that of the scope. -/
def Request.AsksIn (σ : Scope) : Request → Prop
  | .object .. => True
  | .name scope _ _ | .operation scope _ => scope = σ.body.map Prod.fst

namespace Eval

open Meaning (Faithful)

/-- A request stands in a scope of an allowed depth, and the state keeps only what names mean. -/
def StandsIn (r : Registry) (maxDepth : Nat) (p : Request × EvalState) : Prop :=
  ∃ σ fs, p.1.AsksIn σ ∧ σ.depth ≤ maxDepth ∧ Faithful r maxDepth σ fs p.2

variable {r : Registry} {maxDepth : Nat}

/-- Asking for operands keeps a state faithful. -/
theorem faithful_of_resolveAll (hobj : ∀ op ∈ r.values, op.action.target? = none) {n : Nat}
    {σ : Scope} {fs : List Frame} {xs : List Ident} {s u : EvalState}
    {res : Except EvalError (List Value)} (hs : Faithful r maxDepth σ fs s)
    (h : Ends (resolveAll (resolveUpTo r maxDepth n) (σ.body.map Prod.fst) xs) s res u) :
    Faithful r maxDepth σ fs u :=
  ((Meaning.Follows.operands (Meaning.resolve_follows hobj n) 0 xs).ends hs h).2

/-- Evaluation keeps only what names mean until it begins a request. -/
theorem Begins.standsIn (hobj : ∀ op ∈ r.values, op.action.target? = none)
    {p q : Request × EvalState} (h : Begins r maxDepth p q) (hp : StandsIn r maxDepth p) :
    StandsIn r maxDepth q := by
  obtain ⟨σ, fs, hasks, hdepth, hs⟩ := hp
  cases h with
  | @field name actuals site c before after f n vs s t u hc hlt hactuals hfields hbefore =>
      obtain ⟨-, hframes, hshared⟩ :=
        Meaning.run_ofEval_of_ends (Silent.checkActuals c actuals _) hactuals
      have hchecked := (hs.congr hframes hshared).write
        (.instantiating c.name.name actuals.length s.frames.length)
      -- the fields are those of the class with their positions, as meanings have them
      have hfollows : Meaning.Follows r maxDepth n (σ.enter c actuals) t.frames
          (before.mapM (fieldValue (resolveUpTo r maxDepth n) c))
          fun k => before.mapM fun f => do
            return (f.name.name, ← Meaning.upTo r maxDepth .whole k (σ.enter c actuals) 0
              f.value.name f.span) :=
        Meaning.Follows.mapM fun f _ => Meaning.Follows.write_bind
          ((Meaning.resolve_follows hobj n (σ.enter c actuals) t.frames 0 f.value.name f.span).bind
            fun v => Meaning.Follows.pure _)
      have hu := (hfollows.ends (hchecked.opened c actuals) hbefore).2
      refine ⟨σ.enter c actuals, t.frames, rfl, ?_, hu.write _⟩
      have hlen : s.frames.length = σ.depth := hs.depth
      change σ.depth + 1 ≤ maxDepth
      omega
  | inside hkept hop => exact ⟨σ, fs, hasks, hdepth, hs.write _⟩
  | shared hscope hkept hop => exact ⟨σ.outside, _, rfl, hdepth, hs.toOutside.write _⟩
  | @operand scope op before after x n vs s u hvalue hoperands hbefore =>
      obtain rfl : scope = σ.body.map Prod.fst := hasks
      exact ⟨σ, fs, rfl, hdepth, faithful_of_resolveAll hobj hs hbefore⟩
  | @nested scope op target actuals operandTys ty n vs s u haction hactuals =>
      obtain rfl : scope = σ.body.map Prod.fst := hasks
      exact ⟨σ, fs, trivial, hdepth, faithful_of_resolveAll hobj hs hactuals⟩

end Eval

/-- On the whole way of a call, requests are begun in states that keep only what names mean. -/
theorem Registry.Begun.standsIn {r : Registry} (hobj : ∀ op ∈ r.values, op.action.target? = none)
    {maxDepth : Nat} {name : String} {actuals : List Value} {request : Request} {s : EvalState}
    (h : r.Begun maxDepth name actuals request s) : Eval.StandsIn r maxDepth (request, s) := by
  have hall : ∀ q,
      Relation.ReflTransGen (Eval.Begins r maxDepth) (.object name actuals none, {}) q →
        Eval.StandsIn r maxDepth q := by
    intro q hq
    induction hq with
    | refl => exact ⟨⟨0, none⟩, [], trivial, Nat.zero_le _, Meaning.faithful_init r maxDepth⟩
    | tail _ hstep ih => exact hstep.standsIn hobj ih
  exact hall _ h

/-- What making an object on the way of a call ends in is what it means to make the object, with as
many objects around it as there are frames. -/
theorem Registry.Begun.meant {r : Registry} (hobj : ∀ op ∈ r.values, op.action.target? = none)
    {maxDepth : Nat} {name target : String} {actuals vs : List Value} {site : Option Location}
    {s : EvalState} (h : r.Begun maxDepth name actuals (.object target vs site) s) :
    ∃ σ : Scope, σ.depth = s.frames.length ∧ σ.depth ≤ maxDepth ∧ ∀ res,
      (∃ n t, Eval.Ends (Eval.instantiate r maxDepth (Eval.resolveUpTo r maxDepth n) target vs
          site) s res t) ↔
        ∃ k, (Meaning.object r maxDepth (Meaning.upTo r maxDepth .whole k) σ target vs site).run =
          some res := by
  obtain ⟨σ, fs, -, hdepth, hs⟩ := h.standsIn hobj
  have hfollows (n : Nat) : Meaning.Follows r maxDepth n σ fs
      (Eval.instantiate r maxDepth (Eval.resolveUpTo r maxDepth n) target vs site) _ :=
    Meaning.Follows.object (Meaning.resolve_follows hobj n) target vs site
  refine ⟨σ, hs.depth.symm, hdepth, fun res => ⟨?_, ?_⟩⟩
  · rintro ⟨n, t, hends⟩
    exact ((hfollows n).ends hs hends).1
  · rintro ⟨k, hk⟩
    obtain ⟨t, ht, -⟩ := (hfollows k).finds hs hk
    exact ⟨k, t, ht⟩

/-! ### Nothing is made that was not begun -/

namespace Eval

section Notes

variable {α β : Type}

/-- Whatever the computation, begun in `s`, writes into the journal has the property `P`. -/
def Notes (P : Event → Prop) (x : Eval α) (s : EvalState) : Prop :=
  ∀ res t, Ends x s res t → ∀ e ∈ t.journal, e ∈ s.journal ∨ P e

variable {P : Event → Prop}

theorem Notes.mono {Q : Event → Prop} {x : Eval α} {s : EvalState} (h : Notes P x s)
    (hPQ : ∀ e, P e → Q e) : Notes Q x s :=
  fun res t hx e he => (h res t hx e he).imp_right (hPQ e)

theorem Notes.of_journal_eq {x : Eval α} {s : EvalState}
    (h : ∀ res t, Ends x s res t → t.journal = s.journal) : Notes P x s :=
  fun res t hx _ he => .inl (h res t hx ▸ he)

theorem Notes.pure (a : α) (s : EvalState) : Notes P (Pure.pure a : Eval α) s :=
  .of_journal_eq fun _ _ h => by rw [(ends_pure_iff.1 h).2]

theorem Notes.throw (e : EvalError) (s : EvalState) :
    Notes P (MonadExcept.throw e : Eval α) s :=
  .of_journal_eq fun _ _ h => by rw [(ends_throw_iff.1 h).2]

theorem Notes.write {e : Event} (he : P e) (s : EvalState) : Notes P (Eval.write e) s := by
  intro res t h e' he'
  obtain ⟨-, rfl⟩ := ends_write_iff.1 h
  rcases List.mem_cons.1 he' with rfl | he'
  · exact .inr he
  · exact .inl he'

theorem Notes.bind {x : Eval α} {f : α → Eval β} {s : EvalState} (hx : Notes P x s)
    (hf : ∀ a u, Ends x s (.ok a) u → Notes P (f a) u) : Notes P (x >>= f) s := by
  intro res t h e he
  rcases ends_bind_iff.1 h with ⟨_, herr, -⟩ | ⟨a, u, ha, hfa⟩
  · exact hx _ _ herr e he
  · exact (hf a u ha res t hfa e he).elim (hx _ _ ha e) .inr

theorem Notes.mapM {f : α → Eval β} {as : List α} {s : EvalState}
    (h : ∀ before a after vs u, as = before ++ a :: after →
      Ends (before.mapM f) s (.ok vs) u → Notes P (f a) u) : Notes P (as.mapM f) s := by
  induction as generalizing s with
  | nil => exact Notes.pure [] s
  | cons a as ih =>
      rw [List.mapM_cons]
      refine (h [] a as [] s rfl (ends_pure_iff.2 ⟨rfl, rfl⟩)).bind fun b u hb => ?_
      refine (ih fun before a' after vs w heq hbefore => ?_).bind fun bs w _ => Notes.pure _ w
      refine h (a :: before) a' after (b :: vs) w (by rw [heq]; rfl) ?_
      exact ends_mapM_cons_iff.2 (.inr ⟨b, u, hb, .ok vs, hbefore, rfl⟩)

theorem Notes.inFrame {values : List (String × Value)} {x : Eval α} {s : EvalState}
    (h : Notes P x (opened values s)) : Notes P (Eval.inFrame values x) s := by
  intro res t hx
  obtain ⟨u, hu, rfl⟩ := ends_inFrame_iff.1 hx
  exact h res u hu

theorem Silent.notes {x : Eval α} (h : Silent x) (hP : ∀ e : Event, e.OfValue → P e)
    (s : EvalState) : Notes P x s := by
  intro res t hx e he
  obtain ⟨res', es, hes, hall⟩ := h
  obtain ⟨-, rfl⟩ := hx.unique (hall s)
  exact (List.mem_append.1 he).elim (fun he => .inr (hP e (hes e he))) .inl

end Notes

variable {r : Registry} {maxDepth : Nat}

/-- If the event tells of an object that is made, the request begins it on its way. -/
def Accounts (r : Registry) (maxDepth : Nat) (p : Request × EvalState) (e : Event) : Prop :=
  ∀ name k depth, e = .instantiating name k depth →
    ∃ vs site u, Relation.ReflTransGen (Begins r maxDepth) p (.object name vs site, u) ∧
      vs.length = k ∧ u.frames.length = depth

/-- What is begun by a request that was begun is begun on the way. -/
theorem Begins.accounts {p q : Request × EvalState} {e : Event} (h : Begins r maxDepth p q)
    (hq : Accounts r maxDepth q e) : Accounts r maxDepth p e := by
  intro name k depth he
  obtain ⟨vs, site, u, hreach, hk, hdepth⟩ := hq name k depth he
  exact ⟨vs, site, u, hreach.head h, hk, hdepth⟩

theorem accounts_of_ne {p : Request × EvalState} {e : Event}
    (h : ∀ name k depth, e ≠ .instantiating name k depth) : Accounts r maxDepth p e :=
  fun name k depth he => absurd he (h name k depth)

theorem accounts_of_ofValue {p : Request × EvalState} {e : Event} (h : e.OfValue) :
    Accounts r maxDepth p e :=
  accounts_of_ne fun name k depth he => by cases h <;> cases he

section Requests

variable {n : Nat}

/-- Making an object tells of that object and of those that its fields make. -/
theorem notes_instantiate
    (hnames : ∀ scope x span s, Notes (Accounts r maxDepth (.name scope x span, s))
      (resolveUpTo r maxDepth n scope x span) s)
    (name : String) (actuals : List Value) (site : Option Location) (s : EvalState) :
    Notes (Accounts r maxDepth (.object name actuals site, s))
      (instantiate r maxDepth (resolveUpTo r maxDepth n) name actuals site) s := by
  cases hc : r.class? name with
  | none =>
      rw [instantiate_of_none hc]
      exact Notes.throw _ s
  | some c =>
      intro res t h
      rw [ends_instantiate_iff hc] at h
      split at h
      · next hdepth =>
          obtain ⟨-, rfl⟩ := h
          exact fun e he => .inl he
      next hdepth =>
      revert res t
      refine ((Silent.checkActuals c actuals _).notes (fun e => accounts_of_ofValue) s).bind
        fun _ u hactuals => ?_
      have hname : c.name.name = name := by simpa using List.find?_some hc
      have hlen : u.frames.length = s.frames.length := by
        rw [(Meaning.run_ofEval_of_ends (Silent.checkActuals c actuals _) hactuals).2.1]
      refine (Notes.write ?_ u).bind fun _ v hv => ?_
      · rintro name' k depth ⟨⟩
        exact ⟨actuals, site, s, by rw [hname], rfl, rfl⟩
      obtain ⟨-, rfl⟩ := ends_write_iff.1 hv
      refine Notes.inFrame (Notes.bind (Notes.mapM ?_) fun _ w _ => Notes.pure _ w)
      intro before f after vs w hfields hbefore
      refine (Notes.write (accounts_of_ne fun _ _ _ => by simp) w).bind fun _ x hx => ?_
      obtain ⟨-, rfl⟩ := ends_write_iff.1 hx
      refine Notes.bind ?_ fun _ y _ => Notes.pure _ y
      exact (hnames _ _ _ _).mono fun e =>
        (Begins.field hc (Nat.lt_of_not_le hdepth) hactuals hfields hbefore).accounts

/-- An operation tells of the objects that its operands make, and of its own. -/
theorem notes_operation
    (hnames : ∀ scope x span s, Notes (Accounts r maxDepth (.name scope x span, s))
      (resolveUpTo r maxDepth n scope x span) s)
    (scope : Option Class) (op : Operation) (s : EvalState) :
    Notes (Accounts r maxDepth (.operation scope op, s))
      (operation r maxDepth (resolveUpTo r maxDepth n) scope op) s := by
  have hoperands : op.action.isField = false →
      Notes (Accounts r maxDepth (.operation scope op, s))
        (resolveAll (resolveUpTo r maxDepth n) scope op.action.operands) s := fun hvalue =>
    Notes.mapM fun before x after vs u hsplit hbefore =>
      (hnames scope x.name x.span u).mono fun e =>
        (Begins.operand hvalue hsplit hbefore).accounts
  unfold operation
  cases hop : op.action with
  | constant value ty => exact (Silent.constant _ _ value ty).notes (fun e => accounts_of_ofValue) s
  | object target actuals operandTys ty =>
      rw [hop] at hoperands
      refine (hoperands rfl).bind fun vs u hvs => Notes.bind ?_ fun _ w _ => Notes.pure _ w
      exact (notes_instantiate hnames target.name vs _ u).mono fun e =>
        (Begins.nested hop hvs).accounts
  | listCreate elements elementTy =>
      rw [hop] at hoperands
      exact (hoperands rfl).bind fun _ u _ => Notes.pure _ u
  | tupleCreate elements elementTys =>
      rw [hop] at hoperands
      exact (hoperands rfl).bind fun _ u _ => Notes.pure _ u
  | mapCreate entries keyTy valueTy =>
      rw [hop] at hoperands
      exact (hoperands rfl).bind fun vs u _ =>
        (Silent.buildMap vs keyTy valueTy _).notes (fun e => accounts_of_ofValue) u
  | field name value ty => exact Notes.throw _ s

/-- A shared value tells of the objects that its operation makes. -/
theorem notes_resolveShared
    (hnames : ∀ scope x span s, Notes (Accounts r maxDepth (.name scope x span, s))
      (resolveUpTo r maxDepth n scope x span) s)
    {scope : Option Class} {x : String} {s : EvalState}
    (hscope : ∀ c, scope = some c → s.local? x = none ∧ c.definition? x = none) (span : Span) :
    Notes (Accounts r maxDepth (.name scope x span, s))
      (resolveShared r maxDepth (resolveUpTo r maxDepth n) x span) s := by
  intro res t h
  rw [ends_resolveShared_iff] at h
  split at h
  · exact Notes.pure _ s res t (ends_pure_iff.2 h)
  next hkept =>
  split at h
  · next op hop =>
      revert res t
      refine (Notes.write (accounts_of_ne fun _ _ _ => by simp) s).bind fun _ u hu => ?_
      obtain ⟨-, rfl⟩ := ends_write_iff.1 hu
      refine Notes.bind ?_ fun v w _ => .of_journal_eq fun _ _ h => ?_
      · exact (notes_operation hnames none op _).mono fun e =>
          (Begins.shared hscope hkept hop).accounts
      · rw [(ends_modify_pure_iff.1 h).2]
        rfl
  · exact Notes.throw _ s res t (ends_throw_iff.2 h)

/-- So does a value of a class body. -/
theorem notes_resolveLocal
    (hnames : ∀ scope x span s, Notes (Accounts r maxDepth (.name scope x span, s))
      (resolveUpTo r maxDepth n scope x span) s)
    (c : Class) (x : String) (span : Span) (s : EvalState) :
    Notes (Accounts r maxDepth (.name (some c) x span, s))
      (resolveLocal r maxDepth (resolveUpTo r maxDepth n) c x) s := by
  intro res t h
  rw [ends_resolveLocal_iff] at h
  split at h
  · exact Notes.pure _ s res t (ends_pure_iff.2 h)
  next hkept =>
  split at h
  · next op hop =>
      revert res t
      refine (Notes.write (accounts_of_ne fun _ _ _ => by simp) s).bind fun _ u hu => ?_
      obtain ⟨-, rfl⟩ := ends_write_iff.1 hu
      refine Notes.bind ?_ fun v w _ => .of_journal_eq fun _ _ h => ?_
      · exact (notes_operation hnames (some c) op _).mono fun e =>
          (Begins.inside hkept hop).accounts
      · rw [(ends_modify_pure_iff.1 h).2]
        unfold EvalState.keepLocal
        split <;> rfl
  · exact Notes.pure _ s res t (ends_pure_iff.2 h)

end Requests

/-- If the body of a class does not define a name, nothing is done. -/
theorem ends_resolveLocal_none {resolve : Resolver} {c : Class} {x : String} {s t : EvalState}
    (h : Ends (resolveLocal r maxDepth resolve c x) s (.ok none) t) :
    s.local? x = none ∧ c.definition? x = none ∧ t = s := by
  rw [ends_resolveLocal_iff] at h
  split at h
  · simp at h
  next hlocal =>
  split at h
  · rw [ends_write_bind_iff, ends_bind_iff] at h
    obtain ⟨e, -, hres⟩ | ⟨v, u, -, hv⟩ := h
    · cases hres
    · cases (ends_modify_pure_iff.1 hv).1
  · next hdef => exact ⟨hlocal, hdef, h.2⟩

/-- Asking for the value of a name tells only of objects that are begun on the way. -/
theorem notes_resolveUpTo (r : Registry) (maxDepth n : Nat) :
    ∀ scope x span s, Notes (Accounts r maxDepth (.name scope x span, s))
      (resolveUpTo r maxDepth n scope x span) s := by
  induction n with
  | zero => exact fun _ _ _ _ _ _ h => absurd h not_ends_diverge
  | succ n ih =>
      intro scope x span s
      cases scope with
      | none =>
          rw [resolveUpTo_outside]
          exact notes_resolveShared ih (fun c hc => by cases hc) span
      | some c =>
          rw [resolveUpTo_inside]
          refine (notes_resolveLocal ih c x span s).bind fun found u hfound => ?_
          cases found with
          | some v => exact Notes.pure v u
          | none =>
              -- nothing was found, and so nothing was done
              obtain ⟨hlocal, hdef, rfl⟩ := ends_resolveLocal_none hfound
              refine notes_resolveShared ih (fun c' hc' => ?_) span
              cases hc'
              exact ⟨hlocal, hdef⟩

end Eval

/-- **No object is made that was not begun.**  When the journal of a call tells that an object of
a class was made of so many values with so many frames around it, the call began to make it. -/
theorem Registry.exists_begun_of_instantiating {r : Registry} {maxDepth : Nat} {name : String}
    {actuals : List Value} {res : Except EvalError Object} {journal : List Event}
    (h : r.run maxDepth name actuals = some (res, journal)) {target : String} {k depth : Nat}
    (he : .instantiating target k depth ∈ journal) :
    ∃ vs site s, r.Begun maxDepth name actuals (.object target vs site) s ∧
      vs.length = k ∧ s.frames.length = depth := by
  obtain ⟨⟨res', t⟩, ht, heq⟩ := Option.map_eq_some_iff.1 h
  obtain ⟨-, rfl⟩ := Prod.mk.inj heq
  have hnotes := Eval.notes_instantiate (Eval.notes_resolveUpTo r maxDepth (r.size + 1)) name
    actuals none {} res' t ht _ (List.mem_reverse.1 he)
  exact hnotes.elim (fun h => absurd h (by simp)) fun h => h target k depth rfl

end ObjectModel
