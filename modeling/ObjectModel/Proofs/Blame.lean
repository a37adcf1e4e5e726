/-
**What is to blame for an error.**

A request that ends in an error either has that error itself or passes on the error of a request
that it begins.  So the error of a call can be followed to the request that it comes from.  The
requests of a call are about the class that is asked for, the classes that this one reaches, and
the shared values, and every object but the first is made by an operation of these.  So the error
stands at an operation of theirs, or at the class itself if the call could not even begin.

Main definitions:

* `EvalError.OfCreation`, `EvalError.OfOperation` — errors of making an object and of an operation;
* `Eval.Raised` — the errors that a request has itself;
* `Module.Concerns`, `Request.IsFor` — the operations and the requests that a class leads to.

Main results:

* `Eval.exists_of_ends_mapM_error` — the first of several computations that ends in an error;
* `Eval.blamed_resolveUpTo`, `Eval.blamed_instantiate` — every error is one that a request on the
  way has itself;
* `Eval.Begins.isFor`, `Registry.Begun.isFor` — a call stays with what its class leads to;
* `Registry.error_located` — **every error has its place**.
-/

import ObjectModel.Proofs.Begun
import ObjectModel.Proofs.Safety
import ObjectModel.Proofs.Shadowing

set_option relaxedAutoImplicit false
set_option autoImplicit false

namespace ObjectModel

open Relation (ReflTransGen)

/-! ### Errors of objects and operations -/

namespace EvalError

/-- An error at the place `loc` of making an object of the class `c` from the values `actuals`,
when `depth` objects are being made already: there are too many of these, or the values do not
fit the parameters. -/
inductive OfCreation (c : Class) (actuals : List Value) (maxDepth depth : Nat) (loc : Location) :
    EvalError → Prop where
  | depth (h : maxDepth ≤ depth) :
      OfCreation c actuals maxDepth depth loc (depthExceeded c.name.name maxDepth loc)
  | actuals {e : EvalError} (h : depth < maxDepth) (he : OfActuals c actuals loc e) :
      OfCreation c actuals maxDepth depth loc e

/-- An error of an operation at the place `loc`: a value that does not fit, or a symbol that there
is not. -/
inductive OfOperation (loc : Location) : EvalError → Prop where
  | mismatch (message : String) : OfOperation loc (typeMismatch message loc)
  | symbol (path : SymbolPath) : OfOperation loc (symbolResolution path loc)

variable {e : EvalError} {loc : Location}

theorem OfValue.ofOperation (h : e.OfValue loc) : e.OfOperation loc := by
  cases h with
  | mismatch _ => exact .mismatch _
  | symbol path => exact .symbol path

theorem OfOperation.location_eq (h : e.OfOperation loc) : e.location = some loc := by
  cases h <;> rfl

theorem OfCreation.location_eq {c : Class} {actuals : List Value} {maxDepth depth : Nat}
    (h : e.OfCreation c actuals maxDepth depth loc) : e.location = some loc := by
  cases h with
  | depth _ => rfl
  | actuals _ he => cases he <;> rfl

end EvalError

namespace Eval

open EvalError (OfValue OfActuals OfCreation OfOperation)

variable {α β : Type} {r : Registry} {maxDepth : Nat} {e : EvalError}

/-- The request, begun in a state, has the error itself: all that it begins does not end in an
error. -/
inductive Raised (r : Registry) (maxDepth : Nat) : Request × EvalState → EvalError → Prop where
  | noClass {name : String} {s : EvalState} (hc : r.class? name = none) (actuals : List Value)
      (site : Option Location) :
      Raised r maxDepth (.object name actuals site, s) (.classNotFound name (site.getD .unknown))
  | creation {name : String} {actuals : List Value} {site : Option Location} {s : EvalState}
      {c : Class} {e : EvalError} (hc : r.class? name = some c)
      (he : e.OfCreation c actuals maxDepth s.frames.length (site.getD c.location)) :
      Raised r maxDepth (.object name actuals site, s) e
  | constant {scope : Option Class} {op : Operation} {value : Attribute} {ty : Ty}
      {s t : EvalState} {e : EvalError} (haction : op.action = .constant value ty)
      (h : Ends (constant r (r.location op.span) value ty) s (.error e) t) :
      Raised r maxDepth (.operation scope op, s) e
  | map {scope : Option Class} {op : Operation} {entries : List Ident} {keyTy valueTy : Ty} {n : Nat}
      {vs : List Value} {s t u : EvalState} {e : EvalError}
      (haction : op.action = .mapCreate entries keyTy valueTy)
      (hentries : Ends (resolveAll (resolveUpTo r maxDepth n) scope entries) s (.ok vs) u)
      (h : Ends (buildMap vs keyTy valueTy (r.location op.span)) u (.error e) t) :
      Raised r maxDepth (.operation scope op, s) e
  | field {scope : Option Class} {op : Operation} {s : EvalState}
      (h : op.action.isField = true) :
      Raised r maxDepth (.operation scope op, s)
        (.typeMismatch EvalError.fieldMessage (r.location op.span))
  | undefined {scope : Option Class} {x : String} {s : EvalState} (span : Span) :
      Raised r maxDepth (.name scope x span, s) (.undefinedValue x (r.location span))

/-- What an operation has itself is an error of its values or symbols. -/
theorem Raised.ofOperation {scope : Option Class} {op : Operation} {s : EvalState}
    (h : Raised r maxDepth (.operation scope op, s) e) : e.OfOperation (r.location op.span) := by
  cases h with
  | constant haction h => exact ((raises_constant r _ _ _ _ _ _ trivial h).2 e rfl).ofOperation
  | map haction hentries h =>
      exact ((raises_buildMap _ _ _ _ _ _ _ trivial h).2 e rfl).ofOperation
  | field h => exact .mismatch _

/-! ### Errors that are passed on -/

theorem ends_bind_error {x : Eval α} {f : α → Eval β} {s t : EvalState}
    (h : Ends (x >>= f) s (.error e) t) :
    Ends x s (.error e) t ∨ ∃ a u, Ends x s (.ok a) u ∧ Ends (f a) u (.error e) t := by
  rcases ends_bind_iff.1 h with ⟨e', he', heq⟩ | hrest
  · cases heq
    exact .inl he'
  · exact .inr hrest

/-- When several computations one after the other end in an error, one of them does, and those
before it do not. -/
theorem exists_of_ends_mapM_error {f : α → Eval β} {as : List α} {s t : EvalState}
    (h : Ends (as.mapM f) s (.error e) t) :
    ∃ before a after bs u, as = before ++ a :: after ∧ Ends (before.mapM f) s (.ok bs) u ∧
      Ends (f a) u (.error e) t := by
  induction as generalizing s with
  | nil => cases (ends_mapM_nil_iff.1 h).1
  | cons a as ih =>
      rcases ends_mapM_cons_iff.1 h with ⟨e', he', heq⟩ | ⟨b, u, hb, res, hres, heq⟩
      · cases heq
        exact ⟨[], a, as, [], s, rfl, ends_mapM_nil_iff.2 ⟨rfl, rfl⟩, he'⟩
      · cases res with
        | ok bs => cases heq
        | error e' =>
            cases heq
            obtain ⟨before, a', after, bs, v, rfl, hbefore, ha'⟩ := ih hres
            exact ⟨a :: before, a', after, b :: bs, v, rfl,
              ends_mapM_cons_iff.2 (.inr ⟨b, u, hb, .ok bs, hbefore, rfl⟩), ha'⟩

/-- The error is one that the request has itself, or one that a request has which it begins on its
way. -/
def Blamed (r : Registry) (maxDepth : Nat) (p : Request × EvalState) (e : EvalError) : Prop :=
  ∃ q, ReflTransGen (Begins r maxDepth) p q ∧ Raised r maxDepth q e

theorem Raised.blamed {p : Request × EvalState} (h : Raised r maxDepth p e) :
    Blamed r maxDepth p e := ⟨p, .refl, h⟩

/-- An error is passed on. -/
theorem Begins.blamed {p q : Request × EvalState} (h : Begins r maxDepth p q)
    (hq : Blamed r maxDepth q e) : Blamed r maxDepth p e := by
  obtain ⟨o, hreach, ho⟩ := hq
  exact ⟨o, hreach.head h, ho⟩

section Requests

variable {n : Nat} {s t : EvalState}
  (hnames : ∀ scope x span s t e, Ends (resolveUpTo r maxDepth n scope x span) s (.error e) t →
    Blamed r maxDepth (.name scope x span, s) e)

include hnames

/-- An object passes on the errors of what its fields expose. -/
theorem blamed_instantiate {name : String} {actuals : List Value} {site : Option Location}
    (h : Ends (instantiate r maxDepth (resolveUpTo r maxDepth n) name actuals site) s (.error e)
      t) : Blamed r maxDepth (.object name actuals site, s) e := by
  cases hc : r.class? name with
  | none =>
      rw [instantiate_of_none hc] at h
      cases (ends_throw_iff.1 h).1
      exact (Raised.noClass hc actuals site).blamed
  | some c =>
      rw [ends_instantiate_iff hc] at h
      split at h
      · next hdepth =>
          cases h.1
          exact (Raised.creation hc (.depth hdepth)).blamed
      next hdepth =>
      have hdepth := Nat.lt_of_not_le hdepth
      rcases ends_bind_error h with hactuals | ⟨_, u, hactuals, h⟩
      · have he := (raises_checkActuals c actuals _ _ _ _ trivial hactuals).2 e rfl
        exact (Raised.creation hc (.actuals hdepth he)).blamed
      · obtain ⟨v, hv, -⟩ := ends_inFrame_iff.1 (ends_write_bind_iff.1 h)
        rcases ends_bind_error hv with hvalues | ⟨vs, w, -, hpure⟩
        · obtain ⟨before, f, after, vs, w, hfields, hbefore, hf⟩ :=
            exists_of_ends_mapM_error hvalues
          rcases ends_bind_error (ends_write_bind_iff.1 hf) with hname | ⟨_, _, -, hpure⟩
          · exact (Begins.field hc hdepth hactuals hfields hbefore).blamed
              (hnames _ _ _ _ _ _ hname)
          · cases (ends_pure_iff.1 hpure).1
        · cases (ends_pure_iff.1 hpure).1

/-- An operation passes on the errors of its operands, and of the object that it makes. -/
theorem blamed_operation {scope : Option Class} {op : Operation}
    (h : Ends (operation r maxDepth (resolveUpTo r maxDepth n) scope op) s (.error e) t) :
    Blamed r maxDepth (.operation scope op, s) e := by
  have hoperands (hvalue : op.action.isField = false) {t : EvalState}
      (h : Ends (resolveAll (resolveUpTo r maxDepth n) scope op.action.operands) s (.error e) t) :
      Blamed r maxDepth (.operation scope op, s) e := by
    obtain ⟨before, x, after, vs, u, hsplit, hbefore, hx⟩ := exists_of_ends_mapM_error h
    exact (Begins.operand hvalue hsplit hbefore).blamed (hnames _ _ _ _ _ _ hx)
  unfold operation at h
  cases hop : op.action with
  | constant value ty =>
      rw [hop] at h
      exact (Raised.constant hop h).blamed
  | object target actuals operandTys ty =>
      rw [hop] at h hoperands
      rcases ends_bind_error h with h | ⟨vs, u, hvs, h⟩
      · exact hoperands rfl h
      rcases ends_bind_error h with h | ⟨_, _, -, h⟩
      · exact (Begins.nested hop hvs).blamed (blamed_instantiate hnames h)
      · cases (ends_pure_iff.1 h).1
  | listCreate elements elementTy =>
      rw [hop] at h hoperands
      rcases ends_bind_error h with h | ⟨_, _, -, h⟩
      · exact hoperands rfl h
      · cases (ends_pure_iff.1 h).1
  | tupleCreate elements elementTys =>
      rw [hop] at h hoperands
      rcases ends_bind_error h with h | ⟨_, _, -, h⟩
      · exact hoperands rfl h
      · cases (ends_pure_iff.1 h).1
  | mapCreate entries keyTy valueTy =>
      rw [hop] at h hoperands
      rcases ends_bind_error h with h | ⟨vs, u, hvs, h⟩
      · exact hoperands rfl h
      · exact (Raised.map hop hvs h).blamed
  | field name value ty =>
      rw [hop] at h
      cases (ends_throw_iff.1 h).1
      exact (Raised.field (by rw [hop]; rfl)).blamed

/-- A shared value passes on the errors of its operation. -/
theorem blamed_resolveShared {scope : Option Class} {x : String}
    (hscope : ∀ c, scope = some c → s.local? x = none ∧ c.definition? x = none) {span : Span}
    (h : Ends (resolveShared r maxDepth (resolveUpTo r maxDepth n) x span) s (.error e) t) :
    Blamed r maxDepth (.name scope x span, s) e := by
  rw [ends_resolveShared_iff] at h
  split at h
  · cases h.1
  next hkept =>
  split at h
  · next op hop =>
      rcases ends_bind_error (ends_write_bind_iff.1 h) with h | ⟨v, u, -, h⟩
      · exact (Begins.shared hscope hkept hop).blamed (blamed_operation hnames h)
      · cases (ends_modify_pure_iff.1 h).1
  · cases h.1
    exact (Raised.undefined span).blamed

/-- So does a value of a class body. -/
theorem blamed_resolveLocal {c : Class} {x : String} {span : Span}
    (h : Ends (resolveLocal r maxDepth (resolveUpTo r maxDepth n) c x) s (.error e) t) :
    Blamed r maxDepth (.name (some c) x span, s) e := by
  rw [ends_resolveLocal_iff] at h
  split at h
  · cases h.1
  next hkept =>
  split at h
  · next op hop =>
      rcases ends_bind_error (ends_write_bind_iff.1 h) with h | ⟨v, u, -, h⟩
      · exact (Begins.inside hkept hop).blamed (blamed_operation hnames h)
      · cases (ends_modify_pure_iff.1 h).1
  · cases h.1

end Requests

/-- The error of a name comes from a request that is begun on the way. -/
theorem blamed_resolveUpTo (n : Nat) : ∀ scope x span s t e,
    Ends (resolveUpTo r maxDepth n scope x span) s (.error e) t →
      Blamed r maxDepth (.name scope x span, s) e := by
  induction n with
  | zero => exact fun _ _ _ _ _ _ h => absurd h not_ends_diverge
  | succ n ih =>
      intro scope x span s t e h
      cases scope with
      | none =>
          rw [resolveUpTo_outside] at h
          exact blamed_resolveShared ih (fun c hc => by cases hc) h
      | some c =>
          rw [resolveUpTo_inside] at h
          rcases ends_bind_error h with hlocal | ⟨found, u, hfound, hrest⟩
          · exact blamed_resolveLocal ih hlocal
          cases found with
          | some v => cases (ends_pure_iff.1 hrest).1
          | none =>
              obtain ⟨hlocal, hdef, rfl⟩ := ends_resolveLocal_none hfound
              refine blamed_resolveShared ih (fun c' hc' => ?_) hrest
              cases hc'
              exact ⟨hlocal, hdef⟩

end Eval

/-! ### What a class leads to -/

/-- The class `name` leads to the operation: it is one of a shared value, or it stands in the body
`scope` of a class that `name` reaches. -/
def Module.Concerns (m : Module) (name : String) (scope : Option Class) (op : Operation) : Prop :=
  match scope with
  | none => op ∈ m.operations
  | some c => c.toClassDecl ∈ m.classes ∧ m.Reaches name c.name.name ∧ op ∈ c.body

/-- The class `name` leads to the request. -/
def Request.IsFor (m : Module) (name : String) : Request → Prop
  | .object target _ _ => m.Reaches name target
  | .name scope _ _ => ∀ c, scope = some c → c.toClassDecl ∈ m.classes ∧ m.Reaches name c.name.name
  | .operation scope op => m.Concerns name scope op

/-- A class leads to what is begun by that to which it leads. -/
theorem Eval.Begins.isFor {m : Module} (hm : m.WellFormed) {maxDepth : Nat} {name : String}
    {p q : Request × EvalState} (h : Eval.Begins (Registry.ofModule m) maxDepth p q)
    (hp : p.1.IsFor m name) : q.1.IsFor m name := by
  cases h with
  | field hc hdepth hactuals hfields hbefore =>
      rintro d ⟨⟩
      obtain ⟨hmem, hname⟩ := Registry.mem_of_class? hc
      exact ⟨hmem, hname ▸ hp⟩
  | @inside c x span op s hkept hop =>
      obtain ⟨hmem, hreach⟩ := hp c rfl
      exact ⟨hmem, hreach, List.mem_of_find?_eq_some hop⟩
  | shared hscope hkept hop => exact List.mem_of_find?_eq_some hop
  | operand hvalue hoperands hbefore =>
      rintro c rfl
      exact ⟨hp.1, hp.2.1⟩
  | @nested scope op target actuals operandTys ty n vs s u haction hactuals =>
      have htarget : op.action.target? = some target :=
        Action.target?_eq_some_iff.2 ⟨actuals, operandTys, ty, haction⟩
      cases scope with
      | none =>
          -- outside of classes no objects are made
          rw [hm.no_objects op hp] at htarget
          cases htarget
      | some c =>
          obtain ⟨hmem, hreach, hbody⟩ := hp
          exact hreach.tail ⟨c.toClassDecl, hmem, rfl, target,
            ClassDecl.mem_targets.2 ⟨op, hbody, htarget⟩, rfl⟩

/-- A call stays with what its class leads to. -/
theorem Registry.Begun.isFor {m : Module} (hm : m.WellFormed) {maxDepth : Nat} {name : String}
    {actuals : List Value} {request : Request} {s : EvalState}
    (h : (Registry.ofModule m).Begun maxDepth name actuals request s) : request.IsFor m name := by
  have hall : ∀ q, ReflTransGen (Eval.Begins (Registry.ofModule m) maxDepth)
      (.object name actuals none, {}) q → q.1.IsFor m name := by
    intro q hq
    induction hq with
    | refl => exact ReflTransGen.refl
    | tail _ hstep ih => exact hstep.isFor hm ih
  exact hall _ h

/-! ### The error of a call -/

namespace Registry

theorem location_of_class? {m : Module} {name : String} {c : Class}
    (h : (ofModule m).class? name = some c) : c.location = .ofSpan m.file c.span := by
  obtain ⟨d, -, rfl⟩ := List.mem_map.1 (List.mem_of_find?_eq_some h)
  rfl

/-- The error of a call is one that a request on its way has itself. -/
theorem exists_raised_of_instantiate {r : Registry} {maxDepth : Nat} {name : String}
    {actuals : List Value} {f : Failure}
    (h : r.instantiate maxDepth name actuals = some (.error f)) :
    Eval.Blamed r maxDepth (.object name actuals none, {}) f.cause := by
  obtain ⟨⟨res, journal⟩, hrun, hres⟩ := Option.map_eq_some_iff.1 h
  obtain ⟨⟨res', t⟩, hends, heq⟩ := Option.map_eq_some_iff.1 hrun
  obtain ⟨rfl, -⟩ := Prod.mk.inj heq
  cases res' with
  | ok o => cases hres
  | error e =>
      cases hres
      exact Eval.blamed_instantiate (Eval.blamed_resolveUpTo (r.size + 1)) hends

/-- For a call on a declared class of an accepted module, no class and no value is missing. -/
theorem declared_of_instantiate {m : Module} (hm : m.WellFormed) {maxDepth : Nat} {c : ClassDecl}
    (hc : c ∈ m.classes) {actuals : List Value} {f : Failure}
    (h : (ofModule m).instantiate maxDepth c.name.name actuals = some (.error f)) :
    (∀ name loc, f.cause ≠ .classNotFound name loc) ∧
      ∀ x loc, f.cause ≠ .undefinedValue x loc := by
  obtain ⟨res, hyields, hres⟩ := Registry.yields_of_instantiate hm.no_objects h
  cases res with
  | ok o => cases hres
  | error e =>
      cases hres
      have hpossible : e.PossibleFor m c.name.name actuals False :=
        hyields.possibleFor hm Scoping.lawful_whole False.elim
      constructor
      · rintro name loc rfl
        cases hpossible with
        | noClass hnone => exact hnone c hc rfl
        | inner hinner => exact hinner
      · rintro x loc rfl
        cases hpossible with
        | inner hinner => exact hinner

/-- **Every error has its place.**  When a call that makes an object of a declared class of an
accepted module ends in an error, the error has a place in the file of the module.  Either the call
itself is to blame, because its values do not fit the class or no object may be made at all, and
the place is that of the class.  Or it is the place of an operation that the call began, of a shared
value or in the body of a class that the class reaches: this operation has the error itself, or the
object that it was about to make has it, because the values do not fit or there are too many
objects inside each other. -/
theorem error_located {m : Module} {quote : Nat → String} {r : Registry} {maxDepth : Nat}
    {c : ClassDecl} {actuals : List Value} {f : Failure} (hbuild : Registry.build m quote = .ok r)
    (hc : c ∈ m.classes)
    (h : r.instantiate maxDepth c.name.name actuals = some (.error f)) :
    ∃ span, f.cause.location = some (.ofSpan m.file span) ∧
      ((span = c.span ∧
          f.cause.OfCreation ⟨c, m.file⟩ actuals maxDepth 0 (.ofSpan m.file span)) ∨
        ∃ scope op s, r.Begun maxDepth c.name.name actuals (.operation scope op) s ∧
          m.Concerns c.name.name scope op ∧ span = op.span ∧
          ((f.cause.OfOperation (.ofSpan m.file span) ∧
              Eval.Raised r maxDepth (.operation scope op, s) f.cause) ∨
            ∃ target vs d u,
              Eval.Begins r maxDepth (.operation scope op, s)
                (.object target vs (some (.ofSpan m.file span)), u) ∧
              r.class? target = some d ∧
              f.cause.OfCreation d vs maxDepth u.frames.length (.ofSpan m.file span))) := by
  obtain ⟨hm, rfl⟩ := Registry.build_eq_ok_iff.1 hbuild
  obtain ⟨hclasses, hvalues⟩ := declared_of_instantiate hm hc h
  obtain ⟨⟨request, s⟩, hbegun, hraised⟩ := exists_raised_of_instantiate h
  cases request with
  | name scope x span =>
      generalize f.cause = e at hraised hvalues
      cases hraised with
      | undefined _ => exact absurd rfl (hvalues _ _)
  | operation scope op =>
      have hop := hraised.ofOperation
      have hfor := Begun.isFor hm hbegun
      exact ⟨op.span, hop.location_eq, .inr ⟨scope, op, s, hbegun, hfor, rfl, .inl ⟨hop, hraised⟩⟩⟩
  | object target vs site =>
      obtain ⟨d, hd, he⟩ : ∃ d, (ofModule m).class? target = some d ∧
          f.cause.OfCreation d vs maxDepth s.frames.length (site.getD d.location) := by
        generalize f.cause = e at hraised hclasses
        cases hraised with
        | noClass hnone => exact absurd rfl (hclasses _ _)
        | creation hd he => exact ⟨_, hd, he⟩
      -- every object but the first is made by an operation
      rcases ReflTransGen.cases_tail hbegun with heq | ⟨p, hp, hstep⟩
      · obtain ⟨⟨rfl, rfl, rfl⟩, rfl⟩ : (target = c.name.name ∧ vs = actuals ∧ site = none) ∧
            s = {} := by simpa using heq
        obtain ⟨hmem, hname⟩ := mem_of_class? hd
        obtain rfl : d.toClassDecl = c := hm.eq_of_name hmem hc hname
        rw [Option.getD_none, location_of_class? hd] at he
        refine ⟨d.span, he.location_eq, .inl ⟨rfl, ?_⟩⟩
        obtain ⟨c', -, rfl⟩ := List.mem_map.1 (List.mem_of_find?_eq_some hd)
        exact he
      · cases hstep with
        | @nested scope op target actuals operandTys ty n vs s u haction hactuals =>
            have hfor := Begun.isFor hm hp
            exact ⟨op.span, he.location_eq, .inr ⟨scope, op, s, hp, hfor, rfl,
              .inr ⟨target.name, vs, d, _, .nested haction hactuals, hd, he⟩⟩⟩

end Registry

/-- A port has a width, which is a whole number.  A device passes its label for it, which is a
text. -/
def Module.mismatched : Module where
  file := "device.mlir"
  span := ⟨⟨1, 1⟩, ⟨7, 1⟩⟩
  items := [
    .ofClass {
      name := ⟨"Port", ⟨⟨1, 11⟩, ⟨1, 14⟩⟩⟩
      params := [⟨⟨"width", ⟨⟨1, 16⟩, ⟨1, 21⟩⟩⟩, .integer, ⟨⟨1, 16⟩, ⟨1, 26⟩⟩⟩]
      body := [
        ⟨none, .field ⟨"width", ⟨⟨2, 18⟩, ⟨2, 23⟩⟩⟩ ⟨"width", ⟨⟨2, 26⟩, ⟨2, 31⟩⟩⟩ .integer,
          ⟨⟨2, 3⟩, ⟨2, 36⟩⟩⟩]
      span := ⟨⟨1, 1⟩, ⟨3, 1⟩⟩ },
    .ofClass {
      name := ⟨"Device", ⟨⟨4, 11⟩, ⟨4, 16⟩⟩⟩
      params := [⟨⟨"label", ⟨⟨4, 18⟩, ⟨4, 23⟩⟩⟩, .string, ⟨⟨4, 18⟩, ⟨4, 36⟩⟩⟩]
      body := [
        ⟨some ⟨"port", ⟨⟨5, 3⟩, ⟨5, 7⟩⟩⟩, .object ⟨"Port", ⟨⟨5, 21⟩, ⟨5, 25⟩⟩⟩
          [⟨"label", ⟨⟨5, 27⟩, ⟨5, 32⟩⟩⟩] [.string] (.object "Port"), ⟨⟨5, 3⟩, ⟨5, 60⟩⟩⟩,
        ⟨none, .field ⟨"port", ⟨⟨6, 18⟩, ⟨6, 22⟩⟩⟩ ⟨"port", ⟨⟨6, 25⟩, ⟨6, 29⟩⟩⟩ (.object "Port"),
          ⟨⟨6, 3⟩, ⟨6, 55⟩⟩⟩]
      span := ⟨⟨4, 1⟩, ⟨7, 1⟩⟩ }]

/-- The error of the port stands where the device makes it, and the call did begin to make a port
there. -/
theorem Registry.error_of_mismatched_port_located :
    Registry.build Module.mismatched (fun _ => "") = .ok (ofModule Module.mismatched) ∧
    ∃ f : Failure, (ofModule Module.mismatched).instantiate 8 "Device" [.string "left"] =
        some (.error f) ∧
      f.cause.location = some (.ofSpan "device.mlir" ⟨⟨5, 3⟩, ⟨5, 60⟩⟩) ∧
      ∃ scope op s target vs u,
        (ofModule Module.mismatched).Begun 8 "Device" [.string "left"] (.operation scope op) s ∧
        Module.mismatched.Concerns "Device" scope op ∧ op.span = ⟨⟨5, 3⟩, ⟨5, 60⟩⟩ ∧
        Eval.Begins (ofModule Module.mismatched) 8 (.operation scope op, s)
          (.object target vs (some (.ofSpan "device.mlir" op.span)), u) := by
  have hbuild : Registry.build Module.mismatched (fun _ => "") =
      .ok (ofModule Module.mismatched) := rfl
  have hrun : (ofModule Module.mismatched).instantiate 8 "Device" [.string "left"] =
      some (.error ⟨.parameterTypeMismatch "Port" 0 "width" .integer "string"
        (.ofSpan "device.mlir" ⟨⟨5, 3⟩, ⟨5, 60⟩⟩), .instantiate⟩) := rfl
  obtain ⟨span, hspan, hblame⟩ := Registry.error_located hbuild (.tail _ (.head _)) hrun
  obtain rfl : ⟨⟨5, 3⟩, ⟨5, 60⟩⟩ = span := Option.some.inj (congrArg Location.span
    (Option.some.inj hspan))
  rcases hblame with ⟨hclass, -⟩ | ⟨scope, op, s, hbegun, hfor, hop, hoperation | hnested⟩
  · cases hclass
  · cases hoperation.1
  · obtain ⟨target, vs, d, u, hbegins, -⟩ := hnested
    refine ⟨hbuild, _, hrun, rfl, scope, op, s, target, vs, u, hbegun, hfor, hop.symm, ?_⟩
    rwa [← hop]

end ObjectModel
