/-
**Keeping nothing.**

Evaluation can be done without keeping any value: a frame has the values of the parameters as long
as it is there and nothing else, shared values are nowhere, and each use of a name carries out the
operation that defines it again.  Everything else is as before; only the way a name is looked up
differs.  A call then has the same result.

Main definitions:

* `Eval.recomputeShared`, `Eval.recomputeLocal`, `Eval.recomputeUpTo` — the value of a name,
  computed at each use;
* `Registry.instantiateAfresh` — the whole call.

Main results:

* `Eval.keepsNothing_recomputeUpTo` — such a call indeed keeps nothing;
* `Meaning.recompute_follows` — a value that is computed at each use is what its name means;
* `Registry.instantiate_eq_instantiateAfresh` — a call has the same result as one that keeps
  nothing.
-/

import ObjectModel.Proofs.Depth

set_option relaxedAutoImplicit false
set_option autoImplicit false

namespace ObjectModel

/-! ### Computing at each use -/

namespace Eval

/-- The shared value of a name, computed at each use. -/
def recomputeShared (r : Registry) (maxDepth : Nat) (resolve : Resolver) (name : String)
    (span : Span) : Eval Value :=
  match r.value? name with
  | some op => do
      write (.computing 0 name)
      operation r maxDepth resolve none op
  | none => throw (.undefinedValue name (r.location span))

/-- The value of a name in the body of a class, if the parameters bind it, which are all that the
frame has, or if the body defines it. -/
def recomputeLocal (r : Registry) (maxDepth : Nat) (resolve : Resolver) (c : Class)
    (name : String) : Eval (Option Value) := do
  let s ← get
  match s.local? name with
  | some v => return some v
  | none =>
      match c.definition? name with
      | some op =>
          write (.computing ((s.frames.head?.map Frame.id).getD 0) name)
          return some (← operation r maxDepth resolve (some c) op)
      | none => return none

/-- The value of a name, computed at each use, when operations ask for operands at most `n`
deep. -/
def recomputeUpTo (r : Registry) (maxDepth : Nat) : Nat → Resolver
  | 0 => fun _ _ _ => diverge
  | n + 1 => fun scope name span => do
      let found ← match scope with
        | some c => recomputeLocal r maxDepth (recomputeUpTo r maxDepth n) c name
        | none => pure none
      match found with
      | some v => return v
      | none => recomputeShared r maxDepth (recomputeUpTo r maxDepth n) name span

theorem recomputeUpTo_outside (r : Registry) (maxDepth n : Nat) (name : String) (span : Span) :
    recomputeUpTo r maxDepth (n + 1) none name span =
      recomputeShared r maxDepth (recomputeUpTo r maxDepth n) name span := by
  simp [recomputeUpTo]

theorem recomputeUpTo_inside (r : Registry) (maxDepth n : Nat) (c : Class) (name : String)
    (span : Span) :
    recomputeUpTo r maxDepth (n + 1) (some c) name span =
      (recomputeLocal r maxDepth (recomputeUpTo r maxDepth n) c name >>= fun
        | some v => pure v
        | none => recomputeShared r maxDepth (recomputeUpTo r maxDepth n) name span) := rfl

end Eval

/-- An object of the class `name`, or the failure to make one, when nothing is kept. -/
def Registry.instantiateAfresh (r : Registry) (maxDepth : Nat) (name : String)
    (actuals : List Value) : Option (Except Failure Object) :=
  let call := Eval.instantiate r maxDepth (Eval.recomputeUpTo r maxDepth (r.size + 1)) name actuals
    none
  (call.run.run {}).map fun (result, _) => result.mapError fun cause => ⟨cause, .instantiate⟩

namespace Eval

variable {r : Registry} {maxDepth : Nat} {resolve : Resolver}

theorem ends_get_bind_iff {β : Type} {f : EvalState → Eval β} {s t : EvalState}
    {res : Except EvalError β} : Ends (get >>= f) s res t ↔ Ends (f s) s res t := by
  rw [ends_bind_iff]
  simp only [ends_get_iff, reduceCtorEq, false_and, exists_false, false_or, Except.ok.injEq]
  constructor
  · rintro ⟨_, _, ⟨rfl, rfl⟩, h⟩
    exact h
  · exact fun h => ⟨s, s, ⟨rfl, rfl⟩, h⟩

/-! ### Nothing is kept -/

/-- Where the computation ends, frames and shared values are what they were. -/
def KeepsNothing {α : Type} (x : Eval α) : Prop :=
  ∀ fs vs, Keeps (fun s => s.frames = fs ∧ s.shared = vs) (fun _ => True) x

theorem KeepsNothing.silent {α : Type} {x : Eval α} (hx : Silent x) : KeepsNothing x :=
  fun _ _ => hx.keeps (fun _ _ _ hs => hs) fun _ _ _ _ _ => ⟨trivial, fun _ _ => trivial⟩

theorem keepsNothing_instantiate {name : String} {actuals : List Value} {site : Option Location}
    (hresolve : ∀ scope x span, KeepsNothing (resolve scope x span)) :
    KeepsNothing (instantiate r maxDepth resolve name actuals site) := by
  intro fs vs
  cases hc : r.class? name with
  | none =>
      rw [instantiate_of_none hc]
      exact Keeps.throw trivial
  | some c =>
      intro s res t hs h
      rw [ends_instantiate_iff hc] at h
      split at h
      · obtain ⟨rfl, rfl⟩ := h
        exact ⟨hs, fun _ _ => trivial⟩
      · -- in the new frame the fields leave what they find, and then the frame is gone
        have hfields : ∀ gs, Keeps (fun s => s.frames = gs ∧ s.shared = vs) (fun _ => True)
            (do return (⟨c, Entries.ofList (← fieldValues resolve c)⟩ : Object)) := fun gs =>
          (Keeps.mapM fun f _ => (Keeps.write fun _ hs => hs).bind fun _ =>
            (hresolve (some c) f.value.name f.span gs vs).bind fun _ => Keeps.pure _).bind
              fun _ => Keeps.pure _
        have hframe : Keeps (fun s => s.frames = fs ∧ s.shared = vs) (fun _ => True)
            (inFrame (Entries.ofList (c.paramNames.zip actuals))
              (do return (⟨c, Entries.ofList (← fieldValues resolve c)⟩ : Object))) := by
          rintro s res t ⟨rfl, rfl⟩ h
          obtain ⟨u, hu, rfl⟩ := ends_inFrame_iff.1 h
          obtain ⟨⟨hframes, hshared⟩, -⟩ := hfields (opened _ s).frames _ res u ⟨rfl, rfl⟩ hu
          refine ⟨⟨?_, hshared⟩, fun _ _ => trivial⟩
          rw [hframes, opened, List.drop_one, List.tail_cons]
        exact ((KeepsNothing.silent (Silent.checkActuals c actuals _) fs vs).bind fun _ =>
          (Keeps.write fun _ hs => hs).bind fun _ => hframe) s res t hs h

theorem keepsNothing_operation {scope : Option Class} {op : Operation}
    (hresolve : ∀ scope x span, KeepsNothing (resolve scope x span)) :
    KeepsNothing (operation r maxDepth resolve scope op) := by
  intro fs vs
  have hoperands : ∀ xs, Keeps (fun s => s.frames = fs ∧ s.shared = vs) (fun _ => True)
      (resolveAll resolve scope xs) := fun xs =>
    Keeps.mapM fun x _ => hresolve scope x.name x.span fs vs
  unfold operation
  cases op.action with
  | constant value ty => exact KeepsNothing.silent (Silent.constant r _ value ty) fs vs
  | object target actuals operandTys ty =>
      exact (hoperands actuals).bind fun ws =>
        (keepsNothing_instantiate hresolve fs vs).bind fun _ => Keeps.pure _
  | listCreate elements elementTy => exact (hoperands elements).bind fun _ => Keeps.pure _
  | tupleCreate elements elementTys => exact (hoperands elements).bind fun _ => Keeps.pure _
  | mapCreate entries keyTy valueTy =>
      exact (hoperands entries).bind fun ws =>
        KeepsNothing.silent (Silent.buildMap ws keyTy valueTy _) fs vs
  | field name value ty => exact Keeps.throw trivial

/-- Evaluation that computes at each use keeps nothing. -/
theorem keepsNothing_recomputeUpTo (n : Nat) :
    ∀ scope name span, KeepsNothing (recomputeUpTo r maxDepth n scope name span) := by
  induction n with
  | zero => exact fun _ _ _ _ _ _ _ _ _ h => absurd h not_ends_diverge
  | succ n ih =>
      intro scope name span fs vs
      have hshared : Keeps (fun s => s.frames = fs ∧ s.shared = vs) (fun _ => True)
          (recomputeShared r maxDepth (recomputeUpTo r maxDepth n) name span) := by
        unfold recomputeShared
        split
        · exact (Keeps.write fun _ hs => hs).bind fun _ => keepsNothing_operation ih fs vs
        · exact Keeps.throw trivial
      cases scope with
      | none => rwa [recomputeUpTo_outside]
      | some c =>
          rw [recomputeUpTo_inside]
          refine Keeps.bind ?_ fun found => ?_
          · refine Keeps.get.bind fun s => ?_
            split
            · exact Keeps.pure _
            · split
              · exact (Keeps.write fun _ hs => hs).bind fun _ =>
                  (keepsNothing_operation ih fs vs).bind fun _ => Keeps.pure _
              · exact Keeps.pure _
          · cases found with
            | none => exact hshared
            | some v => exact Keeps.pure v

end Eval

/-! ### What is computed is what is meant -/

namespace Meaning

open Eval (Ends)

variable {α : Type} {r : Registry} {maxDepth n : Nat} {σ : Scope} {fs : List Frame}

/-- What is meant at some depth may be given right away. -/
theorem Follows.found {a : α} {p : Nat → Meaning α}
    (hgrows : ∀ {k l : Nat}, k ≤ l → Refines (p k) (p l)) (ha : ∃ k, (p k).run = some (.ok a)) :
    Follows r maxDepth n σ fs (Pure.pure a) p where
  grows := hgrows
  ends hs hx := by
    obtain ⟨rfl, rfl⟩ := Eval.ends_pure_iff.1 hx
    exact ⟨ha, hs⟩
  answers {s _} _ _ := ⟨_, s, Eval.ends_pure_iff.2 ⟨rfl, rfl⟩⟩

/-- What follows a meaning one level up follows it one level deeper. -/
theorem Follows.deeper {x : Eval α} {p : Nat → Meaning α}
    (hgrows : ∀ {k l : Nat}, k ≤ l → Refines (p k) (p l))
    (hx : Follows r maxDepth n σ fs x fun k => p (k + 1)) :
    Follows r maxDepth (n + 1) σ fs x p where
  grows := hgrows
  ends hs h := by
    obtain ⟨⟨k, hk⟩, ht⟩ := hx.ends hs h
    exact ⟨⟨k + 1, hk⟩, ht⟩
  answers hs hp := hx.answers hs hp

/-- What is done outside of classes may be done anywhere. -/
theorem Follows.ofOutside {x : Eval α} {p : Nat → Meaning α}
    (hx : ∀ gs, Follows r maxDepth n σ.outside gs x p) : Follows r maxDepth n σ fs x p where
  grows := (hx fs).grows
  ends {s t res} hs h := by
    obtain ⟨hp, hfaith⟩ := (hx s.frames).ends hs.toOutside h
    exact ⟨hp, hs.withShared (hfaith.outside rfl) hfaith.shared⟩
  answers {s res} hs hp := (hx s.frames).answers hs.toOutside hp

/-- A computation may look at the state before it goes on. -/
theorem Follows.of_state {x : Eval α} {p : Nat → Meaning α}
    (hgrows : ∀ {k l : Nat}, k ≤ l → Refines (p k) (p l))
    (h : ∀ s, Faithful r maxDepth σ fs s → ∃ y : Eval α,
      (∀ res t, Ends x s res t ↔ Ends y s res t) ∧ Follows r maxDepth n σ fs y p) :
    Follows r maxDepth n σ fs x p where
  grows := hgrows
  ends {s t res} hs hx := by
    obtain ⟨y, hxy, hy⟩ := h s hs
    exact hy.ends hs ((hxy res t).1 hx)
  answers {s res} hs hp := by
    obtain ⟨y, hxy, hy⟩ := h s hs
    obtain ⟨res', t, ht⟩ := hy.answers hs hp
    exact ⟨res', t, (hxy res' t).2 ht⟩

section Resolver

variable {resolve : Eval.Resolver} (hresolve : Finds r maxDepth n resolve)

include hresolve

/-- A name that stands for a shared value is computed to what it means. -/
theorem Follows.recomputeShared {i : Nat} {name : String} {span : Span}
    (hdef : definition? r .whole σ i name = shared? r σ name) :
    Follows r maxDepth (n + 1) σ fs (Eval.recomputeShared r maxDepth resolve name span)
      fun k => upTo r maxDepth .whole k σ i name span := by
  refine Follows.deeper (fun hkl => upTo_refines hkl σ i name span) ?_
  simp only [upTo_succ, hdef, shared?]
  unfold Eval.recomputeShared
  cases r.value? name with
  | none => exact Follows.throw _
  | some op =>
      exact Follows.write_bind (Follows.ofOutside fun gs => Follows.operation hresolve 0 op)

/-- A name in the body of a class is computed to what it means. -/
theorem Follows.recompute_inside {c : Class} {params : List (String × Value)}
    (hbody : σ.body = some (c, params)) (i : Nat) (name : String) (span : Span) :
    Follows r maxDepth (n + 1) σ fs
      (Eval.recomputeLocal r maxDepth resolve c name >>= fun
        | some v => Pure.pure v
        | none => Eval.recomputeShared r maxDepth resolve name span)
      fun k => upTo r maxDepth .whole k σ i name span := by
  have hgrows : ∀ {k l : Nat}, k ≤ l → Refines (upTo r maxDepth .whole k σ i name span)
      (upTo r maxDepth .whole l σ i name span) := fun hkl => upTo_refines hkl σ i name span
  refine Follows.of_state hgrows fun s hs => ?_
  obtain ⟨f, hf, hff⟩ := hs.inside c params hbody
  have hlocal : s.local? name = f.values.lookup name := by simp [EvalState.local?, hf]
  simp only [Eval.recomputeLocal, bind_assoc, Eval.ends_get_bind_iff, hlocal]
  cases hl : f.values.lookup name with
  | some v =>
      -- what the frame has is what the name means
      obtain ⟨k, d, hd, hv⟩ := hff.means name v hl
      refine ⟨Pure.pure v, fun res t => by simp only [pure_bind], ?_⟩
      refine Follows.found hgrows ⟨k + 1, ?_⟩
      rw [upTo_succ, show definition? r .whole σ i name = _ from hd]
      exact hv
  | none =>
      have hparams := hff.lookup_eq_none hl
      have hfind : c.definition? name = (locate name c.body).map Prod.snd :=
        (map_locate name c.body).symm
      cases hop : locate name c.body with
      | none =>
          refine ⟨Eval.recomputeShared r maxDepth resolve name span, fun res t => ?_, ?_⟩
          · simp only [hfind, hop, Option.map_none, pure_bind]
          · refine Follows.recomputeShared hresolve ?_
            simp [definition?, hbody, hparams, Scoping.whole, hop]
      | some q =>
          obtain ⟨j, op⟩ := q
          have hdef : definition? r .whole σ i name = some (.computed σ j op) := by
            simp [definition?, hbody, hparams, Scoping.whole, hop]
          refine ⟨do
              Eval.write (.computing ((s.frames.head?.map Frame.id).getD 0) name)
              Eval.operation r maxDepth resolve (some c) op, fun res t => ?_, ?_⟩
          · simp only [hfind, hop, Option.map_some, bind_assoc, pure_bind, bind_pure]
          · refine Follows.deeper hgrows ?_
            simp only [upTo_succ, hdef, value]
            have hfollows : Follows r maxDepth n σ fs
                (Eval.operation r maxDepth resolve (σ.body.map Prod.fst) op)
                fun k => Meaning.operation r maxDepth (upTo r maxDepth .whole k) σ j op :=
              Follows.operation hresolve j op
            rw [hbody, Option.map_some] at hfollows
            exact Follows.write_bind hfollows

end Resolver

/-- The value of a name that is computed at each use is its meaning. -/
theorem recompute_follows (r : Registry) (maxDepth n : Nat) :
    Finds r maxDepth n (Eval.recomputeUpTo r maxDepth n) := by
  induction n with
  | zero =>
      intro σ fs i name span
      exact ⟨fun hkl => upTo_refines hkl σ i name span,
        fun _ h => absurd h Eval.not_ends_diverge, fun _ hp => by cases hp⟩
  | succ n ih =>
      intro σ fs i name span
      cases hbody : σ.body with
      | none =>
          rw [Option.map_none, Eval.recomputeUpTo_outside]
          exact Follows.recomputeShared ih (by simp [definition?, hbody])
      | some p =>
          obtain ⟨c, params⟩ := p
          rw [Option.map_some, Eval.recomputeUpTo_inside]
          exact Follows.recompute_inside ih hbody i name span

end Meaning

/-! ### The call -/

/-- When nothing is kept, the result of a call is the meaning of making its object. -/
theorem Registry.instantiateAfresh_eq_some_iff {m : Module} (hm : m.WellFormed) {maxDepth : Nat}
    {name : String} {actuals : List Value} {res : Except Failure Object} :
    (ofModule m).instantiateAfresh maxDepth name actuals = some res ↔
      ∃ res', (ofModule m).Yields maxDepth .whole name actuals res' ∧
        res = res'.mapError fun cause => ⟨cause, .instantiate⟩ := by
  have hfollows : Meaning.Follows (ofModule m) maxDepth ((ofModule m).size + 1) ⟨0, none⟩ []
      (Eval.instantiate (ofModule m) maxDepth
        (Eval.recomputeUpTo (ofModule m) maxDepth ((ofModule m).size + 1)) name actuals none) _ :=
    Meaning.Follows.object (Meaning.recompute_follows _ maxDepth _) name actuals none
  have hinit := Meaning.faithful_init (ofModule m) maxDepth
  constructor
  · intro h
    obtain ⟨⟨res', t⟩, ht, rfl⟩ := Option.map_eq_some_iff.1 h
    exact ⟨res', (hfollows.ends hinit ht).1, rfl⟩
  · rintro ⟨res', ⟨n, hn⟩, rfl⟩
    have hdeep := Meaning.object_refines_size hm n name actuals res' hn
    obtain ⟨t, ht, -⟩ := hfollows.finds hinit hdeep
    exact Option.map_eq_some_iff.2 ⟨(res', t), ht, rfl⟩

/-- **What is kept is invisible.**  A call on an accepted module ends in the same result, the whole
object or the error with all it says, as a call that keeps nothing and carries out the operation
that defines a name at each use of the name; and where one of them does not end, the other does not
either. -/
theorem Registry.instantiate_eq_instantiateAfresh {m : Module} {quote : Nat → String}
    {r : Registry} (hbuild : Registry.build m quote = .ok r) (maxDepth : Nat) (name : String)
    (actuals : List Value) :
    r.instantiate maxDepth name actuals = r.instantiateAfresh maxDepth name actuals ∧
      ∀ n scope x span, Eval.KeepsNothing (Eval.recomputeUpTo r maxDepth n scope x span) := by
  obtain ⟨hm, rfl⟩ := Registry.build_eq_ok_iff.1 hbuild
  refine ⟨Option.ext fun res => ?_, Eval.keepsNothing_recomputeUpTo⟩
  rw [Registry.instantiate_eq_some_iff hm, Registry.instantiateAfresh_eq_some_iff hm]

/-- A cable with the same plug at both ends.  The size of the plug is a shared value. -/
def Module.cabled : Module where
  file := "cable.mlir"
  span := default
  items := [
    .ofOperation ⟨some ⟨"size", default⟩, .constant (.integer 8) .integer, default⟩,
    .ofClass {
      name := ⟨"Plug", default⟩
      params := [⟨⟨"label", default⟩, .string, default⟩]
      body := [
        ⟨none, .field ⟨"size", default⟩ ⟨"size", default⟩ .integer, default⟩,
        ⟨none, .field ⟨"label", default⟩ ⟨"label", default⟩ .string, default⟩]
      span := default },
    .ofClass {
      name := ⟨"Cable", default⟩
      params := [⟨⟨"label", default⟩, .string, default⟩]
      body := [
        ⟨some ⟨"plug", default⟩, .object ⟨"Plug", default⟩ [⟨"label", default⟩] [.string]
          (.object "Plug"), default⟩,
        ⟨some ⟨"ends", default⟩, .tupleCreate [⟨"plug", default⟩, ⟨"plug", default⟩]
          [.object "Plug", .object "Plug"], default⟩,
        ⟨none, .field ⟨"ends", default⟩ ⟨"ends", default⟩
          (.tuple [.object "Plug", .object "Plug"]), default⟩]
      span := default }]

/-- The plug of a cable is made once and kept, or made twice, and the cable is the same. -/
theorem Registry.instantiate_cabled_eq_instantiateAfresh :
    Registry.build Module.cabled (fun _ => "") = .ok (ofModule Module.cabled) ∧
    ((ofModule Module.cabled).run 8 "Cable" [.string "left"]).map
        (fun p => p.2.count (.instantiating "Plug" 1 1)) = some 1 ∧
    ∃ o, (ofModule Module.cabled).instantiate 8 "Cable" [.string "left"] = some (.ok o) ∧
      (ofModule Module.cabled).instantiateAfresh 8 "Cable" [.string "left"] = some (.ok o) ∧
      ∃ plug, o.field? "ends" = some (.tuple [plug, plug]) := by
  have hbuild : Registry.build Module.cabled (fun _ => "") = .ok (ofModule Module.cabled) := rfl
  have hsame := Registry.instantiate_eq_instantiateAfresh hbuild 8 "Cable" [.string "left"]
  exact ⟨hbuild, rfl, _, rfl, hsame.1.symm.trans rfl, _, rfl⟩

end ObjectModel
