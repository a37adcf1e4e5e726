/-
**A nested object does not hang on who makes it.**

An object that is made inside of others begins in a state that is not empty: there are frames around
it, and shared values are kept already.  None of this matters.  Its meaning has the objects around
it only in its depth, and the depth counts only against the limit; so the object is the one that a
call of its own would make, with as much less depth allowed as there are objects around it.

Main definitions:

* `EvalError.unplaced`, `EvalError.Alike` — errors without the place where they occur;
* `Meaning.blurred` — a meaning, its errors without their places;
* `Scope.below` — a scope with more objects around it;
* `Registry.AgreesAlone` — making an object agrees with a call of its own.

Main results:

* `Meaning.blurred_upTo` — with as much more depth allowed, names mean the same further below;
* `Registry.nested_object_agrees` — a nested object is the one that a call of its own makes.
-/

import ObjectModel.Proofs.Begun
import ObjectModel.Proofs.Depth

set_option relaxedAutoImplicit false
set_option autoImplicit false

namespace ObjectModel

/-! ### Errors without their places -/

namespace EvalError

/-- An error without the place where it occurs and without the limit of depth. -/
def unplaced : EvalError → EvalError
  | classNotFound name _ => classNotFound name .unknown
  | parameterArity className expected actual formals actuals _ =>
      parameterArity className expected actual formals actuals .unknown
  | parameterTypeMismatch className index name expected actual _ =>
      parameterTypeMismatch className index name expected actual .unknown
  | fieldNotFound name operation _ => fieldNotFound name operation .unknown
  | symbolResolution path _ => symbolResolution path .unknown
  | undefinedValue name _ => undefinedValue name .unknown
  | typeMismatch message _ => typeMismatch message .unknown
  | depthExceeded className _ _ => depthExceeded className 0 .unknown
  | e => e

/-- The place and the limit are not what makes an error one of its kind. -/
theorem ctorIdx_unplaced (e : EvalError) : e.unplaced.ctorIdx = e.ctorIdx := by
  cases e <;> rfl

/-- Two errors of one kind that say the same, except for the place and for the limit of depth. -/
structure Alike (e e' : EvalError) : Prop where
  /-- They are of one kind. -/
  kind : e.ctorIdx = e'.ctorIdx
  /-- They say the same. -/
  said : e.unplaced = e'.unplaced

theorem Alike.of_unplaced {e e' : EvalError} (h : e.unplaced = e'.unplaced) : e.Alike e' where
  kind := by rw [← ctorIdx_unplaced, h, ctorIdx_unplaced]
  said := h

end EvalError

/-! ### Meanings without the places of their errors -/

namespace Meaning

variable {α β : Type}

/-- A meaning, its errors without their places. -/
def blurred (p : Meaning α) : Option (Except EvalError α) :=
  p.run.map fun res => res.mapError EvalError.unplaced

theorem blurred_throw {e e' : EvalError} (h : e.unplaced = e'.unplaced) :
    blurred (throw e : Meaning α) = blurred (throw e') := by
  change some (Except.error e.unplaced) = some (Except.error e'.unplaced)
  rw [h]

/-- What comes second is blurred for each result of what comes first. -/
theorem blurred_bind {p q : Meaning α} {f g : α → Meaning β} (h : blurred p = blurred q)
    (hf : ∀ a, blurred (f a) = blurred (g a)) : blurred (p >>= f) = blurred (q >>= g) := by
  unfold blurred at h hf ⊢
  rw [ExceptT.run_bind, ExceptT.run_bind]
  cases hp : p.run with
  | none =>
      rw [hp] at h
      rw [Option.map_eq_none_iff.1 h.symm]
      rfl
  | some res =>
      rw [hp] at h
      obtain ⟨res', hq, hres⟩ := Option.map_eq_some_iff.1 h.symm
      rw [hq]
      cases res with
      | error e =>
          cases res' with
          | error e' =>
              have he : e'.unplaced = e.unplaced := by simpa [Except.mapError] using hres
              simp [Except.mapError, he]
          | ok b => simp [Except.mapError] at hres
      | ok a =>
          cases res' with
          | error e' => simp [Except.mapError] at hres
          | ok b =>
              obtain rfl : b = a := by simpa [Except.mapError] using hres
              simpa using hf b

theorem blurred_mapM {f g : α → Meaning β} {as : List α}
    (h : ∀ a ∈ as, blurred (f a) = blurred (g a)) : blurred (as.mapM f) = blurred (as.mapM g) := by
  induction as with
  | nil => rfl
  | cons a as ih =>
      rw [List.mapM_cons, List.mapM_cons]
      refine blurred_bind (h a (by simp)) fun b => ?_
      exact blurred_bind (ih fun a' ha' => h a' (List.mem_cons_of_mem _ ha')) fun _ => rfl

/-- The same values fit or do not fit a class, wherever it is said. -/
theorem blurred_checkActuals (c : Class) (actuals : List Value) (loc loc' : Location) :
    blurred (ofEval (Eval.checkActuals c actuals loc)) =
      blurred (ofEval (Eval.checkActuals c actuals loc')) := by
  have hmismatch : ∀ (ps : List Param) (vs : List Value) (index : Nat),
      (Eval.mismatch? c loc index ps vs).map EvalError.unplaced =
        (Eval.mismatch? c loc' index ps vs).map EvalError.unplaced := by
    intro ps
    induction ps with
    | nil => exact fun _ _ => rfl
    | cons p ps ih =>
        intro vs index
        cases vs with
        | nil => rfl
        | cons v vs =>
            rw [Eval.mismatch?, Eval.mismatch?]
            split
            · exact ih vs (index + 1)
            · rfl
  have hfirst := hmismatch c.params actuals 0
  unfold Eval.checkActuals
  split
  · rfl
  · cases h : Eval.mismatch? c loc 0 c.params actuals with
    | none =>
        rw [h] at hfirst
        rw [Option.map_eq_none_iff.1 hfirst.symm]
    | some e =>
        rw [h] at hfirst
        obtain ⟨e', he', hee'⟩ := Option.map_eq_some_iff.1 hfirst.symm
        rw [he']
        exact blurred_throw hee'.symm

end Meaning

/-! ### Deeper scopes -/

/-- The same scope with `d` more objects around it. -/
def Scope.below (d : Nat) (σ : Scope) : Scope := { σ with depth := σ.depth + d }

/-- The same definition with `d` more objects around it. -/
def Definition.below (d : Nat) : Definition → Definition
  | .bound v => .bound v
  | .computed σ i op => .computed (σ.below d) i op

namespace Meaning

theorem definition?_below (r : Registry) (find : Scoping) (σ : Scope) (i : Nat) (name : String)
    (d : Nat) :
    definition? r find (σ.below d) i name = (definition? r find σ i name).map (.below d) := by
  have hshared : shared? r (σ.below d) name = (shared? r σ name).map (.below d) := by
    rw [shared?, shared?, Option.map_map]
    rfl
  rw [definition?, definition?, show (σ.below d).body = σ.body from rfl]
  split
  · next c params hbody =>
      cases params.lookup name with
      | some v => rfl
      | none =>
          cases find c.body i name with
          | some p => rfl
          | none => exact hshared
  · exact hshared

section Names

variable {r : Registry} {maxDepth d : Nat} {N M : Names}

/-- An object is made alike with `d` more objects around it, when the limit is as much higher, and
wherever it is asked for. -/
theorem blurred_object {σ τ : Scope} (hdepth : τ.depth = σ.depth + d)
    (hnames : ∀ (σ : Scope) i name span,
      blurred (M (σ.below d) i name span) = blurred (N σ i name span))
    (name : String) (actuals : List Value) (site site' : Option Location) :
    blurred (object r (maxDepth + d) M τ name actuals site) =
      blurred (object r maxDepth N σ name actuals site') := by
  unfold Meaning.object
  split
  · exact blurred_throw rfl
  · next c hc =>
      rw [hdepth]
      have hiff : maxDepth + d ≤ σ.depth + d ↔ maxDepth ≤ σ.depth := Nat.add_le_add_iff_right
      simp only [hiff]
      split
      · exact blurred_throw rfl
      · refine blurred_bind (blurred_checkActuals c actuals _ _) fun _ => ?_
        -- nothing of the scope outside is left in the body of the class but its depth
        have henter : τ.enter c actuals = (σ.enter c actuals).below d := by
          rw [Scope.enter, Scope.enter, Scope.below, hdepth]
          simp only [Nat.add_right_comm]
        have hvalues : blurred (fieldValues M (τ.enter c actuals) c) =
            blurred (fieldValues N (σ.enter c actuals) c) := by
          rw [henter]
          exact blurred_mapM fun p _ => blurred_bind (hnames _ _ _ _) fun _ => rfl
        exact blurred_bind hvalues fun _ => rfl

/-- So it is with operations. -/
theorem blurred_operation
    (hnames : ∀ (σ : Scope) i name span,
      blurred (M (σ.below d) i name span) = blurred (N σ i name span))
    (σ : Scope) (i : Nat) (op : Operation) :
    blurred (operation r (maxDepth + d) M (σ.below d) i op) =
      blurred (operation r maxDepth N σ i op) := by
  have hoperands : ∀ xs, blurred (operands M (σ.below d) i xs) = blurred (operands N σ i xs) :=
    fun xs => blurred_mapM fun x _ => hnames σ i x.name x.span
  unfold Meaning.operation
  cases op.action with
  | constant value ty => rfl
  | object target actuals operandTys ty =>
      exact blurred_bind (hoperands actuals) fun vs =>
        blurred_bind (blurred_object rfl hnames target.name vs _ _) fun _ => rfl
  | listCreate elements elementTy => exact blurred_bind (hoperands elements) fun _ => rfl
  | tupleCreate elements elementTys => exact blurred_bind (hoperands elements) fun _ => rfl
  | mapCreate entries keyTy valueTy => exact blurred_bind (hoperands entries) fun _ => rfl
  | field name value ty => rfl

end Names

/-- With as much more depth allowed, names mean the same further below. -/
theorem blurred_upTo (r : Registry) (maxDepth d : Nat) (find : Scoping) (n : Nat) :
    ∀ (σ : Scope) i name span,
      blurred (upTo r (maxDepth + d) find n (σ.below d) i name span) =
        blurred (upTo r maxDepth find n σ i name span) := by
  induction n with
  | zero => exact fun _ _ _ _ => rfl
  | succ n ih =>
      intro σ i name span
      rw [upTo_succ, upTo_succ, definition?_below]
      cases definition? r find σ i name with
      | none => rfl
      | some def' =>
          cases def' with
          | bound v => rfl
          | computed τ j op => exact blurred_operation ih τ j op

end Meaning

/-! ### Nested objects -/

/-- Two results agree: they are one object, or errors that are alike. -/
inductive Agrees : Except EvalError Object → Except Failure Object → Prop where
  | object (o : Object) : Agrees (.ok o) (.ok o)
  | error {e : EvalError} {f : Failure} (h : e.Alike f.cause) : Agrees (.error e) (.error f)

theorem Agrees.of_blurred {res res' : Except EvalError Object}
    (h : res.mapError EvalError.unplaced = res'.mapError EvalError.unplaced) :
    Agrees res (res'.mapError fun cause => ⟨cause, .instantiate⟩) := by
  cases res with
  | error e =>
      cases res' with
      | error e' =>
          have he : e.unplaced = e'.unplaced := by simpa [Except.mapError] using h
          exact .error (EvalError.Alike.of_unplaced he)
      | ok o => simp [Except.mapError] at h
  | ok o =>
      cases res' with
      | error e' => simp [Except.mapError] at h
      | ok o' =>
          obtain rfl : o = o' := by simpa [Except.mapError] using h
          exact .object o

/-- Making an object of the class `target` in the state `s` agrees with a call of its own whose
limit is lower by the number of frames of the state: with the same object or alike errors, and one
ends if and only if the other ends. -/
def Registry.AgreesAlone (r : Registry) (maxDepth : Nat) (target : String) (vs : List Value)
    (site : Option Location) (s : EvalState) : Prop :=
  (∀ n res t, Eval.Ends (Eval.instantiate r maxDepth (Eval.resolveUpTo r maxDepth n) target vs
      site) s res t →
    ∃ res', r.instantiate (maxDepth - s.frames.length) target vs = some res' ∧
      Agrees res res') ∧
  ∀ res', r.instantiate (maxDepth - s.frames.length) target vs = some res' →
    ∃ n res t, Eval.Ends (Eval.instantiate r maxDepth (Eval.resolveUpTo r maxDepth n) target vs
      site) s res t ∧ Agrees res res'

/-- Whatever object a call begins to make, the frames around it are not above the limit, and it
agrees with a call of its own. -/
theorem Registry.Begun.agreesAlone {m : Module} (hm : m.WellFormed) {maxDepth : Nat}
    {name target : String} {actuals vs : List Value} {site : Option Location} {s : EvalState}
    (hbegun : (ofModule m).Begun maxDepth name actuals (.object target vs site) s) :
    s.frames.length ≤ maxDepth ∧ (ofModule m).AgreesAlone maxDepth target vs site s := by
  obtain ⟨σ, hlen, hdepth, hmeant⟩ := hbegun.meant hm.no_objects
  rw [AgreesAlone, ← hlen]
  obtain ⟨limit, rfl⟩ : ∃ limit, maxDepth = limit + σ.depth := ⟨maxDepth - σ.depth, by omega⟩
  rw [Nat.add_sub_cancel]
  have hblurred : ∀ k, Meaning.blurred (Meaning.object (ofModule m) (limit + σ.depth)
      (Meaning.upTo (ofModule m) (limit + σ.depth) .whole k) σ target vs site) =
        Meaning.blurred (Meaning.object (ofModule m) limit
          (Meaning.upTo (ofModule m) limit .whole k) ⟨0, none⟩ target vs none) := fun k =>
    Meaning.blurred_object (by simp) (Meaning.blurred_upTo _ limit σ.depth .whole k) target vs _ _
  refine ⟨hdepth, fun n res t hends => ?_, fun res' hres' => ?_⟩
  · obtain ⟨k, hk⟩ := (hmeant res).1 ⟨n, t, hends⟩
    have hk' := hblurred k
    unfold Meaning.blurred at hk'
    rw [hk, Option.map_some] at hk'
    obtain ⟨res', hres', hsame⟩ := Option.map_eq_some_iff.1 hk'.symm
    exact ⟨_, (Registry.instantiate_eq_some_iff hm).2 ⟨res', ⟨k, hres'⟩, rfl⟩,
      Agrees.of_blurred hsame.symm⟩
  · obtain ⟨res'', ⟨k, hk⟩, rfl⟩ := (Registry.instantiate_eq_some_iff hm).1 hres'
    have hk' := hblurred k
    unfold Meaning.blurred at hk'
    rw [hk, Option.map_some] at hk'
    obtain ⟨res, hres, hsame⟩ := Option.map_eq_some_iff.1 hk'
    obtain ⟨n, t, ht⟩ := (hmeant res).2 ⟨k, hres⟩
    exact ⟨n, res, t, ht, Agrees.of_blurred hsame⟩

/-- **A nested object does not hang on who makes it.**  Whenever a call on an accepted module begins
to make an object of the class `target` while `d` objects are being made around it, `d` is not above
the limit, and what it ends in agrees with what a call of its own ends in when the limit is lower by
`d`: with the same object or alike errors, and it ends if and only if that call ends.  All objects
that the journal of the call tells of are among these. -/
theorem Registry.nested_object_agrees {m : Module} {quote : Nat → String} {r : Registry}
    (hbuild : Registry.build m quote = .ok r) {maxDepth : Nat} {name : String}
    {actuals : List Value} :
    (∀ target vs site s, r.Begun maxDepth name actuals (.object target vs site) s →
      s.frames.length ≤ maxDepth ∧ r.AgreesAlone maxDepth target vs site s) ∧
    ∀ res journal, r.run maxDepth name actuals = some (res, journal) →
      ∀ target k depth, .instantiating target k depth ∈ journal →
        ∃ vs site s, r.Begun maxDepth name actuals (.object target vs site) s ∧ vs.length = k ∧
          s.frames.length = depth ∧ depth ≤ maxDepth ∧ r.AgreesAlone maxDepth target vs site s := by
  obtain ⟨hm, rfl⟩ := Registry.build_eq_ok_iff.1 hbuild
  refine ⟨fun target vs site s hbegun => hbegun.agreesAlone hm, ?_⟩
  intro res journal hrun target k depth htold
  obtain ⟨vs, site, s, hbegun, hlength, hdepth⟩ := exists_begun_of_instantiating hrun htold
  obtain ⟨hlimit, hagrees⟩ := hbegun.agreesAlone hm
  exact ⟨vs, site, s, hbegun, hlength, hdepth, hdepth ▸ hlimit, hagrees⟩

/-- A device with a port.  Both have a label and the size of every part, which is a shared value. -/
def Module.plugged : Module where
  file := "device.mlir"
  span := default
  items := [
    .ofOperation ⟨some ⟨"size", default⟩, .constant (.integer 8) .integer, default⟩,
    .ofClass {
      name := ⟨"Port", default⟩
      params := [⟨⟨"label", default⟩, .string, default⟩]
      body := [
        ⟨none, .field ⟨"size", default⟩ ⟨"size", default⟩ .integer, default⟩,
        ⟨none, .field ⟨"label", default⟩ ⟨"label", default⟩ .string, default⟩]
      span := default },
    .ofClass {
      name := ⟨"Device", default⟩
      params := [⟨⟨"label", default⟩, .string, default⟩]
      body := [
        ⟨some ⟨"plug", default⟩, .constant (.string "eth0") .string, default⟩,
        ⟨some ⟨"port", default⟩, .object ⟨"Port", default⟩ [⟨"plug", default⟩] [.string]
          (.object "Port"), default⟩,
        ⟨none, .field ⟨"size", default⟩ ⟨"size", default⟩ .integer, default⟩,
        ⟨none, .field ⟨"port", default⟩ ⟨"port", default⟩ (.object "Port"), default⟩]
      span := default }]

/-- The port of a device is made when the size is kept already and the device has bound its own
label, and it is the port that a call of its own makes. -/
theorem Registry.nested_port_agrees :
    Registry.build Module.plugged (fun _ => "") = .ok (ofModule Module.plugged) ∧
    ∃ site s n o t,
      (ofModule Module.plugged).Begun 8 "Device" [.string "left"]
        (.object "Port" [.string "eth0"] site) s ∧
      s.frames.length = 1 ∧ s.shared = [("size", .integer 8)] ∧
      s.local? "label" = some (.string "left") ∧
      Eval.Ends (Eval.instantiate (ofModule Module.plugged) 8
        (Eval.resolveUpTo (ofModule Module.plugged) 8 n) "Port" [.string "eth0"] site) s
        (.ok o) t ∧
      (ofModule Module.plugged).instantiate 7 "Port" [.string "eth0"] = some (.ok o) ∧
      o.field? "label" = some (.string "eth0") := by
  have hbuild : Registry.build Module.plugged (fun _ => "") = .ok (ofModule Module.plugged) := rfl
  have hport := @Eval.Begins.field (ofModule Module.plugged) 8 "Device" [.string "left"] none _
    [⟨⟨"size", default⟩, ⟨"size", default⟩, .integer, default⟩] []
    ⟨⟨"port", default⟩, ⟨"port", default⟩, .object "Port", default⟩ 2 _ {} _ _
    rfl (by decide) rfl rfl rfl
  have hasked := Relation.ReflTransGen.tail (.single hport) (Eval.Begins.inside rfl rfl)
  have hbegun : (ofModule Module.plugged).Begun 8 "Device" [.string "left"] _ _ :=
    hasked.tail (@Eval.Begins.nested _ 8 _ _ ⟨"Port", default⟩ [⟨"plug", default⟩] [.string]
      (.object "Port") 2 _ _ _ rfl rfl)
  obtain ⟨-, -, hfinds⟩ := (Registry.nested_object_agrees hbuild).1 _ _ _ _ hbegun
  obtain ⟨n, res, t, hends, hagrees⟩ := hfinds _ rfl
  cases hagrees
  exact ⟨hbuild, _, _, n, _, t, hbegun, rfl, rfl, rfl, hends, rfl, rfl⟩

end ObjectModel
