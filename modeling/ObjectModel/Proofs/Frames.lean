/-
**Frames are left as they were found.**

The values of a class body are kept in a frame of their own.  A computation in the body of a class
uses the innermost frame, and making an object uses none of the frames that are there: it opens one
for the new object, and that one is gone when the object is made or an error ends it.  So a
computation leaves all other frames as they were, adds names to its own frame and to the shared
values without changing what is kept there, and would have done the same if the frames that it does
not use had been others.

Main definitions:

* `EvalState.withOuter` — a state with other frames below the innermost ones;
* `EvalState.Extends` — a state in which names were added to another one, and nothing else was done
  to its frames;
* `Eval.Framed` — a computation that uses the innermost frames only.

Main results:

* `Eval.Framed.bind`, `Eval.Framed.inFrame`, … — composed computations;
* `Eval.framed_resolveUpTo` — the value of a name is found in the innermost frame;
* `Eval.frames_kept` — whatever a computation ends in, the frames are as they were found.
-/

import ObjectModel.Proofs.Run

set_option relaxedAutoImplicit false
set_option autoImplicit false

namespace ObjectModel

/-! ### States that extend others -/

namespace EvalState

variable {k l : Nat} {s t u : EvalState} {fs : List Frame}

/-- The state with the frames `fs` below the `k` innermost ones. -/
def withOuter (k : Nat) (fs : List Frame) (s : EvalState) : EvalState :=
  { s with frames := s.frames.take k ++ fs }

/-- The state `t` has as many frames as `s`, and below the `k` innermost ones the same.  Whatever
is kept in the innermost frame or among the shared values of `s` is kept in `t`, with its value. -/
structure Extends (k : Nat) (s t : EvalState) : Prop where
  /-- No frame has come or gone. -/
  length : t.frames.length = s.frames.length
  /-- The outer frames are the same. -/
  outer : t.frames.drop k = s.frames.drop k
  /-- The innermost frame keeps what it has. -/
  inner : ∀ x v, s.local? x = some v → t.local? x = some v
  /-- The shared values are kept. -/
  shared : ∀ x v, s.shared.lookup x = some v → t.shared.lookup x = some v

/-- A state in which nothing was done to frames and shared values. -/
theorem Extends.of_eq (hframes : t.frames = s.frames) (hshared : t.shared = s.shared) :
    s.Extends k t where
  length := by rw [hframes]
  outer := by rw [hframes]
  inner x v hv := by rwa [local?, hframes]
  shared x v hv := by rwa [hshared]

theorem Extends.refl (k : Nat) (s : EvalState) : s.Extends k s := .of_eq rfl rfl

theorem Extends.trans (h : s.Extends k t) (h' : t.Extends k u) : s.Extends k u where
  length := h'.length.trans h.length
  outer := h'.outer.trans h.outer
  inner x v hv := h'.inner x v (h.inner x v hv)
  shared x v hv := h'.shared x v (h.shared x v hv)

/-- Fewer frames are outer ones if more of them are inner ones. -/
theorem Extends.mono (hkl : k ≤ l) (h : s.Extends k t) : s.Extends l t where
  length := h.length
  outer := by
    obtain ⟨d, rfl⟩ := Nat.exists_eq_add_of_le hkl
    rw [← List.drop_drop, ← List.drop_drop, h.outer]
  inner := h.inner
  shared := h.shared

/-- A shared value is added. -/
theorem Extends.keepShared {x : String} (h : s.Extends k t) (hx : s.shared.lookup x = none)
    (v : Value) : s.Extends k (t.keepShared x v) where
  length := h.length
  outer := h.outer
  inner := h.inner
  shared y w hw := by
    have hne : y ≠ x := fun he => by rw [he, hx] at hw; cases hw
    change (Entries.insert x v t.shared).lookup y = some w
    rw [Entries.lookup_insert, if_neg hne]
    exact h.shared y w hw

/-- A value is added to the innermost frame. -/
theorem Extends.keepLocal {x : String} (h : s.Extends 1 t) (hx : s.local? x = none) (v : Value) :
    s.Extends 1 (t.keepLocal x v) := by
  unfold EvalState.keepLocal
  split
  · next f fs hf =>
      refine ⟨?_, ?_, fun y w hw => ?_, h.shared⟩
      · rw [← h.length, hf]
        rfl
      · rw [← h.outer, hf]
        rfl
      · have hne : y ≠ x := fun he => by rw [he, hx] at hw; cases hw
        have hkept := h.inner y w hw
        rw [local?, hf] at hkept
        change (Entries.insert x v f.values).lookup y = some w
        rw [Entries.lookup_insert, if_neg hne]
        exact hkept
  · exact h

/-! ### Other frames below -/

/-- With as many other frames there are as many frames as before. -/
theorem length_withOuter (h : fs.length = (s.frames.drop k).length) :
    (s.withOuter k fs).frames.length = s.frames.length := by
  rw [withOuter, List.length_append, h, ← List.length_append, List.take_append_drop]

/-- To put other frames below more of the inner ones comes to the same. -/
theorem withOuter_take (hkl : k ≤ l) (h : s.frames.drop k = t.frames.drop k) :
    s.withOuter l fs = s.withOuter k ((t.frames.drop k).take (l - k) ++ fs) := by
  obtain ⟨d, rfl⟩ := Nat.exists_eq_add_of_le hkl
  rw [withOuter, withOuter, ← h, Nat.add_sub_cancel_left, List.take_add, List.append_assoc]

/-- The innermost frame is not among the outer ones. -/
theorem head?_withOuter (h : fs.length = (s.frames.drop 1).length) :
    (s.withOuter 1 fs).frames.head? = s.frames.head? := by
  rw [withOuter]
  cases hs : s.frames with
  | nil =>
      rw [hs] at h
      rw [List.eq_nil_of_length_eq_zero h]
      rfl
  | cons f gs => rfl

theorem local?_withOuter (h : fs.length = (s.frames.drop 1).length) (x : String) :
    (s.withOuter 1 fs).local? x = s.local? x := by
  have hhead := head?_withOuter h
  unfold local?
  cases hs : s.frames with
  | nil =>
      rw [hs, List.head?_nil, List.head?_eq_none_iff] at hhead
      rw [hhead]
  | cons f gs =>
      rw [hs, List.head?_cons, List.head?_eq_some_iff] at hhead
      obtain ⟨hs', hhead⟩ := hhead
      rw [hhead]

theorem keepLocal_withOuter (h : fs.length = (s.frames.drop 1).length) (x : String) (v : Value) :
    (s.withOuter 1 fs).keepLocal x v = (s.keepLocal x v).withOuter 1 fs := by
  cases hs : s.frames with
  | nil =>
      rw [hs] at h
      simp [withOuter, keepLocal, hs, List.eq_nil_of_length_eq_zero h]
  | cons f gs => simp [withOuter, keepLocal, hs]

end EvalState

/-! ### Computations that use the innermost frames -/

namespace Eval

variable {α β : Type} {k l : Nat}

/-- The computation uses the `k` innermost frames and the shared values: it adds names to them, and
with other frames below it does the same. -/
def Framed (k : Nat) (x : Eval α) : Prop := ∀ s res t, Ends x s res t →
  s.Extends k t ∧ ∀ fs : List Frame, fs.length = (s.frames.drop k).length →
    Ends x (s.withOuter k fs) res (t.withOuter k fs)

theorem Framed.mono (hkl : k ≤ l) {x : Eval α} (h : Framed k x) : Framed l x := by
  intro s res t hx
  obtain ⟨hext, hother⟩ := h s res t hx
  refine ⟨hext.mono hkl, fun fs hfs => ?_⟩
  rw [EvalState.withOuter_take hkl rfl, EvalState.withOuter_take hkl hext.outer]
  refine hother _ ?_
  obtain ⟨d, rfl⟩ := Nat.exists_eq_add_of_le hkl
  rw [List.length_append, hfs, Nat.add_sub_cancel_left, ← List.drop_drop, ← List.length_append,
    List.take_append_drop]

theorem Framed.pure (a : α) : Framed k (Pure.pure a : Eval α) := by
  intro s res t h
  obtain ⟨rfl, rfl⟩ := ends_pure_iff.1 h
  exact ⟨.refl k _, fun _ _ => ends_pure_iff.2 ⟨rfl, rfl⟩⟩

theorem Framed.throw (e : EvalError) : Framed k (MonadExcept.throw e : Eval α) := by
  intro s res t h
  obtain ⟨rfl, rfl⟩ := ends_throw_iff.1 h
  exact ⟨.refl k _, fun _ _ => ends_throw_iff.2 ⟨rfl, rfl⟩⟩

theorem Silent.framed {x : Eval α} (hx : Silent x) : Framed k x := by
  obtain ⟨res', es, -, hall⟩ := hx
  intro s res t h
  obtain ⟨rfl, rfl⟩ := h.unique (hall s)
  exact ⟨.of_eq rfl rfl, fun fs _ => hall _⟩

theorem Framed.write (e : Event) : Framed k (Eval.write e) := by
  intro s res t h
  obtain ⟨rfl, rfl⟩ := ends_write_iff.1 h
  exact ⟨.of_eq rfl rfl, fun _ _ => ends_write_iff.2 ⟨rfl, rfl⟩⟩

theorem Framed.bind {x : Eval α} {f : α → Eval β} (hx : Framed k x) (hf : ∀ a, Framed k (f a)) :
    Framed k (x >>= f) := by
  intro s res t h
  rcases ends_bind_iff.1 h with ⟨e, he, rfl⟩ | ⟨a, u, ha, hfa⟩
  · obtain ⟨hext, hother⟩ := hx s _ t he
    exact ⟨hext, fun fs hfs => ends_bind_iff.2 (.inl ⟨e, hother fs hfs, rfl⟩)⟩
  · obtain ⟨hext, hother⟩ := hx s _ u ha
    obtain ⟨hext', hother'⟩ := hf a u res t hfa
    refine ⟨hext.trans hext', fun fs hfs => ends_bind_iff.2 (.inr ⟨a, _, hother fs hfs, ?_⟩)⟩
    exact hother' fs (by rw [hext.outer]; exact hfs)

theorem Framed.mapM {f : α → Eval β} {as : List α} (h : ∀ a ∈ as, Framed k (f a)) :
    Framed k (as.mapM f) := by
  induction as with
  | nil => exact Framed.pure _
  | cons a as ih =>
      rw [List.mapM_cons]
      have htail := ih fun b hb => h b (List.mem_cons_of_mem _ hb)
      exact (h a List.mem_cons_self).bind fun b => htail.bind fun bs => Framed.pure _

/-- A computation that uses only the frame that is opened for it uses none of those that are
there. -/
theorem Framed.inFrame {values : List (String × Value)} {x : Eval α} (h : Framed 1 x) :
    Framed 0 (Eval.inFrame values x) := by
  intro s res t hx
  obtain ⟨u, hu, rfl⟩ := ends_inFrame_iff.1 hx
  obtain ⟨hext, hother⟩ := h _ res u hu
  have houter : u.frames.drop 1 = s.frames := hext.outer
  refine ⟨⟨by rw [houter], houter, fun y v hv => ?_, hext.shared⟩, fun fs hfs => ?_⟩
  · rwa [EvalState.local?, houter]
  · refine ends_inFrame_iff.2 ⟨u.withOuter 1 fs, hother fs hfs, ?_⟩
    -- the innermost frame of `u` is the one that was opened
    have hlen : u.frames.length = s.frames.length + 1 := hext.length
    cases hu : u.frames with
    | nil => rw [hu] at hlen; cases hlen
    | cons f gs => simp [EvalState.withOuter, hu]

/-! ### Names and objects -/

section Resolver

variable {r : Registry} {maxDepth : Nat} {resolve : Resolver}
  (hresolve : ∀ scope x span, Framed 1 (resolve scope x span))

include hresolve

theorem framed_resolveAll (scope : Option Class) (xs : List Ident) :
    Framed 1 (resolveAll resolve scope xs) :=
  Framed.mapM fun x _ => hresolve scope x.name x.span

/-- Making an object uses none of the frames that are there. -/
theorem framed_instantiate (name : String) (actuals : List Value) (site : Option Location) :
    Framed 0 (instantiate r maxDepth resolve name actuals site) := by
  cases hc : r.class? name with
  | none =>
      rw [instantiate_of_none hc]
      exact Framed.throw _
  | some c =>
      have hvalues : Framed 1 (fieldValues resolve c) :=
        Framed.mapM fun f _ => (Framed.write _).bind fun _ =>
          (hresolve _ _ _).bind fun _ => Framed.pure _
      have hmade : ∀ depth, Framed 0 (do
          checkActuals c actuals (site.getD c.location)
          write (.instantiating c.name.name actuals.length depth)
          inFrame (Entries.ofList (c.paramNames.zip actuals)) do
            return (⟨c, Entries.ofList (← fieldValues resolve c)⟩ : Object)) := fun depth =>
        (Silent.checkActuals c actuals _).framed.bind fun _ => (Framed.write _).bind fun _ =>
          (hvalues.bind fun _ => Framed.pure _).inFrame
      intro s res t h
      rw [ends_instantiate_iff hc] at h
      by_cases hdepth : maxDepth ≤ s.frames.length
      · rw [if_pos hdepth] at h
        obtain ⟨rfl, rfl⟩ := h
        refine ⟨.refl 0 _, fun fs hfs => (ends_instantiate_iff hc).2 ?_⟩
        rw [EvalState.length_withOuter hfs, if_pos hdepth]
        exact ⟨rfl, rfl⟩
      · rw [if_neg hdepth] at h
        obtain ⟨hext, hother⟩ := hmade _ s res t h
        refine ⟨hext, fun fs hfs => (ends_instantiate_iff hc).2 ?_⟩
        rw [EvalState.length_withOuter hfs, if_neg hdepth]
        exact hother fs hfs

/-- An operation in the body of a class uses the frame of the class. -/
theorem framed_operation (scope : Option Class) (op : Operation) :
    Framed 1 (operation r maxDepth resolve scope op) := by
  have hoperands := framed_resolveAll hresolve scope
  unfold operation
  cases op.action with
  | constant value ty => exact (Silent.constant r _ value ty).framed
  | object target actuals operandTys ty =>
      exact (hoperands actuals).bind fun vs =>
        ((framed_instantiate hresolve target.name vs _).mono (Nat.zero_le 1)).bind fun _ =>
          Framed.pure _
  | listCreate elements elementTy => exact (hoperands elements).bind fun _ => Framed.pure _
  | tupleCreate elements elementTys => exact (hoperands elements).bind fun _ => Framed.pure _
  | mapCreate entries keyTy valueTy =>
      exact (hoperands entries).bind fun vs => (Silent.buildMap vs keyTy valueTy _).framed
  | field name value ty => exact Framed.throw _

end Resolver

/-- A value is computed and then kept.  Nothing that was kept before is lost if the name had no
value. -/
theorem framed_keeping {α β : Type} {x : Eval α} {keep : α → EvalState → EvalState} {f : α → β}
    {e : Event} {s t : EvalState} {res : Except EvalError β} (hx : Framed 1 x)
    (hext : ∀ a u, s.Extends 1 u → s.Extends 1 (keep a u))
    (hother : ∀ a u (fs : List Frame), fs.length = (u.frames.drop 1).length →
      keep a (u.withOuter 1 fs) = (keep a u).withOuter 1 fs)
    (h : Ends (do write e; let a ← x; modify (keep a); return f a) s res t) :
    s.Extends 1 t ∧ ∀ fs : List Frame, fs.length = (s.frames.drop 1).length →
      Ends (do write e; let a ← x; modify (keep a); return f a) (s.withOuter 1 fs) res
        (t.withOuter 1 fs) := by
  rw [ends_write_bind_iff] at h
  have hwritten : s.Extends 1 { s with journal := e :: s.journal } := .of_eq rfl rfl
  rcases ends_bind_iff.1 h with ⟨err, herr, rfl⟩ | ⟨a, u, ha, hkeep⟩
  · obtain ⟨hxs, hxo⟩ := hx _ _ t herr
    exact ⟨hwritten.trans hxs, fun fs hfs =>
      ends_write_bind_iff.2 (ends_bind_iff.2 (.inl ⟨err, hxo fs hfs, rfl⟩))⟩
  · obtain ⟨hxs, hxo⟩ := hx _ _ u ha
    have hsu := hwritten.trans hxs
    obtain ⟨rfl, rfl⟩ := ends_modify_pure_iff.1 hkeep
    refine ⟨hext a u hsu, fun fs hfs => ?_⟩
    refine ends_write_bind_iff.2 (ends_bind_iff.2 (.inr ⟨a, _, hxo fs hfs, ?_⟩))
    exact ends_modify_pure_iff.2 ⟨rfl, (hother a u fs (by rw [hsu.outer, hfs])).symm⟩

section Names

variable {r : Registry} {maxDepth : Nat} {resolve : Resolver}
  (hresolve : ∀ scope x span, Framed 1 (resolve scope x span))

include hresolve

/-- A shared value is kept under a name that had none. -/
theorem framed_resolveShared (x : String) (span : Span) :
    Framed 1 (resolveShared r maxDepth resolve x span) := by
  intro s res t h
  rw [ends_resolveShared_iff] at h
  simp only [ends_resolveShared_iff]
  cases hkept : s.shared.lookup x with
  | some v =>
      obtain ⟨rfl, rfl⟩ : res = .ok v ∧ t = s := by simpa [hkept] using h
      refine ⟨.refl 1 _, fun fs _ => ?_⟩
      rw [show (t.withOuter 1 fs).shared.lookup x = some v from hkept]
      exact ⟨rfl, rfl⟩
  | none =>
      have hunkept (fs : List Frame) : (s.withOuter 1 fs).shared.lookup x = none := hkept
      cases hop : r.value? x with
      | none =>
          obtain ⟨rfl, rfl⟩ : res = .error (.undefinedValue x (r.location span)) ∧ t = s := by
            simpa [hkept, hop] using h
          refine ⟨.refl 1 _, fun fs _ => ?_⟩
          rw [hunkept]
          exact ⟨rfl, rfl⟩
      | some op =>
          simp only [hkept, hop] at h
          have hkeeping := framed_keeping (framed_operation hresolve none op)
            (fun v u hu => hu.keepShared hkept v) (fun _ _ _ _ => rfl) h
          exact ⟨hkeeping.1, fun fs hfs => by simpa only [hunkept] using hkeeping.2 fs hfs⟩

/-- A value of a class body is kept in the innermost frame, under a name that had none there. -/
theorem framed_resolveLocal (c : Class) (x : String) :
    Framed 1 (resolveLocal r maxDepth resolve c x) := by
  intro s res t h
  rw [ends_resolveLocal_iff] at h
  simp only [ends_resolveLocal_iff]
  cases hkept : s.local? x with
  | some v =>
      obtain ⟨rfl, rfl⟩ : res = .ok (some v) ∧ t = s := by simpa [hkept] using h
      refine ⟨.refl 1 _, fun fs hfs => ?_⟩
      rw [EvalState.local?_withOuter hfs, hkept]
      exact ⟨rfl, rfl⟩
  | none =>
      cases hop : c.definition? x with
      | none =>
          obtain ⟨rfl, rfl⟩ : res = .ok none ∧ t = s := by simpa [hkept, hop] using h
          refine ⟨.refl 1 _, fun fs hfs => ?_⟩
          rw [EvalState.local?_withOuter hfs, hkept]
          exact ⟨rfl, rfl⟩
      | some op =>
          simp only [hkept, hop] at h
          have hkeeping := framed_keeping (framed_operation hresolve (some c) op)
            (fun v u hu => hu.keepLocal hkept v)
            (fun v u fs hfs => EvalState.keepLocal_withOuter hfs x v) h
          refine ⟨hkeeping.1, fun fs hfs => ?_⟩
          rw [EvalState.local?_withOuter hfs, EvalState.head?_withOuter hfs, hkept]
          exact hkeeping.2 fs hfs

end Names

/-- The value of a name is found in the innermost frame, in the body of the class and outside of
it. -/
theorem framed_resolveUpTo {r : Registry} {maxDepth : Nat} (n : Nat) :
    ∀ scope x span, Framed 1 (resolveUpTo r maxDepth n scope x span) := by
  induction n with
  | zero => exact fun scope x span s res t h => absurd h not_ends_diverge
  | succ n ih =>
      intro scope x span
      cases scope with
      | none =>
          rw [resolveUpTo_outside]
          exact framed_resolveShared ih x span
      | some c =>
          rw [resolveUpTo_inside]
          refine (framed_resolveLocal ih c x).bind fun found => ?_
          cases found with
          | some v => exact Framed.pure v
          | none => exact framed_resolveShared ih x span

/-! ### Every call -/

/-- Whether it ends in a value or in an error, making an object leaves all frames as they were, and
with other frames in their place it comes to the same.  The value of a name, and that of an
operation, leave all frames but the innermost one as they were, and come to the same with other
frames in the place of these.  What the innermost frame and the shared values had before they keep
in all three. -/
theorem frames_kept (r : Registry) (maxDepth n : Nat) (s t : EvalState) :
    (∀ target vs site res,
      Ends (instantiate r maxDepth (resolveUpTo r maxDepth n) target vs site) s res t →
        t.frames = s.frames ∧ s.Extends 0 t ∧
        ∀ fs : List Frame, fs.length = s.frames.length →
          Ends (instantiate r maxDepth (resolveUpTo r maxDepth n) target vs site)
            { s with frames := fs } res { t with frames := fs }) ∧
    (∀ scope x span res, Ends (resolveUpTo r maxDepth n scope x span) s res t →
      s.Extends 1 t ∧
      ∀ fs : List Frame, fs.length = (s.frames.drop 1).length →
        Ends (resolveUpTo r maxDepth n scope x span) (s.withOuter 1 fs) res (t.withOuter 1 fs)) ∧
    ∀ scope op res, Ends (operation r maxDepth (resolveUpTo r maxDepth n) scope op) s res t →
      s.Extends 1 t ∧
      ∀ fs : List Frame, fs.length = (s.frames.drop 1).length →
        Ends (operation r maxDepth (resolveUpTo r maxDepth n) scope op) (s.withOuter 1 fs) res
          (t.withOuter 1 fs) := by
  have hnames : ∀ scope x span, Framed 1 (resolveUpTo r maxDepth n scope x span) :=
    framed_resolveUpTo n
  refine ⟨fun target vs site res h => ?_, fun scope x span res h => hnames scope x span s res t h,
    fun scope op res h => framed_operation hnames scope op s res t h⟩
  obtain ⟨hext, hother⟩ := framed_instantiate hnames target vs site s res t h
  exact ⟨hext.outer, hext, hother⟩

end Eval

/-- A port has lanes, and so has the device that it belongs to. -/
def Module.laned : Module where
  file := "device.mlir"
  span := default
  items := [
    .ofClass {
      name := ⟨"Port", default⟩
      params := []
      body := [
        ⟨some ⟨"lanes", default⟩, .constant (.integer 8) .integer, default⟩,
        ⟨none, .field ⟨"lanes", default⟩ ⟨"lanes", default⟩ .integer, default⟩]
      span := default },
    .ofClass {
      name := ⟨"Device", default⟩
      params := [⟨⟨"lanes", default⟩, .integer, default⟩]
      body := [
        ⟨some ⟨"port", default⟩, .object ⟨"Port", default⟩ [] [] (.object "Port"), default⟩,
        ⟨none, .field ⟨"port", default⟩ ⟨"port", default⟩ (.object "Port"), default⟩]
      span := default }]

/-- While a device with four lanes is being made for a rack with two of them, its port is made with
eight.  The device still has four, also when the rack has seven. -/
theorem Eval.frames_of_laned_device :
    ∃ (r : Registry) (s t u v : EvalState) (port device : Class) (op : Operation) (site : Location),
      r = Registry.ofModule Module.laned ∧ r.class? "Port" = some port ∧
      r.class? "Device" = some device ∧ device.definition? "port" = some op ∧
      s.frames = [⟨2, [("lanes", .integer 4)]⟩, ⟨1, [("lanes", .integer 2)]⟩] ∧
      -- the port, and the operation that makes it
      Ends (instantiate r 8 (resolveUpTo r 8 3) "Port" [] (some site)) s
        (.ok ⟨port, [("lanes", .integer 8)]⟩) t ∧
      t.frames = s.frames ∧
      Ends (operation r 8 (resolveUpTo r 8 3) (some device) op) s
        (.ok (.object port [("lanes", .integer 8)])) u ∧
      u.local? "lanes" = some (.integer 4) ∧
      -- the name of its value
      Ends (resolveUpTo r 8 3 (some device) "port" default) s
        (.ok (.object port [("lanes", .integer 8)])) v ∧
      v.local? "lanes" = some (.integer 4) ∧
      Ends (resolveUpTo r 8 3 (some device) "port" default)
        (s.withOuter 1 [⟨1, [("lanes", .integer 7)]⟩])
        (.ok (.object port [("lanes", .integer 8)]))
        (v.withOuter 1 [⟨1, [("lanes", .integer 7)]⟩]) := by
  let r := Registry.ofModule Module.laned
  let s : EvalState := { frames := [⟨2, [("lanes", .integer 4)]⟩, ⟨1, [("lanes", .integer 2)]⟩] }
  let port := (r.class? "Port").get!
  let device := (r.class? "Device").get!
  let op := (device.definition? "port").get!
  have hmade : Ends (instantiate r 8 (resolveUpTo r 8 3) "Port" [] (some .unknown)) s
    (.ok ⟨port, [("lanes", .integer 8)]⟩) _ := rfl
  have hop : Ends (operation r 8 (resolveUpTo r 8 3) (some device) op) s
    (.ok (.object port [("lanes", .integer 8)])) _ := rfl
  have hname : Ends (resolveUpTo r 8 3 (some device) "port" default) s
    (.ok (.object port [("lanes", .integer 8)])) _ := rfl
  have hkept := frames_kept r 8 3 s
  have hframes := ((hkept _).1 _ _ _ _ hmade).1
  have hopened := ((hkept _).2.2 _ _ _ hop).1
  obtain ⟨hext, hother⟩ := (hkept _).2.1 _ _ _ _ hname
  exact ⟨r, s, _, _, _, port, device, op, .unknown, rfl, rfl, rfl, rfl, rfl, hmade, hframes, hop,
    hopened.inner _ _ rfl, hname, hext.inner _ _ rfl, hother _ rfl⟩

end ObjectModel
