/-
**Evaluation ends.**

In an accepted module operands are defined before they are used, and no class needs an object of
itself.  So where no class body defines the name of a shared value, each operation waits only for
operations before it, for shared ones, and for those of classes that come later in every chain of
classes.  How many operations these are bounds how deep operands are asked for, and how many
classes there are bounds how many objects are made inside each other.

Main definitions:

* `Module.KeepsSharedNames` — no class body defines the name of a shared value;
* `Eval.Nested` — a state in which few objects are and were made inside each other.

Main results:

* `Eval.total_inside` — asking for an operand ends;
* `Eval.nests_instantiate` — making an object keeps states nested;
* `Registry.instantiate_ends` — a call ends, in a nesting of at most as many objects as there are
  classes.
-/

import ObjectModel.Proofs.Below
import ObjectModel.Proofs.Errors
import ObjectModel.Proofs.Scope

set_option relaxedAutoImplicit false
set_option autoImplicit false

namespace ObjectModel

/-! ### Where definitions stand -/

/-- No body of a class defines the name of a shared value. -/
def Module.KeepsSharedNames (m : Module) : Prop :=
  ∀ c ∈ m.classes, ∀ x ∈ definedNames c.body, x ∉ definedNames m.operations

instance (m : Module) : Decidable m.KeepsSharedNames :=
  inferInstanceAs (Decidable (∀ c ∈ m.classes, ∀ x ∈ definedNames c.body,
    x ∉ definedNames m.operations))

/-- The operation of a class body that defines an operand stands before the use. -/
theorem ClassDecl.lt_of_defines_operand {m : Module} (hm : m.WellFormed)
    (hnames : m.KeepsSharedNames) {c : ClassDecl} (hc : c ∈ m.classes) {i j : Nat}
    {op op' : Operation} (hi : c.body[i]? = some op) {x : Ident} (hx : x ∈ op.action.operands)
    (hj : c.body[j]? = some op') (hdef : op'.defines x.name = true) : j < i := by
  have hwf := hm.classes c hc
  have hin : x.name ∈ definedNames c.body :=
    mem_definedNames.2 ⟨op', List.mem_of_getElem? hj, hdef⟩
  rcases hwf.usesEarlier i op hi x hx with (hparam | hshared) | hbefore
  · exact absurd hin (List.disjoint_of_nodup_append hwf.nodup_values hparam)
  · exact absurd hshared (hnames c hc _ hin)
  · exact lt_of_defines (List.nodup_append'.1 hwf.nodup_values).2.1 hbefore hj hdef

/-! ### Asking for values ends -/

namespace Eval

section Resolver

variable {r : Registry} {maxDepth : Nat} {resolve : Resolver}

theorem total_instantiate {name : String} {actuals : List Value} {site : Option Location}
    (hfields : ∀ c, r.class? name = some c → ∀ f ∈ c.fields,
      Total (resolve (some c) f.value.name f.span)) :
    Total (instantiate r maxDepth resolve name actuals site) := by
  cases hc : r.class? name with
  | none =>
      rw [instantiate_of_none hc]
      exact Total.throw _
  | some c =>
      have hvalues : Total (fieldValues resolve c) := Total.mapM fun f hf =>
        (Total.write _).bind fun _ => (hfields c hc f hf).bind fun v => Total.pure _
      have hmade : ∀ d, Total (do
          checkActuals c actuals (site.getD c.location)
          write (.instantiating c.name.name actuals.length d)
          inFrame (Entries.ofList (c.paramNames.zip actuals)) do
            return (⟨c, Entries.ofList (← fieldValues resolve c)⟩ : Object)) := fun d =>
        (Silent.checkActuals c actuals _).total.bind fun _ => (Total.write _).bind fun _ =>
          (hvalues.bind fun vs => Total.pure _).inFrame
      intro s
      by_cases hdepth : maxDepth ≤ s.frames.length
      · exact ⟨_, s, (ends_instantiate_iff hc).2 (by rw [if_pos hdepth]; exact ⟨rfl, rfl⟩)⟩
      · obtain ⟨res, t, ht⟩ := hmade s.frames.length s
        exact ⟨res, t, (ends_instantiate_iff hc).2 (by rw [if_neg hdepth]; exact ht)⟩

theorem total_operation {scope : Option Class} {op : Operation}
    (hoperands : ∀ x ∈ op.action.operands, Total (resolve scope x.name x.span))
    (hobject : ∀ target, op.action.target? = some target → ∀ vs site,
      Total (instantiate r maxDepth resolve target.name vs site)) :
    Total (operation r maxDepth resolve scope op) := by
  unfold operation
  cases hact : op.action with
  | constant value ty => exact (Silent.constant r _ value ty).total
  | object target actuals operandTys ty =>
      rw [hact] at hoperands hobject
      exact (Total.mapM hoperands).bind fun vs => (hobject target rfl vs _).bind fun _ =>
        Total.pure _
  | listCreate elements elementTy =>
      rw [hact] at hoperands
      exact (Total.mapM hoperands).bind fun _ => Total.pure _
  | tupleCreate elements elementTys =>
      rw [hact] at hoperands
      exact (Total.mapM hoperands).bind fun _ => Total.pure _
  | mapCreate entries keyTy valueTy =>
      rw [hact] at hoperands
      exact (Total.mapM hoperands).bind fun vs => (Silent.buildMap vs keyTy valueTy _).total
  | field name value ty => exact Total.throw _

theorem total_resolveShared {name : String} {span : Span}
    (hop : ∀ op, r.value? name = some op → Total (operation r maxDepth resolve none op)) :
    Total (resolveShared r maxDepth resolve name span) := by
  unfold resolveShared
  refine Total.get.bind fun s => ?_
  split
  · exact Total.pure _
  · split
    · next op hval =>
        exact (Total.write _).bind fun _ => (hop op hval).bind fun v =>
          (Total.modify _).bind fun _ => Total.pure _
    · exact Total.throw _

theorem total_resolveLocal {c : Class} {name : String}
    (hop : ∀ op, c.definition? name = some op →
      Total (operation r maxDepth resolve (some c) op)) :
    Total (resolveLocal r maxDepth resolve c name) := by
  unfold resolveLocal
  refine Total.get.bind fun s => ?_
  split
  · exact Total.pure _
  · split
    · next op hdef =>
        exact (Total.write _).bind fun _ => (hop op hdef).bind fun v =>
          (Total.modify _).bind fun _ => Total.pure _
    · exact Total.pure _

end Resolver

variable {m : Module} {maxDepth : Nat}

/-- A shared value is found if it is defined nowhere but before the position `i`, and operands are
asked for at least that deep. -/
theorem total_shared (hm : m.WellFormed) (n : Nat) :
    ∀ (i : Nat) (name : String) (span : Span), i ≤ n →
      (∀ (j : Nat) (op : Operation), m.operations[j]? = some op →
        op.defines name = true → j < i) →
      Total (resolveShared (Registry.ofModule m) maxDepth
        (resolveUpTo (Registry.ofModule m) maxDepth n) name span) := by
  induction n with
  | zero =>
      intro i name span hi hbefore
      refine total_resolveShared fun op hop => ?_
      obtain ⟨j, hj⟩ := List.mem_iff_getElem?.1 (List.mem_of_find?_eq_some hop)
      have := hbefore j op hj (by simpa using List.find?_some hop)
      omega
  | succ n ih =>
      intro i name span hi hbefore
      refine total_resolveShared fun op hop => ?_
      have hmem : op ∈ m.operations := List.mem_of_find?_eq_some hop
      obtain ⟨j, hj⟩ := List.mem_iff_getElem?.1 hmem
      have hlt := hbefore j op hj (by simpa using List.find?_some hop)
      refine total_operation (fun x hx => ?_) fun target htarget => ?_
      · rw [resolveUpTo_outside]
        refine ih j x.name x.span (by omega) fun k op' hk hdef => ?_
        rcases hm.usesEarlier j op hj x hx with hfalse | hearlier
        · exact absurd hfalse id
        · exact lt_of_defines hm.nodup_values hearlier hk hdef
      · rw [hm.no_objects op hmem] at htarget
        cases htarget

/-- What an operation asks for in the body of a class is found if operands are asked for deeper
than there are operations before it, below its class, and outside of classes. -/
theorem total_inside (hm : m.WellFormed) (hnames : m.KeepsSharedNames) (n : Nat) :
    ∀ (c : Class) (i : Nat) (op : Operation) (x : Ident) (span : Span),
      c.toClassDecl ∈ m.classes → c.body[i]? = some op → x ∈ op.action.operands →
      i + m.below (fun d => d.body.length) c.name.name + m.operations.length < n →
      Total (resolveUpTo (Registry.ofModule m) maxDepth n (some c) x.name span) := by
  induction n with
  | zero =>
      intro c i op x span _ _ _ hn
      omega
  | succ n ih =>
      intro c i op x span hc hi hx hn
      rw [resolveUpTo_inside]
      refine Total.bind (total_resolveLocal fun op' hop' => ?_) fun found => ?_
      · have hmem : op' ∈ c.body := List.mem_of_find?_eq_some hop'
        obtain ⟨j, hj⟩ := List.mem_iff_getElem?.1 hmem
        have hlt := ClassDecl.lt_of_defines_operand hm hnames hc hi hx hj
          (by simpa using List.find?_some hop')
        -- operands stand before the operation, and the fields of an object in a class below
        refine total_operation (fun y hy => ih c j op' y y.span hc hj hy (by omega)) ?_
        intro target htarget vs site
        refine total_instantiate fun d hd f hf => ?_
        obtain ⟨hdmem, hmakes⟩ := Registry.makes_of_class? hc hmem htarget hd
        have hbelow := m.below_add_le hm (fun d => d.body.length) hdmem hmakes
        obtain ⟨k, fieldOp, hk, hklt, hfield⟩ := ClassDecl.exists_operand_of_mem_fields hf
        exact ih d k fieldOp f.value f.span hdmem hk hfield (by omega)
      · split
        · exact Total.pure _
        · refine total_shared hm n m.operations.length x.name span (by omega) fun j op' hj _ => ?_
          exact (List.getElem?_eq_some_iff.1 hj).1

/-- Making an object ends. -/
theorem total_call (hm : m.WellFormed) (hnames : m.KeepsSharedNames) (maxDepth : Nat)
    (name : String) (actuals : List Value) :
    Total (instantiate (Registry.ofModule m) maxDepth (resolveUpTo (Registry.ofModule m) maxDepth
      ((Registry.ofModule m).size + 1)) name actuals none) := by
  refine total_instantiate fun c hc f hf => ?_
  have hmem := (Registry.mem_of_class? hc).1
  obtain ⟨k, op, hk, hklt, hfield⟩ := ClassDecl.exists_operand_of_mem_fields hf
  have hsum := m.below_add_le_sum hm (fun d => d.body.length) hmem
  have hsize := Registry.size_ofModule m
  exact total_inside hm hnames _ c k op f.value f.span hmem hk hfield (by omega)

end Eval

/-! ### How many objects are made inside each other -/

/-- If the depth is `enough`, the error is not that there are too many objects inside each other. -/
def EvalError.Shallow (enough : Prop) (e : EvalError) : Prop :=
  enough → ∀ name limit loc, e ≠ depthExceeded name limit loc

theorem EvalError.OfValue.shallow {enough : Prop} {loc : Location} {e : EvalError}
    (h : e.OfValue loc) : e.Shallow enough := by
  rintro - name limit loc' rfl
  cases h

theorem EvalError.OfActuals.shallow {enough : Prop} {c : Class} {actuals : List Value}
    {loc : Location} {e : EvalError} (h : e.OfActuals c actuals loc) : e.Shallow enough := by
  rintro - name limit loc' rfl
  cases h

namespace Eval

/-- A state in which `d` objects are being made, and in which no object was made inside of `n`
others. -/
structure Nested (n d : Nat) (s : EvalState) : Prop where
  /-- There is a frame for each object. -/
  frames : s.frames.length = d
  /-- No object was made inside of `n` others. -/
  journal : ∀ name actuals k, .instantiating name actuals k ∈ s.journal → k < n

theorem Nested.write {n d : Nat} {s : EvalState} {e : Event} (h : Nested n d s)
    (he : ∀ name actuals k, e = .instantiating name actuals k → k < n) :
    Nested n d { s with journal := e :: s.journal } where
  frames := h.frames
  journal name actuals k hk := by
    rcases List.mem_cons.1 hk with hk | hk
    · exact he name actuals k hk.symm
    · exact h.journal name actuals k hk

theorem Nested.keepLocal {n d : Nat} {s : EvalState} (h : Nested n d s) (name : String)
    (v : Value) : Nested n d (s.keepLocal name v) := by
  unfold EvalState.keepLocal
  split
  · next f fs hf => exact ⟨by rw [← h.frames, hf]; rfl, h.journal⟩
  · exact h

/-- A computation that is begun while `d` objects are being made: it makes none inside of `n`
others, and if so many are allowed it does not find that there are too many. -/
abbrev Nests {α : Type} (n maxDepth d : Nat) (x : Eval α) : Prop :=
  Keeps (Nested n d) (EvalError.Shallow (n ≤ maxDepth)) x

theorem Nests.silent {α : Type} {n maxDepth d : Nat} {P : EvalError → Prop} {x : Eval α}
    (hx : Silent x) (hr : Raises P x) (hP : ∀ e, P e → e.Shallow (n ≤ maxDepth)) :
    Nests n maxDepth d x := by
  refine hx.keeps (fun e he s hs => hs.write fun name actuals k hk => ?_) ?_
  · rw [hk] at he
    cases he
  · exact fun s res t hs h => ⟨trivial, fun e he => hP e ((hr s res t hs h).2 e he)⟩

section Resolver

variable {r : Registry} {n maxDepth d : Nat} {resolve : Resolver}

theorem nests_fieldValues {c : Class}
    (hfields : ∀ f ∈ c.fields, Nests n maxDepth d (resolve (some c) f.value.name f.span)) :
    Nests n maxDepth d (fieldValues resolve c) :=
  Keeps.mapM fun f hf =>
    (Keeps.write fun _ hs => hs.write fun _ _ _ hk => by cases hk).bind fun _ =>
      (hfields f hf).bind fun _ => Keeps.pure _

/-- An object is made inside of fewer than `n` others, and its fields in one frame more. -/
theorem nests_instantiate {name : String} {actuals : List Value} {site : Option Location}
    (hd : ∀ c, r.class? name = some c → d < n)
    (hfields : ∀ c, r.class? name = some c → ∀ f ∈ c.fields,
      Nests n maxDepth (d + 1) (resolve (some c) f.value.name f.span)) :
    Nests n maxDepth d (instantiate r maxDepth resolve name actuals site) := by
  cases hc : r.class? name with
  | none =>
      rw [instantiate_of_none hc]
      refine Keeps.throw ?_
      rintro - _ _ _ ⟨⟩
  | some c =>
      have hlt := hd c hc
      have hmade : Nests n maxDepth d (do
          checkActuals c actuals (site.getD c.location)
          write (.instantiating c.name.name actuals.length d)
          inFrame (Entries.ofList (c.paramNames.zip actuals)) do
            return (⟨c, Entries.ofList (← fieldValues resolve c)⟩ : Object)) := by
        have hwrite : Nests n maxDepth d
            (write (.instantiating c.name.name actuals.length d)) := by
          refine Keeps.write fun s hs => hs.write ?_
          rintro _ _ _ ⟨⟩
          exact hlt
        refine (Nests.silent (Silent.checkActuals c actuals _) (raises_checkActuals c actuals _)
          fun e he => he.shallow).bind fun _ => hwrite.bind fun _ => ?_
        refine Keeps.inFrame ((nests_fieldValues (hfields c hc)).bind fun _ => Keeps.pure _) ?_ ?_
        · exact fun s hs => ⟨by rw [opened, List.length_cons, hs.frames], hs.journal⟩
        · exact fun s hs => ⟨by rw [List.length_drop, hs.frames, Nat.add_sub_cancel], hs.journal⟩
      intro s res t hs h
      rw [ends_instantiate_iff hc, hs.frames] at h
      by_cases hdepth : maxDepth ≤ d
      -- the one place where the depth is found to be too small: then it is less than `n`
      · rw [if_pos hdepth] at h
        obtain ⟨rfl, rfl⟩ := h
        refine ⟨hs, ?_⟩
        rintro e ⟨⟩ henough
        omega
      · rw [if_neg hdepth] at h
        exact hmade s res t hs h

theorem nests_operation {scope : Option Class} {op : Operation}
    (hoperands : ∀ x ∈ op.action.operands, Nests n maxDepth d (resolve scope x.name x.span))
    (hobject : ∀ target, op.action.target? = some target → ∀ vs site,
      Nests n maxDepth d (instantiate r maxDepth resolve target.name vs site)) :
    Nests n maxDepth d (operation r maxDepth resolve scope op) := by
  unfold operation
  cases hact : op.action with
  | constant value ty =>
      exact Nests.silent (Silent.constant r _ value ty) (raises_constant r _ value ty)
        fun e he => he.shallow
  | object target actuals operandTys ty =>
      rw [hact] at hoperands hobject
      exact (Keeps.mapM hoperands).bind fun vs => (hobject target rfl vs _).bind fun _ =>
        Keeps.pure _
  | listCreate elements elementTy =>
      rw [hact] at hoperands
      exact (Keeps.mapM hoperands).bind fun _ => Keeps.pure _
  | tupleCreate elements elementTys =>
      rw [hact] at hoperands
      exact (Keeps.mapM hoperands).bind fun _ => Keeps.pure _
  | mapCreate entries keyTy valueTy =>
      rw [hact] at hoperands
      exact (Keeps.mapM hoperands).bind fun vs =>
        Nests.silent (Silent.buildMap vs keyTy valueTy _) (raises_buildMap vs keyTy valueTy _)
          fun e he => he.shallow
  | field name value ty =>
      refine Keeps.throw ?_
      rintro - _ _ _ ⟨⟩

theorem nests_resolveShared {name : String} {span : Span}
    (hop : ∀ op, r.value? name = some op →
      Nests n maxDepth d (operation r maxDepth resolve none op)) :
    Nests n maxDepth d (resolveShared r maxDepth resolve name span) := by
  unfold resolveShared
  refine Keeps.get.bind fun s => ?_
  split
  · exact Keeps.pure _
  · split
    · next op hval =>
        refine (Keeps.write fun _ hs => hs.write fun _ _ _ hk => by cases hk).bind fun _ => ?_
        exact (hop op hval).bind fun v =>
          (Keeps.modify fun _ hs => ⟨hs.frames, hs.journal⟩).bind fun _ => Keeps.pure _
    · refine Keeps.throw ?_
      rintro - _ _ _ ⟨⟩

theorem nests_resolveLocal {c : Class} {name : String}
    (hop : ∀ op, c.definition? name = some op →
      Nests n maxDepth d (operation r maxDepth resolve (some c) op)) :
    Nests n maxDepth d (resolveLocal r maxDepth resolve c name) := by
  unfold resolveLocal
  refine Keeps.get.bind fun s => ?_
  split
  · exact Keeps.pure _
  · split
    · next op hdef =>
        refine (Keeps.write fun _ hs => hs.write fun _ _ _ hk => by cases hk).bind fun _ => ?_
        exact (hop op hdef).bind fun v =>
          (Keeps.modify fun _ hs => hs.keepLocal name v).bind fun _ => Keeps.pure _
    · exact Keeps.pure _

end Resolver

variable {m : Module} {n maxDepth : Nat}

/-- Asking for a name in a class of which `d` objects are being made around makes no object inside
of `n` others, if with `d` there are no more than `n` classes below. -/
theorem nests_resolveUpTo (hm : m.WellFormed) (k : Nat) :
    ∀ (scope : Option Class) (d : Nat) (name : String) (span : Span),
      (∀ c, scope = some c → c.toClassDecl ∈ m.classes ∧
        d + m.below (fun _ => 1) c.name.name ≤ n) →
      Nests n maxDepth d (resolveUpTo (Registry.ofModule m) maxDepth k scope name span) := by
  induction k with
  | zero => exact fun scope d name span _ s res t _ h => absurd h not_ends_diverge
  | succ k ih =>
      intro scope d name span hscope
      have hshared : Nests n maxDepth d (resolveShared (Registry.ofModule m) maxDepth
          (resolveUpTo (Registry.ofModule m) maxDepth k) name span) := by
        refine nests_resolveShared fun op hop => ?_
        refine nests_operation (fun x _ => ih none d x.name x.span (by simp)) fun target ht => ?_
        rw [hm.no_objects op (List.mem_of_find?_eq_some hop)] at ht
        cases ht
      cases scope with
      | none =>
          rw [resolveUpTo_outside]
          exact hshared
      | some c =>
          obtain ⟨hc, hle⟩ := hscope c rfl
          rw [resolveUpTo_inside]
          refine Keeps.bind (nests_resolveLocal fun op hop => ?_) fun found => ?_
          · refine nests_operation (fun x _ => ih (some c) d x.name x.span hscope) ?_
            intro target ht vs site
            have hbelow : ∀ e, (Registry.ofModule m).class? target.name = some e →
                e.toClassDecl ∈ m.classes ∧
                  m.below (fun _ => 1) e.name.name + 1 ≤ m.below (fun _ => 1) c.name.name := by
              intro e he
              obtain ⟨hemem, hmakes⟩ :=
                Registry.makes_of_class? hc (List.mem_of_find?_eq_some hop) ht he
              exact ⟨hemem, m.below_add_le hm (fun _ => 1) hemem hmakes⟩
            refine nests_instantiate (fun e he => ?_) fun e he f _ => ?_
            · have := (hbelow e he).2
              omega
            · refine ih (some e) (d + 1) f.value.name f.span fun e' he' => ?_
              obtain rfl : e = e' := by simpa using he'
              have := (hbelow e he).2
              exact ⟨(hbelow e he).1, by omega⟩
          · split
            · exact Keeps.pure _
            · exact hshared

/-- A call makes no object inside of as many others as there are classes. -/
theorem nests_call (hm : m.WellFormed) (k : Nat) (name : String) (actuals : List Value) :
    Nests m.classes.length maxDepth 0 (instantiate (Registry.ofModule m) maxDepth
      (resolveUpTo (Registry.ofModule m) maxDepth k) name actuals none) := by
  have hbelow : ∀ c, (Registry.ofModule m).class? name = some c →
      c.toClassDecl ∈ m.classes ∧ m.below (fun _ => 1) c.name.name + 1 ≤ m.classes.length := by
    intro c hc
    have hmem := (Registry.mem_of_class? hc).1
    have hsum := m.below_add_le_sum hm (fun _ => 1) hmem
    have hlen : (m.classes.map fun _ => 1).sum = m.classes.length := by simp
    exact ⟨hmem, hlen ▸ hsum⟩
  refine nests_instantiate (fun c hc => ?_) fun c hc f _ => ?_
  · have := (hbelow c hc).2
    omega
  · refine nests_resolveUpTo hm k (some c) (0 + 1) f.value.name f.span fun c' hc' => ?_
    obtain rfl : c = c' := by simpa using hc'
    have := (hbelow c hc).2
    exact ⟨(hbelow c hc).1, by omega⟩

end Eval

/-! ### The call -/

/-- **Evaluation is well founded.**  Where no class body defines the name of a shared value, a call
on an accepted module ends.  No object is made inside of as many others as there are classes, so if
that many are allowed the call does not find that there are too many. -/
theorem Registry.instantiate_ends {m : Module} {quote : Nat → String} {r : Registry}
    (hbuild : Registry.build m quote = .ok r) (hnames : m.KeepsSharedNames) (maxDepth : Nat)
    (name : String) (actuals : List Value) :
    ∃ res journal, r.run maxDepth name actuals = some (res, journal) ∧
      r.instantiate maxDepth name actuals =
        some (res.mapError fun cause => ⟨cause, .instantiate⟩) ∧
      (∀ className count depth, .instantiating className count depth ∈ journal →
        depth < m.classes.length) ∧
      (m.classes.length ≤ maxDepth → ∀ className limit loc,
        res ≠ .error (.depthExceeded className limit loc)) := by
  obtain ⟨hm, rfl⟩ := Registry.build_eq_ok_iff.1 hbuild
  obtain ⟨res, t, hends⟩ := Eval.total_call hm hnames maxDepth name actuals {}
  have hrun : (ofModule m).run maxDepth name actuals = some (res, t.journal.reverse) :=
    Option.map_eq_some_iff.2 ⟨(res, t), hends, rfl⟩
  obtain ⟨hnested, hshallow⟩ := Eval.nests_call hm _ name actuals {} res t
    ⟨rfl, by simp⟩ hends
  refine ⟨res, t.journal.reverse, hrun, ?_, ?_, ?_⟩
  · rw [Registry.instantiate, hrun]
    rfl
  · exact fun className count depth hevent =>
      hnested.journal className count depth (List.mem_reverse.1 hevent)
  · rintro henough className limit loc rfl
    exact hshallow _ rfl henough className limit loc rfl

/-- A device with a port, whose width is a shared value. -/
def Module.ported : Module where
  file := "device.mlir"
  span := default
  items := [
    .ofOperation ⟨some ⟨"width", default⟩, .constant (.integer 8) .integer, default⟩,
    .ofClass {
      name := ⟨"Port", default⟩
      params := []
      body := [⟨none, .field ⟨"width", default⟩ ⟨"width", default⟩ .integer, default⟩]
      span := default },
    .ofClass {
      name := ⟨"Device", default⟩
      params := []
      body := [
        ⟨some ⟨"port", default⟩, .object ⟨"Port", default⟩ [] [] (.object "Port"), default⟩,
        ⟨none, .field ⟨"port", default⟩ ⟨"port", default⟩ (.object "Port"), default⟩]
      span := default }]

/-- A device is made with its port inside, so two objects must be allowed inside each other, and
that is how many classes there are. -/
theorem Registry.instantiate_ported_ends :
    Registry.build Module.ported (fun _ => "") = .ok (ofModule Module.ported) ∧
    Module.ported.KeepsSharedNames ∧ Module.ported.classes.length = 2 ∧
    ∃ res journal, (ofModule Module.ported).run 2 "Device" [] = some (res, journal) ∧
      .instantiating "Port" 0 1 ∈ journal ∧
      (∀ className count depth, .instantiating className count depth ∈ journal → depth < 2) ∧
      ∀ className limit loc, res ≠ .error (.depthExceeded className limit loc) := by
  have hbuild : Registry.build Module.ported (fun _ => "") = .ok (ofModule Module.ported) := rfl
  have hnames : Module.ported.KeepsSharedNames := by decide
  obtain ⟨res, journal, hrun, -, hnested, hshallow⟩ :=
    Registry.instantiate_ends hbuild hnames 2 "Device" []
  refine ⟨hbuild, hnames, rfl, res, journal, hrun, ?_, hnested, hshallow (Nat.le_refl 2)⟩
  have hjournal : ((ofModule Module.ported).run 2 "Device" []).map Prod.snd =
      some [.instantiating "Device" 0 0, .evaluating "Device" "port", .computing 1 "port",
        .instantiating "Port" 0 1, .evaluating "Port" "width", .computing 0 "width"] := rfl
  obtain rfl : journal = _ := by simpa [hrun] using hjournal
  decide

end ObjectModel
