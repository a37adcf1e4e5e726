/-
**Names that the body of a class defines again.**

The check follows the text: a name of a class body stands for the operation before its use, and for
a shared value if there is none.  Evaluation looks for the operation in the whole body.  The two
differ for a use of a shared value whose name the body defines again at the use or behind it, and
for no other use.

Main definitions:

* `ClassDecl.Ahead` — a name is defined at a position of the body or behind it;
* `Module.Reaches` — a class makes objects of another, perhaps inside of other objects.

Main results:

* `Meaning.definition?_eq_iff` — the two ways to find a definition agree exactly where the name is
  not ahead;
* `Meaning.definition?_of_ahead` — where it is, evaluation takes the definition ahead, and the text
  has a shared value;
* `Registry.instantiate_finds_definitions` — a call finds definitions in whole bodies, and it
  follows the text if no class that it reaches uses a name that is ahead.
-/

import ObjectModel.Proofs.Depth

set_option relaxedAutoImplicit false
set_option autoImplicit false

namespace ObjectModel

open Relation (ReflTransGen)

/-! ### Names that are ahead -/

/-- The body defines the name at the position `i` or behind it. -/
def ClassDecl.Ahead (c : ClassDecl) (i : Nat) (x : String) : Prop :=
  x ∈ definedNames (c.body.drop i)

instance (c : ClassDecl) (i : Nat) (x : String) : Decidable (c.Ahead i x) :=
  inferInstanceAs (Decidable (x ∈ definedNames (c.body.drop i)))

/-- The class makes objects of the other one, perhaps inside of other objects, or is that class. -/
def Module.Reaches (m : Module) (x y : String) : Prop := ReflTransGen m.Makes x y

theorem locate_append_of_not_mem {x : String} {ops' : List Operation}
    (h : x ∉ definedNames ops') (ops : List Operation) : locate x (ops ++ ops') = locate x ops := by
  induction ops with
  | nil =>
      rw [List.nil_append, locate, ← Option.not_isSome_iff_eq_none, isSome_locate_iff]
      exact h
  | cons op ops ih => rw [List.cons_append, locate, locate, ih]

/-- Where a name is not ahead, the whole body has what the text before has. -/
theorem Scoping.whole_eq_text {body : List Operation} {i : Nat} {x : String}
    (h : x ∉ definedNames (body.drop i)) : Scoping.whole body i x = Scoping.text body i x := by
  have hsplit := locate_append_of_not_mem h (body.take i)
  rw [List.take_append_drop] at hsplit
  exact hsplit

/-- With distinct names, what is found for a name that is ahead is ahead. -/
theorem le_of_locate {body : List Operation} {i j : Nat} {x : String} {op : Operation}
    (hnd : (definedNames body).Nodup) (hahead : x ∈ definedNames (body.drop i))
    (h : locate x body = some (j, op)) : i ≤ j := by
  by_contra hlt
  obtain ⟨hj, hdef⟩ := locate_eq_some h
  exact disjoint_definedNames hnd i (mem_definedNames_take hj hdef (by omega)) hahead

/-! ### The two ways to find a definition -/

namespace Meaning

variable {m : Module} {σ : Scope} {c : Class} {params : List (String × Value)} {i : Nat}
  {op : Operation}

/-- In a scope whose class does not have the name ahead, the text is followed. -/
theorem definition?_whole_eq_text (r : Registry) {x : String}
    (h : ∀ c params, σ.body = some (c, params) → ¬c.Ahead i x) :
    definition? r .whole σ i x = definition? r .text σ i x := by
  rw [definition?, definition?]
  cases hbody : σ.body with
  | none => rfl
  | some p => simp only [Scoping.whole_eq_text (h p.1 p.2 hbody)]

/-- For a name that is ahead, evaluation takes the operation ahead, and the text has a shared
value. -/
theorem definition?_of_ahead (hm : m.WellFormed) (hσ : σ.Proper m)
    (hbody : σ.body = some (c, params)) (hop : c.body[i]? = some op) {x : Ident}
    (hx : x ∈ op.action.operands) (hahead : c.Ahead i x.name) :
    (∃ j op', i ≤ j ∧ c.body[j]? = some op' ∧ op'.defines x.name = true ∧
      definition? (Registry.ofModule m) .whole σ i x.name = some (.computed σ j op')) ∧
    ∃ op' ∈ m.operations, op'.defines x.name = true ∧
      definition? (Registry.ofModule m) .text σ i x.name = some (.computed σ.outside 0 op') := by
  have hnd := (hm.classes _ (hσ c params hbody).1).nodup_values
  have hin : x.name ∈ definedNames c.body := by
    rw [← definedNames_take_append_drop i]
    exact List.mem_append_right _ hahead
  have hunbound := hσ.unbound hbody fun hp => List.disjoint_of_nodup_append hnd hp hin
  have hbefore : x.name ∉ definedNames (c.body.take i) := fun ht =>
    disjoint_definedNames (List.nodup_append'.1 hnd).2.1 i ht hahead
  constructor
  · obtain ⟨⟨j, op'⟩, hj⟩ := Option.isSome_iff_exists.1 (isSome_locate_iff.2 hin)
    obtain ⟨hget, hdef⟩ := locate_eq_some hj
    refine ⟨j, op', le_of_locate (List.nodup_append'.1 hnd).2.1 hahead hj, hget, hdef, ?_⟩
    simp [definition?, hbody, hunbound, Scoping.whole, hj]
  · have hnone : Scoping.text c.body i x.name = none := by
      rw [← Option.not_isSome_iff_eq_none]
      exact fun h => hbefore (isSome_locate_iff.1 h)
    obtain ⟨d, hd⟩ := exists_definition? hm Scoping.lawful_text hσ
      (show σ.Holds m i op by rw [Scope.Holds, hbody]; exact hop) hx
    have hshared : definition? (Registry.ofModule m) .text σ i x.name =
        shared? (Registry.ofModule m) σ x.name := by
      simp [definition?, hbody, hunbound, hnone]
    obtain ⟨op', hop', -⟩ := Option.map_eq_some_iff.1 (hshared ▸ hd)
    refine ⟨op', List.mem_of_find?_eq_some hop', by simpa using List.find?_some hop', ?_⟩
    rw [hshared, shared?, hop', Option.map_some]

/-- The two ways to find the definition of an operand agree exactly where its name is not ahead. -/
theorem definition?_eq_iff (hm : m.WellFormed) (hσ : σ.Proper m)
    (hbody : σ.body = some (c, params)) (hop : c.body[i]? = some op) {x : Ident}
    (hx : x ∈ op.action.operands) :
    definition? (Registry.ofModule m) .whole σ i x.name =
      definition? (Registry.ofModule m) .text σ i x.name ↔ ¬c.Ahead i x.name := by
  constructor
  · intro heq hahead
    obtain ⟨⟨j, op', -, -, -, hwhole⟩, op'', -, -, htext⟩ :=
      definition?_of_ahead hm hσ hbody hop hx hahead
    -- one definition stands in the class and the other one outside of all classes
    rw [hwhole, htext, Option.some.injEq, Definition.computed.injEq] at heq
    rw [heq.1] at hbody
    cases hbody
  · intro hnot
    refine definition?_whole_eq_text _ fun c' params' hbody' => ?_
    obtain ⟨rfl, rfl⟩ : c = c' ∧ params = params' := by simpa [hbody] using hbody'
    exact hnot

end Meaning

/-! ### Calls that follow the text -/

/-- No operation of the body uses a name that is ahead. -/
def ClassDecl.FollowsText (c : ClassDecl) : Prop :=
  ∀ i op, c.body[i]? = some op → ∀ x ∈ op.action.operands, ¬c.Ahead i x.name

/-- The class of the scope is one that the class `name` reaches. -/
def Scope.Within (m : Module) (name : String) (σ : Scope) : Prop :=
  ∀ c params, σ.body = some (c, params) → c.toClassDecl ∈ m.classes ∧ m.Reaches name c.name.name

theorem Scope.Within.enter {m : Module} {name : String} (σ : Scope) {c : Class}
    (hc : c.toClassDecl ∈ m.classes) (hreach : m.Reaches name c.name.name)
    (actuals : List Value) : (σ.enter c actuals).Within m name := by
  rintro c' params h
  obtain ⟨rfl, -⟩ : c = c' ∧ c.bind actuals = params := by simpa [Scope.enter] using h
  exact ⟨hc, hreach⟩

/-- Two rules find the same definitions for all operands in the classes that `name` reaches. -/
def Scoping.AgreesWith (find find' : Scoping) (m : Module) (name : String) : Prop :=
  ∀ (σ : Scope) (i : Nat) (op : Operation) (x : Ident), σ.Within m name → σ.Holds m i op →
    x ∈ op.action.operands → Meaning.definition? (Registry.ofModule m) find σ i x.name =
      Meaning.definition? (Registry.ofModule m) find' σ i x.name

theorem Scoping.AgreesWith.symm {find find' : Scoping} {m : Module} {name : String}
    (h : find.AgreesWith find' m name) : find'.AgreesWith find m name :=
  fun σ i op x hσ hop hx => (h σ i op x hσ hop hx).symm

namespace Meaning

variable {m : Module} {maxDepth : Nat} {name : String}

/-- Rules that agree give operands the same meaning. -/
theorem upTo_refines_of_agree {find find' : Scoping} (hm : m.WellFormed) (hfind : find.Lawful)
    (hagree : find.AgreesWith find' m name) (n : Nat) :
    ∀ (σ : Scope) (i : Nat) (op : Operation) (x : Ident), σ.Within m name → σ.Holds m i op →
      x ∈ op.action.operands → ∀ span,
        Refines (upTo (Registry.ofModule m) maxDepth find n σ i x.name span)
          (upTo (Registry.ofModule m) maxDepth find' n σ i x.name span) := by
  induction n with
  | zero =>
      intro σ i op x _ _ _ span res hres
      cases hres
  | succ n ih =>
      intro σ i op x hσ hop hx span
      rw [upTo_succ, upTo_succ, ← hagree σ i op x hσ hop hx]
      cases hd : definition? (Registry.ofModule m) find σ i x.name with
      | none => exact Refines.refl _
      | some d =>
          cases d with
          | bound v => exact Refines.refl _
          | computed τ j op' =>
              obtain ⟨hτ, hholds, -⟩ := holds_of_definition? hfind hd
              -- outside of classes there is nothing to reach, and objects are made within reach
              have hwithin : τ.Within m name := by
                rcases hτ with rfl | rfl
                · exact hσ
                · intro c params hbody
                  cases hbody
              refine Refines.operation (fun y hy => ih τ j op' y hwithin hholds hy y.span) ?_
              intro target actuals operandTys ty hact vs _
              refine Refines.object fun c hc _ k f hf => ?_
              have htarget := Action.target?_eq_some_iff.2 ⟨actuals, operandTys, ty, hact⟩
              obtain ⟨d, params, hbody, hj⟩ := hholds.in_class hm htarget
              obtain ⟨hdmem, hdreach⟩ := hwithin d params hbody
              obtain ⟨hmem, hmakes⟩ :=
                Registry.makes_of_class? hdmem (List.mem_of_getElem? hj) htarget hc
              obtain ⟨fieldOp, hfieldOp, hfield⟩ := ClassDecl.exists_operand_of_placed hf
              exact ih (τ.enter c vs) k fieldOp f.value
                (Scope.Within.enter τ hmem (hdreach.tail hmakes) vs) hfieldOp hfield f.span

end Meaning

theorem Registry.Yields.of_agree {m : Module} {maxDepth : Nat} {find find' : Scoping}
    {name : String} {actuals : List Value} {res : Except EvalError Object} (hm : m.WellFormed)
    (hfind : find.Lawful) (hagree : find.AgreesWith find' m name)
    (h : (Registry.ofModule m).Yields maxDepth find name actuals res) :
    (Registry.ofModule m).Yields maxDepth find' name actuals res := by
  obtain ⟨n, hn⟩ := h
  refine ⟨n, Meaning.Refines.object (fun c hc _ i f hf => ?_) res hn⟩
  obtain ⟨hmem, hname⟩ := Registry.mem_of_class? hc
  obtain ⟨op, hop, hfield⟩ := ClassDecl.exists_operand_of_placed hf
  have hreach : m.Reaches name c.name.name := by
    rw [hname]
    exact ReflTransGen.refl
  exact Meaning.upTo_refines_of_agree hm hfind hagree n _ i op f.value
    (Scope.Within.enter ⟨0, none⟩ hmem hreach actuals) hop hfield f.span

/-- Making an object means in the text what it means in the whole bodies, if no class that is
reached uses a name that is ahead. -/
theorem Registry.yields_text_iff {m : Module} {maxDepth : Nat} {name : String}
    {actuals : List Value} {res : Except EvalError Object} (hm : m.WellFormed)
    (htext : ∀ c ∈ m.classes, m.Reaches name c.name.name → c.FollowsText) :
    (Registry.ofModule m).Yields maxDepth .text name actuals res ↔
      (Registry.ofModule m).Yields maxDepth .whole name actuals res := by
  have hagree : Scoping.whole.AgreesWith .text m name := by
    intro σ i op x hσ hop hx
    refine Meaning.definition?_whole_eq_text _ fun c params hbody => ?_
    obtain ⟨hc, hreach⟩ := hσ c params hbody
    rw [Scope.Holds, hbody] at hop
    exact htext _ hc hreach i op hop x hx
  constructor
  · exact Registry.Yields.of_agree hm Scoping.lawful_text hagree.symm
  · exact Registry.Yields.of_agree hm Scoping.lawful_whole hagree

/-- **Evaluation follows the text exactly where no name is ahead.**  The result of a call on an
accepted module is the meaning of making its object when definitions are found in the whole body
of a class.  For an operand in the body that is what the text before has, if and only if its name
is not defined at the operation or behind it.  If no class that the call reaches uses a name that
is ahead, the result is the meaning in the text. -/
theorem Registry.instantiate_finds_definitions {m : Module} {quote : Nat → String} {r : Registry}
    (hbuild : Registry.build m quote = .ok r) :
    (∀ maxDepth name actuals res, r.instantiate maxDepth name actuals = some res ↔
      ∃ res', r.Yields maxDepth .whole name actuals res' ∧
        res = res'.mapError fun cause => ⟨cause, .instantiate⟩) ∧
    (∀ (σ : Scope) c params i op, σ.Proper m → σ.body = some (c, params) →
      c.body[i]? = some op → ∀ x ∈ op.action.operands,
        (Meaning.definition? r .whole σ i x.name = Meaning.definition? r .text σ i x.name ↔
          ¬c.Ahead i x.name)) ∧
    (∀ maxDepth name actuals res,
      (∀ c ∈ m.classes, m.Reaches name c.name.name → c.FollowsText) →
        (r.instantiate maxDepth name actuals = some res ↔
          ∃ res', r.Yields maxDepth .text name actuals res' ∧
            res = res'.mapError fun cause => ⟨cause, .instantiate⟩)) := by
  obtain ⟨hm, rfl⟩ := Registry.build_eq_ok_iff.1 hbuild
  refine ⟨?_, ?_, ?_⟩
  · intro maxDepth name actuals res
    exact Registry.instantiate_eq_some_iff hm
  · intro σ c params i op hσ hbody hop x hx
    exact Meaning.definition?_eq_iff hm hσ hbody hop hx
  · intro maxDepth name actuals res htext
    simp only [Registry.yields_text_iff hm htext]
    exact Registry.instantiate_eq_some_iff hm

/-- A class that uses a shared value and then defines its name again. -/
def ClassDecl.usingEarly : ClassDecl where
  name := ⟨"Early", default⟩
  params := []
  body := [
    ⟨none, .field ⟨"width", default⟩ ⟨"width", default⟩ .integer, default⟩,
    ⟨some ⟨"width", default⟩, .constant (.integer 2) .integer, default⟩]
  span := default

/-- A class that defines the name of a shared value again and then uses it. -/
def ClassDecl.usingLate : ClassDecl where
  name := ⟨"Late", default⟩
  params := []
  body := [
    ⟨some ⟨"width", default⟩, .constant (.integer 2) .integer, default⟩,
    ⟨none, .field ⟨"width", default⟩ ⟨"width", default⟩ .integer, default⟩]
  span := default

/-- Both classes, and the shared value `width`, which is one. -/
def Module.redefining : Module where
  file := "width.mlir"
  span := default
  items := [
    .ofOperation ⟨some ⟨"width", default⟩, .constant (.integer 1) .integer, default⟩,
    .ofClass .usingEarly, .ofClass .usingLate]

theorem ClassDecl.usingLate_followsText : usingLate.FollowsText := by
  intro i op hop x hx
  match i with
  | 0 =>
      obtain rfl : _ = op := by simpa [usingLate] using hop
      cases hx
  | 1 => exact List.not_mem_nil
  | i + 2 => simp [usingLate] at hop

/-- In the class `Early` the text has one and evaluation finds two; `Late` follows the text. -/
theorem Registry.instantiate_redefining_finds_definitions :
    Registry.build Module.redefining (fun _ => "") = .ok (ofModule Module.redefining) ∧
    (∃ o, (ofModule Module.redefining).instantiate 8 "Early" [] = some (.ok o) ∧
      o.field? "width" = some (.integer 2)) ∧
    (∃ o, (ofModule Module.redefining).Yields 8 .text "Early" [] (.ok o) ∧
      o.field? "width" = some (.integer 1)) ∧
    (∃ o, (ofModule Module.redefining).Yields 8 .text "Late" [] (.ok o) ∧
      o.field? "width" = some (.integer 2)) := by
  have hbuild : Registry.build Module.redefining (fun _ => "") =
      .ok (ofModule Module.redefining) := rfl
  refine ⟨hbuild, ⟨_, rfl, rfl⟩, ⟨_, ⟨1, rfl⟩, rfl⟩, ?_⟩
  have hreach : ∀ x, Module.redefining.Reaches "Late" x → x = "Late" := by
    intro x hx
    rcases ReflTransGen.cases_head hx with rfl | ⟨y, ⟨c, hc, -, t, ht, -⟩, -⟩
    · rfl
    · have hnone : ∀ c ∈ Module.redefining.classes, c.targets = [] := by
        intro c hc
        rcases List.mem_cons.1 hc with rfl | hc
        · rfl
        · obtain rfl := List.mem_singleton.1 hc
          rfl
      rw [hnone c hc] at ht
      cases ht
  have htext : ∀ c ∈ Module.redefining.classes,
      Module.redefining.Reaches "Late" c.name.name → c.FollowsText := by
    intro c hc hlate
    have hname := hreach _ hlate
    rcases List.mem_cons.1 hc with rfl | hc
    · exact absurd hname (by decide)
    · obtain rfl := List.mem_singleton.1 hc
      exact ClassDecl.usingLate_followsText
  obtain ⟨-, -, hcalls⟩ := Registry.instantiate_finds_definitions hbuild
  obtain ⟨res, hyields, hres⟩ := (hcalls 8 "Late" [] _ htext).1 rfl
  cases res with
  | error e => cases hres
  | ok o =>
      obtain rfl : o = _ := by simpa [Except.mapError] using hres.symm
      exact ⟨_, hyields, rfl⟩

end ObjectModel
