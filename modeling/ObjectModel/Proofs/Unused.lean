/-
**Values that nothing uses.**

Evaluation is asked for the fields of a class and goes on to what they use.  An operation whose
result no operation uses is never come to, so it may be left out of a module: the module is still
accepted, and calls on it end as before, even where the operation would have failed.

Main definitions:

* `Trims` — operations without some that define nothing that is used;
* `ClassDecl.Trims`, `Module.Trims` — classes and modules without such operations;
* `Module.DropsUnused` — a module without one operation whose result is not used.

Main results:

* `Module.Trims.wellFormed` — what is left of a well-formed module is well formed;
* `Module.Trims.narrows` — and evaluation looks at nothing that was left out;
* `Registry.instantiate_eq_of_dropsUnused` — **calls on it end in the same results**.
-/

import ObjectModel.Proofs.Narrowing
import ObjectModel.Proofs.OneByOne
import ObjectModel.Proofs.Reading

set_option relaxedAutoImplicit false
set_option autoImplicit false

namespace ObjectModel

/-! ### Operations -/

/-- The second operations are the first ones without some that define nothing of what is used. -/
inductive Trims (used : String → Prop) : List Operation → List Operation → Prop where
  | nil : Trims used [] []
  | keep {ops ops' : List Operation} (op : Operation) (h : Trims used ops ops') :
      Trims used (op :: ops) (op :: ops')
  | drop {ops ops' : List Operation} {op : Operation} (hop : ∀ x, op.defines x = true → ¬used x)
      (h : Trims used ops ops') : Trims used (op :: ops) ops'

theorem Uses.mono {ops ops' : List Operation} {x : String} (h : Uses ops x) (hsub : ops ⊆ ops') :
    Uses ops' x := by
  obtain ⟨op, hop, y, hy, rfl⟩ := h
  exact ⟨op, hsub hop, y, hy, rfl⟩

namespace Trims

variable {used : String → Prop} {ops ops' : List Operation}

theorem refl (used : String → Prop) : ∀ ops : List Operation, Trims used ops ops
  | [] => .nil
  | op :: ops => .keep op (refl used ops)

/-- One operation may be left out that defines nothing of what is used. -/
theorem drop_one {op : Operation} (hop : ∀ x, op.defines x = true → ¬used x)
    (last : List Operation) : ∀ first, Trims used (first ++ op :: last) (first ++ last)
  | [] => .drop hop (refl used last)
  | op' :: first => .keep op' (drop_one hop last first)

theorem sublist (h : Trims used ops ops') : ops'.Sublist ops := by
  induction h with
  | nil => exact .slnil
  | keep op _ ih => exact ih.cons_cons op
  | drop _ _ ih => exact ih.cons _

/-- The names that are defined are among those that were. -/
theorem definedNames_sublist (h : Trims used ops ops') :
    (definedNames ops').Sublist (definedNames ops) := by
  induction h with
  | nil => exact .slnil
  | keep op _ ih => exact (List.Sublist.refl _).append ih
  | drop _ _ ih => exact ih.trans (List.sublist_append_right _ _)

/-- What is used is defined by the same operation. -/
theorem find?_eq (h : Trims used ops ops') {x : String} (hx : used x) :
    (ops'.find? fun op => op.defines x) = ops.find? fun op => op.defines x := by
  induction h with
  | nil => rfl
  | keep op _ ih => rw [List.find?_cons, List.find?_cons, ih]
  | @drop _ _ op hop _ ih =>
      have hnot : op.defines x = false := Bool.eq_false_iff.2 fun hdef => hop x hdef hx
      rw [List.find?_cons, hnot, ih]

/-- So what is used and was defined is defined. -/
theorem mem_definedNames (h : Trims used ops ops') {x : String} (hx : used x)
    (hdef : x ∈ definedNames ops) : x ∈ definedNames ops' := by
  rw [← isSome_locate_iff, ← Option.isSome_map (f := Prod.snd), map_locate] at hdef ⊢
  rwa [h.find?_eq hx]

/-- What is left uses names that are defined before, of an outer scope of which only the part counts
that is used. -/
theorem usesEarlier (h : Trims used ops ops') : ∀ {outer outer' : String → Prop},
    UsesEarlier outer ops → (∀ x, Uses ops x → used x) →
      (∀ x, used x → outer x → outer' x) → UsesEarlier outer' ops' := by
  induction h with
  | nil => exact fun _ _ _ => usesEarlier_nil _
  | @keep ops ops' op _ ih =>
      intro outer outer' huses hused hout
      obtain ⟨hop, hops⟩ := usesEarlier_cons.1 huses
      refine usesEarlier_cons.2 ⟨fun x hx => ?_, ih hops ?_ ?_⟩
      · exact hout _ (hused _ ⟨op, List.mem_cons_self, x, hx, rfl⟩) (hop x hx)
      · exact fun x hx => hused x (hx.mono (List.subset_cons_self _ _))
      · exact fun x hx => Or.imp_left (hout x hx)
  | @drop ops ops' op hnot _ ih =>
      intro outer outer' huses hused hout
      refine ih (usesEarlier_cons.1 huses).2 ?_ ?_
      · exact fun x hx => hused x (hx.mono (List.subset_cons_self _ _))
      · intro x hx
        rintro (h | hdef)
        · exact hout x hx h
        · exact absurd hx (hnot x (Operation.mem_resultNames.1 hdef))

end Trims

/-! ### Classes and modules -/

/-- The class `c'` is the class `c` without some operations that declare no field and define nothing
of what the class uses. -/
structure ClassDecl.Trims (c c' : ClassDecl) : Prop where
  name : c'.name = c.name
  params : c'.params = c.params
  span : c'.span = c.span
  fields : c'.body.filter (fun op => op.action.isField) =
    c.body.filter fun op => op.action.isField
  body : ObjectModel.Trims (Uses c.body) c.body c'.body

theorem ClassDecl.Trims.refl (c : ClassDecl) : c.Trims c :=
  ⟨rfl, rfl, rfl, rfl, .refl _ _⟩

/-- The module `m'` is the module `m` without some operations that are not used. -/
structure Module.Trims (m m' : Module) : Prop where
  file : m'.file = m.file
  symbols : m'.symbols = m.symbols
  hardware : m'.hardware = m.hardware
  operations : ObjectModel.Trims (Uses m.allOperations) m.operations m'.operations
  classes : List.Forall₂ ClassDecl.Trims m.classes m'.classes

theorem ClassDecl.fields_eq_of_filter {c c' : ClassDecl}
    (h : c'.body.filter (fun op => op.action.isField) =
      c.body.filter fun op => op.action.isField) : c'.fields = c.fields := by
  have hfields : ∀ c : ClassDecl,
      c.fields = (c.body.filter fun op => op.action.isField).filterMap Operation.field? := by
    intro c
    rw [fields, List.filterMap_filter]
    congr 1
    funext op
    cases hact : op.action <;> simp [Operation.field?, Action.isField, hact]
  rw [hfields, hfields, h]

namespace Module.Trims

variable {m m' : Module} (h : m.Trims m')

include h

/-- A class that was well formed is, in what is left of the module. -/
theorem wellFormed_class {c c' : ClassDecl} (hc : c ∈ m.classes) (hcc : c.Trims c')
    (hwf : c.WellFormed m) : c'.WellFormed m' := by
  have hparams : c'.paramNames = c.paramNames := by
    rw [ClassDecl.paramNames, ClassDecl.paramNames, hcc.params]
  refine ⟨?_, ?_, ?_, ?_⟩
  · rw [hparams]
    exact hwf.nodup_values.sublist ((List.Sublist.refl _).append hcc.body.definedNames_sublist)
  · rw [ClassDecl.fields_eq_of_filter hcc.fields]
    exact hwf.nodup_fields
  · rw [hparams]
    refine hcc.body.usesEarlier hwf.usesEarlier (fun _ hx => hx) fun x hx => Or.imp_right ?_
    exact h.operations.mem_definedNames (hx.mono fun _ hop => mem_allOperations_of_class hc hop)
  · intro op hop target actuals operandTys ty hact
    obtain ⟨d, hd, hname, hlen⟩ :=
      hwf.objects op (hcc.body.sublist.subset hop) target actuals operandTys ty hact
    obtain ⟨d', hd', hdd⟩ := h.classes.exists_right hd
    exact ⟨d', hd', by rw [hdd.name, hname], by rw [hdd.params, hlen]⟩

/-- **What is left of a well-formed module is well formed.** -/
theorem wellFormed (hm : m.WellFormed) : m'.WellFormed where
  nodup_symbols := by
    rw [h.symbols]
    exact hm.nodup_symbols
  no_objects := fun op hop => hm.no_objects op (h.operations.sublist.subset hop)
  nodup_values := hm.nodup_values.sublist h.operations.definedNames_sublist
  usesEarlier := h.operations.usesEarlier hm.usesEarlier
    (fun _ hx => hx.mono fun _ hop => mem_allOperations_of_shared hop) fun _ _ => id
  classes := by
    intro c' hc'
    obtain ⟨c, hc, hcc⟩ := h.classes.exists_left hc'
    exact h.wellFormed_class hc hcc (hm.classes c hc)
  acyclic := by
    intro x hx
    refine hm.acyclic x (Relation.TransGen.mono ?_ x x hx)
    rintro y z ⟨c', hc', hy, t, ht, hz⟩
    obtain ⟨c, hc, hcc⟩ := h.classes.exists_left hc'
    obtain ⟨op, hop, htarget⟩ := ClassDecl.mem_targets.1 ht
    refine ⟨c, hc, by rw [← hcc.name, hy], t, ?_, hz⟩
    exact ClassDecl.mem_targets.2 ⟨op, hcc.body.sublist.subset hop, htarget⟩

/-- Evaluation looks at nothing that was left out, as far as `f` shows of the classes. -/
theorem narrows {f : Class → Class}
    (himage : List.Forall₂ (fun c c' : ClassDecl => f ⟨c', m.file⟩ = f ⟨c, m.file⟩) m.classes
      m'.classes) :
    (Registry.ofModule m).Narrows f (Registry.ofModule m') := by
  have hclasses : List.Forall₂ (Class.Narrows f) (Registry.ofModule m).classes
      (Registry.ofModule m').classes := by
    rw [Registry.ofModule, Registry.ofModule, List.forall₂_map_left_iff,
      List.forall₂_map_right_iff, h.file]
    refine h.classes.mp (fun c c' hcc hf => ⟨hf, hcc.name, hcc.params, ?_, ?_, ?_⟩) himage
    · rw [Class.location, Class.location, hcc.span]
    · exact ClassDecl.fields_eq_of_filter hcc.fields
    · exact fun x hx => hcc.body.find?_eq hx
  refine ⟨h.file, Registry.declares_of_forall₂ h.hardware hclasses fun c d hcd => hcd.name,
    fun name => ?_, fun x hx => ?_⟩
  · refine hclasses.rel_find? fun c d hcd => ?_
    rw [hcd.name]
  · refine h.operations.find?_eq ?_
    rcases hx with hx | ⟨c, hc, hx⟩
    · exact hx.mono fun _ hop => mem_allOperations_of_shared hop
    · obtain ⟨d, hd, rfl⟩ := List.mem_map.1 hc
      exact hx.mono fun _ hop => mem_allOperations_of_class hd hop

end Module.Trims

/-! ### Leaving out one operation -/

/-- What the operation defines is an operand of none of the operations. -/
def Operation.UnusedIn (op : Operation) (ops : List Operation) : Prop :=
  ∀ x, op.defines x = true → ¬Uses ops x

/-- The module `m'` is the module `m` without one operation: without a shared value that no
operation of the module uses, or without an operation of a class that declares no field and whose
result no operation of that class uses. -/
inductive Module.DropsUnused (m : Module) : Module → Prop where
  | shared {before after : List Item} {op : Operation}
      (hitems : m.items = before ++ .ofOperation op :: after)
      (hunused : op.UnusedIn m.allOperations) :
      m.DropsUnused { m with items := before ++ after }
  | inClass {before after : List Item} {c : ClassDecl} {first last : List Operation}
      {op : Operation} (hitems : m.items = before ++ .ofClass c :: after)
      (hbody : c.body = first ++ op :: last) (hvalue : op.action.isField = false)
      (hunused : op.UnusedIn c.body) :
      m.DropsUnused
        { m with items := before ++ .ofClass { c with body := first ++ last } :: after }

namespace Module

variable {m m' : Module}

theorem trims_of_shared {before after : List Item} {op : Operation}
    (hitems : m.items = before ++ .ofOperation op :: after)
    (hunused : op.UnusedIn m.allOperations) : m.Trims { m with items := before ++ after } where
  file := rfl
  symbols := by
    rw [symbols, symbols, hitems, List.filterMap_append, List.filterMap_append]
    rfl
  hardware := by
    rw [hardware, hardware, hitems, List.filterMap_append, List.filterMap_append]
    rfl
  operations := by
    rw [operations, operations]
    dsimp only
    rw [congrArg (List.filterMap _) hitems, List.filterMap_append, List.filterMap_append]
    exact .drop_one hunused _ _
  classes := by
    have hclasses : { m with items := before ++ after }.classes = m.classes := by
      rw [classes, classes, hitems, List.filterMap_append, List.filterMap_append]
      rfl
    rw [hclasses, List.forall₂_same]
    exact fun c _ => .refl c

theorem trims_of_inClass {before after : List Item} {c : ClassDecl} {first last : List Operation}
    {op : Operation} (hitems : m.items = before ++ .ofClass c :: after)
    (hbody : c.body = first ++ op :: last) (hvalue : op.action.isField = false)
    (hunused : op.UnusedIn c.body) :
    m.Trims { m with items := before ++ .ofClass { c with body := first ++ last } :: after } where
  file := rfl
  symbols := by
    rw [symbols, symbols, hitems, List.filterMap_append, List.filterMap_append]
    rfl
  hardware := by
    rw [hardware, hardware, hitems, List.filterMap_append, List.filterMap_append]
    rfl
  operations := by
    rw [operations, operations, hitems, List.filterMap_append, List.filterMap_append]
    exact .refl _ _
  classes := by
    have hclass : c.Trims { c with body := first ++ last } := by
      refine ⟨rfl, rfl, rfl, ?_, ?_⟩
      · simp [hbody, hvalue]
      · rw [hbody] at hunused ⊢
        exact .drop_one hunused _ _
    rw [classes, classes, hitems, List.filterMap_append, List.filterMap_append]
    refine List.rel_append ?_ (.cons hclass ?_)
    · exact List.forall₂_same.2 fun c _ => .refl c
    · exact List.forall₂_same.2 fun c _ => .refl c

theorem DropsUnused.trims (h : m.DropsUnused m') : m.Trims m' := by
  cases h with
  | shared hitems hunused => exact trims_of_shared hitems hunused
  | inClass hitems hbody hvalue hunused => exact trims_of_inClass hitems hbody hvalue hunused

end Module

/-- **Values that nothing uses have no effect**: without one operation that is not used, an
accepted module is accepted, and calls on it end in the same errors or in the same objects.
Behind the objects stand the same classes, in so far as they have the same headers and fields; and
the very same ones, when the operation was one of no class. -/
theorem Registry.instantiate_eq_of_dropsUnused {m m' : Module} {quote : Nat → String}
    {r : Registry} (hbuild : Registry.build m quote = .ok r) (hdrops : m.DropsUnused m')
    (quote' : Nat → String) :
    ∃ r', Registry.build m' quote' = .ok r' ∧ ∀ maxDepth name actuals,
      (r'.instantiate maxDepth name actuals).map (Except.map (Object.mapClass Class.outline)) =
          (r.instantiate maxDepth name actuals).map (Except.map (Object.mapClass Class.outline)) ∧
        (m'.classes = m.classes →
          r'.instantiate maxDepth name actuals = r.instantiate maxDepth name actuals) := by
  obtain ⟨hm, rfl⟩ := Registry.build_eq_ok_iff.1 hbuild
  have htrims := hdrops.trims
  have hm' := htrims.wellFormed hm
  refine ⟨ofModule m', Registry.build_eq_ok_iff.2 ⟨hm', rfl⟩, fun maxDepth name actuals => ?_⟩
  refine ⟨?_, fun hclasses => ?_⟩
  · refine (htrims.narrows ?_).instantiate (f := Class.outline) (fun _ => rfl) hm hm' _ _ _
    refine htrims.classes.imp fun c c' hcc => ?_
    obtain ⟨hname, hparams, hspan, hfields, -⟩ := hcc
    simp only [Class.outline, hname, hparams, hspan, hfields]
  · refine (htrims.narrows (f := id) ?_).instantiate_eq hm hm' _ _ _
    rw [hclasses]
    exact List.forall₂_same.2 fun c _ => rfl

/-- A reference to a part that is declared nowhere. -/
def Operation.lostPart : Operation :=
  ⟨some ⟨"part", default⟩, .constant (.ref ⟨["Part"]⟩) .ref, default⟩

/-- A box that shows its label, with some operations before. -/
def ClassDecl.labelled (before : List Operation) : ClassDecl where
  name := ⟨"Box", default⟩
  params := []
  body := before ++ [⟨none, .field ⟨"label", default⟩ ⟨"label", default⟩ .string, default⟩]
  span := default

/-- A label that is shared, and a box that shows it. -/
def Module.labelled (before : List Operation) : Module where
  file := "box.mlir"
  items := [.ofOperation ⟨some ⟨"label", default⟩, .constant (.string "red") .string, default⟩,
    .ofClass (.labelled before)]
  span := default

/-- The lost part cannot be evaluated, and with or without it the same box is made. -/
theorem Registry.instantiate_labelled_drops_lostPart :
    Registry.build (Module.labelled [.lostPart]) (fun _ => "") =
      .ok (ofModule (Module.labelled [.lostPart])) ∧
    (Module.labelled [.lostPart]).DropsUnused (Module.labelled []) ∧
    ((Eval.constant (ofModule (Module.labelled [.lostPart])) .unknown (.ref ⟨["Part"]⟩)
      .ref).run.run {}).map Prod.fst = some (.error (.symbolResolution ⟨["Part"]⟩ .unknown)) ∧
    ∃ o o', (ofModule (Module.labelled [.lostPart])).instantiate 8 "Box" [] = some (.ok o) ∧
      (ofModule (Module.labelled [])).instantiate 8 "Box" [] = some (.ok o') ∧
      o'.mapClass Class.outline = o.mapClass Class.outline := by
  have hbuild : Registry.build (Module.labelled [.lostPart]) (fun _ => "") =
      .ok (ofModule (Module.labelled [.lostPart])) := rfl
  have hdrops : (Module.labelled [.lostPart]).DropsUnused (Module.labelled []) := by
    have hitems : (Module.labelled [.lostPart]).items =
        [.ofOperation ⟨some ⟨"label", default⟩, .constant (.string "red") .string, default⟩] ++
          .ofClass (.labelled [.lostPart]) :: [] := rfl
    have hbody : (ClassDecl.labelled [.lostPart]).body =
        [] ++ Operation.lostPart :: (ClassDecl.labelled []).body := rfl
    refine .inClass hitems hbody rfl ?_
    intro x hdef hx
    obtain rfl : "part" = x := by simpa [Operation.defines, Operation.lostPart] using hdef
    obtain ⟨op, hop, y, hy, hname⟩ := hx
    rcases List.mem_cons.1 hop with rfl | hop
    · cases hy
    · obtain rfl := List.mem_singleton.1 hop
      obtain rfl := List.mem_singleton.1 hy
      exact absurd hname (by decide)
  obtain ⟨r', hr', hsame⟩ := Registry.instantiate_eq_of_dropsUnused hbuild hdrops fun _ => ""
  obtain ⟨-, rfl⟩ := Registry.build_eq_ok_iff.1 hr'
  refine ⟨hbuild, hdrops, rfl, _, _, rfl, rfl, ?_⟩
  exact Except.ok.inj (Option.some.inj (hsame 8 "Box" []).1)

end ObjectModel
