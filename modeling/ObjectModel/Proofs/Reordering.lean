/-
**The order of declarations.**

Classes and hardware modules are found by their names, so it makes no difference in which order they
stand, or where between the shared values.  Only the order of the shared values themselves counts,
which have to be defined before they are used.

Main definitions:

* `Module.Reorders` — the same items in another order, the shared values in the same one.

Main results:

* `Module.Reorders.wellFormed` — another order keeps modules well formed;
* `Registry.class?_eq_some_iff` — where names are distinct, a class is found wherever it stands;
* `Registry.instantiate_eq_of_reorders` — **another order changes neither the verdict on a module
  nor the result of a call**.
-/

import ObjectModel.Proofs.Narrowing

set_option relaxedAutoImplicit false
set_option autoImplicit false

namespace ObjectModel

/-- The module `m'` has the items of the module `m` in another order, but the shared values in the
same one. -/
structure Module.Reorders (m m' : Module) : Prop where
  file : m'.file = m.file
  items : m'.items.Perm m.items
  operations : m'.operations = m.operations

namespace Module.Reorders

variable {m m' : Module}

theorem symm (h : m.Reorders m') : m'.Reorders m :=
  ⟨h.file.symm, h.items.symm, h.operations.symm⟩

theorem classes (h : m.Reorders m') : m'.classes.Perm m.classes := h.items.filterMap _

theorem hardware (h : m.Reorders m') : m'.hardware.Perm m.hardware := h.items.filterMap _

theorem symbols (h : m.Reorders m') : m'.symbols.Perm m.symbols := h.items.filterMap _

theorem mem_classes (h : m.Reorders m') {c : ClassDecl} : c ∈ m'.classes ↔ c ∈ m.classes :=
  h.classes.mem_iff

/-- The same classes make objects of each other. -/
theorem makes (h : m.Reorders m') : m'.Makes = m.Makes := by
  funext x y
  simp only [Module.Makes, h.mem_classes]

/-- **Another order keeps modules well formed.** -/
theorem wellFormed (h : m.Reorders m') (hm : m.WellFormed) : m'.WellFormed where
  nodup_symbols := ((h.symbols.map _).nodup_iff).2 hm.nodup_symbols
  no_objects := h.operations ▸ hm.no_objects
  nodup_values := h.operations ▸ hm.nodup_values
  usesEarlier := h.operations ▸ hm.usesEarlier
  classes := by
    intro c hc
    have hwf := hm.classes c (h.mem_classes.1 hc)
    refine ⟨hwf.nodup_values, hwf.nodup_fields, h.operations ▸ hwf.usesEarlier, ?_⟩
    intro op hop target actuals operandTys ty hact
    obtain ⟨d, hd, hfits⟩ := hwf.objects op hop target actuals operandTys ty hact
    exact ⟨d, h.mem_classes.2 hd, hfits⟩
  acyclic := h.makes ▸ hm.acyclic

end Module.Reorders

/-- Where names are distinct, a class is found by its name wherever it stands. -/
theorem Registry.class?_eq_some_iff {m : Module} (hm : m.WellFormed) {name : String} {c : Class} :
    (ofModule m).class? name = some c ↔ c ∈ (ofModule m).classes ∧ c.name.name = name := by
  constructor
  · exact fun h => ⟨List.mem_of_find?_eq_some h, (mem_of_class? h).2⟩
  · rintro ⟨hc, rfl⟩
    obtain ⟨d, hd, rfl⟩ := List.mem_map.1 hc
    cases hcls : (ofModule m).class? d.name.name with
    | none => exact absurd rfl (class?_eq_none_iff.1 hcls d hd)
    | some e =>
        obtain ⟨he, hname⟩ := mem_of_class? hcls
        obtain ⟨e', -, rfl⟩ := List.mem_map.1 (List.mem_of_find?_eq_some hcls)
        rw [show e' = d from hm.eq_of_name he hd hname]

/-- Evaluation looks at the same in whatever order it stands. -/
theorem Module.Reorders.narrows {m m' : Module} (h : m.Reorders m') (hm : m.WellFormed) :
    (Registry.ofModule m).Narrows id (Registry.ofModule m') := by
  have hclasses : (Registry.ofModule m').classes.Perm (Registry.ofModule m).classes := by
    rw [Registry.ofModule, Registry.ofModule, h.file]
    exact h.classes.map _
  refine ⟨h.file, Registry.declares_congr h.hardware (hclasses.map _), fun name => ?_, ?_⟩
  · have hfind : (Registry.ofModule m').class? name = (Registry.ofModule m).class? name := by
      refine Option.ext fun c => ?_
      rw [Registry.class?_eq_some_iff hm, Registry.class?_eq_some_iff (h.wellFormed hm),
        hclasses.mem_iff]
    rw [hfind]
    cases (Registry.ofModule m).class? name with
    | none => exact .none
    | some c => exact .some (.refl id c)
  · intro x _
    rw [Registry.value?, Registry.ofModule, h.operations]
    rfl

/-- **Declaration order does not matter**: of a module whose items are put in another order, with
the shared values in the same one, the check thinks what it thinks of the module itself; and when
both are accepted, every call ends in the same result on both. -/
theorem Registry.instantiate_eq_of_reorders {m m' : Module} (h : m.Reorders m')
    (quote quote' : Nat → String) :
    ((∃ r, Registry.build m quote = .ok r) ↔ ∃ r', Registry.build m' quote' = .ok r') ∧
    ∀ r r', Registry.build m quote = .ok r → Registry.build m' quote' = .ok r' →
      ∀ maxDepth name actuals,
        r'.instantiate maxDepth name actuals = r.instantiate maxDepth name actuals := by
  refine ⟨?_, fun r r' hr hr' maxDepth name actuals => ?_⟩
  · simp only [Registry.build_eq_ok_iff, exists_and_left, exists_eq, and_true]
    exact ⟨h.wellFormed, h.symm.wellFormed⟩
  · obtain ⟨hm, rfl⟩ := Registry.build_eq_ok_iff.1 hr
    obtain ⟨hm', rfl⟩ := Registry.build_eq_ok_iff.1 hr'
    exact (h.narrows hm).instantiate_eq hm hm' maxDepth name actuals

/-- A hardware module, a text that is shared, a label that shows it, and a box with a label and a
reference to the hardware module, in some order. -/
def Module.shelf (order : List Item → List Item) : Module where
  file := "shelf.mlir"
  items := order [
    .ofHardware ⟨⟨"Core", default⟩, [], default⟩,
    .ofOperation ⟨some ⟨"text", default⟩, .constant (.string "red") .string, default⟩,
    .ofClass {
      name := ⟨"Label", default⟩
      params := []
      body := [⟨none, .field ⟨"text", default⟩ ⟨"text", default⟩ .string, default⟩]
      span := default },
    .ofClass {
      name := ⟨"Box", default⟩
      params := []
      body := [
        ⟨some ⟨"core", default⟩, .constant (.ref ⟨["Core"]⟩) .ref, default⟩,
        ⟨some ⟨"label", default⟩, .object ⟨"Label", default⟩ [] [] (.object "Label"), default⟩,
        ⟨none, .field ⟨"core", default⟩ ⟨"core", default⟩ .ref, default⟩,
        ⟨none, .field ⟨"label", default⟩ ⟨"label", default⟩ (.object "Label"), default⟩]
      span := default }]
  span := default

/-- The box comes before everything that it needs, and the same box is made. -/
theorem Registry.instantiate_shelf_reversed :
    (Module.shelf id).Reorders (Module.shelf List.reverse) ∧
    Registry.build (Module.shelf id) (fun _ => "") = .ok (ofModule (Module.shelf id)) ∧
    Registry.build (Module.shelf List.reverse) (fun _ => "") =
      .ok (ofModule (Module.shelf List.reverse)) ∧
    ∃ o, (ofModule (Module.shelf id)).instantiate 8 "Box" [] = some (.ok o) ∧
      (ofModule (Module.shelf List.reverse)).instantiate 8 "Box" [] = some (.ok o) := by
  have horder : (Module.shelf id).Reorders (Module.shelf List.reverse) :=
    ⟨rfl, List.reverse_perm _, rfl⟩
  obtain ⟨hverdict, hsame⟩ :=
    Registry.instantiate_eq_of_reorders horder (fun _ => "") (fun _ => "")
  have hbuild : Registry.build (Module.shelf id) (fun _ => "") =
      .ok (ofModule (Module.shelf id)) := rfl
  obtain ⟨r', hr'⟩ := hverdict.1 ⟨_, hbuild⟩
  obtain ⟨-, rfl⟩ := Registry.build_eq_ok_iff.1 hr'
  refine ⟨horder, hbuild, hr', _, rfl, ?_⟩
  exact hsame _ _ hbuild hr' 8 "Box" []

end ObjectModel
