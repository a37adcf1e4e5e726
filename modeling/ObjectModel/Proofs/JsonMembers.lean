/-
**JSON merges nothing.**

The entries of a map and the fields of an object become the members of a JSON object, and there a
name that comes again takes the place of what it named before.  That happens to no value that
evaluation makes: the keys of a map are different and of one kind, whole numbers that are different
are written differently, and the fields of an object have different names.  So at every level there
is one member for each entry or field, and one element for each element, in their order.

Main definitions:

* `Value.Tabular` — the maps and objects in a value are tables, with keys of one kind;
* `Value.AsJson` — a JSON value has a part for each part of a value, and nothing else.

Main results:

* `Key.eq_of_memberName` — keys of one kind have different names;
* `Entries.ofList_of_nodup` — a table is what was written, if no key was written twice;
* `Value.asJson_toJson` — nothing of a table is merged;
* `Registry.toJson_merges_nothing` — **nothing of an object is merged that a call makes**.
-/

import ObjectModel.Proofs.Spelling
import ObjectModel.Proofs.WellFormedValue

set_option relaxedAutoImplicit false
set_option autoImplicit false

namespace ObjectModel

/-! ### Names of members -/

/-- Keys of one kind are the same if their members have the same name. -/
theorem Key.eq_of_memberName {k l : Key} (hkind : k.kind = l.kind)
    (h : k.memberName = l.memberName) : k = l := by
  cases k with
  | integer a =>
      cases l with
      | integer b =>
          have hread : Decimal.int64? (toString a.toInt) = Decimal.int64? (toString b.toInt) :=
            congrArg Decimal.int64? h
          rw [Decimal.int64?_toString, Decimal.int64?_toString] at hread
          rw [Option.some.inj hread]
      | string t => cases hkind
  | string s =>
      cases l with
      | integer b => cases hkind
      | string t => exact congrArg Key.string h

/-- Different keys of one kind give members of different names. -/
theorem Key.nodup_memberNames {kind : KeyKind} {ks : List Key} (hnodup : ks.Nodup)
    (hkind : ∀ k ∈ ks, k.kind = kind) : (ks.map Key.memberName).Nodup :=
  hnodup.map_on fun k hk l hl => Key.eq_of_memberName ((hkind k hk).trans (hkind l hl).symm)

namespace Entries

variable {κ α : Type} [DecidableEq κ]

/-- A new key goes to the end. -/
theorem insert_of_not_mem {k : κ} {es : List (κ × α)} (h : k ∉ keys es) (v : α) :
    insert k v es = es ++ [(k, v)] := by
  induction es with
  | nil => rfl
  | cons e es ih =>
      rw [keys_cons, List.mem_cons, not_or] at h
      rw [insert, if_neg (Ne.symm h.1), ih h.2, List.cons_append]

/-- If no key is written twice, a table is what was written. -/
theorem ofList_of_nodup {es : List (κ × α)} (h : (keys es).Nodup) : ofList es = es := by
  have hfold : ∀ (es t : List (κ × α)), (keys (t ++ es)).Nodup →
      es.foldl (fun t e => insert e.1 e.2 t) t = t ++ es := by
    intro es
    induction es with
    | nil => exact fun t _ => (List.append_nil t).symm
    | cons e es ih =>
        intro t ht
        have hnew : e.1 ∉ keys t := by
          rw [keys, List.map_append] at ht
          exact fun hmem => (List.nodup_append.1 ht).2.2 _ hmem _ List.mem_cons_self rfl
        rw [List.append_cons] at ht ⊢
        rw [List.foldl_cons, insert_of_not_mem hnew]
        exact ih _ ht
  exact hfold es [] h

end Entries

/-! ### Tables -/

namespace Value

/-- The maps in the value have different keys, all of the kind of the map, and the objects in it
have the fields of their classes, which have different names. -/
inductive Tabular : Value → Prop where
  | integer (n : Int64) : Tabular (.integer n)
  | string (s : String) : Tabular (.string s)
  | list {ty : Ty} {vs : List Value} (helements : ∀ v ∈ vs, Tabular v) : Tabular (.list ty vs)
  | tuple {vs : List Value} (helements : ∀ v ∈ vs, Tabular v) : Tabular (.tuple vs)
  | map {k : KeyKind} {ty : Ty} {es : List (Key × Value)} (hnodup : (Entries.keys es).Nodup)
      (hkind : ∀ key ∈ Entries.keys es, key.kind = k) (hvalues : ∀ e ∈ es, Tabular e.2) :
      Tabular (.map k ty es)
  | object {c : Class} {fields : List (String × Value)}
      (hfields : Entries.keys fields = c.fields.map fun f => f.name.name)
      (hnodup : (Entries.keys fields).Nodup) (hvalues : ∀ e ∈ fields, Tabular e.2) :
      Tabular (.object c fields)
  | ref (p : SymbolPath) : Tabular (.ref p)

theorem Tabular.hereditary (m : Module) : Hereditary m Tabular where
  integer := .integer
  string := .string
  list := .list
  tuple := .tuple
  map := .map
  object _ := .object
  ref {p} _ := .ref p
  of_pair h := by
    cases h with
    | tuple helements => exact helements _ (by simp)

/-- The JSON value has one part for each part of the value: an array has its elements, in order,
and an object has a member for each entry or field, in order, under names that are all
different. -/
inductive AsJson : Value → Json → Prop where
  | integer (n : Int64) : AsJson (.integer n) (.number n.toInt)
  | string (s : String) : AsJson (.string s) (.string s)
  | list {ty : Ty} {vs : List Value} {js : List Json} (helements : List.Forall₂ AsJson vs js) :
      AsJson (.list ty vs) (.array js)
  | tuple {vs : List Value} {js : List Json} (helements : List.Forall₂ AsJson vs js) :
      AsJson (.tuple vs) (.array js)
  | map {k : KeyKind} {ty : Ty} {es : List (Key × Value)} {ms : List (String × Json)}
      (hnames : Entries.keys ms = (Entries.keys es).map Key.memberName)
      (hnodup : (Entries.keys ms).Nodup)
      (hvalues : List.Forall₂ AsJson (es.map Prod.snd) (ms.map Prod.snd)) :
      AsJson (.map k ty es) (.object ms)
  | object {c : Class} {fields : List (String × Value)} {ms : List (String × Json)}
      (hnames : Entries.keys ms = Entries.keys fields)
      (hfields : Entries.keys fields = c.fields.map fun f => f.name.name)
      (hnodup : (Entries.keys ms).Nodup)
      (hvalues : List.Forall₂ AsJson (fields.map Prod.snd) (ms.map Prod.snd)) :
      AsJson (.object c fields) (.object ms)
  | ref (p : SymbolPath) : AsJson (.ref p) (.array (p.segments.map Json.string))

theorem keys_entryMembers (es : List (Key × Value)) :
    Entries.keys (entryMembers es) = (Entries.keys es).map Key.memberName := by
  induction es with
  | nil => rfl
  | cons e es ih => rw [entryMembers, Entries.keys_cons, ih, Entries.keys_cons, List.map_cons]

theorem keys_fieldMembers (fields : List (String × Value)) :
    Entries.keys (fieldMembers fields) = Entries.keys fields := by
  induction fields with
  | nil => rfl
  | cons e es ih => rw [fieldMembers, Entries.keys_cons, ih, Entries.keys_cons]

mutual

/-- Nothing of a table is merged. -/
theorem asJson_toJson : ∀ v : Value, v.Tabular → v.AsJson v.toJson
  | integer n, _ => .integer n
  | string s, _ => .string s
  | list ty vs, h => by
      cases h with
      | list helements => exact .list (asJson_jsons vs helements)
  | tuple vs, h => by
      cases h with
      | tuple helements => exact .tuple (asJson_jsons vs helements)
  | map k ty es, h => by
      cases h with
      | map hnodup hkind hvalues =>
          have hnames : (Entries.keys (entryMembers es)).Nodup := by
            rw [keys_entryMembers]
            exact Key.nodup_memberNames hnodup hkind
          rw [toJson, Json.ofMembers, Entries.ofList_of_nodup hnames]
          exact .map (keys_entryMembers es) hnames (asJson_entryMembers es hvalues)
  | object c fields, h => by
      cases h with
      | object hfields hnodup hvalues =>
          have hnames : (Entries.keys (fieldMembers fields)).Nodup := by
            rwa [keys_fieldMembers]
          rw [toJson, Json.ofMembers, Entries.ofList_of_nodup hnames]
          exact .object (keys_fieldMembers fields) hfields hnames
            (asJson_fieldMembers fields hvalues)
  | ref p, _ => .ref p

theorem asJson_jsons : ∀ vs : List Value, (∀ v ∈ vs, v.Tabular) →
    List.Forall₂ AsJson vs (jsons vs)
  | [], _ => .nil
  | v :: vs, h => by
      obtain ⟨hv, hvs⟩ := List.forall_mem_cons.1 h
      exact .cons (asJson_toJson v hv) (asJson_jsons vs hvs)

theorem asJson_entryMembers : ∀ es : List (Key × Value), (∀ e ∈ es, e.2.Tabular) →
    List.Forall₂ AsJson (es.map Prod.snd) ((entryMembers es).map Prod.snd)
  | [], _ => .nil
  | (k, v) :: es, h => by
      obtain ⟨hv, hes⟩ := List.forall_mem_cons.1 h
      exact .cons (asJson_toJson v hv) (asJson_entryMembers es hes)

theorem asJson_fieldMembers : ∀ fields : List (String × Value), (∀ e ∈ fields, e.2.Tabular) →
    List.Forall₂ AsJson (fields.map Prod.snd) ((fieldMembers fields).map Prod.snd)
  | [], _ => .nil
  | (n, v) :: fields, h => by
      obtain ⟨hv, hfields⟩ := List.forall_mem_cons.1 h
      exact .cons (asJson_toJson v hv) (asJson_fieldMembers fields hfields)

end

end Value

/-! ### Objects -/

/-- **Nothing of an object is merged that a call makes.**  When the maps and objects in the values
for the parameters are tables, an object that a call on an accepted module makes has at every level
one member for each entry or field and one element for each element, in their order, and no two
members of one name. -/
theorem Registry.toJson_merges_nothing {m : Module} {quote : Nat → String} {r : Registry}
    (hbuild : Registry.build m quote = .ok r) {maxDepth : Nat} {name : String}
    {actuals : List Value} (hactuals : ∀ v ∈ actuals, v.Tabular) {o : Object}
    (h : r.instantiate maxDepth name actuals = some (.ok o)) :
    o.toValue.AsJson o.toJson ∧ r.class? name = some o.cls := by
  obtain ⟨hm, rfl⟩ := Registry.build_eq_ok_iff.1 hbuild
  obtain ⟨htabular, hclass, -⟩ := (Value.Tabular.hereditary m).of_instantiate hm hactuals h
  exact ⟨Value.asJson_toJson _ htabular, hclass⟩

/-- A shelf has labels, which are counted, and a box under a number. -/
def Module.counted : Module where
  file := "shelf.mlir"
  span := default
  items := [
    .ofClass {
      name := ⟨"Box", default⟩
      params := []
      body := [
        ⟨some ⟨"size", default⟩, .constant (.integer 4) .integer, default⟩,
        ⟨none, .field ⟨"size", default⟩ ⟨"size", default⟩ .integer, default⟩]
      span := default },
    .ofClass {
      name := ⟨"Shelf", default⟩
      params := [⟨⟨"labels", default⟩, .map .string .integer, default⟩]
      body := [
        ⟨some ⟨"one", default⟩, .constant (.integer 1) .integer, default⟩,
        ⟨some ⟨"box", default⟩, .object ⟨"Box", default⟩ [] [] (.object "Box"), default⟩,
        ⟨some ⟨"pair", default⟩, .tupleCreate [⟨"one", default⟩, ⟨"box", default⟩]
          [.integer, .object "Box"], default⟩,
        ⟨some ⟨"map", default⟩, .mapCreate [⟨"pair", default⟩] .integer (.object "Box"), default⟩,
        ⟨none, .field ⟨"labels", default⟩ ⟨"labels", default⟩ (.map .string .integer), default⟩,
        ⟨none, .field ⟨"boxes", default⟩ ⟨"map", default⟩ (.map .integer (.object "Box")),
          default⟩]
      span := default }]

/-- The labels of a shelf are two members, although both could be read as one number. -/
theorem Registry.toJson_counted_merges_nothing :
    Registry.build Module.counted (fun _ => "") = .ok (ofModule Module.counted) ∧
    ∃ labels : Value,
      labels = .map .string .integer [(.string "1", .integer 3), (.string "01", .integer 5)] ∧
      (∀ v ∈ [labels], v.Tabular) ∧
      ∃ o, (ofModule Module.counted).instantiate 8 "Shelf" [labels] = some (.ok o) ∧
        o.toValue.AsJson o.toJson ∧
        o.toJson.member? "labels" = some (.object [("1", .number 3), ("01", .number 5)]) ∧
        o.toJson.member? "boxes" = some (.object [("1", .object [("size", .number 4)])]) := by
  have hbuild : Registry.build Module.counted (fun _ => "") = .ok (ofModule Module.counted) := rfl
  let labels : Value :=
    .map .string .integer [(.string "1", .integer 3), (.string "01", .integer 5)]
  have hlabels : ∀ v ∈ [labels], v.Tabular := by
    intro v hv
    obtain rfl := List.mem_singleton.1 hv
    refine .map (by simp) (by simp [Key.kind]) fun e he => ?_
    rcases List.mem_pair.1 he with rfl | rfl <;> exact .integer _
  have hshelf : (ofModule Module.counted).instantiate 8 "Shelf" [labels] = some (.ok _) := rfl
  obtain ⟨hjson, -⟩ := Registry.toJson_merges_nothing hbuild hlabels hshelf
  exact ⟨hbuild, labels, rfl, hlabels, _, hshelf, hjson, rfl, rfl⟩

end ObjectModel
