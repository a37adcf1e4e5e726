/-
**Values with other classes behind their objects.**

An object knows its class, and with it the operations that its values came from.  Evaluation looks
at no more of that class than its name.  So when the class behind every object inside of a value
is exchanged for another one of the same name, what is made of the value is exchanged in the same
way, and nothing else is different.

Main definitions:

* `Value.mapClass`, `Object.mapClass` — a value with other classes behind its objects;
* `Entries.mapClass` — a table of such values;
* `Class.outline` — what is left of a class when only the operations that declare its fields are
  kept.

Main results:

* `Value.mapClass_id` — with the same classes it is the same value;
* `Value.same_mapClass` — with classes of the same names it counts as equal;
* `Entries.lookup_mapClass`, `Entries.insert_mapClass`, `Entries.ofList_mapClass` — tables;
* `Eval.checkActuals_mapClass`, `Eval.buildMap_mapClass` — what is made of such values.
-/

import ObjectModel.Proofs.SameActuals

set_option relaxedAutoImplicit false
set_option autoImplicit false

namespace ObjectModel

/-! ### Classes -/

/-- A class without the operations that declare no field. -/
def Class.outline (c : Class) : Class :=
  { c with body := c.body.filter fun op => op.action.isField }

/-! ### Values -/

namespace Value

mutual

/-- A value with another class behind each object in it. -/
def mapClass (f : Class → Class) : Value → Value
  | integer n => integer n
  | string s => string s
  | list ty vs => list ty (mapClassAll f vs)
  | tuple vs => tuple (mapClassAll f vs)
  | map k ty es => map k ty (mapClassEntries f es)
  | object c fs => object (f c) (mapClassFields f fs)
  | ref p => ref p

/-- Each of several values, with other classes. -/
def mapClassAll (f : Class → Class) : List Value → List Value
  | [] => []
  | v :: vs => mapClass f v :: mapClassAll f vs

/-- The entries of a map, with other classes. -/
def mapClassEntries (f : Class → Class) : List (Key × Value) → List (Key × Value)
  | [] => []
  | (k, v) :: es => (k, mapClass f v) :: mapClassEntries f es

/-- The fields of an object, with other classes. -/
def mapClassFields (f : Class → Class) : List (String × Value) → List (String × Value)
  | [] => []
  | (n, v) :: fs => (n, mapClass f v) :: mapClassFields f fs

end

end Value

/-- A table of values, with other classes. -/
def Entries.mapClass {κ : Type} (f : Class → Class) (es : List (κ × Value)) : List (κ × Value) :=
  es.map fun e => (e.1, e.2.mapClass f)

/-- An object with other classes. -/
def Object.mapClass (f : Class → Class) (o : Object) : Object where
  cls := f o.cls
  fields := Entries.mapClass f o.fields

namespace Value

variable {f : Class → Class}

theorem mapClassAll_eq (vs : List Value) : mapClassAll f vs = vs.map (mapClass f) := by
  induction vs with
  | nil => rfl
  | cons v vs ih => rw [mapClassAll, ih, List.map_cons]

theorem mapClassEntries_eq (es : List (Key × Value)) :
    mapClassEntries f es = Entries.mapClass f es := by
  induction es with
  | nil => rfl
  | cons e es ih => rw [mapClassEntries, ih]; rfl

theorem mapClassFields_eq (fs : List (String × Value)) :
    mapClassFields f fs = Entries.mapClass f fs := by
  induction fs with
  | nil => rfl
  | cons e fs ih => rw [mapClassFields, ih]; rfl

mutual

/-- With the same classes it is the same value. -/
theorem mapClass_id : ∀ v : Value, mapClass id v = v
  | integer _ | string _ | ref _ => rfl
  | list _ vs => by rw [mapClass, mapClassAll_id vs]
  | tuple vs => by rw [mapClass, mapClassAll_id vs]
  | map _ _ es => by rw [mapClass, mapClassEntries_id es]
  | object _ fs => by rw [mapClass, mapClassFields_id fs, id]

theorem mapClassAll_id : ∀ vs : List Value, mapClassAll id vs = vs
  | [] => rfl
  | v :: vs => by rw [mapClassAll, mapClass_id v, mapClassAll_id vs]

theorem mapClassEntries_id : ∀ es : List (Key × Value), mapClassEntries id es = es
  | [] => rfl
  | (k, v) :: es => by rw [mapClassEntries, mapClass_id v, mapClassEntries_id es]

theorem mapClassFields_id : ∀ fs : List (String × Value), mapClassFields id fs = fs
  | [] => rfl
  | (n, v) :: fs => by rw [mapClassFields, mapClass_id v, mapClassFields_id fs]

end

mutual

/-- With classes of the same names it counts as equal. -/
theorem same_mapClass (hf : ∀ c, (f c).name = c.name) :
    ∀ v : Value, same (mapClass f v) v = true
  | integer _ | string _ | ref _ => by simp [mapClass, same]
  | list _ vs => by simp [mapClass, same, sameAll_mapClass hf vs]
  | tuple vs => by simp [mapClass, same, sameAll_mapClass hf vs]
  | map _ _ es => by simp [mapClass, same, sameEntries_mapClass hf es]
  | object c fs => by simp [mapClass, same, sameFields_mapClass hf fs, hf c]

theorem sameAll_mapClass (hf : ∀ c, (f c).name = c.name) :
    ∀ vs : List Value, sameAll (mapClassAll f vs) vs = true
  | [] => rfl
  | v :: vs => by simp [mapClassAll, sameAll, same_mapClass hf v, sameAll_mapClass hf vs]

theorem sameEntries_mapClass (hf : ∀ c, (f c).name = c.name) :
    ∀ es : List (Key × Value), sameEntries (mapClassEntries f es) es = true
  | [] => rfl
  | (k, v) :: es => by
      simp [mapClassEntries, sameEntries, same_mapClass hf v, sameEntries_mapClass hf es]

theorem sameFields_mapClass (hf : ∀ c, (f c).name = c.name) :
    ∀ fs : List (String × Value), sameFields (mapClassFields f fs) fs = true
  | [] => rfl
  | (n, v) :: fs => by
      simp [mapClassFields, sameFields, same_mapClass hf v, sameFields_mapClass hf fs]

end

end Value

/-- An object with other classes, as a value. -/
theorem Object.toValue_mapClass (f : Class → Class) (o : Object) :
    (o.mapClass f).toValue = o.toValue.mapClass f := by
  rw [toValue, toValue, Value.mapClass, Value.mapClassFields_eq]
  rfl

theorem Object.mapClass_id (o : Object) : o.mapClass id = o := by
  have h := o.toValue_mapClass id
  rw [Value.mapClass_id] at h
  simpa using congrArg ofValue? h

/-! ### Tables -/

namespace Entries

variable {κ : Type} {f : Class → Class}

theorem keys_mapClass (es : List (κ × Value)) : keys (mapClass f es) = keys es := by
  rw [keys, keys, mapClass, List.map_map]
  rfl

theorem zip_mapClass (names : List κ) (vs : List Value) :
    names.zip (vs.map (Value.mapClass f)) = mapClass f (names.zip vs) :=
  List.zip_map_right

variable [DecidableEq κ]

theorem lookup_mapClass (es : List (κ × Value)) (k : κ) :
    (mapClass f es).lookup k = (es.lookup k).map (Value.mapClass f) := by
  induction es with
  | nil => rfl
  | cons e es ih =>
      rw [mapClass, List.map_cons, List.lookup_cons, List.lookup_cons]
      split
      · rfl
      · exact ih

/-- Tables that are the same with other classes have the same values under a key, with these. -/
theorem rel_lookup_of_mapClass {es es' : List (κ × Value)} (h : mapClass f es' = mapClass f es)
    (k : κ) :
    Option.Rel (fun v w => w.mapClass f = v.mapClass f) (es.lookup k) (es'.lookup k) := by
  have hlookup : (es'.lookup k).map (Value.mapClass f) = (es.lookup k).map (Value.mapClass f) := by
    rw [← lookup_mapClass, ← lookup_mapClass, h]
  cases hv : es.lookup k with
  | none =>
      rw [hv, Option.map_none, Option.map_eq_none_iff] at hlookup
      rw [hlookup]
      exact .none
  | some v =>
      obtain ⟨w, hw, hvw⟩ := Option.map_eq_some_iff.1 (hlookup.trans (by rw [hv]; rfl))
      rw [hw]
      exact .some hvw

theorem insert_mapClass (k : κ) (v : Value) (es : List (κ × Value)) :
    insert k (v.mapClass f) (mapClass f es) = mapClass f (insert k v es) := by
  induction es with
  | nil => rfl
  | cons e es ih =>
      obtain ⟨j, w⟩ := e
      rw [mapClass, List.map_cons, insert, insert]
      split
      · rfl
      · exact congrArg _ ih

theorem ofList_mapClass (es : List (κ × Value)) :
    ofList (mapClass f es) = mapClass f (ofList es) := by
  have hfold : ∀ t, (mapClass f es).foldl (fun t e => insert e.1 e.2 t) (mapClass f t) =
      mapClass f (es.foldl (fun t e => insert e.1 e.2 t) t) := by
    induction es with
    | nil => exact fun _ => rfl
    | cons e es ih =>
        intro t
        rw [List.foldl_cons, ← ih, ← insert_mapClass]
        rfl
  exact hfold []

end Entries

/-! ### What is made of such values -/

namespace Eval

variable {f : Class → Class} (hf : ∀ c, (f c).name = c.name)

include hf

/-- The same is said against them where they do not fit a class. -/
theorem checkActuals_mapClass (c : Class) (vs : List Value) (loc : Location) :
    checkActuals c (vs.map (Value.mapClass f)) loc = checkActuals c vs loc := by
  rw [← Value.mapClassAll_eq]
  exact checkActuals_eq_of_sameAll c (Value.sameAll_mapClass hf vs) loc

/-- And so it is with values that are the same with other classes. -/
theorem checkActuals_eq_of_mapClass {us vs : List Value}
    (h : vs.map (Value.mapClass f) = us.map (Value.mapClass f)) (c : Class) (loc : Location) :
    checkActuals c vs loc = checkActuals c us loc := by
  rw [← checkActuals_mapClass hf c vs, h, checkActuals_mapClass hf c us]

/-- They are entries of maps in the same way. -/
theorem entryOf_mapClass (k : KeyKind) (loc : Location) (e : Value) :
    entryOf k loc (e.mapClass f) = (fun p => (p.1, p.2.mapClass f)) <$> entryOf k loc e := by
  have hsame := Value.same_mapClass hf e
  unfold entryOf
  split
  · next key v hpair =>
      obtain ⟨key', v', rfl⟩ := (Value.eq_pair_iff_of_same hsame).1 ⟨key, v, hpair⟩
      obtain ⟨rfl, rfl⟩ : key'.mapClass f = key ∧ v'.mapClass f = v := by
        simpa [Value.mapClass, Value.mapClassAll] using hpair
      have hkey := Value.same_mapClass hf key'
      dsimp only
      rw [Key.ofValue?_eq_of_same hkey, Value.text_eq_of_same hkey]
      split <;> rfl
  · next hother =>
      split
      · next key v =>
          obtain ⟨key', v', hpair⟩ := (Value.eq_pair_iff_of_same hsame).2 ⟨key, v, rfl⟩
          exact absurd hpair (hother key' v')
      · rw [Value.text_eq_of_same hsame]
        rfl

theorem writeEntries_mapClass (k : KeyKind) (loc : Location) (es : List Value) :
    ∀ entries : List (Key × Value),
      writeEntries k loc (Entries.mapClass f entries) (es.map (Value.mapClass f)) =
        Entries.mapClass f <$> writeEntries k loc entries es := by
  induction es with
  | nil => exact fun _ => rfl
  | cons e es ih =>
      intro entries
      rw [List.map_cons, writeEntries, writeEntries, entryOf_mapClass hf, Entries.keys_mapClass,
        map_bind, bind_map_left]
      refine bind_congr fun p => ?_
      dsimp only
      rw [Entries.insert_mapClass, ih]
      split
      · rw [map_bind]
      · rfl

/-- They make the same maps, with other classes behind the objects in these. -/
theorem buildMap_mapClass (es : List Value) (keyTy valueTy : Ty) (loc : Location) :
    buildMap (es.map (Value.mapClass f)) keyTy valueTy loc =
      Value.mapClass f <$> buildMap es keyTy valueTy loc := by
  unfold buildMap
  rw [map_bind]
  refine bind_congr fun k => ?_
  rw [show ([] : List (Key × Value)) = Entries.mapClass f [] from rfl,
    writeEntries_mapClass hf, map_bind, bind_map_left]
  refine bind_congr fun entries => ?_
  rw [map_pure, Value.mapClass, Value.mapClassEntries_eq]

end Eval

end ObjectModel
