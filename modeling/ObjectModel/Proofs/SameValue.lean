/-
**Values that count as equal.**

Two lists count as equal when their elements do, whatever types were written down for the elements;
so it is with the values of maps, and an object is known by the name of its class.  What is left
out of the comparison shows nowhere: values that count as equal have the same text, conform to the
same types, and are the same keys.

Main definitions:

* `Entries.Same` — two tables have the same keys with values that count as equal.

Main results:

* `Value.text_eq_of_same`, `Value.kind_eq_of_same`, `Key.ofValue?_eq_of_same`,
  `Value.conforms_eq_of_same` — what values that count as equal have in common;
* `Entries.Same.lookup`, `Entries.Same.insert`, `Entries.Same.ofList` — looking up and writing.
-/

import Mathlib.Data.List.Forall2
import ObjectModel.Value.Text
import ObjectModel.Value.Typing

set_option relaxedAutoImplicit false
set_option autoImplicit false

namespace ObjectModel

/-! ### What counts as equal -/

namespace Value

theorem same_integer_iff {n : Int64} {w : Value} :
    same (integer n) w = true ↔ w = integer n := by
  cases w <;> simp [same, @eq_comm _ n]

theorem same_string_iff {s : String} {w : Value} :
    same (string s) w = true ↔ w = string s := by
  cases w <;> simp [same, @eq_comm _ s]

theorem same_ref_iff {p : SymbolPath} {w : Value} : same (ref p) w = true ↔ w = ref p := by
  cases w <;> simp [same, @eq_comm _ p]

theorem same_list_iff {ty : Ty} {us : List Value} {w : Value} :
    same (list ty us) w = true ↔ ∃ ty' vs, w = list ty' vs ∧ sameAll us vs = true := by
  cases w <;> simp [same]

theorem same_tuple_iff {us : List Value} {w : Value} :
    same (tuple us) w = true ↔ ∃ vs, w = tuple vs ∧ sameAll us vs = true := by
  cases w <;> simp [same]

theorem same_map_iff {k : KeyKind} {ty : Ty} {us : List (Key × Value)} {w : Value} :
    same (map k ty us) w = true ↔ ∃ ty' vs, w = map k ty' vs ∧ sameEntries us vs = true := by
  cases w <;> simp [same, @eq_comm _ k]

theorem same_object_iff {c : Class} {us : List (String × Value)} {w : Value} :
    same (object c us) w = true ↔
      ∃ d vs, w = object d vs ∧ c.name.name = d.name.name ∧ sameFields us vs = true := by
  cases w <;> simp [same]

theorem sameAll_nil_iff {ws : List Value} : sameAll [] ws = true ↔ ws = [] := by
  cases ws <;> simp [sameAll]

theorem sameAll_cons_iff {u : Value} {us ws : List Value} :
    sameAll (u :: us) ws = true ↔
      ∃ v vs, ws = v :: vs ∧ u.same v = true ∧ sameAll us vs = true := by
  cases ws <;> simp [sameAll]

theorem sameAll_iff {us vs : List Value} :
    sameAll us vs = true ↔ List.Forall₂ (fun u v => u.same v = true) us vs := by
  induction us generalizing vs with
  | nil => cases vs <;> simp [sameAll]
  | cons u us ih => cases vs <;> simp [sameAll, ih]

end Value

/-! ### Tables -/

namespace Entries

variable {κ : Type}

/-- Two tables have the same keys, in one order, with values that count as equal. -/
def Same (es es' : List (κ × Value)) : Prop :=
  List.Forall₂ (fun e e' => e.1 = e'.1 ∧ e.2.same e'.2 = true) es es'

theorem sameEntries_iff {es es' : List (Key × Value)} :
    Value.sameEntries es es' = true ↔ Same es es' := by
  induction es generalizing es' with
  | nil => cases es' <;> simp [Value.sameEntries, Same]
  | cons e es ih => cases es' <;> simp [Value.sameEntries, ih, Same, List.forall₂_cons]

theorem sameFields_iff {es es' : List (String × Value)} :
    Value.sameFields es es' = true ↔ Same es es' := by
  induction es generalizing es' with
  | nil => cases es' <;> simp [Value.sameFields, Same]
  | cons e es ih => cases es' <;> simp [Value.sameFields, ih, Same, List.forall₂_cons]

theorem Same.keys {es es' : List (κ × Value)} (h : Same es es') : keys es = keys es' := by
  induction h with
  | nil => rfl
  | cons he _ ih => rw [keys_cons, keys_cons, he.1, ih]

theorem Same.zip {us vs : List Value} (h : Value.sameAll us vs = true) (names : List κ) :
    Same (names.zip us) (names.zip vs) := by
  induction names generalizing us vs with
  | nil => exact .nil
  | cons name names ih =>
      cases us with
      | nil =>
          obtain rfl := Value.sameAll_nil_iff.1 h
          exact .nil
      | cons u us =>
          obtain ⟨v, vs, rfl, hv, hvs⟩ := Value.sameAll_cons_iff.1 h
          exact .cons ⟨rfl, hv⟩ (ih hvs)

variable [DecidableEq κ]

/-- In both tables a key is found, with values that count as equal, or in none. -/
theorem Same.lookup {es es' : List (κ × Value)} (h : Same es es') (k : κ) :
    Option.Rel (fun v w => v.same w = true) (es.lookup k) (es'.lookup k) := by
  induction h with
  | nil => exact .none
  | @cons e e' _ _ he _ ih =>
      rw [List.lookup_cons, List.lookup_cons, ← he.1]
      split
      · exact .some he.2
      · exact ih

theorem Same.insert {es es' : List (κ × Value)} (h : Same es es') (k : κ) {v w : Value}
    (hvw : v.same w = true) : Same (insert k v es) (insert k w es') := by
  induction h with
  | nil => exact .cons ⟨rfl, hvw⟩ .nil
  | @cons e e' es es' he hes ih =>
      obtain ⟨j, x⟩ := e
      obtain ⟨j', x'⟩ := e'
      obtain ⟨rfl, hx⟩ : j = j' ∧ x.same x' = true := he
      rw [Entries.insert, Entries.insert]
      split
      · exact .cons ⟨rfl, hvw⟩ hes
      · exact .cons ⟨rfl, hx⟩ ih

theorem Same.ofList {es es' : List (κ × Value)} (h : Same es es') :
    Same (ofList es) (ofList es') := by
  have hfold : ∀ t t', Same t t' → Same (es.foldl (fun t e => Entries.insert e.1 e.2 t) t)
      (es'.foldl (fun t e => Entries.insert e.1 e.2 t) t') := by
    induction h with
    | nil => exact fun _ _ ht => ht
    | @cons e e' _ _ he _ ih =>
        intro t t' ht
        rw [List.foldl_cons, List.foldl_cons, ← he.1]
        exact ih _ _ (ht.insert e.1 he.2)
  exact hfold [] [] .nil

end Entries

/-! ### What values that count as equal have in common -/

namespace Value

theorem kind_eq_of_same {v w : Value} (h : v.same w = true) : v.kind = w.kind := by
  cases v <;> cases w <;> first | rfl | simp [same] at h

theorem length_eq_of_sameAll {us vs : List Value} (h : sameAll us vs = true) :
    us.length = vs.length := (sameAll_iff.1 h).length_eq

mutual

/-- They have the same text. -/
theorem text_eq_of_same : ∀ {v w : Value}, v.same w = true → v.text = w.text
  | integer n, w, h => by rw [same_integer_iff.1 h]
  | string s, w, h => by rw [same_string_iff.1 h]
  | list ty us, w, h => by
      obtain ⟨ty', vs, rfl, hvs⟩ := same_list_iff.1 h
      rw [text, text, texts_eq_of_sameAll hvs]
  | tuple us, w, h => by
      obtain ⟨vs, rfl, hvs⟩ := same_tuple_iff.1 h
      rw [text, text, texts_eq_of_sameAll hvs]
  | map k ty us, w, h => by
      obtain ⟨ty', vs, rfl, hvs⟩ := same_map_iff.1 h
      rw [text, text, entryTexts_eq_of_sameEntries hvs]
  | object c us, w, h => by
      obtain ⟨d, vs, rfl, hname, hvs⟩ := same_object_iff.1 h
      rw [text, text, hname, fieldTexts_eq_of_sameFields hvs]
  | ref p, w, h => by rw [same_ref_iff.1 h]

theorem texts_eq_of_sameAll : ∀ {us vs : List Value}, sameAll us vs = true → texts us = texts vs
  | [], vs, h => by rw [sameAll_nil_iff.1 h]
  | u :: us, vs, h => by
      obtain ⟨v, vs, rfl, hv, hvs⟩ := sameAll_cons_iff.1 h
      rw [texts, texts, text_eq_of_same hv, texts_eq_of_sameAll hvs]

theorem entryTexts_eq_of_sameEntries : ∀ {us vs : List (Key × Value)},
    sameEntries us vs = true → entryTexts us = entryTexts vs
  | [], [], _ => rfl
  | (k, u) :: us, (l, v) :: vs, h => by
      obtain ⟨⟨rfl, hv⟩, hvs⟩ : (k = l ∧ u.same v = true) ∧ sameEntries us vs = true := by
        simpa [sameEntries] using h
      rw [entryTexts, entryTexts, text_eq_of_same hv, entryTexts_eq_of_sameEntries hvs]

theorem fieldTexts_eq_of_sameFields : ∀ {us vs : List (String × Value)},
    sameFields us vs = true → fieldTexts us = fieldTexts vs
  | [], [], _ => rfl
  | (m, u) :: us, (n, v) :: vs, h => by
      obtain ⟨⟨rfl, hv⟩, hvs⟩ : (m = n ∧ u.same v = true) ∧ sameFields us vs = true := by
        simpa [sameFields] using h
      rw [fieldTexts, fieldTexts, text_eq_of_same hv, fieldTexts_eq_of_sameFields hvs]

end

theorem map_text_eq_of_sameAll {us vs : List Value} (h : sameAll us vs = true) :
    us.map text = vs.map text := by
  have htexts : ∀ ws : List Value, ws.map text = texts ws := fun ws => by
    induction ws with
    | nil => rfl
    | cons w ws ih => rw [List.map_cons, ih, texts]
  rw [htexts, htexts, texts_eq_of_sameAll h]

mutual

/-- They conform to the same types. -/
theorem conforms_eq_of_same :
    ∀ {v w : Value}, v.same w = true → ∀ ty, v.conforms ty = w.conforms ty
  | integer n, w, h, ty => by rw [same_integer_iff.1 h]
  | string s, w, h, ty => by rw [same_string_iff.1 h]
  | list _ us, w, h, ty => by
      obtain ⟨ty', vs, rfl, hvs⟩ := same_list_iff.1 h
      cases ty <;> simp only [conforms, allConform_eq_of_sameAll hvs]
  | tuple us, w, h, ty => by
      obtain ⟨vs, rfl, hvs⟩ := same_tuple_iff.1 h
      cases ty <;> simp only [conforms, eachConforms_eq_of_sameAll hvs]
  | map k _ us, w, h, ty => by
      obtain ⟨ty', vs, rfl, hvs⟩ := same_map_iff.1 h
      cases ty <;> simp only [conforms, entriesConform_eq_of_sameEntries hvs]
  | object c us, w, h, ty => by
      obtain ⟨d, vs, rfl, hname, hvs⟩ := same_object_iff.1 h
      cases ty <;> simp only [conforms, hname]
  | ref p, w, h, ty => by rw [same_ref_iff.1 h]

theorem allConform_eq_of_sameAll :
    ∀ {us vs : List Value}, sameAll us vs = true → ∀ ty, allConform us ty = allConform vs ty
  | [], vs, h, ty => by rw [sameAll_nil_iff.1 h]
  | u :: us, vs, h, ty => by
      obtain ⟨v, vs, rfl, hv, hvs⟩ := sameAll_cons_iff.1 h
      rw [allConform, allConform, conforms_eq_of_same hv, allConform_eq_of_sameAll hvs]

theorem eachConforms_eq_of_sameAll :
    ∀ {us vs : List Value}, sameAll us vs = true → ∀ tys, eachConforms us tys = eachConforms vs tys
  | [], vs, h, tys => by rw [sameAll_nil_iff.1 h]
  | u :: us, vs, h, tys => by
      obtain ⟨v, vs, rfl, hv, hvs⟩ := sameAll_cons_iff.1 h
      cases tys with
      | nil => rfl
      | cons ty tys =>
          rw [eachConforms, eachConforms, conforms_eq_of_same hv, eachConforms_eq_of_sameAll hvs]

theorem entriesConform_eq_of_sameEntries : ∀ {us vs : List (Key × Value)},
    sameEntries us vs = true → ∀ ty, entriesConform us ty = entriesConform vs ty
  | [], [], _, _ => rfl
  | (k, u) :: us, (l, v) :: vs, h, ty => by
      obtain ⟨⟨-, hv⟩, hvs⟩ : (k = l ∧ u.same v = true) ∧ sameEntries us vs = true := by
        simpa [sameEntries] using h
      rw [entriesConform, entriesConform, conforms_eq_of_same hv,
        entriesConform_eq_of_sameEntries hvs]

end

end Value

/-- They are the same key, if they are keys. -/
theorem Key.ofValue?_eq_of_same {v w : Value} (h : v.same w = true) :
    Key.ofValue? v = Key.ofValue? w := by
  cases v with
  | integer n => rw [Value.same_integer_iff.1 h]
  | string s => rw [Value.same_string_iff.1 h]
  | _ => cases w <;> first | rfl | simp [Value.same] at h

/-- They are both pairs, of parts that count as equal, or neither is. -/
theorem Value.eq_pair_iff_of_same {v w : Value} (h : v.same w = true) :
    (∃ k x, v = tuple [k, x]) ↔ ∃ k x, w = tuple [k, x] := by
  cases v with
  | tuple us =>
      obtain ⟨vs, rfl, hvs⟩ := same_tuple_iff.1 h
      have hlen := length_eq_of_sameAll hvs
      have hpair : ∀ ws : List Value, (∃ k x, tuple ws = tuple [k, x]) ↔ ws.length = 2 := by
        simp [List.length_eq_two]
      rw [hpair, hpair, hlen]
  | _ => cases w <;> simp [same] at h ⊢

end ObjectModel
