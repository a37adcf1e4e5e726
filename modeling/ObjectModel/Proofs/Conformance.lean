/-
**Values that conform to types.**

A type can accept all values of another, and the text of a constant shows which types its value
conforms to: a number and a text are what they are, a list or a map is judged by what it contains,
and the keys of a map are of the kind that it is written with.

Main definitions:

* `Ty.within` — the values of one type are values of another;
* `Attribute.conforms` — the value of a constant may stand where a type is declared.

Main results:

* `Value.conforms_list_iff`, `Value.conforms_map_iff`, `Value.conforms_tuple_iff` — which values
  conform to the types of containers;
* `Value.conforms_of_within` — a value of a type is one of every type that the type is within;
* `Eval.gives_constant_conforms`, `Eval.gives_buildMap_conforms` — constants and maps conform to
  the types that their text shows.
-/

import ObjectModel.Proofs.WellFormedValue

set_option relaxedAutoImplicit false
set_option autoImplicit false

namespace ObjectModel

/-! ### Types inside of types -/

namespace Ty

/-- Whether every kind of key that the one type accepts is accepted by the other. -/
def keysWithin (s t : Ty) : Bool :=
  [KeyKind.integer, KeyKind.string].all fun k => !s.acceptsKeys k || t.acceptsKeys k

mutual

/-- Whether the values that conform to the one type conform to the other. -/
def within : Ty → Ty → Bool
  | _, .any => true
  | string, .string => true
  | ref, .ref => true
  | list s, .list t => within s t
  | map k s, .map l t => k.keysWithin l && within s t
  | tuple ss, .tuple ts => eachWithin ss ts
  | object c, .object d => c == d
  | s, t => s.isInteger && t.isInteger

/-- Whether there are as many types as other ones, and so it is with each of them. -/
def eachWithin : List Ty → List Ty → Bool
  | [], [] => true
  | s :: ss, t :: ts => within s t && eachWithin ss ts
  | _, _ => false

end

theorem acceptsKeys_of_keysWithin {s t : Ty} (h : s.keysWithin t = true) {k : KeyKind}
    (hk : s.acceptsKeys k = true) : t.acceptsKeys k = true := by
  have hall := List.all_eq_true.1 h k (by cases k <;> simp)
  simpa [hk] using hall

end Ty

namespace Value

@[simp] theorem conforms_any (v : Value) : v.conforms .any = true := by
  cases v <;> rfl

theorem allConform_iff {vs : List Value} {t : Ty} :
    allConform vs t = true ↔ ∀ v ∈ vs, v.conforms t = true := by
  induction vs with
  | nil => simp [allConform]
  | cons v vs ih => simp [allConform, ih]

theorem entriesConform_iff {es : List (Key × Value)} {t : Ty} :
    entriesConform es t = true ↔ ∀ e ∈ es, e.2.conforms t = true := by
  induction es with
  | nil => simp [entriesConform]
  | cons e es ih => simp [entriesConform, ih]

theorem exists_integer_of_conforms {v : Value} {t : Ty} (ht : t.isInteger = true)
    (h : v.conforms t = true) : ∃ n, v = integer n := by
  cases t <;> cases v <;> simp_all [Ty.isInteger, conforms]

theorem conforms_list_iff {v : Value} {t : Ty} :
    v.conforms (.list t) = true ↔ ∃ ty vs, v = list ty vs ∧ ∀ u ∈ vs, u.conforms t = true := by
  cases v <;> simp [conforms, allConform_iff]

theorem conforms_map_iff {v : Value} {kt t : Ty} :
    v.conforms (.map kt t) = true ↔
      ∃ k ty es, v = map k ty es ∧ kt.acceptsKeys k = true ∧ ∀ e ∈ es, e.2.conforms t = true := by
  cases v <;> simp [conforms, entriesConform_iff]

theorem conforms_tuple_iff {v : Value} {ts : List Ty} :
    v.conforms (.tuple ts) = true ↔ ∃ vs, v = tuple vs ∧ eachConforms vs ts = true := by
  cases v <;> simp [conforms]

mutual

/-- A value of a type is a value of every type that the type is within. -/
theorem conforms_of_within : ∀ {s t : Ty}, s.within t = true → ∀ {v : Value},
    v.conforms s = true → v.conforms t = true
  | .integer, t, hst, v, hv => by
      obtain ⟨n, rfl⟩ := exists_integer_of_conforms rfl hv
      cases t with
      | any | integer | bits => simp [conforms]
      | _ => cases hst
  | .bits _, t, hst, v, hv => by
      obtain ⟨n, rfl⟩ := exists_integer_of_conforms rfl hv
      cases t with
      | any | integer | bits => simp [conforms]
      | _ => cases hst
  | .string, t, hst, v, hv => by
      cases t with
      | any => exact conforms_any v
      | string => exact hv
      | _ => cases hst
  | .ref, t, hst, v, hv => by
      cases t with
      | any => exact conforms_any v
      | ref => exact hv
      | _ => cases hst
  | .any, t, hst, v, hv => by
      cases t with
      | any => exact hv
      | _ => cases hst
  | .object c, t, hst, v, hv => by
      cases t with
      | any => exact conforms_any v
      | object d =>
          have hcd : c = d := by simpa [Ty.within] using hst
          exact hcd ▸ hv
      | _ => cases hst
  | .list s, t, hst, v, hv => by
      cases t with
      | any => exact conforms_any v
      | list t =>
          obtain ⟨ty, vs, rfl, hvs⟩ := conforms_list_iff.1 hv
          rw [Ty.within] at hst
          exact conforms_list_iff.2 ⟨ty, vs, rfl, fun u hu => conforms_of_within hst (hvs u hu)⟩
      | _ => cases hst
  | .map k s, t, hst, v, hv => by
      cases t with
      | any => exact conforms_any v
      | map l t =>
          obtain ⟨kind, ty, es, rfl, hkeys, hes⟩ := conforms_map_iff.1 hv
          rw [Ty.within, Bool.and_eq_true] at hst
          exact conforms_map_iff.2 ⟨kind, ty, es, rfl, Ty.acceptsKeys_of_keysWithin hst.1 hkeys,
            fun e he => conforms_of_within hst.2 (hes e he)⟩
      | _ => cases hst
  | .tuple ss, t, hst, v, hv => by
      cases t with
      | any => exact conforms_any v
      | tuple ts =>
          obtain ⟨vs, rfl, hvs⟩ := conforms_tuple_iff.1 hv
          rw [Ty.within] at hst
          exact conforms_tuple_iff.2 ⟨vs, rfl, eachConforms_of_eachWithin hst hvs⟩
      | _ => cases hst

theorem eachConforms_of_eachWithin : ∀ {ss ts : List Ty}, Ty.eachWithin ss ts = true →
    ∀ {vs : List Value}, eachConforms vs ss = true → eachConforms vs ts = true
  | [], ts, hst, vs, hvs => by
      cases ts with
      | nil => exact hvs
      | cons t ts => cases hst
  | s :: ss, ts, hst, vs, hvs => by
      cases ts with
      | nil => simp [Ty.eachWithin] at hst
      | cons t ts =>
          cases vs with
          | nil => simp [eachConforms] at hvs
          | cons v vs =>
              rw [Ty.eachWithin, Bool.and_eq_true] at hst
              rw [eachConforms, Bool.and_eq_true] at hvs ⊢
              exact ⟨conforms_of_within hst.1 hvs.1, eachConforms_of_eachWithin hst.2 hvs.2⟩

end

end Value

/-! ### Constants -/

/-- The kind of the keys of a constant map that is written with the type, if there can be one. -/
def Ty.constantKeyKind? : Ty → Option KeyKind
  | map key _ => KeyKind.ofTy? key
  | _ => some .string

namespace Attribute

mutual

/-- Whether the value of a constant that is written with the one type may stand where the other one
is declared. -/
def conforms : Attribute → Ty → Ty → Bool
  | _, _, .any => true
  | integer _, _, t => t.isInteger
  | string _, _, .string => true
  | list elementTy es, _, .list t => allConform es elementTy t
  | map valueTy es, written, .map kt t =>
      written.constantKeyKind?.all kt.acceptsKeys && entriesConform es valueTy t
  | ref _, _, .ref => true
  | _, _, _ => false

/-- Whether it is so with all constants of a list. -/
def allConform : List Attribute → Ty → Ty → Bool
  | [], _, _ => true
  | a :: as, written, t => conforms a written t && allConform as written t

/-- Whether it is so with the values of all entries. -/
def entriesConform : List (String × Attribute) → Ty → Ty → Bool
  | [], _, _ => true
  | (_, a) :: es, written, t => conforms a written t && entriesConform es written t

end

end Attribute

namespace Eval

theorem gives_keyKind (ty : Ty) (loc : Location) :
    Gives (fun k => KeyKind.ofTy? ty = some k) (keyKind ty loc) := by
  unfold keyKind
  split
  · next k hk => exact Gives.pure hk
  · exact Gives.throw _

theorem gives_constantKeyKind (ty : Ty) (loc : Location) :
    Gives (fun k => ty.constantKeyKind? = some k) (constantKeyKind ty loc) := by
  unfold constantKeyKind
  split
  · exact gives_keyKind _ loc
  · next hnot =>
      cases ty with
      | map key v => exact absurd rfl (hnot key v)
      | _ => exact Gives.pure rfl

theorem gives_reference_conforms (r : Registry) (p : SymbolPath) (loc : Location) :
    Gives (fun v => v.conforms .ref = true) (reference r p loc) := by
  unfold reference
  split
  · next v hv =>
      rw [Registry.resolve] at hv
      split at hv <;> cases hv
      exact (gives_true _).bind fun _ _ => Gives.pure rfl
  · exact Gives.throw _

mutual

/-- A constant has the types that its text shows. -/
theorem gives_constant_conforms (r : Registry) (loc : Location) :
    ∀ (a : Attribute) {written t : Ty}, a.conforms written t = true →
      Gives (fun v => v.conforms t = true) (constant r loc a written)
  | .integer n, written, t, h => by
      cases t with
      | any | integer | bits => exact Gives.pure (by simp [Value.conforms])
      | _ => simp [Attribute.conforms, Ty.isInteger] at h
  | .string s, written, t, h => by
      cases t with
      | any | string => exact Gives.pure (by simp [Value.conforms])
      | _ => simp [Attribute.conforms] at h
  | .ref p, written, t, h => by
      cases t with
      | any => exact fun _ v _ _ => v.conforms_any
      | ref => exact gives_reference_conforms r p loc
      | _ => simp [Attribute.conforms] at h
  | .list elementTy es, written, t, h => by
      cases t with
      | any => exact fun _ v _ _ => v.conforms_any
      | list t =>
          rw [Attribute.conforms] at h
          exact (gives_constants_conform r loc es h).bind fun vs hvs =>
            Gives.pure (Value.conforms_list_iff.2 ⟨_, vs, rfl, hvs⟩)
      | _ => simp [Attribute.conforms] at h
  | .map valueTy es, written, t, h => by
      cases t with
      | any => exact fun _ v _ _ => v.conforms_any
      | map kt t =>
          rw [Attribute.conforms, Bool.and_eq_true] at h
          refine (gives_constantKeyKind written loc).bind fun k hk => ?_
          refine (gives_constantEntries_conform r loc k es h.2).bind fun entries hentries => ?_
          have hkeys : kt.acceptsKeys k = true := by simpa [hk] using h.1
          exact Gives.pure (Value.conforms_map_iff.2 ⟨k, _, _, rfl, hkeys,
            fun e he => hentries e (Entries.mem_of_mem_ofList he)⟩)
      | _ => simp [Attribute.conforms] at h

theorem gives_constants_conform (r : Registry) (loc : Location) :
    ∀ (as : List Attribute) {written t : Ty}, Attribute.allConform as written t = true →
      Gives (fun vs => ∀ v ∈ vs, v.conforms t = true) (constants r loc written as)
  | [], _, _, _ => Gives.pure (by simp)
  | a :: as, written, t, h => by
      rw [Attribute.allConform, Bool.and_eq_true] at h
      exact (gives_constant_conforms r loc a h.1).bind fun v hv =>
        (gives_constants_conform r loc as h.2).bind fun vs hvs =>
          Gives.pure (List.forall_mem_cons.2 ⟨hv, hvs⟩)

theorem gives_constantEntries_conform (r : Registry) (loc : Location) (k : KeyKind) :
    ∀ (es : List (String × Attribute)) {written t : Ty},
      Attribute.entriesConform es written t = true →
        Gives (fun entries => ∀ e ∈ entries, e.2.conforms t = true)
          (constantEntries r loc k written es)
  | [], _, _, _ => Gives.pure (by simp)
  | (text, a) :: es, written, t, h => by
      rw [Attribute.entriesConform, Bool.and_eq_true] at h
      exact (gives_true (keyOfText k text loc)).bind fun key _ =>
        (gives_constant_conforms r loc a h.1).bind fun v hv =>
          (gives_constantEntries_conform r loc k es h.2).bind fun entries hentries =>
            Gives.pure (List.forall_mem_cons.2 ⟨hv, hentries⟩)

end

/-- A map of pairs has the types of their second halves, and keys of the kind that is written. -/
theorem gives_buildMap_conforms {es : List Value} {keyTy valueTy kt t : Ty} {loc : Location}
    (hkeys : (KeyKind.ofTy? keyTy).all kt.acceptsKeys = true)
    (hes : ∀ e ∈ es, e.conforms (.tuple [.any, t]) = true) :
    Gives (fun v => v.conforms (.map kt t) = true) (buildMap es keyTy valueTy loc) := by
  have hvalues : ∀ e ∈ es, ∀ key v, e = .tuple [key, v] → v.conforms t = true := by
    rintro e he key v rfl
    simpa [Value.conforms, Value.eachConforms] using hes _ he
  refine (gives_keyKind keyTy loc).bind fun k hk => ?_
  have haccepts : kt.acceptsKeys k = true := by simpa [hk] using hkeys
  exact (gives_writeEntries hvalues (by simp) (by simp)).bind fun entries hentries =>
    Gives.pure (Value.conforms_map_iff.2 ⟨k, _, entries, rfl, haccepts,
      fun e he => (hentries.2 e he).2⟩)

end Eval

end ObjectModel
