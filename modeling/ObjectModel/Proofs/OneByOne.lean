/-
**Lists that are related one by one.**

What holds of a list and of its counterpart holds place by place: an element has its counterpart at
its own place.

Main results:

* `List.Forall₂.exists_getElem?` — the counterpart of an element, at the place of the element;
* `List.Forall₂.exists_left`, `List.Forall₂.exists_right` — the counterpart of a member;
* `List.Forall₂.forall_mem_right`, `List.Forall₂.rel_find?` — what counterparts have in common.
-/

import Mathlib.Data.List.Forall2

set_option relaxedAutoImplicit false
set_option autoImplicit false

namespace List.Forall₂

variable {α β : Type} {R : α → β → Prop} {as : List α} {bs : List β}

/-- An element has a counterpart at its own place. -/
theorem exists_getElem? (h : Forall₂ R as bs) {i : Nat} {b : β} (hb : bs[i]? = some b) :
    ∃ a, as[i]? = some a ∧ R a b := by
  obtain ⟨hlength, hrel⟩ := forall₂_iff_get.1 h
  obtain ⟨hi, rfl⟩ := getElem?_eq_some_iff.1 hb
  have hi' : i < as.length := hlength ▸ hi
  exact ⟨as[i], getElem?_eq_getElem hi', hrel i hi' hi⟩

/-- A member of the second list has a counterpart in the first. -/
theorem exists_left (h : Forall₂ R as bs) {b : β} (hb : b ∈ bs) : ∃ a ∈ as, R a b := by
  obtain ⟨i, hi⟩ := mem_iff_getElem?.1 hb
  obtain ⟨a, ha, hab⟩ := h.exists_getElem? hi
  exact ⟨a, mem_of_getElem? ha, hab⟩

/-- A member of the first list has a counterpart in the second. -/
theorem exists_right (h : Forall₂ R as bs) {a : α} (ha : a ∈ as) : ∃ b ∈ bs, R a b := by
  have hturned : Forall₂ (fun b a => R a b) bs as := Forall₂.flip h
  exact hturned.exists_left ha

/-- What counterparts have is had by every member. -/
theorem forall_mem_right {P : β → Prop} (h : Forall₂ R as bs)
    (hP : ∀ a ∈ as, ∀ b, R a b → P b) : ∀ b ∈ bs, P b := by
  intro b hb
  obtain ⟨a, ha, hab⟩ := h.exists_left hb
  exact hP a ha b hab

/-- What is found first in the two lists are counterparts. -/
theorem rel_find? {p : α → Bool} {q : β → Bool} (h : Forall₂ R as bs)
    (hpq : ∀ a b, R a b → p a = q b) : Option.Rel R (as.find? p) (bs.find? q) := by
  induction h with
  | nil => exact .none
  | @cons a b as bs hab _ ih =>
      rw [find?_cons, find?_cons, hpq a b hab]
      cases q b with
      | true => exact .some hab
      | false => exact ih

end List.Forall₂
