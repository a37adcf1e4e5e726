/-
**What is below a class.**

The classes that a class makes objects of, also inside of other objects, come below it.  When each
class is given a weight, what is below a class weighs less than what is below a class that makes
objects of it.  Such weights bound how deep evaluation goes: with one for each class they bound how
many objects are made inside each other, and with the length of its body they bound how deep
operands are asked for.

Main definitions:

* `Module.below` — what the classes below a class weigh.

Main results:

* `Module.below_add_le` — a class and what is below it weigh no more than what is below a class
  that makes objects of it;
* `Module.below_add_le_sum` — nor more than all classes;
* `Registry.size_ofModule` — how many operations there are.
-/

import Mathlib.Algebra.Order.BigOperators.Group.List
import Mathlib.Algebra.Order.Ring.Nat
import Mathlib.Logic.Relation
import ObjectModel.Proofs.WellFormed
import ObjectModel.Registry

set_option relaxedAutoImplicit false
set_option autoImplicit false

namespace ObjectModel

open Relation (TransGen)

section Weights

open Classical

/-- What all classes together weigh that the class `x` makes objects of, also inside of other
objects. -/
noncomputable def Module.below (m : Module) (weight : ClassDecl → Nat) (x : String) : Nat :=
  ((m.classes.filter fun c => decide (TransGen m.Makes x c.name.name)).map weight).sum

/-- A part of a list weighs no more than a larger part that has one element more. -/
theorem sum_filter_add_le {α : Type} (weight : α → Nat) {p q : α → Bool} {a : α} {l : List α}
    (hpq : ∀ b, p b = true → q b = true) (ha : a ∈ l) (hp : p a = false) (hq : q a = true) :
    ((l.filter p).map weight).sum + weight a ≤ ((l.filter q).map weight).sum := by
  have hle : ∀ l : List α, ((l.filter p).map weight).sum ≤ ((l.filter q).map weight).sum :=
    fun l => ((List.monotone_filter_right l hpq).map weight).sum_le_sum fun _ _ => Nat.zero_le _
  induction l with
  | nil => cases ha
  | cons b l ih =>
      rw [List.filter_cons, List.filter_cons]
      rcases List.mem_cons.1 ha with rfl | ha
      · rw [hp, hq, if_neg (by simp), if_pos rfl, List.map_cons, List.sum_cons]
        have := hle l
        omega
      · have := ih ha
        by_cases hb : p b = true
        · rw [if_pos hb, if_pos (hpq b hb), List.map_cons, List.map_cons, List.sum_cons,
            List.sum_cons]
          omega
        · rw [if_neg hb]
          split
          · rw [List.map_cons, List.sum_cons]
            omega
          · exact this

variable {m : Module}

/-- A class and what is below it weigh no more than what is below a class that makes objects of
it. -/
theorem Module.below_add_le (hm : m.WellFormed) (weight : ClassDecl → Nat) {x : String}
    {d : ClassDecl} (hd : d ∈ m.classes) (hmakes : m.Makes x d.name.name) :
    m.below weight d.name.name + weight d ≤ m.below weight x := by
  refine sum_filter_add_le weight ?_ hd ?_ ?_
  · intro c hc
    rw [decide_eq_true_eq] at hc ⊢
    exact TransGen.head hmakes hc
  · exact decide_eq_false (hm.acyclic d.name.name)
  · exact decide_eq_true (TransGen.single hmakes)

/-- A class and what is below it weigh no more than all classes. -/
theorem Module.below_add_le_sum (hm : m.WellFormed) (weight : ClassDecl → Nat) {c : ClassDecl}
    (hc : c ∈ m.classes) :
    m.below weight c.name.name + weight c ≤ (m.classes.map weight).sum := by
  have hle : m.below weight c.name.name + weight c ≤
      ((m.classes.filter fun _ => true).map weight).sum :=
    sum_filter_add_le weight (fun _ _ => rfl) hc (decide_eq_false (hm.acyclic c.name.name)) rfl
  rwa [List.filter_true] at hle

end Weights

/-- How many operations a registry has. -/
theorem Registry.size_ofModule (m : Module) :
    (ofModule m).size =
      (m.classes.map fun c => c.body.length).sum + m.operations.length := by
  have hfold : ∀ (cs : List ClassDecl) (n : Nat),
      (cs.map fun c => ({ c with file := m.file } : Class)).foldr
        (fun c n => c.body.length + n) n = (cs.map fun c => c.body.length).sum + n := by
    intro cs n
    induction cs with
    | nil => simp
    | cons c cs ih =>
        rw [List.map_cons, List.foldr_cons, ih, List.map_cons, List.sum_cons]
        exact (Nat.add_assoc _ _ _).symm
  exact hfold m.classes m.operations.length

end ObjectModel
