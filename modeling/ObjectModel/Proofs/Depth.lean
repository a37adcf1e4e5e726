/-
**How deep operands are asked for.**

A call asks for operands at most one level deeper than there are operations.  That is deep enough:
whatever has a meaning at any depth has it there.  In a scope, the operations of the body that
mean something when operands are asked for `k` deep become more with `k`, until they stay the same
for one step, and then they stay the same for good.  So a level for each operation suffices, on top
of those for the shared values and for the classes below.

Main definitions:

* `Meaning.answered` — the operations of a body that mean something at a depth.

Main results:

* `Meaning.upTo_inside_refines` — in the body of a class no depth beyond the number of operations
  in reach adds a meaning;
* `Registry.instantiate_eq_some_iff` — the result of a call is the meaning of making its object.
-/

import Mathlib.Data.Finset.Card
import Mathlib.Data.Finset.Range
import Mathlib.Order.Monotone.Basic
import ObjectModel.Proofs.Below
import ObjectModel.Proofs.Memo
import ObjectModel.Proofs.Scope

set_option relaxedAutoImplicit false
set_option autoImplicit false

namespace ObjectModel

namespace Meaning

variable {m : Module} {maxDepth : Nat}

/-! ### Outside of classes -/

/-- A name that shared values define only before the position `i` means nothing more beyond the
depth `i + 1`. -/
theorem upTo_shared_refines (hm : m.WellFormed) (k : Nat) :
    ∀ (n d i p : Nat) (name : String) (span : Span), i ≤ k →
      (∀ (j : Nat) (op : Operation), m.operations[j]? = some op →
        op.defines name = true → j < i) →
      Refines (upTo (Registry.ofModule m) maxDepth .whole n ⟨d, none⟩ p name span)
        (upTo (Registry.ofModule m) maxDepth .whole (k + 1) ⟨d, none⟩ p name span) := by
  induction k with
  | zero =>
      intro n d i p name span hi hbefore
      cases n with
      | zero => exact fun res hres => by cases hres
      | succ n =>
          have hnone : (Registry.ofModule m).value? name = none := by
            refine List.find?_eq_none.2 fun op hop hdef => ?_
            obtain ⟨j, hj⟩ := List.mem_iff_getElem?.1 hop
            have := hbefore j op hj hdef
            omega
          rw [upTo_succ, upTo_succ, definition?, shared?, hnone]
          exact Refines.refl _
  | succ k ih =>
      intro n d i p name span hi hbefore
      cases n with
      | zero => exact fun res hres => by cases hres
      | succ n =>
          rw [upTo_succ, upTo_succ, definition?, shared?]
          cases hop : (Registry.ofModule m).value? name with
          | none => exact Refines.refl _
          | some op =>
              have hmem : op ∈ m.operations := List.mem_of_find?_eq_some hop
              obtain ⟨j, hj⟩ := List.mem_iff_getElem?.1 hmem
              have hlt := hbefore j op hj (by simpa using List.find?_some hop)
              refine Refines.operation (fun x hx => ?_) fun target actuals operandTys ty hact => ?_
              · refine ih n d j 0 x.name x.span (by omega) fun l op' hl hdef => ?_
                rcases hm.usesEarlier j op hj x hx with hfalse | hearlier
                · exact absurd hfalse id
                -- names are distinct, so all that defines `x` stands before its use
                · exact lt_of_defines hm.nodup_values hearlier hl hdef
              · have hnone := hm.no_objects op hmem
                rw [hact] at hnone
                cases hnone

/-- Outside of classes a level for each shared value suffices. -/
theorem upTo_outside_refines (hm : m.WellFormed) (n d p : Nat) (name : String) (span : Span) :
    Refines (upTo (Registry.ofModule m) maxDepth .whole n ⟨d, none⟩ p name span)
      (upTo (Registry.ofModule m) maxDepth .whole (m.operations.length + 1) ⟨d, none⟩ p name
        span) :=
  upTo_shared_refines hm m.operations.length n d m.operations.length p name span (Nat.le_refl _)
    fun _ _ hj _ => (List.getElem?_eq_some_iff.1 hj).1

/-! ### Inside of classes -/

section Answered

open Classical

variable {r : Registry} {σ : Scope} {c : Class} {params : List (String × Value)} {k l : Nat}

/-- The positions of the operations of the body that mean something in the scope `σ` when operands
are asked for at most `k` deep. -/
noncomputable def answered (r : Registry) (maxDepth : Nat) (σ : Scope) (body : List Operation)
    (k : Nat) : Finset Nat :=
  (Finset.range body.length).filter fun j => ∃ op res, body[j]? = some op ∧
    (operation r maxDepth (upTo r maxDepth .whole k) σ j op).run = some res

theorem exists_of_mem_answered {body : List Operation} {j : Nat}
    (h : j ∈ answered r maxDepth σ body k) : ∃ op res, body[j]? = some op ∧
      (operation r maxDepth (upTo r maxDepth .whole k) σ j op).run = some res :=
  (Finset.mem_filter.1 h).2

theorem mem_answered {body : List Operation} {j : Nat} {op : Operation}
    {res : Except EvalError Value} (hj : body[j]? = some op)
    (hres : (operation r maxDepth (upTo r maxDepth .whole k) σ j op).run = some res) :
    j ∈ answered r maxDepth σ body k := by
  have hlt := (List.getElem?_eq_some_iff.1 hj).1
  exact Finset.mem_filter.2 ⟨Finset.mem_range.2 hlt, op, res, hj, hres⟩

theorem answered_mono (r : Registry) (maxDepth : Nat) (σ : Scope) (body : List Operation) :
    Monotone (answered r maxDepth σ body) := by
  intro k l hkl j hj
  obtain ⟨op, res, hget, hres⟩ := exists_of_mem_answered hj
  exact mem_answered hget (operation_refines hkl σ j op res hres)

theorem card_answered_le (r : Registry) (maxDepth : Nat) (σ : Scope) (body : List Operation)
    (k : Nat) : (answered r maxDepth σ body k).card ≤ body.length :=
  (Finset.card_filter_le _ _).trans (Nat.le_of_eq (Finset.card_range _))

/-- When from the depth `K` on they stay the same for good once they stay the same for one step,
a level for each of them suffices. -/
theorem answered_stable {body : List Operation} {K : Nat}
    (hstep : ∀ k, K ≤ k →
      answered r maxDepth σ body (k + 1) ⊆ answered r maxDepth σ body k →
      answered r maxDepth σ body (k + 2) ⊆ answered r maxDepth σ body (k + 1))
    {t : Nat} (ht : body.length ≤ t) :
    answered r maxDepth σ body (K + t) ⊆ answered r maxDepth σ body (K + body.length) := by
  have hmono := answered_mono r maxDepth σ body
  have hcards : Monotone fun t => (answered r maxDepth σ body (K + t)).card := fun t t' htt' =>
    Finset.card_le_card (hmono (Nat.add_le_add_left htt' K))
  have hcard : (answered r maxDepth σ body (K + t)).card =
      (answered r maxDepth σ body (K + body.length)).card := by
    refine Nat.stabilises_of_monotone hcards (fun t => card_answered_le r maxDepth σ body _) ?_ ht
    intro t heq
    have hsame := Finset.eq_of_subset_of_card_le (hmono (Nat.le_succ (K + t)))
      (Nat.le_of_eq heq.symm)
    have hnext := hstep (K + t) (Nat.le_add_right K t) hsame.symm.subset
    exact congrArg Finset.card (Finset.Subset.antisymm (hmono (Nat.le_succ (K + (t + 1)))) hnext)
  have hle : K + body.length ≤ K + t := Nat.add_le_add_left ht K
  exact (Finset.eq_of_subset_of_card_le (hmono hle) (Nat.le_of_eq hcard)).symm.subset

/-- What means something already at the depth `k` means no more at the depth `l`. -/
theorem operation_refines_of_answered {body : List Operation} (hkl : k ≤ l)
    (h : answered r maxDepth σ body l ⊆ answered r maxDepth σ body k) {j : Nat} {op : Operation}
    (hj : body[j]? = some op) :
    Refines (operation r maxDepth (upTo r maxDepth .whole l) σ j op)
      (operation r maxDepth (upTo r maxDepth .whole k) σ j op) := by
  intro res hres
  obtain ⟨op', res', hj', hres'⟩ := exists_of_mem_answered (h (mem_answered hj hres))
  obtain rfl : op = op' := by simpa [hj] using hj'
  have hsame := operation_refines hkl σ j op res' hres'
  obtain rfl : res = res' := by simpa [hres] using hsame
  exact hres'

/-- So it is then with the names that are used in the body. -/
theorem upTo_refines_of_answered (hm : m.WellFormed) (hbody : σ.body = some (c, params))
    (hk : m.operations.length ≤ k) (hkl : k ≤ l)
    (h : answered (Registry.ofModule m) maxDepth σ c.body l ⊆
      answered (Registry.ofModule m) maxDepth σ c.body k) (i : Nat) (name : String)
    (span : Span) :
    Refines (upTo (Registry.ofModule m) maxDepth .whole (l + 1) σ i name span)
      (upTo (Registry.ofModule m) maxDepth .whole (k + 1) σ i name span) := by
  rcases definition?_inside (Registry.ofModule m) Scoping.lawful_whole hbody i name with
    ⟨v, hv⟩ | ⟨j, op, hdef, hj, -⟩ | hshared
  · rw [upTo_succ, upTo_succ, hv]
    exact Refines.refl _
  · rw [upTo_succ, upTo_succ, hdef]
    exact operation_refines_of_answered hkl h hj
  · rw [upTo_eq_of_shared hshared, upTo_eq_of_shared hshared]
    exact (upTo_outside_refines hm (l + 1) σ.depth 0 name span).trans
      (upTo_refines (by omega) _ _ _ _)

end Answered

/-- How many operations are in reach of the body of a class: shared ones, those of the classes
below, and its own. -/
noncomputable def inReach (m : Module) (c : ClassDecl) : Nat :=
  m.operations.length + m.below (fun d => d.body.length) c.name.name + c.body.length

/-- In the body of a class a level for each operation in reach suffices. -/
theorem upTo_inside_refines (hm : m.WellFormed) (b : Nat) :
    ∀ (c : Class) (params : List (String × Value)) (σ : Scope), c.toClassDecl ∈ m.classes →
      m.below (fun _ => 1) c.name.name < b → σ.body = some (c, params) →
      ∀ n i name span, Refines (upTo (Registry.ofModule m) maxDepth .whole n σ i name span)
        (upTo (Registry.ofModule m) maxDepth .whole (inReach m c.toClassDecl + 1) σ i name
          span) := by
  induction b with
  | zero =>
      intro c params σ _ hb
      omega
  | succ b ih =>
      intro c params σ hc hb hbody n i name span
      -- beyond this depth shared values and the objects of other classes mean no more
      obtain ⟨K, hK⟩ : ∃ K, K = m.operations.length +
        m.below (fun d => d.body.length) c.name.name := ⟨_, rfl⟩
      have hstep : ∀ k, K ≤ k →
          answered (Registry.ofModule m) maxDepth σ c.body (k + 1) ⊆
            answered (Registry.ofModule m) maxDepth σ c.body k →
          answered (Registry.ofModule m) maxDepth σ c.body (k + 2) ⊆
            answered (Registry.ofModule m) maxDepth σ c.body (k + 1) := by
        intro k hk hsame j hj
        obtain ⟨op, res, hget, hres⟩ := exists_of_mem_answered hj
        refine mem_answered hget (Refines.operation (fun x _ => ?_) ?_ res hres)
        · exact upTo_refines_of_answered hm hbody (by omega) (Nat.le_succ k) hsame j x.name x.span
        · intro target actuals operandTys ty hact vs _
          refine Refines.object fun d hd _ i' f _ => ?_
          obtain ⟨hdmem, hmakes⟩ := Registry.makes_of_class? hc (List.mem_of_getElem? hget)
            (Action.target?_eq_some_iff.2 ⟨actuals, operandTys, ty, hact⟩) hd
          -- the class made here has fewer classes below it, and no more operations in reach
          have hone := m.below_add_le hm (fun _ => 1) hdmem hmakes
          have hlen := m.below_add_le hm (fun d => d.body.length) hdmem hmakes
          refine (ih d (d.bind vs) (σ.enter d vs) hdmem (by omega) rfl _ _ _ _).trans
            (upTo_refines ?_ _ _ _ _)
          rw [inReach]
          omega
      -- so `K` and a level for each operation of the body are deep enough, whatever `n` is
      have hreach : inReach m c.toClassDecl = K + c.body.length := by rw [inReach, hK]
      rw [hreach]
      have hdeep := upTo_refines_of_answered hm hbody
        (show m.operations.length ≤ K + c.body.length by omega)
        (show K + c.body.length ≤ K + max n c.body.length by omega)
        (answered_stable hstep (Nat.le_max_right n c.body.length)) i name span
      exact (upTo_refines (by omega) σ i name span).trans hdeep

/-- A call needs to ask for operands no deeper than there are operations, and once more. -/
theorem object_refines_size (hm : m.WellFormed) (n : Nat) (name : String) (actuals : List Value) :
    Refines (object (Registry.ofModule m) maxDepth (upTo (Registry.ofModule m) maxDepth .whole n)
        ⟨0, none⟩ name actuals none)
      (object (Registry.ofModule m) maxDepth (upTo (Registry.ofModule m) maxDepth .whole
        ((Registry.ofModule m).size + 1)) ⟨0, none⟩ name actuals none) := by
  refine Refines.object fun c hc _ i f _ => ?_
  have hmem := (Registry.mem_of_class? hc).1
  have hsum := m.below_add_le_sum hm (fun d => d.body.length) hmem
  have hsize := Registry.size_ofModule m
  refine (upTo_inside_refines hm (m.below (fun _ => 1) c.name.name + 1) c (c.bind actuals) _ hmem
    (Nat.lt_succ_self _) rfl n i f.value.name f.span).trans (upTo_refines ?_ _ _ _ _)
  rw [inReach]
  omega

end Meaning

/-! ### The call -/

/-- **The result of a call is the meaning of making its object**: a call on an accepted module ends
in a result exactly when that is what making the object means, however deep operands have to be
asked for. -/
theorem Registry.instantiate_eq_some_iff {m : Module} (hm : m.WellFormed) {maxDepth : Nat}
    {name : String} {actuals : List Value} {res : Except Failure Object} :
    (ofModule m).instantiate maxDepth name actuals = some res ↔
      ∃ res', (ofModule m).Yields maxDepth .whole name actuals res' ∧
        res = res'.mapError fun cause => ⟨cause, .instantiate⟩ := by
  constructor
  · exact Registry.yields_of_instantiate hm.no_objects
  · rintro ⟨res', ⟨n, hn⟩, rfl⟩
    have hdeep := Meaning.object_refines_size hm n name actuals res' hn
    obtain ⟨journal, hrun⟩ := Registry.exists_run_of_object hm.no_objects hdeep
    rw [Registry.instantiate, hrun]
    rfl

end ObjectModel
