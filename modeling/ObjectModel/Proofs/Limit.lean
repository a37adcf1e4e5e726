/-
**The limit of depth only cuts off.**

A call may be told how many objects may be made inside each other.  The limit is looked at each
time an object is begun, before anything else is, and nothing but the error about it hangs on it.
So with a lower limit a call ends in the same way, or it ends in that error.

Main definitions:

* `Meaning.CutShort` — a meaning is the same as another one, unless the limit cuts it off.

Main results:

* `Meaning.cutShort_upTo` — with a lower limit, names mean the same or are cut off;
* `Registry.instantiate_eq_or_cut_off` — so it is with calls.
-/

import ObjectModel.Proofs.Independence

set_option relaxedAutoImplicit false
set_option autoImplicit false

namespace ObjectModel

/-! ### Meanings that are cut off -/

namespace Meaning

variable {α β : Type} {limit : Nat}

/-- The first meaning is the second one, unless it is the error about the limit. -/
def CutShort (limit : Nat) (p q : Meaning α) : Prop :=
  p.run = q.run ∨ ∃ className loc, p.run = some (.error (.depthExceeded className limit loc))

theorem CutShort.refl (p : Meaning α) : CutShort limit p p := .inl rfl

/-- What comes first may be cut off, and then what comes second. -/
theorem CutShort.bind {p q : Meaning α} {f g : α → Meaning β} (h : CutShort limit p q)
    (hf : ∀ a, CutShort limit (f a) (g a)) : CutShort limit (p >>= f) (q >>= g) := by
  unfold CutShort
  rw [ExceptT.run_bind, ExceptT.run_bind]
  rcases h with h | ⟨className, loc, h⟩
  · rw [h]
    cases q.run with
    | none => exact .inl rfl
    | some res =>
        cases res with
        | error e => exact .inl rfl
        | ok a => exact hf a
  · rw [h]
    exact .inr ⟨className, loc, rfl⟩

theorem CutShort.mapM {f g : α → Meaning β} {as : List α}
    (h : ∀ a ∈ as, CutShort limit (f a) (g a)) : CutShort limit (as.mapM f) (as.mapM g) := by
  induction as with
  | nil => exact CutShort.refl _
  | cons a as ih =>
      rw [List.mapM_cons, List.mapM_cons]
      refine (h a List.mem_cons_self).bind fun b => ?_
      exact (ih fun a' ha' => h a' (List.mem_cons_of_mem _ ha')).bind fun _ => CutShort.refl _

/-! ### Objects and operations -/

section Names

variable {r : Registry} {limit' : Nat} {N M : Names}

/-- With a lower limit an object is the same or it is cut off, where that is so of the names that
its fields expose. -/
theorem CutShort.object (hle : limit ≤ limit')
    (hnames : ∀ σ i name span, CutShort limit (N σ i name span) (M σ i name span)) (σ : Scope)
    (name : String) (actuals : List Value) (site : Option Location) :
    CutShort limit (object r limit N σ name actuals site)
      (object r limit' M σ name actuals site) := by
  unfold Meaning.object
  split
  · exact CutShort.refl _
  · next c hc =>
      by_cases hdepth : limit ≤ σ.depth
      · rw [if_pos hdepth]
        exact .inr ⟨c.name.name, site.getD c.location, rfl⟩
      · -- what the lower limit allows, the higher one allows
        have hdepth' : ¬limit' ≤ σ.depth := by omega
        rw [if_neg hdepth, if_neg hdepth']
        refine (CutShort.refl _).bind fun _ => ?_
        have hvalues : CutShort limit (fieldValues N (σ.enter c actuals) c)
            (fieldValues M (σ.enter c actuals) c) :=
          CutShort.mapM fun p _ => (hnames _ _ _ _).bind fun _ => CutShort.refl _
        exact hvalues.bind fun _ => CutShort.refl _

/-- So it is with operations. -/
theorem CutShort.operation (hle : limit ≤ limit')
    (hnames : ∀ σ i name span, CutShort limit (N σ i name span) (M σ i name span)) (σ : Scope)
    (i : Nat) (op : Operation) :
    CutShort limit (operation r limit N σ i op) (operation r limit' M σ i op) := by
  have hoperands : ∀ xs, CutShort limit (operands N σ i xs) (operands M σ i xs) :=
    fun xs => CutShort.mapM fun x _ => hnames σ i x.name x.span
  unfold Meaning.operation
  cases op.action with
  | constant value ty => exact CutShort.refl _
  | object target actuals operandTys ty =>
      refine (hoperands actuals).bind fun vs => ?_
      exact (CutShort.object hle hnames σ target.name vs _).bind fun _ => CutShort.refl _
  | listCreate elements elementTy => exact (hoperands elements).bind fun _ => CutShort.refl _
  | tupleCreate elements elementTys => exact (hoperands elements).bind fun _ => CutShort.refl _
  | mapCreate entries keyTy valueTy => exact (hoperands entries).bind fun _ => CutShort.refl _
  | field name value ty => exact CutShort.refl _

end Names

/-- With a lower limit, names mean the same or are cut off. -/
theorem cutShort_upTo (r : Registry) {limit' : Nat} (hle : limit ≤ limit') (find : Scoping)
    (n : Nat) : ∀ σ i name span,
      CutShort limit (upTo r limit find n σ i name span) (upTo r limit' find n σ i name span) := by
  induction n with
  | zero => exact fun _ _ _ _ => CutShort.refl _
  | succ n ih =>
      intro σ i name span
      rw [upTo_succ, upTo_succ]
      cases definition? r find σ i name with
      | none => exact CutShort.refl _
      | some d =>
          cases d with
          | bound v => exact CutShort.refl _
          | computed τ j op => exact CutShort.operation hle ih τ j op

end Meaning

/-! ### The call -/

/-- **The limit of depth only cuts off.**  With a lower limit a call on an accepted module ends in
the same result as with a higher one, the same object or the same error, and it ends if and only if
that call does; or else it ends in the error that its limit is exceeded. -/
theorem Registry.instantiate_eq_or_cut_off {m : Module} {quote : Nat → String} {r : Registry}
    (hbuild : Registry.build m quote = .ok r) {limit limit' : Nat} (hle : limit ≤ limit')
    (name : String) (actuals : List Value) :
    r.instantiate limit name actuals = r.instantiate limit' name actuals ∨
      ∃ className loc, r.instantiate limit name actuals =
        some (.error ⟨.depthExceeded className limit loc, .instantiate⟩) := by
  obtain ⟨hm, rfl⟩ := Registry.build_eq_ok_iff.1 hbuild
  have hcall := fun n => Meaning.CutShort.object (r := ofModule m) hle
    (Meaning.cutShort_upTo (ofModule m) hle .whole n) ⟨0, none⟩ name actuals none
  -- the call is cut off if its meaning is, however deep operands are asked for
  by_cases hcut : ∃ className loc,
      (ofModule m).Yields limit .whole name actuals (.error (.depthExceeded className limit loc))
  · obtain ⟨className, loc, hyields⟩ := hcut
    exact .inr ⟨className, loc, (Registry.instantiate_eq_some_iff hm).2 ⟨_, hyields, rfl⟩⟩
  · refine .inl (Option.ext fun res => ?_)
    have hyields : ∀ res', (ofModule m).Yields limit .whole name actuals res' ↔
        (ofModule m).Yields limit' .whole name actuals res' := fun res' =>
      exists_congr fun n => by
        rcases hcall n with hsame | ⟨className, loc, hn⟩
        · rw [← hsame]
        · exact absurd ⟨className, loc, n, hn⟩ hcut
    rw [Registry.instantiate_eq_some_iff hm, Registry.instantiate_eq_some_iff hm]
    simp only [hyields]

/-- A device has a port inside, so it is made when two objects may be made inside each other, and
as many more as one likes; when only one may be, the port is cut off. -/
theorem Registry.instantiate_plugged_eq_or_cut_off :
    Registry.build Module.plugged (fun _ => "") = .ok (ofModule Module.plugged) ∧ 2 ≤ 256 ∧
    (∃ o, (ofModule Module.plugged).instantiate 2 "Device" [.string "left"] = some (.ok o)) ∧
    (ofModule Module.plugged).instantiate 2 "Device" [.string "left"] =
      (ofModule Module.plugged).instantiate 256 "Device" [.string "left"] ∧
    ∃ loc, (ofModule Module.plugged).instantiate 1 "Device" [.string "left"] =
      some (.error ⟨.depthExceeded "Port" 1 loc, .instantiate⟩) := by
  have hbuild : Registry.build Module.plugged (fun _ => "") = .ok (ofModule Module.plugged) := rfl
  have hmade : ∃ o,
      (ofModule Module.plugged).instantiate 2 "Device" [.string "left"] = some (.ok o) := ⟨_, rfl⟩
  have hle : 2 ≤ 256 := by decide
  refine ⟨hbuild, hle, hmade, ?_, _, rfl⟩
  rcases Registry.instantiate_eq_or_cut_off hbuild hle "Device" [.string "left"] with
    hsame | ⟨className, loc, hcut⟩
  · exact hsame
  · obtain ⟨o, ho⟩ := hmade
    rw [ho] at hcut
    cases hcut

end ObjectModel
