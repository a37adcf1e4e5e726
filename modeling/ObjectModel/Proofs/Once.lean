/-
**Every value is computed at most once.**

The journal tells of each operation that is carried out, with the frame for which it is.  A value
is kept only when its operation is done, so what has to be shown is that nothing on the way asks
for it again.  A name that is asked for with an answer has a smallest depth at which it has a
meaning; the operands of its operation have one at a smaller depth, and so have all names that are
asked for on their behalf.  The name itself can not be among them.

Main definitions:

* `Meaning.Answers` — a name means something when operations ask for operands at most so deep;
* `Eval.Ledger` — what the journal tells of was carried out once, and is kept or underway;
* `Eval.Clear` — no value that is underway can be asked for with an answer;
* `Eval.Tallies` — a computation that keeps the ledger where what is underway is clear.

Main results:

* `Meaning.exists_answers_succ` — names have a smallest depth at which they mean something;
* `Eval.Tallies.bind`, `Eval.Tallies.inFrame`, … — composed computations;
* `Eval.tallies_resolveUpTo` — so it is with asking for names;
* `Eval.noneTwice_of_call` — the journal of a call tells of no operation twice;
* `Registry.operation_at_most_once` — a call carries out no operation twice for one frame.
-/

import ObjectModel.Proofs.Afresh
import ObjectModel.Proofs.Journal

set_option relaxedAutoImplicit false
set_option autoImplicit false

namespace ObjectModel

/-! ### How deep a name is answered -/

namespace Meaning

variable {r : Registry} {maxDepth k l : Nat} {σ : Scope} {x : String}

/-- In the scope the name means something, when operations ask for operands at most `k` deep. -/
def Answers (r : Registry) (maxDepth k : Nat) (σ : Scope) (x : String) : Prop :=
  ∃ i span res, (upTo r maxDepth .whole k σ i x span).run = some res

theorem Answers.mono (h : Answers r maxDepth k σ x) (hkl : k ≤ l) : Answers r maxDepth l σ x := by
  obtain ⟨i, span, res, hres⟩ := h
  exact ⟨i, span, res, upTo_refines hkl σ i x span res hres⟩

theorem not_answers_zero : ¬Answers r maxDepth 0 σ x := by
  rintro ⟨i, span, res, hres⟩
  cases hres

/-- There is a smallest depth at which a name means something. -/
theorem exists_answers_succ (h : Answers r maxDepth k σ x) :
    ∃ l < k, Answers r maxDepth (l + 1) σ x ∧ ¬Answers r maxDepth l σ x := by
  induction k with
  | zero => exact absurd h not_answers_zero
  | succ k ih =>
      by_cases hk : Answers r maxDepth k σ x
      · obtain ⟨l, hlk, hl⟩ := ih hk
        exact ⟨l, by omega, hl⟩
      · exact ⟨k, by omega, h, hk⟩

/-- A name that means something at a depth has an operation that does at the depth before. -/
theorem exists_run_operation {τ : Scope} {j : Nat} {op : Operation}
    (hdef : ∀ i, definition? r .whole σ i x = some (.computed τ j op))
    (h : Answers r maxDepth (k + 1) σ x) :
    ∃ res, (operation r maxDepth (upTo r maxDepth .whole k) τ j op).run = some res := by
  obtain ⟨i, span, res, hres⟩ := h
  rw [upTo_succ, hdef i] at hres
  exact ⟨res, hres⟩

/-- Outside of classes it makes no difference how many objects are being made. -/
theorem Answers.outside (hobj : ∀ op ∈ r.values, op.action.target? = none) {d d' : Nat}
    (h : Answers r maxDepth k ⟨d, none⟩ x) : Answers r maxDepth k ⟨d', none⟩ x := by
  obtain ⟨i, span, res, hres⟩ := h
  rw [upTo_outside hobj k d d' i x span] at hres
  exact ⟨i, span, res, hres⟩

/-- A name that stands for a shared value means something outside of classes if it does inside. -/
theorem answers_outside_of_shared {i : Nat} {span : Span} {res : Except EvalError Value}
    (hdef : definition? r .whole σ i x = shared? r σ x)
    (h : (upTo r maxDepth .whole k σ i x span).run = some res) :
    Answers r maxDepth k σ.outside x := by
  cases k with
  | zero => cases h
  | succ k =>
      rw [upTo_eq_of_shared hdef] at h
      exact ⟨0, span, res, h⟩

end Meaning

namespace Eval

open Meaning (Faithful Follows Answers upTo definition? shared?)

/-! ### The ledger -/

/-- No operation was carried out twice for a value. -/
def NoneTwice (s : EvalState) : Prop := ∀ g x, s.journal.count (.computing g x) ≤ 1

/-- The frames have the numbers `ids`, and what the journal tells of was carried out once.  If it
was for a shared value or for a frame that is still there, the value is kept or it is one of those
underway. -/
structure Ledger (ids : List Nat) (underway : List (Nat × String)) (s : EvalState) : Prop where
  /-- The numbers of the frames. -/
  numbered : s.frames.map Frame.id = ids
  /-- No two frames have one number. -/
  distinct : ids.Nodup
  /-- Frames are numbered from one on. -/
  positive : ∀ g ∈ ids, 0 < g
  /-- There were no frames with other numbers. -/
  opened : ∀ g ∈ ids, g ≤ s.opened
  /-- What is underway is so for one of these. -/
  begun : ∀ g x, (g, x) ∈ underway → g ≤ s.opened
  /-- So is what was carried out. -/
  past : ∀ g x, .computing g x ∈ s.journal → g ≤ s.opened
  /-- Nothing was carried out twice. -/
  once : NoneTwice s
  /-- Shared values that were computed are kept or underway. -/
  shared : ∀ x, .computing 0 x ∈ s.journal → (0, x) ∈ underway ∨ (s.shared.lookup x).isSome = true
  /-- So are values of the frames. -/
  inside : ∀ f ∈ s.frames, ∀ x, .computing f.id x ∈ s.journal →
    (f.id, x) ∈ underway ∨ (f.values.lookup x).isSome = true

section Ledger

variable {ids : List Nat} {underway : List (Nat × String)} {s : EvalState} {g : Nat} {x : String}

theorem ledger_init : Ledger [] [] {} where
  numbered := rfl
  distinct := List.nodup_nil
  positive := by simp
  opened := by simp
  begun := by simp
  past := by simp
  once := by simp [NoneTwice]
  shared := by simp
  inside := by simp

/-- What is written down of other things makes no difference. -/
theorem Ledger.note (h : Ledger ids underway s) {e : Event} (he : ∀ g x, e ≠ .computing g x) :
    Ledger ids underway (s.note e) := by
  have hmem : ∀ g x, .computing g x ∈ (s.note e).journal → .computing g x ∈ s.journal :=
    fun g x hgx => (List.mem_cons.1 hgx).resolve_left (he g x).symm
  exact {
    numbered := h.numbered
    distinct := h.distinct
    positive := h.positive
    opened := h.opened
    begun := h.begun
    past := fun g x hgx => h.past g x (hmem g x hgx)
    once := fun g x => by
      rw [EvalState.note, List.count_cons_of_ne (he g x)]
      exact h.once g x
    shared := fun x hx => h.shared x (hmem 0 x hx)
    inside := fun f hf x hx => h.inside f hf x (hmem f.id x hx) }

theorem computing_mem_note {g' : Nat} {y : String} :
    .computing g' y ∈ (s.note (.computing g x)).journal ↔
      (g', y) = (g, x) ∨ .computing g' y ∈ s.journal := by
  simp [EvalState.note]

/-- A value that was not computed goes underway. -/
theorem Ledger.begin (h : Ledger ids underway s) (hg : g ≤ s.opened)
    (hnot : .computing g x ∉ s.journal) :
    Ledger ids ((g, x) :: underway) (s.note (.computing g x)) where
  numbered := h.numbered
  distinct := h.distinct
  positive := h.positive
  opened := h.opened
  begun g' y hgy := by
    rcases List.mem_cons.1 hgy with heq | hgy
    · cases heq
      exact hg
    · exact h.begun g' y hgy
  past g' y hgy := by
    rcases computing_mem_note.1 hgy with heq | hgy
    · cases heq
      exact hg
    · exact h.past g' y hgy
  once g' y := by
    by_cases heq : Event.computing g x = .computing g' y
    · have hnone : s.journal.count (.computing g x) = 0 := List.count_eq_zero_of_not_mem hnot
      rw [EvalState.note, ← heq, List.count_cons_self]
      omega
    · rw [EvalState.note, List.count_cons_of_ne heq]
      exact h.once g' y
  shared y hy := by
    rcases computing_mem_note.1 hy with heq | hy
    · exact .inl (heq ▸ List.mem_cons_self)
    · exact (h.shared y hy).imp_left (List.mem_cons_of_mem _)
  inside f hf y hy := by
    rcases computing_mem_note.1 hy with heq | hy
    · exact .inl (heq ▸ List.mem_cons_self)
    · exact (h.inside f hf y hy).imp_left (List.mem_cons_of_mem _)

/-- A shared value that was underway is kept. -/
theorem Ledger.keepShared (h : Ledger ids ((0, x) :: underway) s) (v : Value) :
    Ledger ids underway (s.keepShared x v) where
  numbered := h.numbered
  distinct := h.distinct
  positive := h.positive
  opened := h.opened
  begun g y hgy := h.begun g y (List.mem_cons_of_mem _ hgy)
  past := h.past
  once := h.once
  shared y hy := by
    rw [EvalState.keepShared, Entries.lookup_insert]
    by_cases hyx : y = x
    · simp [hyx]
    · simpa [hyx] using h.shared y hy
  inside f hf y hy := by
    have hpos := h.positive f.id (h.numbered ▸ List.mem_map.2 ⟨f, hf, rfl⟩)
    have hne : f.id ≠ 0 := by omega
    simpa [hne] using h.inside f hf y hy

/-- A value of the innermost frame that was underway is kept. -/
theorem Ledger.keepLocal (h : Ledger (g :: ids) ((g, x) :: underway) s) (v : Value) :
    Ledger (g :: ids) underway (s.keepLocal x v) := by
  obtain ⟨f, fs, hframes, rfl, hfs⟩ := List.map_eq_cons_iff.1 h.numbered
  have hkeep : s.keepLocal x v =
      { s with frames := { f with values := Entries.insert x v f.values } :: fs } := by
    rw [EvalState.keepLocal, hframes]
  have hpos := h.positive f.id List.mem_cons_self
  rw [hkeep]
  exact {
    numbered := by rw [List.map_cons, hfs]
    distinct := h.distinct
    positive := h.positive
    opened := h.opened
    begun := fun g y hgy => h.begun g y (List.mem_cons_of_mem _ hgy)
    past := h.past
    once := h.once
    shared := fun y hy => by
      have hne : (0 : Nat) ≠ f.id := by omega
      simpa [hne] using h.shared y hy
    inside := fun f' hf' y hy => by
      rcases List.mem_cons.1 hf' with rfl | hf'
      · rw [Entries.lookup_insert]
        by_cases hyx : y = x
        · simp [hyx]
        · simpa [hyx] using h.inside f (hframes ▸ List.mem_cons_self) y hy
      · -- the other frames have other numbers
        have hne : f'.id ≠ f.id := by
          intro heq
          exact (List.nodup_cons.1 h.distinct).1 (heq ▸ hfs ▸ List.mem_map.2 ⟨f', hf', rfl⟩)
        simpa [hne] using h.inside f' (hframes ▸ List.mem_cons_of_mem _ hf') y hy }

/-- For a new frame nothing was carried out. -/
theorem Ledger.open (h : Ledger ids underway s) (values : List (String × Value)) :
    Ledger ((s.opened + 1) :: ids) underway (Eval.opened values s) where
  numbered := by rw [Eval.opened, List.map_cons, h.numbered]
  distinct := by
    refine List.nodup_cons.2 ⟨fun hmem => ?_, h.distinct⟩
    have hle := h.opened _ hmem
    omega
  positive := List.forall_mem_cons.2 ⟨Nat.succ_pos _, h.positive⟩
  opened := by
    refine List.forall_mem_cons.2 ⟨Nat.le_refl _, fun g hg => ?_⟩
    exact Nat.le_succ_of_le (h.opened g hg)
  begun g x hgx := Nat.le_succ_of_le (h.begun g x hgx)
  past g x hgx := Nat.le_succ_of_le (h.past g x hgx)
  once := h.once
  shared := h.shared
  inside := by
    refine List.forall_mem_cons.2 ⟨fun x hx => ?_, h.inside⟩
    have hle : s.opened + 1 ≤ s.opened := h.past _ x hx
    omega

/-- When the innermost frame is gone, the others are as they were. -/
theorem Ledger.close (h : Ledger (g :: ids) underway s) :
    Ledger ids underway { s with frames := s.frames.drop 1 } where
  numbered := by rw [List.map_drop, h.numbered, List.drop_one, List.tail_cons]
  distinct := (List.nodup_cons.1 h.distinct).2
  positive g' hg' := h.positive g' (List.mem_cons_of_mem _ hg')
  opened g' hg' := h.opened g' (List.mem_cons_of_mem _ hg')
  begun := h.begun
  past := h.past
  once := h.once
  shared := h.shared
  inside f hf := h.inside f (List.mem_of_mem_drop hf)

end Ledger

/-! ### What is underway -/

/-- No value that is underway, be it shared or of the innermost frame, means anything when
operations ask for operands at most `k` deep. -/
structure Clear (r : Registry) (maxDepth k : Nat) (σ : Scope) (ids : List Nat)
    (underway : List (Nat × String)) : Prop where
  /-- Shared values. -/
  shared : ∀ x, (0, x) ∈ underway → ¬Answers r maxDepth k σ.outside x
  /-- Values of the innermost frame, inside of a class. -/
  inside : σ.body.isSome = true → ∀ g x, ids.head? = some g → (g, x) ∈ underway →
    ¬Answers r maxDepth k σ x

section Clear

variable {r : Registry} {maxDepth k l g : Nat} {σ : Scope} {ids : List Nat}
  {underway : List (Nat × String)} {x : String}

theorem Clear.mono (h : Clear r maxDepth k σ ids underway) (hlk : l ≤ k) :
    Clear r maxDepth l σ ids underway where
  shared x hx hanswers := h.shared x hx (hanswers.mono hlk)
  inside hbody g x hg hx hanswers := h.inside hbody g x hg hx (hanswers.mono hlk)

theorem Clear.toOutside (h : Clear r maxDepth k σ ids underway) :
    Clear r maxDepth k σ.outside ids underway where
  shared := h.shared
  inside hbody := by simp [Scope.outside] at hbody

/-- A shared value that means nothing goes underway. -/
theorem Clear.beginShared (h : Clear r maxDepth k σ.outside ids underway)
    (hx : ¬Answers r maxDepth k σ.outside x) :
    Clear r maxDepth k σ.outside ids ((0, x) :: underway) where
  shared y hy := by
    rcases List.mem_cons.1 hy with heq | hy
    · cases heq
      exact hx
    · exact h.shared y hy
  inside hbody := by simp [Scope.outside] at hbody

/-- A value of the innermost frame that means nothing goes underway. -/
theorem Clear.beginLocal (h : Clear r maxDepth k σ (g :: ids) underway) (hg : 0 < g)
    (hx : ¬Answers r maxDepth k σ x) : Clear r maxDepth k σ (g :: ids) ((g, x) :: underway) where
  shared y hy := by
    have hne : (0 : Nat) ≠ g := by omega
    exact h.shared y (by simpa [hne] using hy)
  inside hbody g' y hg' hy := by
    rcases List.mem_cons.1 hy with heq | hy
    · cases heq
      exact hx
    · exact h.inside hbody g' y hg' hy

/-- In a new frame nothing is underway. -/
theorem Clear.enter (hobj : ∀ op ∈ r.values, op.action.target? = none)
    (h : Clear r maxDepth k σ ids underway) {s : EvalState} (hs : Ledger ids underway s)
    (c : Class) (actuals : List Value) :
    Clear r maxDepth k (σ.enter c actuals) ((s.opened + 1) :: ids) underway where
  shared x hx hanswers := h.shared x hx (hanswers.outside hobj)
  inside _ g x hg hx := by
    obtain rfl : s.opened + 1 = g := by simpa using hg
    have hle := hs.begun _ x hx
    omega

/-- A shared value that is not kept was not begun, if asking for it means something. -/
theorem Ledger.not_begun_shared {s : EvalState} (hs : Ledger ids underway s)
    (hclear : Clear r maxDepth k σ ids underway) (hkept : s.shared.lookup x = none)
    (hx : Answers r maxDepth k σ.outside x) : .computing 0 x ∉ s.journal := by
  intro hmem
  rcases hs.shared x hmem with hunder | hsome
  · exact hclear.shared x hunder hx
  · simp [hkept] at hsome

/-- Nor was a value of the innermost frame. -/
theorem Ledger.not_begun_inside {s : EvalState} {f : Frame} {fs : List Frame}
    (hs : Ledger (f.id :: ids) underway s) (hclear : Clear r maxDepth k σ (f.id :: ids) underway)
    (hbody : σ.body.isSome = true) (hframes : s.frames = f :: fs)
    (hkept : f.values.lookup x = none) (hx : Answers r maxDepth k σ x) :
    .computing f.id x ∉ s.journal := by
  intro hmem
  rcases hs.inside f (hframes ▸ List.mem_cons_self) x hmem with hunder | hsome
  · exact hclear.inside hbody f.id x rfl hunder hx
  · simp [hkept] at hsome

end Clear

/-! ### Computations that keep the ledger -/

/-- After a value the ledger is as it was before.  After an error nothing more is asked for. -/
def Tallied {α : Type} (ids : List Nat) (underway : List (Nat × String)) :
    Except EvalError α → EvalState → Prop
  | .ok _, t => Ledger ids underway t
  | .error _, t => NoneTwice t

/-- In the scope `σ`, the computation `x` with the meaning `p` keeps the ledger if it means something
at a depth at which nothing underway does. -/
def Tallies {α : Type} (r : Registry) (maxDepth : Nat) (σ : Scope) (fs : List Frame)
    (ids : List Nat) (x : Eval α) (p : Nat → Meaning α) : Prop :=
  ∀ ⦃k : Nat⦄ ⦃underway : List (Nat × String)⦄ ⦃s t : EvalState⦄ ⦃res : Except EvalError α⦄,
    Faithful r maxDepth σ fs s → Ledger ids underway s → Clear r maxDepth k σ ids underway →
      (∃ res', (p k).run = some res') → Ends x s res t → Tallied ids underway res t

section Tallies

variable {α β : Type} {r : Registry} {maxDepth n : Nat} {σ : Scope} {fs : List Frame}
  {ids : List Nat}

theorem Tallies.pure (a : α) (p : Nat → Meaning α) :
    Tallies r maxDepth σ fs ids (Pure.pure a) p := by
  intro k underway s t res _ hl _ _ h
  obtain ⟨rfl, rfl⟩ := ends_pure_iff.1 h
  exact hl

theorem Tallies.throw (e : EvalError) (p : Nat → Meaning α) :
    Tallies r maxDepth σ fs ids (MonadExcept.throw e : Eval α) p := by
  intro k underway s t res _ hl _ _ h
  obtain ⟨rfl, rfl⟩ := ends_throw_iff.1 h
  exact hl.once

/-- Events of the evaluation of a constant or of a map are of other things. -/
theorem Ledger.notes {ids : List Nat} {underway : List (Nat × String)} {s : EvalState}
    (h : Ledger ids underway s) {es : List Event} (hes : ∀ e ∈ es, e.OfValue) :
    Ledger ids underway { s with journal := es ++ s.journal } := by
  induction es with
  | nil => exact h
  | cons e es ih =>
      have hrest := ih fun e' he' => hes e' (List.mem_cons_of_mem _ he')
      refine hrest.note (e := e) ?_
      rintro g x rfl
      cases hes _ List.mem_cons_self

theorem Tallies.silent {x : Eval α} (hx : Silent x) (p : Nat → Meaning α) :
    Tallies r maxDepth σ fs ids x p := by
  intro k underway s t res _ hl _ _ h
  obtain ⟨res', es, hes, hall⟩ := hx
  obtain ⟨rfl, rfl⟩ := h.unique (hall s)
  have ht := hl.notes hes
  cases res with
  | ok a => exact ht
  | error e => exact ht.once

theorem Tallies.bind {x : Eval α} {f : α → Eval β} {p : Nat → Meaning α}
    {q : Nat → α → Meaning β} (hfollows : Follows r maxDepth n σ fs x p)
    (hx : Tallies r maxDepth σ fs ids x p)
    (hf : ∀ a, Tallies r maxDepth σ fs ids (f a) fun k => q k a) :
    Tallies r maxDepth σ fs ids (x >>= f) fun k => p k >>= q k := by
  intro k underway s t res hs hl hclear hp h
  obtain ⟨res', hres'⟩ := hp
  rw [Meaning.run_bind_eq_some_iff] at hres'
  have hfirst : ∃ r', (p k).run = some r' := by
    rcases hres' with ⟨e, he, -⟩ | ⟨a, ha, -⟩
    · exact ⟨_, he⟩
    · exact ⟨_, ha⟩
  rcases ends_bind_iff.1 h with ⟨e, he, rfl⟩ | ⟨a, u, ha, hfa⟩
  · exact hx hs hl hclear hfirst he
  · have hu : Ledger ids underway u := hx hs hl hclear hfirst ha
    obtain ⟨⟨l, hl⟩, hfaith⟩ := hfollows.ends hs ha
    -- what came out of the first computation is what it means at the depth `k`, too
    have hmax := hfollows.grows (Nat.le_max_right k l) _ hl
    rcases hres' with ⟨e, he, -⟩ | ⟨b, hb, hq⟩
    · have he := hfollows.grows (Nat.le_max_left k l) _ he
      rw [hmax] at he
      cases he
    · have hb := hfollows.grows (Nat.le_max_left k l) _ hb
      rw [hmax] at hb
      cases hb
      exact hf a hfaith hu hclear ⟨_, hq⟩ hfa

/-- What writes down other things may come before anything. -/
theorem Tallies.write_bind {e : Event} (he : ∀ g x, e ≠ .computing g x) {f : Unit → Eval β}
    {q : Nat → Meaning β} (hf : Tallies r maxDepth σ fs ids (f ()) q) :
    Tallies r maxDepth σ fs ids (write e >>= f) q := by
  intro k underway s t res hs hl hclear hq h
  exact hf (hs.write e) (hl.note he) hclear hq (ends_write_bind_iff.1 h)

theorem Tallies.mapM {f : α → Eval β} {g : Nat → α → Meaning β} {as : List α}
    (hfollows : ∀ a ∈ as, Follows r maxDepth n σ fs (f a) fun k => g k a)
    (hf : ∀ a ∈ as, Tallies r maxDepth σ fs ids (f a) fun k => g k a) :
    Tallies r maxDepth σ fs ids (as.mapM f) fun k => as.mapM (g k) := by
  induction as with
  | nil =>
      simp only [List.mapM_nil]
      exact Tallies.pure _ _
  | cons a as ih =>
      have hrest : ∀ a' ∈ as, a' ∈ a :: as := fun a' => List.mem_cons_of_mem a
      have htail := ih (fun a' ha' => hfollows a' (hrest a' ha')) fun a' ha' => hf a' (hrest a' ha')
      have hfollowsTail : Follows r maxDepth n σ fs (as.mapM f) fun k => as.mapM (g k) :=
        Follows.mapM fun a' ha' => hfollows a' (hrest a' ha')
      simp only [List.mapM_cons]
      exact (hf a List.mem_cons_self).bind (hfollows a List.mem_cons_self) fun b =>
        htail.bind hfollowsTail fun bs => Tallies.pure _ _

/-- A computation in the frame of a new object keeps the ledger if it does so with the number of
the frame. -/
theorem Tallies.inFrame (hobj : ∀ op ∈ r.values, op.action.target? = none) {x : Eval α}
    {p : Nat → Meaning α} {c : Class} {actuals : List Value}
    (hx : ∀ fs' g, Tallies r maxDepth (σ.enter c actuals) fs' (g :: ids) x p) :
    Tallies r maxDepth σ fs ids (Eval.inFrame (c.bind actuals) x) p := by
  intro k underway s t res hs hl hclear hp h
  obtain ⟨u, hu, rfl⟩ := ends_inFrame_iff.1 h
  have hinside := hx s.frames (s.opened + 1) (hs.opened c actuals) (hl.open (c.bind actuals))
    (hclear.enter hobj hl c actuals) hp hu
  cases res with
  | ok a => exact Ledger.close hinside
  | error e => exact hinside

/-! ### Operations and objects -/

section Resolver

variable {resolve : Resolver} (hresolve : Meaning.Finds r maxDepth n resolve)
  (htallies : ∀ σ fs ids i x span, Tallies r maxDepth σ fs ids
    (resolve (σ.body.map Prod.fst) x span) fun k => upTo r maxDepth .whole k σ i x span)

include hresolve htallies

theorem tallies_operands (i : Nat) (xs : List Ident) :
    Tallies r maxDepth σ fs ids (resolveAll resolve (σ.body.map Prod.fst) xs)
      fun k => Meaning.operands (upTo r maxDepth .whole k) σ i xs :=
  Tallies.mapM (fun x _ => hresolve σ fs i x.name x.span)
    fun x _ => htallies σ fs ids i x.name x.span

theorem tallies_fieldValues {c : Class} {params : List (String × Value)}
    (hbody : σ.body = some (c, params)) :
    Tallies r maxDepth σ fs ids (fieldValues resolve c)
      fun k => Meaning.fieldValues (upTo r maxDepth .whole k) σ c := by
  have hscope : σ.body.map Prod.fst = some c := by rw [hbody, Option.map_some]
  unfold fieldValues
  rw [← c.map_placedFields, List.mapM_map]
  refine Tallies.mapM (n := n) (fun p _ => Follows.write_bind ?_) fun p _ => ?_
  · have hfield := hresolve σ fs p.1 p.2.value.name p.2.span
    rw [hscope] at hfield
    exact hfield.bind fun v => Follows.pure _
  · have hfield := hresolve σ fs p.1 p.2.value.name p.2.span
    have htallied := htallies σ fs ids p.1 p.2.value.name p.2.span
    rw [hscope] at hfield htallied
    refine Tallies.write_bind (fun g x => by simp) ?_
    exact htallied.bind hfield fun v => Tallies.pure _ _

/-- So does what is done for an object of a class that exists, when not too many objects are being
made. -/
theorem tallies_made (hobj : ∀ op ∈ r.values, op.action.target? = none) (c : Class)
    (actuals : List Value) (loc : Location) {e : Event} (he : ∀ g x, e ≠ .computing g x) :
    Tallies r maxDepth σ fs ids
      (do
        checkActuals c actuals loc
        write e
        inFrame (c.bind actuals) do
          return (⟨c, Entries.ofList (← fieldValues resolve c)⟩ : Object))
      fun k => do
        Meaning.ofEval (checkActuals c actuals loc)
        return ⟨c, Entries.ofList
          (← Meaning.fieldValues (upTo r maxDepth .whole k) (σ.enter c actuals) c)⟩ := by
  have hsilent := Silent.checkActuals c actuals loc
  refine (Tallies.silent hsilent _).bind (Follows.silent (n := n) hsilent) fun _ => ?_
  refine Tallies.write_bind he (Tallies.inFrame hobj fun fs' g => ?_)
  exact (tallies_fieldValues hresolve htallies rfl).bind (Follows.fieldValues hresolve rfl)
    fun _ => Tallies.pure _ _

/-- Making an object keeps the ledger. -/
theorem tallies_instantiate (hobj : ∀ op ∈ r.values, op.action.target? = none) (name : String)
    (actuals : List Value) (site : Option Location) :
    Tallies r maxDepth σ fs ids (instantiate r maxDepth resolve name actuals site)
      fun k => Meaning.object r maxDepth (upTo r maxDepth .whole k) σ name actuals site := by
  intro k underway s t res hs hl hclear hp h
  cases hc : r.class? name with
  | none =>
      rw [instantiate_of_none hc] at h
      obtain ⟨rfl, rfl⟩ := ends_throw_iff.1 h
      exact hl.once
  | some c =>
      rw [ends_instantiate_iff hc, hs.depth] at h
      by_cases hdepth : maxDepth ≤ σ.depth
      · rw [if_pos hdepth] at h
        obtain ⟨rfl, rfl⟩ := h
        exact hl.once
      · rw [if_neg hdepth] at h
        simp only [Meaning.object, hc, if_neg hdepth] at hp
        exact tallies_made hresolve htallies hobj c actuals _ (fun g x => by simp) hs hl hclear hp h

/-- Carrying out an operation keeps the ledger. -/
theorem tallies_operation (hobj : ∀ op ∈ r.values, op.action.target? = none) (i : Nat)
    (op : Operation) :
    Tallies r maxDepth σ fs ids (operation r maxDepth resolve (σ.body.map Prod.fst) op)
      fun k => Meaning.operation r maxDepth (upTo r maxDepth .whole k) σ i op := by
  have hoperands : ∀ xs, Tallies r maxDepth σ fs ids (resolveAll resolve (σ.body.map Prod.fst) xs)
      fun k => Meaning.operands (upTo r maxDepth .whole k) σ i xs :=
    tallies_operands hresolve htallies i
  have hfollows : ∀ xs, Follows r maxDepth n σ fs (resolveAll resolve (σ.body.map Prod.fst) xs)
      fun k => Meaning.operands (upTo r maxDepth .whole k) σ i xs :=
    Follows.operands hresolve i
  unfold operation Meaning.operation
  cases op.action with
  | constant value ty => exact Tallies.silent (Silent.constant r _ value ty) _
  | object target actuals operandTys ty =>
      refine (hoperands actuals).bind (hfollows actuals) fun vs => ?_
      exact (tallies_instantiate hresolve htallies hobj target.name vs _).bind
        (Follows.object hresolve target.name vs _) fun _ => Tallies.pure _ _
  | listCreate elements elementTy =>
      exact (hoperands elements).bind (hfollows elements) fun _ => Tallies.pure _ _
  | tupleCreate elements elementTys =>
      exact (hoperands elements).bind (hfollows elements) fun _ => Tallies.pure _ _
  | mapCreate entries keyTy valueTy =>
      exact (hoperands entries).bind (hfollows entries) fun vs =>
        Tallies.silent (Silent.buildMap vs keyTy valueTy _) _
  | field name value ty => exact Tallies.throw _ _

/-! ### Names -/

omit hresolve htallies in
/-- A value that was not computed is underway while its operation is carried out, and kept
afterwards. -/
theorem tallied_computing {γ : Type} {g k : Nat} {x : String} {y : Eval Value}
    {p : Nat → Meaning Value} (hy : Tallies r maxDepth σ fs ids y p)
    {underway : List (Nat × String)} {s t : EvalState} (hs : Faithful r maxDepth σ fs s)
    (hl : Ledger ids underway s) (hg : g ≤ s.opened) (hnot : .computing g x ∉ s.journal)
    (hclear : Clear r maxDepth k σ ids ((g, x) :: underway))
    (hp : ∃ res', (p k).run = some res') {keep : Value → EvalState → EvalState}
    (hkeep : ∀ v u, Ledger ids ((g, x) :: underway) u → Ledger ids underway (keep v u))
    {found : Value → γ} {res : Except EvalError γ}
    (h : Ends (y >>= fun v => modify (keep v) >>= fun _ => pure (found v))
      (s.note (.computing g x)) res t) :
    Tallied ids underway res t := by
  have hwritten := hs.write (.computing g x)
  have hbegun := hl.begin hg hnot
  rcases ends_bind_iff.1 h with ⟨e, he, rfl⟩ | ⟨v, u, hv, h⟩
  · have ht : NoneTwice t := hy hwritten hbegun hclear hp he
    exact ht
  · have hu : Ledger ids ((g, x) :: underway) u := hy hwritten hbegun hclear hp hv
    obtain ⟨rfl, rfl⟩ := ends_modify_pure_iff.1 h
    exact hkeep v u hu

/-- Asking for a shared value keeps the ledger: what is carried out for it was not carried out
before, and does not ask for it. -/
theorem tallies_resolveShared (hobj : ∀ op ∈ r.values, op.action.target? = none) {i : Nat}
    {x : String} {span : Span} (hdef : definition? r .whole σ i x = shared? r σ x) :
    Tallies r maxDepth σ fs ids (resolveShared r maxDepth resolve x span)
      fun k => upTo r maxDepth .whole k σ i x span := by
  intro k underway s t res hs hl hclear hp h
  rw [ends_resolveShared_iff] at h
  cases hkept : s.shared.lookup x with
  | some v =>
      obtain ⟨rfl, rfl⟩ : res = .ok v ∧ t = s := by simpa [hkept] using h
      exact hl
  | none =>
      cases hop : r.value? x with
      | none =>
          obtain ⟨rfl, rfl⟩ : res = .error (.undefinedValue x (r.location span)) ∧ t = s := by
            simpa [hkept, hop] using h
          exact hl.once
      | some op =>
          simp only [hkept, hop, ends_write_bind_iff] at h
          obtain ⟨res', hres'⟩ := hp
          have hanswers := Meaning.answers_outside_of_shared hdef hres'
          have hnot : .computing 0 x ∉ s.journal := hl.not_begun_shared hclear hkept hanswers
          -- the smallest depth at which the name means something is one more than that of its
          -- operands
          obtain ⟨l, hlk, hnext, hleast⟩ := Meaning.exists_answers_succ hanswers
          have hcomputed : ∀ i, definition? r .whole σ.outside i x =
              some (.computed σ.outside 0 op) := by
            intro i
            simp [definition?, shared?, Scope.outside, hop]
          have hoperation : Tallies r maxDepth σ.outside s.frames ids
              (operation r maxDepth resolve none op)
              fun k => Meaning.operation r maxDepth (upTo r maxDepth .whole k) σ.outside 0 op :=
            tallies_operation hresolve htallies hobj 0 op
          have hclear' := (hclear.mono (Nat.le_of_lt hlk)).toOutside.beginShared hleast
          exact tallied_computing hoperation hs.toOutside hl (Nat.zero_le _) hnot hclear'
            (Meaning.exists_run_operation hcomputed hnext) (fun v u hu => hu.keepShared v) h

/-- So does asking for a value of the body of a class. -/
theorem tallied_resolveLocal (hobj : ∀ op ∈ r.values, op.action.target? = none) {c : Class}
    {params : List (String × Value)} (hbody : σ.body = some (c, params)) {i k : Nat} {x : String}
    {span : Span} {underway : List (Nat × String)} {s t : EvalState}
    {res : Except EvalError (Option Value)} (hs : Faithful r maxDepth σ fs s)
    (hl : Ledger ids underway s) (hclear : Clear r maxDepth k σ ids underway)
    (hp : ∃ res', (upTo r maxDepth .whole k σ i x span).run = some res')
    (h : Ends (resolveLocal r maxDepth resolve c x) s res t) : Tallied ids underway res t := by
  obtain ⟨f, hf, hff⟩ := hs.inside c params hbody
  have hlocal : s.local? x = f.values.lookup x := by simp [EvalState.local?, hf]
  rw [ends_resolveLocal_iff, hlocal] at h
  cases hkept : f.values.lookup x with
  | some v =>
      obtain ⟨rfl, rfl⟩ : res = .ok (some v) ∧ t = s := by simpa [hkept] using h
      exact hl
  | none =>
      cases hop : locate x c.body with
      | none =>
          have hnone : c.definition? x = none := by
            rw [Class.definition?, ← map_locate, hop, Option.map_none]
          obtain ⟨rfl, rfl⟩ : res = .ok none ∧ t = s := by simpa [hkept, hnone] using h
          exact hl
      | some q =>
          obtain ⟨j, op⟩ := q
          have hsome : c.definition? x = some op := by
            rw [Class.definition?, ← map_locate, hop, Option.map_some]
          simp only [hkept, hsome, ends_write_bind_iff, hf, List.head?_cons, Option.map_some,
            Option.getD_some] at h
          obtain ⟨res', hres'⟩ := hp
          have hanswers : Answers r maxDepth k σ x := ⟨i, span, res', hres'⟩
          obtain ⟨ids, rfl⟩ : ∃ ids', ids = f.id :: ids' := by
            rw [← hl.numbered, hf]
            exact ⟨_, rfl⟩
          have hnot : .computing f.id x ∉ s.journal :=
            hl.not_begun_inside hclear (by simp [hbody]) hf hkept hanswers
          obtain ⟨l, hlk, hnext, hleast⟩ := Meaning.exists_answers_succ hanswers
          have hcomputed : ∀ i, definition? r .whole σ i x = some (.computed σ j op) := by
            intro i
            simp [definition?, hbody, hff.lookup_eq_none hkept, Scoping.whole, hop]
          have hoperation : Tallies r maxDepth σ fs (f.id :: ids)
              (operation r maxDepth resolve (σ.body.map Prod.fst) op)
              fun k => Meaning.operation r maxDepth (upTo r maxDepth .whole k) σ j op :=
            tallies_operation hresolve htallies hobj j op
          rw [hbody, Option.map_some] at hoperation
          have hclear' := (hclear.mono (Nat.le_of_lt hlk)).beginLocal
            (hl.positive f.id List.mem_cons_self) hleast
          rw [← hf] at h
          exact tallied_computing hoperation hs hl (hl.opened f.id List.mem_cons_self) hnot hclear'
            (Meaning.exists_run_operation hcomputed hnext) (fun v u hu => hu.keepLocal v) h

end Resolver

/-- Asking for the value of a name keeps the ledger. -/
theorem tallies_resolveUpTo (hobj : ∀ op ∈ r.values, op.action.target? = none) (n : Nat) :
    ∀ σ fs ids i x span, Tallies r maxDepth σ fs ids
      (resolveUpTo r maxDepth n (σ.body.map Prod.fst) x span)
      fun k => upTo r maxDepth .whole k σ i x span := by
  induction n with
  | zero => exact fun σ fs ids i x span k underway s t res _ _ _ _ h => absurd h not_ends_diverge
  | succ n ih =>
      intro σ fs ids i x span
      have hresolve : Meaning.Finds r maxDepth n (resolveUpTo r maxDepth n) :=
        Meaning.resolve_follows hobj n
      cases hbody : σ.body with
      | none =>
          rw [Option.map_none, resolveUpTo_outside]
          have hdef : definition? r .whole σ i x = shared? r σ x := by
            simp [definition?, hbody]
          exact tallies_resolveShared hresolve ih hobj hdef
      | some p =>
          obtain ⟨c, params⟩ := p
          rw [Option.map_some, resolveUpTo_inside]
          intro k underway s t res hs hl hclear hp h
          rcases ends_bind_iff.1 h with ⟨e, he, rfl⟩ | ⟨found, u, hu, h⟩
          · exact tallied_resolveLocal hresolve ih hobj hbody hs hl hclear hp he
          · have hledger : Ledger ids underway u :=
              tallied_resolveLocal hresolve ih hobj hbody hs hl hclear hp hu
            obtain ⟨hfound, hfaith⟩ := Meaning.ends_resolveLocal hresolve hbody i span hs hu
            cases found with
            | some v =>
                obtain ⟨rfl, rfl⟩ := ends_pure_iff.1 h
                exact hledger
            | none =>
                exact tallies_resolveShared hresolve ih hobj hfound hfaith hledger hclear hp h

end Tallies

end Eval

/-! ### The call -/

/-- The journal of a call tells of no operation twice, neither for a frame nor for a shared
value. -/
theorem Eval.noneTwice_of_call {r : Registry} (hobj : ∀ op ∈ r.values, op.action.target? = none)
    {maxDepth : Nat} {name : String} {actuals : List Value} {res : Except EvalError Object}
    {t : EvalState}
    (h : Ends (instantiate r maxDepth (resolveUpTo r maxDepth (r.size + 1)) name actuals none) {}
      res t) : NoneTwice t := by
  have hresolve : Meaning.Finds r maxDepth (r.size + 1) (resolveUpTo r maxDepth (r.size + 1)) :=
    Meaning.resolve_follows hobj (r.size + 1)
  have hinit := Meaning.faithful_init r maxDepth
  obtain ⟨⟨k, hk⟩, -⟩ := (Registry.follows_call hobj maxDepth name actuals).ends hinit h
  have hclear : Clear r maxDepth k ⟨0, none⟩ [] [] := ⟨by simp, by simp⟩
  have hend := tallies_instantiate hresolve (tallies_resolveUpTo hobj (r.size + 1)) hobj name
    actuals none hinit ledger_init hclear ⟨res, hk⟩ h
  cases res with
  | ok o => exact Ledger.once hend
  | error e => exact hend

/-- The number of the frame in which names of a scope are kept: outside of classes there is none,
and the number is zero. -/
def EvalState.frameOf (s : EvalState) : Option Class → Nat
  | some _ => (s.frames.head?.map Frame.id).getD 0
  | none => 0

/-- The operation that defines a name in the body of a class, or outside of all classes. -/
def Registry.definition? (r : Registry) : Option Class → String → Option Operation
  | some c, x => c.definition? x
  | none, x => r.value? x

theorem Registry.defines_of_definition? {r : Registry} {scope : Option Class} {x : String}
    {op : Operation} (h : r.definition? scope x = some op) : op.defines x = true := by
  cases scope with
  | none => simpa using List.find?_some h
  | some c => simpa using List.find?_some h

/-- An operation defines one name at most. -/
theorem Operation.eq_of_defines {op : Operation} {x y : String} (hx : op.defines x = true)
    (hy : op.defines y = true) : x = y := by
  obtain ⟨result, action, span⟩ := op
  cases result with
  | none => cases hx
  | some i =>
      have hx : i.name = x := by simpa [Operation.defines] using hx
      have hy : i.name = y := by simpa [Operation.defines] using hy
      exact hx.symm.trans hy

/-- When a call begins to carry out an operation, it has just written that down. -/
theorem Registry.Begun.noted {r : Registry} {maxDepth : Nat} {name : String}
    {actuals : List Value} {scope : Option Class} {op : Operation} {s : EvalState}
    (h : r.Begun maxDepth name actuals (.operation scope op) s) :
    ∃ x, r.definition? scope x = some op ∧
      s.journal.head? = some (.computing (s.frameOf scope) x) := by
  rcases Relation.ReflTransGen.cases_tail h with heq | ⟨p, -, hstep⟩
  · cases heq
  · cases hstep with
    | inside hkept hop => exact ⟨_, hop, rfl⟩
    | shared hscope hkept hop => exact ⟨_, hop, rfl⟩

/-- Two last parts of a list that begin with something that is there only once are the same. -/
theorem eq_of_suffix_of_count_le_one {α : Type} [DecidableEq α] {l l₁ l₂ : List α} {a : α}
    (hcount : l.count a ≤ 1) (h₁ : l₁ <:+ l) (h₂ : l₂ <:+ l) (ha₁ : l₁.head? = some a)
    (ha₂ : l₂.head? = some a) : l₁ = l₂ := by
  have hshorter : ∀ {k₁ k₂ : List α}, k₁ <:+ k₂ → k₂ <:+ l → k₁.head? = some a →
      k₂.head? = some a → k₁ = k₂ := by
    intro k₁ k₂ h₁₂ h₂ ha₁ ha₂
    obtain ⟨k₁, rfl⟩ := List.head?_eq_some_iff.1 ha₁
    obtain ⟨k₂, rfl⟩ := List.head?_eq_some_iff.1 ha₂
    rcases List.suffix_cons_iff.1 h₁₂ with heq | hsuffix
    · exact heq
    · -- otherwise it would be there twice
      have hmem : 1 ≤ k₂.count a :=
        List.count_pos_iff.2 (hsuffix.subset List.mem_cons_self)
      have hle : (a :: k₂).count a ≤ l.count a := h₂.sublist.count_le a
      rw [List.count_cons_self] at hle
      omega
  rcases List.suffix_or_suffix_of_suffix h₁ h₂ with h | h
  · exact hshorter h h₂ ha₁ ha₂
  · exact (hshorter h h₁ ha₂ ha₁).symm

/-- **Every value is computed at most once.**  The journal of a call that returns tells of no
operation twice for one frame, nor of a shared one twice at all.  It does tell of every operation
that is carried out: the journal at that time is the first part of it, and ends with that
operation.  So an operation is carried out once at most for each frame of its class, and outside of
classes once at most. -/
theorem Registry.operation_at_most_once {m : Module} {quote : Nat → String} {r : Registry}
    (hbuild : Registry.build m quote = .ok r) {maxDepth : Nat} {name : String}
    {actuals : List Value} {res : Except EvalError Object} {journal : List Event}
    (hrun : r.run maxDepth name actuals = some (res, journal)) :
    (∀ frame x, journal.count (.computing frame x) ≤ 1) ∧
    (∀ scope op s, r.Begun maxDepth name actuals (.operation scope op) s →
      s.journal.reverse <+: journal ∧ ∃ x, r.definition? scope x = some op ∧
        s.journal.head? = some (.computing (s.frameOf scope) x)) ∧
    ∀ scope op s s', r.Begun maxDepth name actuals (.operation scope op) s →
      r.Begun maxDepth name actuals (.operation scope op) s' →
        s.frameOf scope = s'.frameOf scope → s.journal = s'.journal := by
  obtain ⟨hm, rfl⟩ := Registry.build_eq_ok_iff.1 hbuild
  obtain ⟨⟨res', t⟩, hends, heq⟩ := Option.map_eq_some_iff.1 hrun
  obtain ⟨-, rfl⟩ := Prod.mk.inj heq
  have honce : Eval.NoneTwice t := Eval.noneTwice_of_call hm.no_objects hends
  refine ⟨fun frame x => ?_, fun scope op s hbegun => ⟨?_, hbegun.noted⟩, ?_⟩
  · rw [List.count_reverse]
    exact honce frame x
  · exact List.reverse_prefix.2 (hbegun.journal_suffix hends)
  · intro scope op s s' hs hs' hframe
    obtain ⟨x, hx, hhead⟩ := hs.noted
    obtain ⟨x', hx', hhead'⟩ := hs'.noted
    obtain rfl : x = x' := Operation.eq_of_defines (Registry.defines_of_definition? hx)
      (Registry.defines_of_definition? hx')
    rw [← hframe] at hhead'
    exact eq_of_suffix_of_count_le_one (honce _ x) (hs.journal_suffix hends)
      (hs'.journal_suffix hends) hhead hhead'

/-- A cable has its plug at both ends, and the plug has the size that all parts have.  Each is
computed once. -/
theorem Registry.operation_at_most_once_cabled :
    Registry.build Module.cabled (fun _ => "") = .ok (ofModule Module.cabled) ∧
    ∃ res journal, (ofModule Module.cabled).run 8 "Cable" [.string "left"] = some (res, journal) ∧
      (∀ frame x, journal.count (.computing frame x) ≤ 1) ∧
      journal.count (.computing 1 "plug") = 1 ∧ journal.count (.computing 0 "size") = 1 := by
  have hbuild : Registry.build Module.cabled (fun _ => "") = .ok (ofModule Module.cabled) := rfl
  have hrun : (ofModule Module.cabled).run 8 "Cable" [.string "left"] = some (_, _) := rfl
  obtain ⟨honce, -, -⟩ := Registry.operation_at_most_once hbuild hrun
  exact ⟨hbuild, _, _, hrun, honce, by decide, by decide⟩

end ObjectModel
