/-
**The wrapper around a module.**

A module may be written with the word `module` and braces around its items, or without.  What the
items are is the same either way.  Two texts are read side by side that have their tokens in common
up to the end, which is the end of all there is in the one and the closing brace of the wrapper in
the other.  As long as nothing is wrong with the first, both readers take the same tokens, and they
never take the end: the braces of classes, hardware modules and constants are closed before it.

Main definitions:

* `TwoEnds`, `Cursor.Beside` — the two ends, and reading in front of both;
* `Reading.Carries`, `Noting.Carries` — what is read in the one text is read in the other;
* `Noting.Grows` — problems stay noted;
* `Module.wrapped` — the wrapper around some tokens.

Main results:

* `Reading.carries_operation`, `Reading.carries_classHeader`, `Reading.carries_hardware` — one line;
* `Noting.itemsFrom_beside`, `Noting.carries_item` — items in a row, and one item;
* `Module.ofTokens?_wrapped` — **the wrapper around a module changes nothing but its span**.
-/

import ObjectModel.Proofs.LineEnds

set_option relaxedAutoImplicit false
set_option autoImplicit false

namespace ObjectModel

/-! ### Two ends of one text -/

/-- Two ends that a text may have: the end of all there is, or a closing brace with other tokens
behind it. -/
structure TwoEnds where
  /-- The end of all there is. -/
  stop : Token
  /-- The closing brace. -/
  brace : Token
  /-- What stands behind the brace. -/
  behind : List Token
  stop_kind : stop.kind = .eof
  brace_kind : brace.kind = .rightBrace

/-- Two cursors before the same tokens, behind which the text ends in one way and in the other. -/
structure Cursor.Beside (e : TwoEnds) (ts : List Token) (c d : Cursor) : Prop where
  text : ∀ t ∈ ts, t.kind ≠ .eof
  left : c.ahead = ts ++ [e.stop]
  right : d.ahead = ts ++ e.brace :: e.behind
  final : c.final.kind = .eof

namespace Cursor.Beside

variable {e : TwoEnds} {t : Token} {ts us rest : List Token} {c d : Cursor} {n : Nat}

theorem skip (h : Beside e ts c d) (hn : n ≤ ts.length) :
    Beside e (ts.drop n) (c.skip n) (d.skip n) where
  text t ht := h.text t (List.mem_of_mem_drop ht)
  left := by rw [c.ahead_skip, h.left, List.drop_append_of_le_length hn]
  right := by rw [d.ahead_skip, h.right, List.drop_append_of_le_length hn]
  final := by rw [c.final_skip, h.final]

theorem skipNewlines (h : Beside e ts c d) :
    Beside e (dropNewlines ts) c.skipNewlines d.skipNewlines where
  text t ht := h.text t ((List.dropWhile_sublist _).mem ht)
  left := by
    rw [ahead_skipNewlines, h.left, dropNewlines_append_cons (by simp [e.stop_kind])]
  right := by
    rw [ahead_skipNewlines, h.right, dropNewlines_append_cons (by simp [e.brace_kind])]
  final := h.final

theorem kind_of_nil (h : Beside e [] c d) : c.kind = .eof ∧ d.kind = .rightBrace := by
  rw [kind, token, h.left, kind, token, h.right]
  exact ⟨e.stop_kind, e.brace_kind⟩

theorem kind_of_cons (h : Beside e (t :: ts) c d) : c.kind = t.kind ∧ d.kind = t.kind := by
  rw [kind, token, h.left, kind, token, h.right]
  exact ⟨rfl, rfl⟩

/-- The next token is the same unless it is the end. -/
theorem token_eq (h : Beside e ts c d) (hk : c.kind ≠ .eof) : d.token = c.token := by
  cases ts with
  | nil => exact absurd h.kind_of_nil.1 hk
  | cons t ts =>
      rw [token, token, h.left, h.right]
      rfl

/-- The text ends where there is nothing left before the end. -/
theorem eq_nil (h : Beside e ts c d) (hk : c.kind = .eof) : ts = [] := by
  cases ts with
  | nil => rfl
  | cons t ts => exact absurd (h.kind_of_cons.1.symm.trans hk) (h.text t List.mem_cons_self)

/-- Where one text ends, or a brace stands in it, there is a brace in the other. -/
theorem kind_of_stop (h : Beside e ts c d) (hstop : c.kind = .rightBrace ∨ c.kind = .eof) :
    d.kind = .rightBrace := by
  by_cases hk : c.kind = .eof
  · obtain rfl := h.eq_nil hk
    exact h.kind_of_nil.2
  · rw [kind, h.token_eq hk]
    exact hstop.resolve_right hk

/-- In both texts as much can still happen as tokens are left before the end. -/
theorem measure_lt_iff {us : List Token} {c' d' : Cursor} (h : Beside e ts c d)
    (h' : Beside e us c' d') :
    ((Progress.mk c' []).measure < (Progress.mk c []).measure ↔ us.length < ts.length) ∧
      ((Progress.mk d' []).measure < (Progress.mk d []).measure ↔ us.length < ts.length) := by
  simp only [Progress.measure, h.left, h'.left, h.right, h'.right, List.length_append]
  omega

theorem endLine (h : Beside e ts c d) :
    Beside e (dropNewlines ts) c.endLine d.endLine where
  text := h.skipNewlines.text
  left := by rw [ahead_endLine, ← h.skipNewlines.left]; rfl
  right := by rw [ahead_endLine, ← h.skipNewlines.right]; rfl
  final := by
    unfold Cursor.endLine
    split
    · exact h.final
    · exact h.final

/-- Where a line ends in the one text, it ends in the other. -/
theorem endsLine (h : Beside e ts c d) (hends : c.kind.EndsLine) : d.kind.EndsLine := by
  cases ts with
  | nil => exact .inr (.inl h.kind_of_nil.2)
  | cons t ts =>
      rw [h.kind_of_cons.2, ← h.kind_of_cons.1]
      exact hends

/-- What stands next in the one text, up to a token that does not end it, stands next in the other,
and behind it the same tokens are left. -/
theorem exists_skip (h : Beside e ts c d) (hahead : c.ahead = us ++ [t] ++ rest)
    (ht : t.kind ≠ .eof) :
    ∃ vs rest', d.ahead = us ++ [t] ++ rest' ∧
      Beside e vs (c.skip (us ++ [t]).length) (d.skip (us ++ [t]).length) := by
  have hne : rest ≠ [] := by
    rintro rfl
    rw [h.left, List.append_nil] at hahead
    obtain ⟨-, hstop⟩ := List.append_inj' hahead rfl
    exact ht (List.singleton_inj.1 hstop ▸ e.stop_kind)
  have hlen : (us ++ [t]).length ≤ ts.length := by
    have hlen := congrArg List.length (h.left.symm.trans hahead)
    have hpos := List.length_pos_iff.2 hne
    simp only [List.length_append, List.length_singleton] at hlen ⊢
    omega
  obtain ⟨vs, rfl⟩ : us ++ [t] <+: ts := List.prefix_of_prefix_length_le
    ⟨rest, hahead.symm.trans h.left⟩ (List.prefix_append ts _) hlen
  exact ⟨_, _, h.right.trans (List.append_assoc _ _ _), h.skip hlen⟩

end Cursor.Beside

/-! ### Readers in front of both ends -/

namespace Reading

variable {α : Type} {e : TwoEnds} {ts : List Token} {c d : Cursor}

/-- What the reader reads in the one text it reads in the other, and then again the same tokens are
left before the end. -/
def Carries (e : TwoEnds) (x : Reading α) (c d : Cursor) : Prop :=
  ∀ a c', x c = .ok a c' → ∃ ts d', x d = .ok a d' ∧ Cursor.Beside e ts c' d'

theorem carries_lineEnd (h : Cursor.Beside e ts c d) (a : α) :
    Carries e (do lineEnd; return a) c d := by
  intro _ c' hread
  obtain ⟨_, _, hend, ⟨⟩⟩ := exists_of_bind hread
  obtain ⟨hends, rfl⟩ := eq_endLine_of_lineEnd hend
  exact ⟨_, _, bind_of_ok (lineEnd_of_endsLine (h.endsLine hends)), h.endLine⟩

theorem carries_operation (h : Cursor.Beside e ts c d) (inClass : Bool) :
    Carries e (operation inClass) c d := by
  intro op c' hread
  obtain ⟨n, hn, rfl, hread'⟩ := operation_of_stop h.left h.right (.inr (.inr e.stop_kind))
    (.inr (.inl e.brace_kind)) (by simp [e.stop_kind]) (by simp [e.stop_kind]) hread
  exact ⟨_, _, hread', (h.skip hn).endLine⟩

theorem carries_classHeader (h : Cursor.Beside e ts c d) (hk : c.kind = .word "om.class") :
    Carries e classHeader c d := by
  intro header c' hread
  obtain ⟨_, hpass, text, bs, rfl, -, s, s₁, s₂, s₃, ps, htext, hparams⟩ :=
    lays_classHeader hk h.final header c' hread
  obtain ⟨front, hfront⟩ : ∃ front, text = front ++ [⟨.leftBrace, s₃⟩] :=
    ⟨⟨.word "om.class", s⟩ :: header.1.symbolToken :: ⟨.leftParen, s₁⟩ ::
      (ps ++ [⟨.rightParen, s₂⟩]), by simp [htext]⟩
  have hahead : c.ahead = text ++ (bs ++ c'.ahead) := by
    rw [hpass.ahead, List.append_assoc]
  obtain ⟨vs, rest, hahead', hbeside⟩ := h.exists_skip (hfront ▸ hahead) (by simp)
  rw [← hfront] at hahead' hbeside
  have hheader : Accepts headerLine Always text header := htext ▸ accepts_headerLine hparams
  rw [classHeader_eq, bind_of_ok (hheader.run c _ hahead trivial)] at hread
  rw [classHeader_eq]
  obtain ⟨_, _, ⟨⟩, ⟨⟩⟩ := exists_of_bind hread
  exact ⟨_, _, bind_of_ok (hheader.run d _ hahead' trivial), hbeside.skipNewlines⟩

theorem carries_hardware (h : Cursor.Beside e ts c d) (hk : c.kind = .word "hw.module") :
    Carries e hardware c d := by
  intro m c' hread
  obtain ⟨_, hpass, text, bs, rfl, -, hderives⟩ := lays_hardware hk h.final m c' hread
  obtain ⟨front, s, hfront⟩ : ∃ front s, text = front ++ [⟨.rightBrace, s⟩] := by
    cases hderives with
    | @intro gap body s s₁ s₂ name _ _ htext =>
        exact ⟨⟨.word "hw.module", s⟩ :: name.symbolToken :: (gap ++ ⟨.leftBrace, s₁⟩ :: body), s₂,
          by simp [htext]⟩
  have hahead : c.ahead = text ++ (bs ++ c'.ahead) := by
    rw [hpass.ahead, List.append_assoc]
  obtain ⟨vs, rest, hahead', hbeside⟩ := h.exists_skip (hfront ▸ hahead) (by simp)
  rw [← hfront] at hahead' hbeside
  rw [hardware_of_derives hderives hahead] at hread
  obtain ⟨us, d', hread', hbeside'⟩ := carries_lineEnd hbeside m m c' hread
  exact ⟨us, d', (hardware_of_derives hderives hahead').trans hread', hbeside'⟩

theorem carries_closeBody (h : Cursor.Beside e ts c d) (start : Span) (what : String) :
    Carries e (closeBody start what) c d := by
  intro span c' hread
  obtain ⟨_, hpass, _, bs, rfl, -, s, rfl, -⟩ := lays_closeBody start what h.final span c' hread
  have hahead : c.ahead = [] ++ [⟨.rightBrace, s⟩] ++ (bs ++ c'.ahead) := by
    rw [hpass.ahead, List.append_assoc]
    rfl
  obtain ⟨vs, rest, hahead', hbeside⟩ := h.exists_skip hahead (by simp)
  obtain ⟨ahead, final, last⟩ := c
  obtain rfl : ahead = _ := hahead
  obtain ⟨ahead', final', last'⟩ := d
  obtain rfl : ahead' = _ := hahead'
  exact carries_lineEnd hbeside (start.merge s) span c' hread

end Reading

/-! ### Problems that stay -/

namespace Noting

variable {α β : Type}

/-- What is wrong stays noted. -/
def Grows (x : Noting α) : Prop := ∀ p, p.problems <+: (x.run.run p).2.problems

theorem grows_pure (a : α) : Grows (pure a : Noting α) := fun _ => List.prefix_rfl

theorem grows_attempt (r : Reading α) : Grows (attempt r) := by
  intro p
  cases hr : r p.cursor with
  | ok a c => rw [run_attempt_of_ok hr]
  | error e c =>
      rw [run_attempt_of_error hr]
      exact List.prefix_append p.problems [e]

theorem grows_note (code : Code) (message : String) : Grows (note code message) :=
  fun p => List.prefix_append p.problems _

theorem Grows.bind {x : Noting α} {f : α → Noting β} (hx : Grows x) (hf : ∀ a, Grows (f a)) :
    Grows (x >>= f) := by
  intro p
  have hfirst := hx p
  cases hrun : x.run.run p with
  | mk o p₁ =>
      rw [hrun] at hfirst
      cases o with
      | none =>
          rw [run_bind_of_none hrun]
          exact hfirst
      | some a =>
          rw [run_bind_of_some hrun]
          exact hfirst.trans (hf a p₁)

theorem grows_items {close : TokenKind} {item : Noting α} (hitem : Grows item) :
    Grows (items close item) := by
  have hfrom (p : Progress) : p.problems <+: (itemsFrom close item p).2.problems := by
    fun_induction itemsFrom close item p with
    | case1 p hstop => exact List.prefix_rfl
    | case2 p hgo read cursor next hless later ih => exact (hitem p).trans ih
    | case3 p hgo read cursor next hless => exact hitem p
  exact hfrom

/-- What is wrong with the first of several items stays noted. -/
theorem prefix_itemsFrom {close : TokenKind} {item : Noting α} (hitem : Grows item) {p : Progress}
    (hgo : ¬(p.cursor.kind = close ∨ p.cursor.kind = .eof ∨ p.spent = true)) :
    (item.run.run p).2.problems <+: (itemsFrom close item p).2.problems := by
  fun_cases itemsFrom close item p with
  | case1 hstop => exact absurd hstop hgo
  | case2 _ read cursor next hless later => exact grows_items hitem next
  | case3 => exact List.prefix_rfl

theorem grows_classDecl : Grows classDecl := by
  refine (grows_attempt _).bind fun start => (grows_attempt _).bind fun ⟨name, params⟩ => ?_
  refine (grows_items (grows_attempt _)).bind fun body => (grows_attempt _).bind fun span => ?_
  exact grows_pure _

theorem grows_item : Grows item := by
  refine (grows_attempt _).bind fun k => ?_
  split
  · exact grows_classDecl.bind fun c => grows_pure _
  · exact (grows_attempt _).bind fun m => grows_pure _
  · exact (grows_attempt _).bind fun op => grows_pure _
  · exact (grows_attempt _).bind fun op => grows_pure _
  · exact grows_attempt _
  · exact grows_attempt _

/-- Nothing is wrong with the first of two readers when nothing is wrong in the end. -/
theorem problems_of_bind {x : Noting α} {f : α → Noting β} (hf : ∀ a, Grows (f a)) {p : Progress}
    (h : ((x >>= f).run.run p).2.problems = []) : (x.run.run p).2.problems = [] := by
  cases hrun : x.run.run p with
  | mk o p₁ =>
      cases o with
      | none => rwa [run_bind_of_none hrun] at h
      | some a =>
          rw [run_bind_of_some hrun] at h
          exact List.prefix_nil.1 (h ▸ hf a p₁)

/-! ### Items in front of both ends -/

variable {e : TwoEnds} {ts : List Token} {c d : Cursor}

/-- When nothing is wrong with what the one reader reads in the one text, the other reads the same
in the other text with nothing wrong, and then again the same tokens are left before the end. -/
def Carries (e : TwoEnds) (x y : Noting α) (c d : Cursor) : Prop :=
  (x.run.run ⟨c, []⟩).2.problems = [] → ∃ a ts c' d', x.run.run ⟨c, []⟩ = (some a, ⟨c', []⟩) ∧
    y.run.run ⟨d, []⟩ = (some a, ⟨d', []⟩) ∧ Cursor.Beside e ts c' d'

theorem Carries.attempt {r : Reading α} (h : Reading.Carries e r c d) :
    Carries e (attempt r) (attempt r) c d := by
  intro hnone
  cases hr : r c with
  | error e c' =>
      rw [run_attempt_of_error (p := ⟨c, []⟩) hr] at hnone
      cases hnone
  | ok a c' =>
      obtain ⟨ts, d', hr', hbeside⟩ := h a c' hr
      exact ⟨a, ts, c', d', run_attempt_of_ok (p := ⟨c, []⟩) hr,
        run_attempt_of_ok (p := ⟨d, []⟩) hr', hbeside⟩

theorem carries_pure (h : Cursor.Beside e ts c d) (a : α) :
    Carries e (pure a : Noting α) (pure a) c d :=
  fun _ => ⟨a, ts, c, d, rfl, rfl, h⟩

/-- Readers one after the other. -/
theorem Carries.bind {x y : Noting α} {f g : α → Noting β} (hx : Carries e x y c d)
    (hgrows : ∀ a, Grows (f a))
    (hf : ∀ a ts c' d', Cursor.Beside e ts c' d' → Carries e (f a) (g a) c' d') :
    Carries e (x >>= f) (y >>= g) c d := by
  intro hnone
  obtain ⟨a, ts, c', d', hxrun, hyrun, hbeside⟩ := hx (problems_of_bind hgrows hnone)
  rw [run_bind_of_some hxrun] at hnone ⊢
  rw [run_bind_of_some hyrun]
  exact hf a ts c' d' hbeside hnone

/-- A reader that only looks at the next token. -/
theorem Carries.look_bind {r : Reading α} {a : α} {f g : α → Noting β} (hc : r c = .ok a c)
    (hd : r d = .ok a d) (h : Carries e (f a) (g a) c d) :
    Carries e (Noting.attempt r >>= f) (Noting.attempt r >>= g) c d := by
  rw [Carries, run_bind_of_some (run_attempt_of_ok (p := ⟨c, []⟩) hc),
    run_bind_of_some (run_attempt_of_ok (p := ⟨d, []⟩) hd)]
  exact h

section Items

/- The items end at the end of the text or at a closing brace, with which no item begins. -/
variable {close : TokenKind} {item : Noting α} (hgrows : Grows item)
  (hclose : close = .eof ∨ close = .rightBrace)
  (hbrace : close = .eof → ∀ c : Cursor, c.kind = .rightBrace →
    (item.run.run ⟨c, []⟩).2.problems ≠ [])
  (hitem : ∀ ts c d, Cursor.Beside e ts c d → c.kind ≠ .eof → Carries e item item c d)

include hgrows hclose hbrace hitem

/-- **Items in a row are read alike** in front of both ends, when each of them is. -/
theorem itemsFrom_beside (h : Cursor.Beside e ts c d)
    (hnone : (itemsFrom close item ⟨c, []⟩).2.problems = []) :
    ∃ as ts' c' d', itemsFrom close item ⟨c, []⟩ = (as, ⟨c', []⟩) ∧
      itemsFrom .rightBrace item ⟨d, []⟩ = (as, ⟨d', []⟩) ∧ Cursor.Beside e ts' c' d' := by
  have hspent (c : Cursor) : ¬(Progress.mk c []).spent = true := by
    simp [Progress.spent, Report.maxErrors]
  induction hn : ts.length using Nat.strong_induction_on generalizing ts c d with
  | _ n ih =>
      by_cases hstop : c.kind = close ∨ c.kind = .eof
      · -- nothing is left in front of the end, or a brace in both texts
        have hd : d.kind = .rightBrace := by
          refine h.kind_of_stop (hstop.elim (fun hk => ?_) .inr)
          exact hclose.symm.imp hk.trans hk.trans
        refine ⟨[], ts, c, d, ?_, ?_, h⟩
        · rw [itemsFrom, if_pos (hstop.imp_right .inl)]
        · rw [itemsFrom, if_pos (.inl hd)]
      · have heof : c.kind ≠ .eof := fun heof => hstop (.inr heof)
        have hgo : ¬(c.kind = close ∨ c.kind = .eof ∨ (Progress.mk c []).spent = true) := by
          rw [← or_assoc]
          exact not_or.2 ⟨hstop, hspent c⟩
        have hfirst : (item.run.run ⟨c, []⟩).2.problems = [] := by
          have hprefix := prefix_itemsFrom hgrows (p := ⟨c, []⟩) hgo
          rwa [hnone, List.prefix_nil] at hprefix
        have hkind : d.kind = c.kind := congrArg Token.kind (h.token_eq heof)
        have hgo' : ¬(d.kind = .rightBrace ∨ d.kind = .eof ∨ (Progress.mk d []).spent = true) := by
          rw [hkind]
          rintro (hk | hk | hk)
          · rcases hclose with hclose | hclose
            · exact hbrace hclose c hk hfirst
            · exact hstop (.inl (hk.trans hclose.symm))
          · exact heof hk
          · exact hspent d hk
        obtain ⟨a, ts', c', d', hrun, hrun', hbeside⟩ := hitem ts c d h heof hfirst
        have hnext := hbeside.skipNewlines
        obtain ⟨hmeasure, hmeasure'⟩ := h.measure_lt_iff hnext
        by_cases hless : (dropNewlines ts').length < ts.length
        · have hstep := itemsFrom_step (p := ⟨c, []⟩) hgo hrun rfl (hmeasure.2 hless)
          have hstep' := itemsFrom_step (p := ⟨d, []⟩) hgo' hrun' rfl (hmeasure'.2 hless)
          rw [hstep] at hnone
          obtain ⟨as, us, c'', d'', hread, hread', hlast⟩ := ih _ (hn ▸ hless) hnext hnone rfl
          refine ⟨a :: as, us, c'', d'', ?_, ?_, hlast⟩
          · exact hstep.trans (by rw [hread]; rfl)
          · exact hstep'.trans (by rw [hread']; rfl)
        · refine ⟨[a], _, _, _, ?_, ?_, hnext⟩
          · exact itemsFrom_last (p := ⟨c, []⟩) hgo hrun rfl (hless ∘ hmeasure.1)
          · exact itemsFrom_last (p := ⟨d, []⟩) hgo' hrun' rfl (hless ∘ hmeasure'.1)

theorem carries_items (h : Cursor.Beside e ts c d) :
    Carries e (items close item) (items .rightBrace item) c d := by
  intro hnone
  obtain ⟨as, ts', c', d', hread, hread', hbeside⟩ :=
    itemsFrom_beside hgrows hclose hbrace hitem h hnone
  exact ⟨as, ts', c', d', run_items hread, run_items hread', hbeside⟩

end Items

/-! ### Items of modules -/

theorem carries_classDecl (h : Cursor.Beside e ts c d) (hk : c.kind = .word "om.class") :
    Carries e classDecl classDecl c d := by
  have hhere : Reading.spanHere d = .ok c.token.span d := by
    rw [← h.token_eq (by simp [hk])]
    rfl
  refine Carries.look_bind (r := Reading.spanHere) rfl hhere ?_
  refine (Carries.attempt (Reading.carries_classHeader h hk)).bind ?_ ?_
  · rintro ⟨name, params⟩
    refine (grows_items (grows_attempt _)).bind fun body => ?_
    exact (grows_attempt _).bind fun span => grows_pure _
  rintro ⟨name, params⟩ ts₁ c₁ d₁ h₁
  have hbody : Carries e (items .rightBrace (attempt (Reading.operation true)))
      (items .rightBrace (attempt (Reading.operation true))) c₁ d₁ :=
    carries_items (grows_attempt _) (.inr rfl) nofun
      (fun ts c d h _ => Carries.attempt (Reading.carries_operation h true)) h₁
  refine hbody.bind (fun body => (grows_attempt _).bind fun span => grows_pure _) ?_
  intro body ts₂ c₂ d₂ h₂
  refine (Carries.attempt (Reading.carries_closeBody h₂ _ _)).bind (fun span => grows_pure _) ?_
  intro span ts₃ c₃ d₃ h₃
  exact carries_pure h₃ _

theorem carries_item (h : Cursor.Beside e ts c d) (hk : c.kind ≠ .eof) :
    Carries e item item c d := by
  have hkind : Reading.kind d = .ok c.kind d := by
    rw [Cursor.kind, ← h.token_eq hk]
    rfl
  have hended {β : Type} {x : Noting β} {f : β → Item} (hx : Carries e x x c d) :
      Carries e (x >>= fun a => pure (f a)) (x >>= fun a => pure (f a)) c d :=
    hx.bind (fun a => grows_pure _) fun a ts c d h => carries_pure h (f a)
  refine Carries.look_bind (r := Reading.kind) rfl hkind ?_
  split
  · next hword => exact hended (carries_classDecl h hword)
  · next hword => exact hended (Carries.attempt (Reading.carries_hardware h hword))
  · exact hended (Carries.attempt (Reading.carries_operation h false))
  · exact hended (Carries.attempt (Reading.carries_operation h false))
  · refine Carries.attempt ?_
    rintro _ _ ⟨⟩
  · refine Carries.attempt ?_
    rintro _ _ ⟨⟩

/-- A closing brace is no item. -/
theorem problems_item_of_brace {c : Cursor} (hk : c.kind = .rightBrace) :
    (item.run.run ⟨c, []⟩).2.problems ≠ [] := by
  have hkind : (attempt Reading.kind).run.run ⟨c, []⟩ = (some c.kind, ⟨c, []⟩) := rfl
  unfold item
  rw [run_bind_of_some hkind, hk]
  exact List.cons_ne_nil _ _

/-! ### Modules -/

/-- The end of a module, which is the end of the text. -/
def moduleEnd (file : String) (start : Span) (items : List Item) : Noting Module := do
  let next ← attempt Reading.kind
  if next ≠ .eof then
    note .unexpectedToken ("expected end of file, got '" ++ next.text ++ "'")
  return { file, items, span := start.merge (← attempt Reading.lastSpan) }

theorem run_module (file : String) (c : Cursor) (ps : List Problem) :
    (module file).run.run ⟨c, ps⟩ =
      (moduleItems >>= moduleEnd file c.skipNewlines.token.span).run.run ⟨c.skipNewlines, ps⟩ :=
  rfl

theorem run_moduleEnd_of_eof (hk : c.kind = .eof) (file : String) (start : Span)
    (items : List Item) (ps : List Problem) :
    (moduleEnd file start items).run.run ⟨c, ps⟩ =
      (some ⟨file, items, start.merge c.last⟩, ⟨c, ps⟩) := by
  have hkind : (attempt Reading.kind).run.run ⟨c, ps⟩ = (some c.kind, ⟨c, ps⟩) := rfl
  unfold moduleEnd
  rw [run_bind_of_some hkind, hk]
  rfl

/-- More than a module is a problem. -/
theorem kind_of_run_moduleEnd {file : String} {start : Span} {items : List Item}
    {p : Progress} (h : ((moduleEnd file start items).run.run p).2.problems = []) :
    p.cursor.kind = .eof := by
  have hkind : (attempt Reading.kind).run.run p = (some p.cursor.kind, p) := rfl
  unfold moduleEnd at h
  rw [run_bind_of_some hkind] at h
  by_contra hk
  rw [if_pos hk] at h
  exact List.append_ne_nil_of_right_ne_nil p.problems (List.cons_ne_nil _ _) h

theorem grows_moduleEnd (file : String) (start : Span) (items : List Item) :
    Grows (moduleEnd file start items) := by
  have hend : Grows (do
      return { file, items, span := start.merge (← attempt Reading.lastSpan) } : Noting Module) :=
    (grows_attempt _).bind fun last => grows_pure _
  refine (grows_attempt _).bind fun next => ?_
  split
  · exact (grows_note _ _).bind fun _ => hend
  · exact hend

/-- A text without the wrapper is read as its items are, when nothing is wrong. -/
theorem run_module_of_bare {file : String} (hword : c.skipNewlines.kind ≠ .word "module")
    (h : ((module file).run.run ⟨c, []⟩).2.problems = []) :
    ((items .eof item).run.run ⟨c.skipNewlines, []⟩).2.problems = [] ∧
      ∀ as c', (items .eof item).run.run ⟨c.skipNewlines, []⟩ = (some as, ⟨c', []⟩) →
        c'.kind = .eof ∧ (module file).run.run ⟨c, []⟩ =
          (some ⟨file, as, c.skipNewlines.token.span.merge c'.last⟩, ⟨c', []⟩) := by
  have hkind : (attempt Reading.kind).run.run ⟨c.skipNewlines, []⟩ =
    (some c.skipNewlines.kind, ⟨c.skipNewlines, []⟩) := rfl
  have hitems : moduleItems.run.run ⟨c.skipNewlines, []⟩ =
      (items .eof item).run.run ⟨c.skipNewlines, []⟩ := by
    unfold moduleItems
    rw [run_bind_of_some hkind, if_neg hword]
  rw [run_module] at h ⊢
  rw [← hitems]
  refine ⟨problems_of_bind (grows_moduleEnd file _) h, fun as c' hrun => ?_⟩
  rw [run_bind_of_some hrun] at h ⊢
  have hend : c'.kind = .eof := kind_of_run_moduleEnd h
  exact ⟨hend, run_moduleEnd_of_eof hend file _ as []⟩

/-- Behind the first words of the wrapper the items and the brace behind them are read. -/
theorem run_moduleItems_of_wrapped {s s₁ : Span} {rest : List Token}
    (hc : c.ahead = ⟨.word "module", s⟩ :: ⟨.leftBrace, s₁⟩ :: rest) :
    moduleItems.run.run ⟨c, []⟩ = (do
      let read ← items .rightBrace item
      attempt do
        Reading.expect .rightBrace
        Reading.skipNewlines
      return read : Noting (List Item)).run.run ⟨Cursor.skipNewlines ⟨rest, c.final, s₁⟩, []⟩ := by
  obtain ⟨ahead, final, last⟩ := c
  obtain rfl : ahead = _ := hc
  rfl

/-- A text with the wrapper is read as the items in it are, when the text ends behind it. -/
theorem run_module_of_wrapped {file : String} {s s₁ s₂ s₃ : Span} {rest : List Token}
    {as : List Item} (hc : c.ahead = ⟨.word "module", s⟩ :: ⟨.leftBrace, s₁⟩ :: rest)
    (hrun : (items .rightBrace item).run.run ⟨Cursor.skipNewlines ⟨rest, c.final, s₁⟩, []⟩ =
      (some as, ⟨d, []⟩)) (hd : d.ahead = [⟨.rightBrace, s₂⟩, ⟨.eof, s₃⟩]) :
    ∃ c', (module file).run.run ⟨c, []⟩ = (some ⟨file, as, s.merge s₂⟩, ⟨c', []⟩) := by
  have hskip : c.skipNewlines = c := by
    obtain ⟨ahead, final, last⟩ := c
    obtain rfl : ahead = _ := hc
    rfl
  have htoken : c.token = ⟨.word "module", s⟩ := by
    rw [Cursor.token, hc]
    rfl
  obtain ⟨ahead, final, last⟩ := d
  obtain rfl : ahead = _ := hd
  have hitems : moduleItems.run.run ⟨c, []⟩ = (some as, ⟨⟨[⟨.eof, s₃⟩], final, s₂⟩, []⟩) := by
    rw [run_moduleItems_of_wrapped hc, run_bind_of_some hrun]
    rfl
  refine ⟨⟨[⟨.eof, s₃⟩], final, s₂⟩, ?_⟩
  rw [run_module, hskip, htoken, run_bind_of_some hitems]
  exact run_moduleEnd_of_eof rfl file s as []

end Noting

/-- Tokens with the wrapper around them. -/
def Module.wrapped (s s₁ s₂ : Span) (ts : List Token) : List Token :=
  ⟨.word "module", s⟩ :: ⟨.leftBrace, s₁⟩ :: (ts ++ [⟨.rightBrace, s₂⟩])

/-- **The wrapper around a module changes nothing but its span.**  When tokens that are not wrapped,
with the end of the text behind them and nowhere among them, are read with nothing wrong, they are a
module, and with the wrapper around them nothing is wrong either and they are the same module,
except that it reaches from the first token of the wrapper to the last. -/
theorem Module.ofTokens?_wrapped {file : String} {ts : List Token} {stop stop' : Token}
    {s s₁ s₂ : Span} (hts : ∀ t ∈ ts, t.kind ≠ .eof) (hstop : stop.kind = .eof)
    (hstop' : stop'.kind = .eof) (hfirst : ∀ t ∈ (dropNewlines ts).head?, t.kind ≠ .word "module")
    (h : (Module.ofTokens? file (ts ++ [stop])).2 = []) :
    ∃ m, Module.ofTokens? file (ts ++ [stop]) = (some m, []) ∧
      Module.ofTokens? file (wrapped s s₁ s₂ ts ++ [stop']) =
        (some { m with span := s.merge s₂ }, []) := by
  obtain ⟨_, s₃⟩ := stop'
  obtain rfl := hstop'
  obtain ⟨c, hc⟩ : ∃ c, c = Cursor.ofTokens (ts ++ [stop]) := ⟨_, rfl⟩
  obtain ⟨d, hd⟩ : ∃ d, d = Cursor.ofTokens (wrapped s s₁ s₂ ts ++ [⟨.eof, s₃⟩]) := ⟨_, rfl⟩
  have hahead : c.ahead = ts ++ [stop] := by
    rw [hc]
    rfl
  have hahead' : d.ahead = ⟨.word "module", s⟩ :: ⟨.leftBrace, s₁⟩ ::
      (ts ++ [⟨.rightBrace, s₂⟩, ⟨.eof, s₃⟩]) := by
    rw [hd, Cursor.ofTokens, wrapped]
    simp
  have hfinal : c.final.kind = .eof := by
    rw [hc, Cursor.ofTokens, List.getLast?_concat]
    exact hstop
  -- behind the wrapper and the blank lines the items stand in front of a brace
  have hopened : Cursor.Beside ⟨stop, ⟨.rightBrace, s₂⟩, [⟨.eof, s₃⟩], hstop, rfl⟩ ts c
      ⟨ts ++ [⟨.rightBrace, s₂⟩, ⟨.eof, s₃⟩], d.final, s₁⟩ := ⟨hts, hahead, rfl, hfinal⟩
  have hbeside := hopened.skipNewlines
  have hword : c.skipNewlines.kind ≠ .word "module" := by
    rw [Cursor.kind, Cursor.token, hbeside.left]
    cases hrows : dropNewlines ts with
    | nil => simp [hstop]
    | cons t us => exact hfirst t (by rw [hrows]; rfl)
  rw [Module.ofTokens?, ← hc] at h ⊢
  obtain ⟨hnone, hmodule⟩ := Noting.run_module_of_bare hword h
  obtain ⟨as, us, c', d', hrun, hrun', hend⟩ := Noting.carries_items Noting.grows_item (.inl rfl)
    (fun _ _ => Noting.problems_item_of_brace) (fun _ _ _ => Noting.carries_item) hbeside hnone
  obtain ⟨hk, hbare⟩ := hmodule as c' hrun
  obtain rfl := hend.eq_nil hk
  obtain ⟨d'', hwrapped⟩ := Noting.run_module_of_wrapped hahead' hrun' hend.right
  rw [Module.ofTokens?, ← hd, hbare, hwrapped]
  exact ⟨_, rfl, rfl⟩

/-- A hardware module that ends with the text. -/
def chip : List Token :=
  HardwareModule.header default ⟨"M", default⟩ [] default ++
    (Noting.nestedBody ++ [⟨.rightBrace, default⟩])

/-- With the wrapper around it the hardware module is read up to its own brace. -/
theorem Module.ofTokens?_wrapped_chip :
    ∃ m, Module.ofTokens? "chip.mlir" (chip ++ [⟨.eof, default⟩]) = (some m, []) ∧
      m.items = [.ofHardware ⟨⟨"M", default⟩, [⟨"a", default⟩, ⟨"b", default⟩], default⟩] ∧
      Module.ofTokens? "chip.mlir" (wrapped default default default chip ++ [⟨.eof, default⟩]) =
        (some { m with span := default }, []) := by
  have hstop : (Token.mk .eof default).kind = .eof := rfl
  have hitem : Noting.item.run.run
      ⟨(Cursor.ofTokens (chip ++ [⟨.eof, default⟩])).skipNewlines, []⟩ =
        (some (.ofHardware ⟨⟨"M", default⟩, [⟨"a", default⟩, ⟨"b", default⟩], default⟩),
          ⟨⟨[⟨.eof, default⟩], ⟨.eof, default⟩, default⟩, []⟩) := rfl
  obtain ⟨span, p, hrun, hp⟩ := Noting.run_module_of_item "chip.mlir"
    (p := ⟨.ofTokens (chip ++ [⟨.eof, default⟩]), []⟩) rfl (by decide) (by decide) (by decide) hitem
    rfl hstop (Nat.zero_le _)
  have hread : Module.ofTokens? "chip.mlir" (chip ++ [⟨.eof, default⟩]) =
      (some ⟨"chip.mlir", [.ofHardware ⟨⟨"M", default⟩, [⟨"a", default⟩, ⟨"b", default⟩], default⟩],
        span⟩, []) := by
    rw [Module.ofTokens?, hrun, hp]
  obtain ⟨m, hm, hwrapped⟩ := Module.ofTokens?_wrapped (s := default) (by decide) hstop hstop
    (by decide) (congrArg Prod.snd hread)
  obtain rfl := Option.some.inj (congrArg Prod.fst (hm.symm.trans hread))
  exact ⟨_, hm, rfl, hwrapped⟩

/-- A text that ends before its last token is read up to there, and with the wrapper around it the
brace is missed there. -/
theorem Module.ofTokens?_wrapped_ended :
    (∃ m, Module.ofTokens? "empty.mlir" ([⟨.eof, default⟩] ++ [⟨.eof, default⟩]) =
        (some m, [])) ∧
      Module.ofTokens? "empty.mlir"
          (wrapped default default default [⟨.eof, default⟩] ++ [⟨.eof, default⟩]) =
        (none, [{ code := .unexpectedToken
                  message := "expected '\x7d', got 'end of file'"
                  span := default }]) := by
  have hnone (close : TokenKind) {c : Cursor} (hc : c.kind = .eof) :
      (Noting.items close Noting.item).run.run ⟨c, []⟩ = (some [], ⟨c, []⟩) :=
    Noting.run_items (by rw [Noting.itemsFrom, if_pos (.inr (.inl hc))])
  constructor
  · obtain ⟨c, hc⟩ : ∃ c, c = Cursor.ofTokens [⟨.eof, default⟩, ⟨.eof, default⟩] := ⟨_, rfl⟩
    have hskip : c.skipNewlines = c := by
      rw [hc]
      rfl
    have hend : c.kind = .eof := by
      rw [hc]
      rfl
    have hitems : Noting.moduleItems.run.run ⟨c, []⟩ = (some [], ⟨c, []⟩) := by
      rw [← hnone .eof hend, hc]
      rfl
    refine ⟨⟨"empty.mlir", [], c.token.span.merge c.last⟩, ?_⟩
    rw [Module.ofTokens?, List.singleton_append, ← hc, Noting.run_module, hskip,
      Noting.run_bind_of_some hitems, Noting.run_moduleEnd_of_eof hend]
  · obtain ⟨c, hc⟩ : ∃ c, c = Cursor.ofTokens
      (wrapped default default default [⟨.eof, default⟩] ++ [⟨.eof, default⟩]) := ⟨_, rfl⟩
    have hskip : c.skipNewlines = c := by
      rw [hc]
      rfl
    obtain ⟨d, hitems⟩ : ∃ d, Noting.moduleItems.run.run ⟨c, []⟩ = (none, ⟨d,
        [{ code := .unexpectedToken
           message := "expected '\x7d', got 'end of file'"
           span := default }]⟩) := by
      rw [hc, Noting.run_moduleItems_of_wrapped rfl,
        Noting.run_bind_of_some (hnone .rightBrace rfl)]
      exact ⟨_, rfl⟩
    rw [Module.ofTokens?, ← hc, Noting.run_module, hskip, Noting.run_bind_of_none hitems]

end ObjectModel
