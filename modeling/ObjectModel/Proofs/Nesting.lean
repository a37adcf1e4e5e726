/-
**Spans nest.**

The tokens of a text follow each other, and what is read is made of tokens that stand side by side.
So the span of a declaration goes around the spans of everything in it, and of two things of which
one stands behind the other, the first has ended where the second begins.

Main definitions:

* `Span.Within` — one span goes around another;
* `Token.InOrder` — tokens that follow each other;
* `Module.Nested` — the spans of a module nest.

Main results:

* `Token.InOrder.within_lineSpan`, `Token.InOrder.lineSpan_lt` — tokens in a line, and one line
  behind another;
* `Module.Derives.nested` — what the grammar derives from tokens that follow each other nests;
* `Source.nested_of_load` — **the spans of every module that is loaded nest**.
-/

import ObjectModel.Proofs.Declarations
import ObjectModel.Proofs.Marks
import ObjectModel.Proofs.Positions

set_option relaxedAutoImplicit false
set_option autoImplicit false

namespace ObjectModel

/-! ### Spans -/

/-- The span `b` goes around the span `a`, which does not end before it begins. -/
structure Span.Within (a b : Span) : Prop where
  start : b.start ≤ a.start
  proper : a.start ≤ a.stop
  stop : a.stop ≤ b.stop

namespace Span.Within

variable {a b c : Span}

theorem trans (h : a.Within b) (h' : b.Within c) : a.Within c :=
  ⟨Position.le_trans h'.start h.start, h.proper, Position.le_trans h.stop h'.stop⟩

/-- The span around two others is within what goes around both. -/
theorem merge (ha : a.Within c) (hb : b.Within c) : (a.merge b).Within c where
  start := Position.earlier_rec (P := fun p => c.start ≤ p) ha.start hb.start
  proper := Position.le_trans (a.start.earlier_le_left b.start)
    (Position.le_trans ha.proper (a.stop.le_later_left b.stop))
  stop := Position.later_rec (P := fun p => p ≤ c.stop) ha.stop hb.stop

end Span.Within

/-! ### Tokens in order -/

/-- Tokens that follow each other, none of which ends before it begins. -/
structure Token.InOrder (ts : List Token) : Prop where
  before : ts.Pairwise Token.Before
  proper : ∀ t ∈ ts, t.span.start ≤ t.span.stop

theorem exists_lineSpan_eq {ts : List Token} (h : ts ≠ []) :
    ∃ t ∈ ts, ∃ u ∈ ts, lineSpan ts = t.span.merge u.span := by
  obtain ⟨t, ts, rfl⟩ := List.exists_cons_of_ne_nil h
  refine ⟨t, List.mem_cons_self, ts.getLastD t, ?_, rfl⟩
  rw [List.getLastD_eq_getLast?]
  cases hlast : ts.getLast? with
  | none => exact List.mem_cons_self
  | some u => exact List.mem_cons_of_mem t (List.mem_of_getLast? hlast)

/-- The last of the tokens is no line end. -/
def Solid (ts : List Token) : Prop := ∃ us t, ts = us ++ [t] ∧ t.kind ≠ .newline

theorem Solid.ne_nil {ts : List Token} (h : Solid ts) : ts ≠ [] := by
  obtain ⟨us, t, rfl, -⟩ := h
  exact List.concat_ne_nil t us

theorem solid_of_endsInside {ts : List Token} (h : Reading.EndsInside ts) : Solid ts := by
  obtain ⟨us, t, hts, ht⟩ := h
  exact ⟨us, t, hts, fun hk => ht (.inl hk)⟩

namespace Token.InOrder

variable {ts us : List Token}

theorem sublist (h : InOrder ts) (hus : us.Sublist ts) : InOrder us :=
  ⟨h.before.sublist hus, fun t ht => h.proper t (hus.subset ht)⟩

/-- The first of several tokens begins first. -/
theorem start_le {t : Token} (h : InOrder (t :: ts)) {u : Token} (hu : u ∈ t :: ts) :
    t.span.start ≤ u.span.start := by
  rcases List.mem_cons.1 hu with rfl | hmem
  · exact Position.le_refl _
  · have hbefore := (List.pairwise_cons.1 h.before).1 u hmem
    exact Position.le_trans (h.proper t List.mem_cons_self) hbefore.1

/-- The last of several tokens ends last. -/
theorem stop_le {t : Token} (h : InOrder (ts ++ [t])) {u : Token} (hu : u ∈ ts ++ [t]) :
    u.span.stop ≤ t.span.stop := by
  rcases List.mem_append.1 hu with hmem | hmem
  · have hbefore := (List.pairwise_append.1 h.before).2.2 u hmem t List.mem_cons_self
    exact Position.le_trans hbefore.1 (h.proper t (by simp))
  · exact List.mem_singleton.1 hmem ▸ Position.le_refl _

/-- The span of a line goes around its tokens. -/
theorem within_lineSpan (h : InOrder ts) {u : Token} (hu : u ∈ ts) :
    u.span.Within (lineSpan ts) := by
  obtain ⟨t, ts, rfl⟩ := List.exists_cons_of_ne_nil (List.ne_nil_of_mem hu)
  refine ⟨?_, h.proper u hu, ?_⟩
  · exact Position.le_trans (Position.earlier_le_left _ _) (h.start_le hu)
  · rcases List.eq_nil_or_concat ts with rfl | ⟨vs, v, rfl⟩
    · rw [List.mem_singleton.1 hu]
      exact Position.le_later_right _ _
    · rw [List.concat_eq_append, lineSpan_cons_append]
      rw [List.concat_eq_append, ← List.cons_append] at h hu
      exact Position.le_trans (h.stop_le hu) (Position.le_later_right _ _)

/-- The span of a line goes around the spans of its parts. -/
theorem lineSpan_within (h : InOrder ts) (hsub : us ⊆ ts) (hne : us ≠ []) :
    (lineSpan us).Within (lineSpan ts) := by
  obtain ⟨t, ht, u, hu, hspan⟩ := exists_lineSpan_eq hne
  rw [hspan]
  exact (h.within_lineSpan (hsub ht)).merge (h.within_lineSpan (hsub hu))

/-- A line ends before what stands behind it begins. -/
theorem lineSpan_lt (h : InOrder (ts ++ us)) (hts : Solid ts) (hus : us ≠ []) :
    (lineSpan ts).stop < (lineSpan us).start := by
  obtain ⟨-, -, hbefore⟩ := List.pairwise_append.1 h.before
  obtain ⟨vs, v, rfl, hv⟩ := hts
  have hlt : ∀ t ∈ vs ++ [v], ∀ u ∈ us, t.span.stop < u.span.start := by
    intro t ht u hu
    have hle := (h.sublist (List.sublist_append_left _ us)).stop_le ht
    exact Position.lt_of_le_of_lt hle ((hbefore v (by simp) u hu).2 hv)
  obtain ⟨t, ht, t', ht', hspan⟩ := exists_lineSpan_eq (List.concat_ne_nil v vs)
  obtain ⟨u, hu, u', hu', hspan'⟩ := exists_lineSpan_eq hus
  rw [hspan, hspan']
  refine Position.later_rec (P := (· < _)) ?_ ?_
  · exact Position.earlier_rec (P := fun p => _ < p) (hlt t ht u hu) (hlt t ht u' hu')
  · exact Position.earlier_rec (P := fun p => _ < p) (hlt t' ht' u hu) (hlt t' ht' u' hu')

end Token.InOrder

/-! ### What stands in a line -/

section Lists

variable {α : Type} {item : List Token → α → Prop} {ts : List Token} {as : List α}

/-- An item of a list stands in a part of the list. -/
theorem Commas.exists_sublist (h : Commas item ts as) :
    ∀ a ∈ as, ∃ us, us.Sublist ts ∧ item us a := by
  induction h with
  | one h =>
      intro a ha
      obtain rfl := List.mem_singleton.1 ha
      exact ⟨_, List.Sublist.refl _, h⟩
  | @cons ts us a as s h _ ih =>
      intro b hb
      rcases List.mem_cons.1 hb with rfl | hb
      · exact ⟨ts, List.sublist_append_left _ _, h⟩
      · obtain ⟨vs, hvs, hb⟩ := ih b hb
        exact ⟨vs, (hvs.cons _).trans (List.sublist_append_right _ _), hb⟩

theorem CommaList.exists_sublist (h : CommaList item ts as) :
    ∀ a ∈ as, ∃ us, us.Sublist ts ∧ item us a := by
  cases h with
  | nil => exact fun a ha => by cases ha
  | some h => exact h.exists_sublist

theorem Rows.exists_sublist (h : Rows item ts as) :
    ∀ a ∈ as, ∃ us, us.Sublist ts ∧ item us a := by
  induction h with
  | nil => exact fun a ha => by cases ha
  | @cons ts bs us a as h _ _ ih =>
      intro b hb
      rcases List.mem_cons.1 hb with rfl | hb
      · exact ⟨ts, List.sublist_append_left _ _, h⟩
      · obtain ⟨vs, hvs, hb⟩ := ih b hb
        refine ⟨vs, hvs.trans ((List.sublist_append_right bs us).trans ?_), hb⟩
        exact List.sublist_append_right _ _

/-- Things that stand behind each other, each in a line of its own. -/
theorem Rows.pairwise_lt {span : α → Span}
    (hspan : ∀ us a, item us a → Solid us ∧ span a = lineSpan us)
    (h : Rows item ts as) (hts : Token.InOrder ts) :
    as.Pairwise fun a b => (span a).stop < (span b).start := by
  induction h with
  | nil => exact .nil
  | @cons ts bs us a as h _ hrest ih =>
      have hus : us.Sublist (bs ++ us) := List.sublist_append_right bs us
      refine List.pairwise_cons.2 ⟨fun b hb => ?_,
        ih (hts.sublist (hus.trans (List.sublist_append_right _ _)))⟩
      obtain ⟨vs, hvs, hb⟩ := hrest.exists_sublist b hb
      obtain ⟨hends, ha⟩ := hspan ts a h
      obtain ⟨hvsEnds, hb⟩ := hspan vs b hb
      rw [ha, hb]
      have hboth := (hvs.trans hus).append_left ts
      exact (hts.sublist hboth).lineSpan_lt hends hvsEnds.ne_nil

end Lists

/-- A token of the line has the span of the name. -/
def Ident.StandsIn (x : Ident) (ts : List Token) : Prop := ∃ t ∈ ts, t.span = x.span

theorem Ident.StandsIn.mono {x : Ident} {ts us : List Token} (h : x.StandsIn ts) (hsub : ts ⊆ us) :
    x.StandsIn us := by
  obtain ⟨t, ht, hspan⟩ := h
  exact ⟨t, hsub ht, hspan⟩

theorem Ident.StandsIn.within {x : Ident} {ts : List Token} (h : x.StandsIn ts)
    (hts : Token.InOrder ts) : x.span.Within (lineSpan ts) := by
  obtain ⟨t, ht, hspan⟩ := h
  exact hspan ▸ hts.within_lineSpan ht

theorem standsIn_of_operandsRead {ts : List Token} {xs : List Ident}
    (h : Reading.OperandsRead ts xs) : ∀ x ∈ xs, x.StandsIn ts := by
  intro x hx
  have hlist {us : List Token} (hus : ∃ vs, List.Sublist vs us ∧ vs = [x.valueToken]) :
      x.StandsIn us := by
    obtain ⟨_, hsub, rfl⟩ := hus
    exact ⟨x.valueToken, hsub.subset (List.mem_singleton_self _), rfl⟩
  rcases h with h | ⟨us, s, rfl, h⟩
  · exact hlist (h.exists_sublist x hx)
  · exact (hlist (h.exists_sublist x hx)).mono (List.subset_append_left us _)

theorem standsIn_of_action {ts : List Token} {a : Action}
    (h : a.Derives Reading.OperandsRead ts) : ∀ x ∈ a.idents, x.StandsIn ts := by
  intro x hx
  cases h with
  | constant => cases hx
  | object hactuals _ _ =>
      rcases List.mem_cons.1 hx with rfl | hx
      · exact ⟨x.symbolToken, List.mem_cons_self, rfl⟩
      · exact (standsIn_of_operandsRead hactuals x hx).mono fun t ht => by simp [ht]
  | listCreate helements _ =>
      exact (standsIn_of_operandsRead helements x hx).mono (List.subset_append_left _ _)
  | tupleCreate helements _ =>
      exact (standsIn_of_operandsRead helements x hx).mono (List.subset_append_left _ _)
  | mapCreate hentries _ _ =>
      exact (standsIn_of_operandsRead hentries x hx).mono (List.subset_append_left _ _)

/-! ### Declarations -/

namespace Operation.Derives

variable {line : List Token} {op : Operation} (h : op.Derives Reading.OperandsRead line)

include h

theorem solid : Solid line ∧ op.span = lineSpan line :=
  ⟨solid_of_endsInside (Reading.endsInside_of_operation h), by cases h <;> rfl⟩

theorem standsIn : ∀ x ∈ op.idents, x.StandsIn line := by
  intro x hx
  cases h with
  | value h hline =>
      subst hline
      rcases List.mem_cons.1 hx with rfl | hx
      · exact ⟨x.valueToken, List.mem_cons_self, rfl⟩
      · exact (standsIn_of_action h x hx).mono fun t ht => by simp [ht]
  | @field ts s s₁ s₂ name value ty h hline =>
      subst hline
      have hx : x = name ∨ x = value := by simpa [Operation.idents, Action.idents] using hx
      rcases hx with rfl | rfl
      · exact ⟨x.symbolToken, by simp, rfl⟩
      · exact ⟨x.valueToken, by simp, rfl⟩

/-- The names in an operation stand within it. -/
theorem idents_within (hline : Token.InOrder line) :
    ∀ x ∈ op.idents, x.span.Within op.span := by
  intro x hx
  rw [h.solid.2]
  exact (h.standsIn x hx).within hline

end Operation.Derives

/-- The span of something that stands in a line, and all that is inside it, is within the line. -/
theorem within_of_mem_spans {line text : List Token} (htext : Token.InOrder text)
    (hsub : line.Sublist text) (hne : line ≠ []) {span s : Span} {xs : List Ident}
    (hspan : span = lineSpan line) (hxs : ∀ x ∈ xs, x.StandsIn line)
    (hs : s ∈ span :: xs.map Ident.span) : s.Within (lineSpan text) := by
  have hline : span.Within (lineSpan text) :=
    hspan ▸ htext.lineSpan_within hsub.subset hne
  rcases List.mem_cons.1 hs with rfl | hs
  · exact hline
  · obtain ⟨x, hx, rfl⟩ := List.mem_map.1 hs
    exact (hspan ▸ (hxs x hx).within (htext.sublist hsub) : x.span.Within span).trans hline

theorem Param.Derives.within {line text : List Token} {p : Param} (h : p.Derives line)
    (htext : Token.InOrder text) (hsub : line.Sublist text) :
    ∀ s ∈ p.spans, s.Within (lineSpan text) := by
  intro s hs
  cases h with
  | @intro ts s₀ name ty hty hline =>
      have hname : ∀ x ∈ [name], x.StandsIn line := by
        intro x hx
        rw [List.mem_singleton.1 hx]
        exact ⟨name.valueToken, by simp [hline], rfl⟩
      exact within_of_mem_spans htext hsub (by simp [hline]) rfl hname hs

theorem Operation.Derives.within {line text : List Token} {op : Operation}
    (h : op.Derives Reading.OperandsRead line) (htext : Token.InOrder text)
    (hsub : line.Sublist text) : ∀ s ∈ op.spans, s.Within (lineSpan text) := by
  intro s hs
  exact within_of_mem_spans htext hsub h.solid.1.ne_nil h.solid.2 h.standsIn hs

theorem HardwareModule.Derives.within {text : List Token} {m : HardwareModule}
    (h : m.Derives text) (htext : Token.InOrder text) :
    ∀ s ∈ m.innerSpans, s.Within (lineSpan text) := by
  intro s hs
  cases h with
  | @intro gap body s₀ s₁ s₂ name _ _ htokens =>
      rcases List.mem_cons.1 hs with rfl | hs
      · exact Ident.StandsIn.within ⟨name.symbolToken, by simp [htokens], rfl⟩ htext
      · obtain ⟨x, hx, rfl⟩ := List.mem_map.1 hs
        obtain ⟨t, ht, hspan⟩ := Reading.exists_of_mem_announcedIn hx
        exact Ident.StandsIn.within ⟨t, by simp [htokens, ht], hspan⟩ htext

/-- The operations of the body of a class stand in a part of its tokens. -/
theorem ClassDecl.Derives.body {text : List Token} {c : ClassDecl}
    (h : c.Derives Reading.OperandsRead text) :
    ∃ rows, rows.Sublist text ∧ Rows (Operation.Derives Reading.OperandsRead) rows c.body := by
  cases h with
  | @intro ps bs rows s₀ s₁ s₂ s₃ s₄ name params body _ _ hbody htokens =>
      refine ⟨rows, ?_, hbody⟩
      rw [htokens]
      refine List.Sublist.cons _ (List.Sublist.cons _ (List.Sublist.cons _ ?_))
      refine List.Sublist.trans ?_ (List.sublist_append_right ps _)
      refine List.Sublist.cons _ (List.Sublist.cons _ ?_)
      exact (List.sublist_append_left rows _).trans (List.sublist_append_right bs _)

theorem ClassDecl.Derives.within {text : List Token} {c : ClassDecl}
    (h : c.Derives Reading.OperandsRead text) (htext : Token.InOrder text) :
    ∀ s ∈ c.innerSpans, s.Within (lineSpan text) := by
  intro s hs
  obtain ⟨rows, hrows, hbody⟩ := h.body
  cases h with
  | @intro ps _ _ s₀ s₁ s₂ s₃ s₄ name params body hparams _ _ htokens =>
      have hps : ps.Sublist text := by
        rw [htokens]
        exact (((List.sublist_append_left ps _).cons _).cons _).cons _
      rcases List.mem_cons.1 hs with rfl | hs
      · exact Ident.StandsIn.within ⟨name.symbolToken, by simp [htokens], rfl⟩ htext
      · rcases List.mem_append.1 hs with hs | hs
        · obtain ⟨p, hp, hs⟩ := List.mem_flatMap.1 hs
          obtain ⟨line, hsub, hline⟩ := hparams.exists_sublist p hp
          exact hline.within htext (hsub.trans hps) s hs
        · obtain ⟨op, hop, hs⟩ := List.mem_flatMap.1 hs
          obtain ⟨line, hsub, hline⟩ := hbody.exists_sublist op hop
          exact hline.within htext (hsub.trans hrows) s hs

namespace Item.Derives

variable {text : List Token} {i : Item} (h : i.Derives Reading.OperandsRead text)

include h

theorem solid : Solid text ∧ i.span = lineSpan text := by
  have hbrace (s : Span) : (Token.mk .rightBrace s).kind ≠ .newline := by simp
  cases h with
  | ofClass h =>
      cases h with
      | @intro ps bs rows s₀ s₁ s₂ s₃ s₄ name params body _ _ _ htokens =>
          refine ⟨⟨⟨.word "om.class", s₀⟩ :: name.symbolToken :: ⟨.leftParen, s₁⟩ ::
            (ps ++ ⟨.rightParen, s₂⟩ :: ⟨.leftBrace, s₃⟩ :: (bs ++ rows)), _, ?_, hbrace s₄⟩, rfl⟩
          simp [htokens]
  | ofHardware h =>
      cases h with
      | @intro gap body s₀ s₁ s₂ name _ _ htokens =>
          refine ⟨⟨⟨.word "hw.module", s₀⟩ :: name.symbolToken ::
            (gap ++ ⟨.leftBrace, s₁⟩ :: body), _, ?_, hbrace s₂⟩, rfl⟩
          simp [htokens]
  | ofOperation h => exact h.solid

variable (htext : Token.InOrder text)

include htext

theorem within : ∀ s ∈ i.innerSpans, s.Within i.span := by
  intro s hs
  rw [h.solid.2]
  cases h with
  | ofClass h => exact h.within htext s hs
  | ofHardware h => exact h.within htext s hs
  | ofOperation h => exact h.within htext (List.Sublist.refl _) s (List.mem_cons_of_mem _ hs)

theorem idents_within :
    ∀ op ∈ i.operations, ∀ x ∈ op.idents, x.span.Within op.span := by
  intro op hop
  cases h with
  | ofClass h =>
      obtain ⟨rows, hsub, hrows⟩ := h.body
      obtain ⟨line, hline, hop⟩ := hrows.exists_sublist op hop
      exact hop.idents_within (htext.sublist (hline.trans hsub))
  | ofHardware h => cases hop
  | ofOperation h =>
      rw [List.mem_singleton.1 hop]
      exact h.idents_within htext

end Item.Derives

/-! ### Modules -/

/-- The spans of a module nest: those of the items within that of the module, everything inside an
item within the item, and the names in an operation within the operation.  Items, and the operations
in the body of a class, stand apart and in the order of the text. -/
structure Module.Nested (m : Module) : Prop where
  items_within : ∀ i ∈ m.items, i.span.Within m.span
  inner_within : ∀ i ∈ m.items, ∀ s ∈ i.innerSpans, s.Within i.span
  idents_within : ∀ op ∈ m.allOperations, ∀ x ∈ op.idents, x.span.Within op.span
  items_apart : m.items.Pairwise fun i j => i.span.stop < j.span.start
  bodies_apart : ∀ c ∈ m.classes, c.body.Pairwise fun a b => a.span.stop < b.span.start

/-- Items in a row nest, and they are within any line of which they are a part. -/
theorem Module.nested_of_rows {rows : List Token} {m : Module}
    (h : Rows (Item.Derives Reading.OperandsRead) rows m.items) (hrows : Token.InOrder rows)
    (hspan : rows ≠ [] → ∃ text, Token.InOrder text ∧ rows ⊆ text ∧ m.span = lineSpan text) :
    m.Nested where
  items_within := by
    intro i hi
    obtain ⟨line, hsub, hline⟩ := h.exists_sublist i hi
    obtain ⟨hsolid, hispan⟩ := hline.solid
    have hne : rows ≠ [] := fun hnil => hsolid.ne_nil (List.sublist_nil.1 (hnil ▸ hsub))
    obtain ⟨text, htext, hmem, hmspan⟩ := hspan hne
    rw [hispan, hmspan]
    exact htext.lineSpan_within (List.Subset.trans hsub.subset hmem) hsolid.ne_nil
  inner_within := by
    intro i hi
    obtain ⟨line, hsub, hline⟩ := h.exists_sublist i hi
    exact hline.within (hrows.sublist hsub)
  idents_within := by
    intro op hop
    obtain ⟨i, hi, hop⟩ := List.mem_flatMap.1 hop
    obtain ⟨line, hsub, hline⟩ := h.exists_sublist i hi
    exact hline.idents_within (hrows.sublist hsub) op hop
  items_apart := h.pairwise_lt (fun _ _ => Item.Derives.solid) hrows
  bodies_apart := by
    intro c hc
    obtain ⟨i, hi, hic⟩ := List.mem_filterMap.1 hc
    obtain ⟨line, hsub, hline⟩ := h.exists_sublist i hi
    cases hline with
    | ofClass hclass =>
        obtain rfl := Option.some.inj hic
        obtain ⟨rows, hsub', hbody⟩ := hclass.body
        exact hbody.pairwise_lt (fun _ _ => Operation.Derives.solid)
          (hrows.sublist (hsub'.trans hsub))
    | ofHardware => cases hic
    | ofOperation => cases hic

/-- **What the grammar derives from tokens that follow each other nests.** -/
theorem Module.Derives.nested {text : List Token} {m : Module}
    (h : m.Derives Reading.OperandsRead text) (htext : Token.InOrder text) : m.Nested := by
  cases h with
  | @bare bs rows file items span _ hitems hspan =>
      have hrows := htext.sublist (List.sublist_append_right bs rows)
      exact Module.nested_of_rows hitems hrows fun hne => ⟨rows, hrows, List.Subset.refl _, hspan hne⟩
  | @wrapped bs bs₁ bs₂ text rows s s₁ s₂ file items _ _ _ hitems htokens =>
      have hline := htext.sublist (List.sublist_append_right bs text)
      have hsub : rows.Sublist text := by
        rw [htokens]
        refine List.Sublist.cons _ (List.Sublist.cons _ ?_)
        exact (List.sublist_append_left rows _).trans (List.sublist_append_right bs₁ _)
      exact Module.nested_of_rows hitems (hline.sublist hsub) fun _ => ⟨text, hline, hsub.subset, rfl⟩

/-- **Spans nest.**  In every module that is loaded from a source, the spans of names, parameters
and operations are within the span of the item in which they stand, the names in an operation within
that of the operation, and items within that of the module; and each operation of a body, and each
item, ends before the next one begins. -/
theorem Source.nested_of_load {s : Source} {m : Module} (h : s.load = .ok m) : m.Nested := by
  obtain ⟨hlexical, hread⟩ := Source.load_eq_ok_iff.1 h
  have hinOrder : Token.InOrder s.tokens :=
    ⟨Source.pairwise_before_tokens hlexical, Source.start_le_stop_of_mem_tokens hlexical⟩
  obtain ⟨ts, stop, htokens, hstop⟩ := s.exists_tokens_eq
  rw [htokens] at hread hinOrder
  obtain ⟨text, rest, htext, hderives⟩ := Module.derives_of_ofTokens? hstop hread
  rw [htext] at hinOrder
  exact hderives.nested (hinOrder.sublist (List.sublist_append_left text rest))

/-- A class and a hardware module in the wrapper, with blank lines and comments between them. -/
def Source.cabinet : Source where
  name := "cabinet.mlir"
  text := "module \x7b\n\n  om.class @Drawer(%width: i8) \x7b\n    %one = om.constant 1 : i8\n"
    ++ "    // the width is given\n    om.class.field @width, %width : i8 \x7d\n\n"
    ++ "  hw.module @Lock(in %key) \x7b sym @bolt \x7d\n\x7d\n"

/-- The cabinet is loaded, with its two items and the two operations of the drawer, and its spans
nest. -/
theorem Source.nested_of_load_cabinet : ∃ m, Source.cabinet.load = .ok m ∧ m.Nested ∧
    m.items.length = 2 ∧ m.allOperations.length = 2 := by
  have hlengths : Source.cabinet.load.toOption.map (fun m =>
      (m.items.length, m.allOperations.length)) = some (2, 2) := by
    decide +kernel
  cases hload : Source.cabinet.load with
  | error r =>
      rw [hload] at hlengths
      cases hlengths
  | ok m =>
      rw [hload] at hlengths
      obtain ⟨hitems, hops⟩ := Prod.mk.inj (Option.some.inj hlengths)
      exact ⟨m, rfl, Source.nested_of_load hload, hitems, hops⟩

end ObjectModel
