/-
**Readers read what the grammar derives: declarations and modules.**

Classes, hardware modules and whole modules span many lines.  Which tokens they are is said by
rules, as it is said for operations, and a reader that notes no problem has taken such tokens.  The
blank lines between them belong to nothing, and a span reaches from the first token of what is
derived to the last.

Main definitions:

* `Rows` — things that stand behind each other, with blank lines between them;
* `Param.Derives`, `ClassDecl.Derives`, `HardwareModule.Derives`, `Item.Derives`, `Module.Derives`
  — the declarations;
* `Cursor.Passes` — some tokens are taken on the way from one cursor to another;
* `Reading.Lays`, `Noting.Lays` — what the tokens and the result of a reader have to do with each
  other.

Main results:

* `Reading.lays_operation`, `Noting.lays_itemsFrom` — one operation, and items in a row;
* `Module.derives_of_ofTokens?` — **tokens that are read as a module without problems are those of
  the grammar**, and the module is the one that the grammar derives.
-/

import ObjectModel.Proofs.Recovery

set_option relaxedAutoImplicit false
set_option autoImplicit false

namespace ObjectModel

/-! ### The grammar of declarations -/

/-- The span of several tokens reaches from the first to the last. -/
theorem lineSpan_cons_append (t : Token) (ts : List Token) (u : Token) :
    lineSpan (t :: (ts ++ [u])) = t.span.merge u.span := by
  rw [lineSpan, List.getLastD_concat]

/-- Line ends and nothing else. -/
def Blank (ts : List Token) : Prop := ∀ t ∈ ts, t.kind = .newline

/-- Things one after the other.  Behind each of them there may be line ends. -/
inductive Rows {α : Type} (item : List Token → α → Prop) : List Token → List α → Prop where
  | nil : Rows item [] []
  | cons {ts bs us : List Token} {a : α} {as : List α} (h : item ts a) (hblank : Blank bs)
      (hrest : Rows item us as) : Rows item (ts ++ (bs ++ us)) (a :: as)

/-- The tokens of a parameter, and where it stands. -/
inductive Param.Derives : List Token → Param → Prop where
  | intro {line ts : List Token} {s : Span} {name : Ident} {ty : Ty} (hty : ty.Derives ts)
      (hline : line = name.valueToken :: ⟨.colon, s⟩ :: ts) :
      Derives line ⟨name, ty, lineSpan line⟩

/-- The tokens of a class, and where it stands. -/
inductive ClassDecl.Derives (operands : List Token → List Ident → Prop) :
    List Token → ClassDecl → Prop where
  | intro {text ps bs rows : List Token} {s s₁ s₂ s₃ s₄ : Span} {name : Ident}
      {params : List Param} {body : List Operation} (hparams : CommaList Param.Derives ps params)
      (hblank : Blank bs) (hbody : Rows (Operation.Derives operands) rows body)
      (htext : text = ⟨.word "om.class", s⟩ :: name.symbolToken :: ⟨.leftParen, s₁⟩ ::
        (ps ++ ⟨.rightParen, s₂⟩ :: ⟨.leftBrace, s₃⟩ ::
          (bs ++ (rows ++ [⟨.rightBrace, s₄⟩])))) :
      Derives operands text ⟨name, params, body, lineSpan text⟩

/-- The tokens of a hardware module, and where it stands.  On the line of its name anything may
stand before the brace, and in its body anything that ends at the last brace. -/
inductive HardwareModule.Derives : List Token → HardwareModule → Prop where
  | intro {text gap body : List Token} {s s₁ s₂ : Span} {name : Ident}
      (hgap : ∀ t ∈ gap, t.kind ≠ .leftBrace ∧ t.kind ≠ .newline ∧ t.kind ≠ .eof)
      (hbody : HardwareModule.splitBody 0 (body ++ [⟨.rightBrace, s₂⟩]) =
        (body, [⟨.rightBrace, s₂⟩]))
      (htext : text = ⟨.word "hw.module", s⟩ :: name.symbolToken ::
        (gap ++ ⟨.leftBrace, s₁⟩ :: (body ++ [⟨.rightBrace, s₂⟩]))) :
      Derives text ⟨name, HardwareModule.announcedIn body, lineSpan text⟩

/-- The tokens of an item. -/
inductive Item.Derives (operands : List Token → List Ident → Prop) : List Token → Item → Prop where
  | ofClass {ts : List Token} {c : ClassDecl} (h : c.Derives operands ts) :
      Derives operands ts (.ofClass c)
  | ofHardware {ts : List Token} {m : HardwareModule} (h : m.Derives ts) :
      Derives operands ts (.ofHardware m)
  | ofOperation {ts : List Token} {op : Operation} (h : op.Derives operands ts) :
      Derives operands ts (.ofOperation op)

/-- The tokens of a module, and where it stands if it is not empty: items, with the wrapper around
them or without it. -/
inductive Module.Derives (operands : List Token → List Ident → Prop) :
    List Token → Module → Prop where
  | bare {bs rows : List Token} {file : String} {items : List Item} {span : Span}
      (hblank : Blank bs) (hitems : Rows (Item.Derives operands) rows items)
      (hspan : rows ≠ [] → span = lineSpan rows) :
      Derives operands (bs ++ rows) ⟨file, items, span⟩
  | wrapped {bs bs₁ bs₂ text rows : List Token} {s s₁ s₂ : Span} {file : String}
      {items : List Item} (hblank : Blank bs) (hblank₁ : Blank bs₁) (hblank₂ : Blank bs₂)
      (hitems : Rows (Item.Derives operands) rows items)
      (htext : text = ⟨.word "module", s⟩ :: ⟨.leftBrace, s₁⟩ ::
        (bs₁ ++ (rows ++ ⟨.rightBrace, s₂⟩ :: bs₂))) :
      Derives operands (bs ++ text) ⟨file, items, lineSpan text⟩

/-! ### From one cursor to another -/

/-- On the way from `c` to `c'` the tokens `ts` are taken. -/
structure Cursor.Passes (c : Cursor) (ts : List Token) (c' : Cursor) : Prop where
  ahead : c.ahead = ts ++ c'.ahead
  cursor : c' = c.advanceTo ts c'.ahead

namespace Cursor.Passes

variable {c c' c'' : Cursor} {ts us : List Token}

theorem refl (c : Cursor) : c.Passes [] c := ⟨rfl, rfl⟩

theorem trans (h : c.Passes ts c') (h' : c'.Passes us c'') : c.Passes (ts ++ us) c'' where
  ahead := by rw [h.ahead, h'.ahead, List.append_assoc]
  cursor := by
    have hlast : ((us.getLast?.map Token.span).getD
        ((ts.getLast?.map Token.span).getD c.last)) =
          (((ts ++ us).getLast?.map Token.span).getD c.last) := by
      rw [List.getLast?_append]
      cases us.getLast? <;> simp
    calc c'' = c'.advanceTo us c''.ahead := h'.cursor
      _ = (c.advanceTo ts c'.ahead).advanceTo us c''.ahead := by rw [← h.cursor]
      _ = c.advanceTo (ts ++ us) c''.ahead := by
        simp only [advanceTo, hlast]

theorem final_eq (h : c.Passes ts c') : c'.final = c.final := by rw [h.cursor]; rfl

/-- The token that stands next is the first that is taken. -/
theorem token_eq {t : Token} (h : c.Passes (t :: ts) c') : c.token = t := by
  rw [token, h.ahead]
  rfl

/-- The span around what is taken reaches from the first token to the last. -/
theorem merge_last {t : Token} (h : c.Passes (t :: ts) c') :
    t.span.merge c'.last = lineSpan (t :: ts) := by
  have hlast : c'.last = (ts.getLastD t).span := by
    rw [h.cursor, advanceTo, List.getLast?_cons, List.getLastD_eq_getLast?]
    rfl
  rw [hlast, lineSpan]

/-- A token that does not end the text is one of those that are left. -/
theorem advance (hk : c.kind ≠ c.final.kind) : c.Passes [c.token] c.advance := by
  obtain ⟨_ | ⟨t, ts⟩, final, last⟩ := c
  · exact absurd rfl hk
  · exact ⟨rfl, rfl⟩

theorem skipWhile (c : Cursor) (p : TokenKind → Bool) :
    c.Passes (c.ahead.takeWhile fun t => p t.kind) (c.skipWhile p) :=
  ⟨List.takeWhile_append_dropWhile.symm, rfl⟩

theorem skipNewlines (c : Cursor) : ∃ ts, c.Passes ts c.skipNewlines ∧ Blank ts :=
  ⟨_, .skipWhile c _, fun _ ht => by simpa using List.mem_takeWhile_imp ht⟩

/-- The next tokens, if the last of them does not end the text. -/
theorem skip {n : Nat} {t : Token} (h : c.upcoming n = us ++ [t]) (ht : t.kind ≠ c.final.kind) :
    c.Passes (c.upcoming n) (c.skip n) := by
  have hn : n ≤ c.ahead.length := by
    by_contra hlt
    obtain ⟨k, hk⟩ : ∃ k, n - c.ahead.length = k + 1 := ⟨n - c.ahead.length - 1, by omega⟩
    rw [c.upcoming_eq, hk, List.replicate_succ', ← List.append_assoc] at h
    obtain ⟨-, hfinal⟩ := List.append_inj' h rfl
    exact ht (congrArg Token.kind (List.singleton_inj.1 hfinal)).symm
  have htake : c.upcoming n = c.ahead.take n := by
    rw [c.upcoming_eq, Nat.sub_eq_zero_of_le hn, List.replicate_zero, List.append_nil]
  refine ⟨by rw [htake, c.ahead_skip, List.take_append_drop], ?_⟩
  have hlast := c.last_skip n
  have hfinal := c.final_skip n
  rw [htake, advanceTo, ← hlast, ← hfinal]

end Cursor.Passes

/-! ### Readers that stop at a problem -/

namespace Reading

variable {α β : Type}

/-- When the reader has a result, it has taken tokens, and `G` holds of them and of the result. -/
def Lays (x : Reading α) (c : Cursor) (G : List Token → α → Prop) : Prop :=
  ∀ a c', x c = .ok a c' → ∃ ts, c.Passes ts c' ∧ G ts a

section Lays

variable {c : Cursor} {x : Reading α} {f : α → Reading β} {g : List Token → α → Prop}
  {G : List Token → β → Prop}

theorem lays_pure {a : α} (h : g [] a) : Lays (pure a : Reading α) c g := by
  rintro _ _ ⟨⟩
  exact ⟨[], .refl c, h⟩

theorem Lays.mono {g' : List Token → α → Prop} (h : Lays x c g) (hg : ∀ ts a, g ts a → g' ts a) :
    Lays x c g' := by
  intro a c' ha
  obtain ⟨ts, hts, hga⟩ := h a c' ha
  exact ⟨ts, hts, hg ts a hga⟩

/-- Readers one after the other take tokens one after the other. -/
theorem Lays.bind (hx : Lays x c g)
    (hf : ∀ a us c', c.Passes us c' → g us a → Lays (f a) c' fun vs b => G (us ++ vs) b) :
    Lays (x >>= f) c G := by
  intro b c₂ h
  obtain ⟨a, c₁, ha, hb⟩ := exists_of_bind h
  obtain ⟨us, hus, hg⟩ := hx a c₁ ha
  obtain ⟨vs, hvs, hG⟩ := hf a us c₁ hus hg b c₂ hb
  exact ⟨us ++ vs, hus.trans hvs, hG⟩

theorem Lays.get_bind {f : Cursor → Reading β} (h : Lays (f c) c G) : Lays (get >>= f) c G := h

theorem Lays.kind_bind {f : TokenKind → Reading β} (h : Lays (f c.kind) c G) :
    Lays (kind >>= f) c G := h

theorem Lays.spanHere_bind {f : Span → Reading β} (h : Lays (f c.token.span) c G) :
    Lays (spanHere >>= f) c G := h

theorem Lays.lastSpan_bind {f : Span → Reading β} (h : Lays (f c.last) c G) :
    Lays (lastSpan >>= f) c G := h

/-- A reader of which the tokens are known, the last of which ends no line. -/
theorem Reads.lays (h : Reads x c g) (hg : ∀ ts a, g ts a → EndsInside ts)
    (hc : c.final.kind = .eof) : Lays x c g := by
  intro a c' ha
  obtain ⟨n, rfl, hga⟩ := h a c' ha
  obtain ⟨us, t, hlast, ht⟩ := hg _ a hga
  exact ⟨_, .skip hlast fun hk => ht (.inr (.inr (hk.trans hc))), hga⟩

theorem lays_skipNewlines (c : Cursor) : Lays skipNewlines c fun ts _ => Blank ts := by
  rintro _ _ ⟨⟩
  exact Cursor.Passes.skipNewlines c

theorem lays_lineEnd (c : Cursor) : Lays lineEnd c fun ts _ => Blank ts := by
  intro u c' h
  obtain ⟨-, rfl⟩ := eq_endLine_of_lineEnd h
  unfold Cursor.endLine
  split
  · exact Cursor.Passes.skipNewlines c
  · exact ⟨[], .refl c, by simp [Blank]⟩

theorem lays_advance {k : TokenKind} (hk : c.kind = k) (hne : k ≠ .eof)
    (hc : c.final.kind = .eof) : Lays advance c fun ts _ => ts = [⟨k, c.token.span⟩] := by
  rintro _ _ ⟨⟩
  refine ⟨_, Cursor.Passes.advance (hc ▸ hk ▸ hne), ?_⟩
  rw [← hk]
  rfl

theorem lays_expect {k : TokenKind} (hne : k ≠ .eof) (hc : c.final.kind = .eof) :
    Lays (expect k) c fun ts _ => ∃ s, ts = [⟨k, s⟩] := by
  refine Lays.kind_bind ?_
  split
  · next hk => exact (lays_advance hk hne hc).mono fun _ _ h => ⟨_, h⟩
  · rintro _ _ ⟨⟩

theorem lays_eat {k : TokenKind} (hne : k ≠ .eof) (hc : c.final.kind = .eof) :
    Lays (eat k) c fun ts b => b = true ∧ (∃ s, ts = [⟨k, s⟩]) ∨ b = false ∧ ts = [] := by
  refine Lays.kind_bind ?_
  split
  · next hk =>
      refine (lays_advance hk hne hc).bind fun _ us c' _ hus => lays_pure ?_
      exact .inl ⟨rfl, _, by rw [List.append_nil, hus]⟩
  · exact lays_pure (.inr ⟨rfl, rfl⟩)

theorem lays_symbolName (hc : c.final.kind = .eof) :
    Lays symbolName c fun ts x => ts = [x.symbolToken] :=
  reads_symbolName.lays (fun _ _ h => h ▸ endsInside_singleton (by simp [TokenKind.EndsLine,
    Ident.symbolToken])) hc

end Lays

/-! ### Lists and parameters -/

section Lists

variable {item : Reading α} {g : List Token → α → Prop}
  (hitem : ∀ c : Cursor, c.final.kind = .eof → Lays item c g)

include hitem

theorem lays_commaSeparatedUpTo (n : Nat) :
    ∀ c : Cursor, c.final.kind = .eof → Lays (commaSeparatedUpTo item n) c (Commas g) := by
  induction n with
  | zero =>
      refine fun c hc => (hitem c hc).bind fun a us c' _ ha => lays_pure ?_
      rw [List.append_nil]
      exact .one ha
  | succ n ih =>
      intro c hc
      refine (hitem c hc).bind fun a us c₁ h₁ ha => ?_
      have hc₁ := h₁.final_eq ▸ hc
      refine (lays_eat (by decide) hc₁).bind ?_
      rintro _ _ c₂ h₂ (⟨rfl, s, rfl⟩ | ⟨rfl, rfl⟩)
      · refine (ih c₂ (h₂.final_eq ▸ hc₁)).bind fun as vs c₃ _ has => lays_pure ?_
        rw [List.append_nil]
        exact .cons ha has
      · refine lays_pure ?_
        rw [List.append_nil, List.append_nil]
        exact .one ha

theorem lays_commaSeparatedBefore (close : TokenKind) {c : Cursor} (hc : c.final.kind = .eof) :
    Lays (commaSeparatedBefore close item) c (CommaList g) := by
  refine Lays.kind_bind ?_
  split
  · exact lays_pure .nil
  · exact Lays.get_bind ((lays_commaSeparatedUpTo hitem _ c hc).mono fun _ _ => .some)

end Lists

/-- A parameter without its span. -/
def paramLine : Reading (Ident × Ty) := do
  let name ← valueName
  expect .colon
  return (name, ← ty)

theorem param_eq : param = (do
    let line ← paramLine
    return { name := line.1, ty := line.2, span := line.1.span.merge (← lastSpan) }) := by
  simp only [param, paramLine, bind_assoc, pure_bind]

theorem lays_param {c : Cursor} (hc : c.final.kind = .eof) : Lays param c Param.Derives := by
  have hline : Reads paramLine c fun ts line => ∃ s us,
      ts = line.1.valueToken :: ⟨.colon, s⟩ :: us ∧ line.2.Derives us := by
    refine reads_valueName.bind ?_
    rintro name _ rfl c'
    refine Reads.expect_bind .colon fun s c' => (reads_ty c').last fun ty us hty => ?_
    exact ⟨s, us, rfl, hty⟩
  rw [param_eq]
  refine (hline.lays ?_ hc).bind ?_
  · rintro _ _ ⟨s, us, rfl, hty⟩
    exact ((endsInside_of_ty hty).cons _).cons _
  · rintro ⟨name, ty⟩ _ c' hpass ⟨s, us, rfl, hty⟩
    have hspan : name.span.merge c'.last = lineSpan (name.valueToken :: ⟨.colon, s⟩ :: us) :=
      hpass.merge_last
    refine Lays.lastSpan_bind (lays_pure ?_)
    rw [List.append_nil, hspan]
    exact .intro hty rfl

/-! ### Operations and headers -/

/-- Something and the line ends behind it. -/
def Ended (g : List Token → α → Prop) (ts : List Token) (a : α) : Prop :=
  ∃ line bs, ts = line ++ bs ∧ Blank bs ∧ g line a

theorem lays_operation (inClass : Bool) {c : Cursor} (hc : c.final.kind = .eof) :
    Lays (operation inClass) c (Ended (Operation.Derives OperandsRead)) := by
  rw [operation_eq]
  refine Lays.spanHere_bind ?_
  refine ((reads_operationLine inClass c).lays (fun _ _ => endsInside_of_operation) hc).bind ?_
  intro line us c₁ hpass hderives
  obtain ⟨t, ts, rfl⟩ : ∃ t ts, us = t :: ts := by
    obtain ⟨vs, t, rfl, -⟩ := endsInside_of_operation hderives
    exact List.exists_cons_of_ne_nil (by simp)
  refine Lays.lastSpan_bind ((lays_lineEnd c₁).bind fun _ bs c₂ _ hbs => lays_pure ?_)
  refine ⟨t :: ts, bs, by rw [List.append_nil], hbs, ?_⟩
  rw [hpass.token_eq, hpass.merge_last]
  exact hderives

/-- The header of a class, with the line ends behind its brace. -/
theorem lays_classHeader {c : Cursor} (hk : c.kind = .word "om.class") (hc : c.final.kind = .eof) :
    Lays classHeader c (Ended fun ts header => ∃ s s₁ s₂ s₃ ps,
      ts = ⟨.word "om.class", s⟩ :: header.1.symbolToken :: ⟨.leftParen, s₁⟩ ::
        (ps ++ [⟨.rightParen, s₂⟩, ⟨.leftBrace, s₃⟩]) ∧ CommaList Param.Derives ps header.2) := by
  refine (lays_advance hk (by simp) hc).bind fun _ _ c₁ h₁ hus₁ => ?_
  have hc₁ := h₁.final_eq ▸ hc
  refine (lays_symbolName hc₁).bind fun name _ c₂ h₂ hus₂ => ?_
  have hc₂ := h₂.final_eq ▸ hc₁
  refine (lays_expect (by simp) hc₂).bind fun _ _ c₃ h₃ hus₃ => ?_
  have hc₃ := h₃.final_eq ▸ hc₂
  refine (lays_commaSeparatedBefore (fun _ => lays_param) _ hc₃).bind
    fun params ps c₄ h₄ hparams => ?_
  have hc₄ := h₄.final_eq ▸ hc₃
  refine (lays_expect (by simp) hc₄).bind fun _ _ c₅ h₅ hus₅ => ?_
  have hc₅ := h₅.final_eq ▸ hc₄
  refine (lays_expect (by simp) hc₅).bind fun _ _ c₆ h₆ hus₆ => ?_
  refine (lays_skipNewlines c₆).bind fun _ bs _ _ hbs => lays_pure ?_
  obtain ⟨s₁, rfl⟩ := hus₃
  obtain ⟨s₂, rfl⟩ := hus₅
  obtain ⟨s₃, rfl⟩ := hus₆
  subst hus₁ hus₂
  exact ⟨_, bs, by simp, hbs, c.token.span, s₁, s₂, s₃, ps, rfl, hparams⟩

/-- The brace behind a body, with the line ends behind it. -/
theorem lays_closeBody (start : Span) (what : String) {c : Cursor} (hc : c.final.kind = .eof) :
    Lays (closeBody start what) c
      (Ended fun ts span => ∃ s, ts = [⟨.rightBrace, s⟩] ∧ span = start.merge s) := by
  refine Lays.kind_bind ?_
  split
  · next hk =>
      refine (lays_advance hk (by simp) hc).bind fun _ us c₁ h₁ hus => ?_
      subst hus
      refine Lays.lastSpan_bind ((lays_lineEnd c₁).bind fun _ bs _ _ hbs => lays_pure ?_)
      refine ⟨_, bs, by simp, hbs, c.token.span, rfl, ?_⟩
      rw [h₁.cursor]
      rfl
  · rintro _ _ ⟨⟩

/-! ### Hardware modules -/

/-- A body ends at its brace, whatever stands behind it. -/
theorem splitBody_append_brace {depth : Nat} {ts body rest : List Token} {brace : Token}
    (h : HardwareModule.splitBody depth ts = (body, brace :: rest)) (more : List Token) :
    HardwareModule.splitBody depth (body ++ brace :: more) = (body, brace :: more) := by
  induction ts generalizing depth body with
  | nil => cases h
  | cons t ts ih =>
      -- a token of the body stays in front of what is split behind it
      have hinside {d d' : Nat} {body : List Token}
          (hsplit : ∀ us, HardwareModule.splitBody d (t :: us) =
            (HardwareModule.splitBody d' us).map (t :: ·) id)
          (h : (HardwareModule.splitBody d' ts).map (t :: ·) id = (body, brace :: rest)) :
          HardwareModule.splitBody d (body ++ brace :: more) = (body, brace :: more) := by
        obtain ⟨rfl, hrest⟩ := Prod.mk.inj h
        rw [List.cons_append, hsplit, ih (Prod.ext rfl hrest)]
        rfl
      unfold HardwareModule.splitBody at h
      split at h
      · next hk =>
          cases h
          simp [HardwareModule.splitBody, hk]
      · next hk =>
          cases h
          simp [HardwareModule.splitBody, hk]
      · next hk => exact hinside (fun us => by simp [HardwareModule.splitBody, hk]) h
      · next hk => exact hinside (fun us => by simp [HardwareModule.splitBody, hk]) h
      · next h₁ h₂ h₃ h₄ =>
          refine hinside (fun us => ?_) h
          conv_lhs => unfold HardwareModule.splitBody
          split
          · next hk => exact (h₁ hk).elim
          · next hk => exact (h₃ hk rfl).elim
          · next hk => exact (h₄ _ hk rfl).elim
          · next hk => exact (h₂ hk).elim
          · rfl

theorem lays_hardware {c : Cursor} (hk : c.kind = .word "hw.module")
    (hc : c.final.kind = .eof) : Lays hardware c (Ended HardwareModule.Derives) := by
  refine Lays.spanHere_bind ((lays_advance hk (by simp) hc).bind fun _ _ c₁ h₁ hus₁ => ?_)
  have hc₁ := h₁.final_eq ▸ hc
  refine (lays_symbolName hc₁).bind fun name _ c₂ h₂ hus₂ => ?_
  have hc₂ := h₂.final_eq ▸ hc₁
  subst hus₁ hus₂
  have hgap : Lays
      (modify (·.skipWhile fun k => k != .leftBrace && k != .newline && k != .eof)) c₂
      fun ts (_ : Unit) => ∀ t ∈ ts, t.kind ≠ .leftBrace ∧ t.kind ≠ .newline ∧ t.kind ≠ .eof := by
    rintro _ _ ⟨⟩
    refine ⟨_, .skipWhile c₂ _, fun t ht => ?_⟩
    simpa [and_assoc] using List.mem_takeWhile_imp ht
  refine hgap.bind fun _ gap c₃ h₃ hgap => Lays.kind_bind ?_
  have hc₃ := h₃.final_eq ▸ hc₂
  split
  · next hbrace =>
      refine (lays_advance hbrace (by simp) hc₃).bind fun _ _ c₄ h₄ hus₄ => ?_
      have hc₄ := h₄.final_eq ▸ hc₃
      subst hus₄
      have hbody : Lays hardwareBody c₄ fun ts xs =>
          ∃ rest, HardwareModule.splitBody 0 c₄.ahead = (ts, rest) ∧
            xs = HardwareModule.announcedIn ts := by
        rintro _ _ ⟨⟩
        exact ⟨_, ⟨(HardwareModule.splitBody_append 0 c₄.ahead).symm, rfl⟩, _, rfl, rfl⟩
      refine hbody.bind fun xs body c₅ h₅ ⟨rest, hsplit, hxs⟩ => ?_
      have hc₅ := h₅.final_eq ▸ hc₄
      refine (lays_closeBody _ _ hc₅).bind fun span us c₆ h₆ ⟨_, bs, hus, hbs, s, hline, hspan⟩ => ?_
      subst hline hspan hxs hus
      -- the brace that closes the body is the one at which the body was split
      have hrest : rest = [⟨.rightBrace, s⟩] ++ bs ++ c₆.ahead := by
        have happend := HardwareModule.splitBody_append 0 c₄.ahead
        rw [hsplit, h₅.ahead, h₆.ahead] at happend
        exact List.append_cancel_left happend
      subst hrest
      obtain ⟨front, hfront⟩ : ∃ front, front = name.symbolToken ::
          (gap ++ ⟨.leftBrace, c₃.token.span⟩ :: body) := ⟨_, rfl⟩
      have hspan := lineSpan_cons_append ⟨.word "hw.module", c.token.span⟩ front ⟨.rightBrace, s⟩
      have htext : ⟨.word "hw.module", c.token.span⟩ :: (front ++ [⟨.rightBrace, s⟩]) =
          ⟨.word "hw.module", c.token.span⟩ :: name.symbolToken ::
            (gap ++ ⟨.leftBrace, c₃.token.span⟩ :: (body ++ [⟨.rightBrace, s⟩])) := by
        simp [hfront]
      refine lays_pure ⟨⟨.word "hw.module", c.token.span⟩ :: (front ++ [⟨.rightBrace, s⟩]), bs,
        by simp [hfront], hbs, ?_⟩
      rw [← hspan]
      exact .intro hgap (splitBody_append_brace hsplit []) htext
  · rintro _ _ ⟨⟩

end Reading

/-! ### Readers that note problems -/

namespace Noting

open Reading (Ended OperandsRead)

variable {α β : Type}

/-- When there are no problems in the end, there were none before, and the reader has taken tokens
and has a result, of which `G` holds. -/
def Lays (x : Noting α) (p : Progress) (G : List Token → α → Prop) : Prop :=
  (x.run.run p).2.problems = [] →
    p.problems = [] ∧ (p.cursor.final.kind = .eof →
      ∃ a ts, (x.run.run p).1 = some a ∧ p.cursor.Passes ts (x.run.run p).2.cursor ∧ G ts a)

section Lays

variable {p : Progress} {x : Noting α} {f : α → Noting β} {g : List Token → α → Prop}
  {G : List Token → β → Prop}

theorem lays_pure {a : α} (h : g [] a) : Lays (pure a : Noting α) p g :=
  fun hp => ⟨hp, fun _ => ⟨a, [], rfl, .refl p.cursor, h⟩⟩

theorem Lays.mono {g' : List Token → α → Prop} (h : Lays x p g) (hg : ∀ ts a, g ts a → g' ts a) :
    Lays x p g' := by
  intro hp
  obtain ⟨hp', hread⟩ := h hp
  refine ⟨hp', fun hc => ?_⟩
  obtain ⟨a, ts, ha, hts, hga⟩ := hread hc
  exact ⟨a, ts, ha, hts, hg ts a hga⟩

theorem Lays.attempt {r : Reading α} (h : p.cursor.final.kind = .eof → Reading.Lays r p.cursor g) :
    Lays (attempt r) p g := by
  cases hr : r p.cursor with
  | error e c =>
      intro hp
      rw [run_attempt_of_error hr] at hp
      exact absurd hp (by simp)
  | ok a c =>
      intro hp
      rw [run_attempt_of_ok hr] at hp ⊢
      refine ⟨hp, fun hc => ?_⟩
      obtain ⟨ts, hts, hga⟩ := h hc a c hr
      exact ⟨a, ts, rfl, hts, hga⟩

/-- Readers one after the other take tokens one after the other. -/
theorem Lays.bind (hx : Lays x p g)
    (hf : ∀ a p', Lays (f a) p' fun vs b =>
      ∀ us, p.cursor.Passes us p'.cursor → g us a → G (us ++ vs) b) :
    Lays (x >>= f) p G := by
  intro hp
  cases hrun : x.run.run p with
  | mk o p₁ =>
      rw [Lays, hrun] at hx
      cases o with
      | none =>
          rw [run_bind_of_none hrun] at hp ⊢
          refine ⟨(hx hp).1, fun hc => ?_⟩
          obtain ⟨a, -, ha, -⟩ := (hx hp).2 hc
          cases ha
      | some a =>
          rw [run_bind_of_some hrun] at hp ⊢
          obtain ⟨hp₁, hlater⟩ := hf a p₁ hp
          refine ⟨(hx hp₁).1, fun hc => ?_⟩
          obtain ⟨_, us, ⟨⟩, hus, hg⟩ := (hx hp₁).2 hc
          obtain ⟨b, vs, hb, hvs, hG⟩ := hlater (hus.final_eq ▸ hc)
          exact ⟨b, us ++ vs, hb, hus.trans hvs, hG us hus hg⟩

/-- A reader that looks and takes nothing. -/
theorem Lays.look_bind {r : Reading α} {a : α} (hr : r p.cursor = .ok a p.cursor)
    (h : Lays (f a) p G) : Lays (Noting.attempt r >>= f) p G := by
  rw [Lays, run_bind_of_some (run_attempt_of_ok hr)]
  exact h

end Lays

/-- Items in a row. -/
theorem lays_itemsFrom {close : TokenKind} {item : Noting α} {g : List Token → α → Prop}
    (hitem : ∀ p, Lays item p (Ended g)) (p : Progress)
    (hp : (itemsFrom close item p).2.problems = []) :
    p.problems = [] ∧ (p.cursor.final.kind = .eof →
      ∃ ts, p.cursor.Passes ts (itemsFrom close item p).2.cursor ∧
        Rows g ts (itemsFrom close item p).1) := by
  -- an item and the blank lines behind it
  have hstep (p : Progress) (hp : (item.run.run p).2.problems = [])
      (hc : p.cursor.final.kind = .eof) : ∃ a ts bs,
        (item.run.run p).1 = some a ∧ g ts a ∧ Blank bs ∧
          p.cursor.Passes (ts ++ bs) (item.run.run p).2.cursor.skipNewlines := by
    obtain ⟨a, _, ha, hpass, ts, bs, rfl, hbs, hg⟩ := (hitem p hp).2 hc
    obtain ⟨bs', hpass', hbs'⟩ := Cursor.Passes.skipNewlines (item.run.run p).2.cursor
    refine ⟨a, ts, bs ++ bs', ha, hg, fun t ht => ?_, ?_⟩
    · exact (List.mem_append.1 ht).elim (hbs t) (hbs' t)
    · rw [← List.append_assoc]
      exact hpass.trans hpass'
  fun_induction itemsFrom close item p with
  | case1 p hstop => exact ⟨hp, fun _ => ⟨[], .refl _, .nil⟩⟩
  | case2 p hgo read cursor next hless later ih =>
      obtain ⟨hnext, hlater⟩ := ih hp
      refine ⟨(hitem p hnext).1, fun hc => ?_⟩
      obtain ⟨a, ts, bs, ha, hg, hbs, hpass⟩ := hstep p hnext hc
      have hcursor : next.cursor = (item.run.run p).2.cursor.skipNewlines := by
        dsimp only [next, cursor, read]
        rw [ha]
      obtain ⟨us, hpass', hrows⟩ := hlater (by rw [hcursor, hpass.final_eq]; exact hc)
      rw [hcursor] at hpass'
      refine ⟨ts ++ (bs ++ us), ?_, ?_⟩
      · rw [← List.append_assoc]
        exact hpass.trans hpass'
      · rw [show read.1 = some a from ha]
        exact .cons hg hbs hrows
  | case3 p hgo read cursor next hless =>
      refine ⟨(hitem p hp).1, fun hc => ?_⟩
      obtain ⟨a, ts, bs, ha, hg, hbs, hpass⟩ := hstep p hp hc
      have hcursor : next.cursor = (item.run.run p).2.cursor.skipNewlines := by
        dsimp only [next, cursor, read]
        rw [ha]
      refine ⟨ts ++ (bs ++ []), ?_, ?_⟩
      · rw [List.append_nil, hcursor]
        exact hpass
      · rw [show read.1 = some a from ha]
        exact .cons hg hbs .nil

theorem lays_items (close : TokenKind) {item : Noting α} {g : List Token → α → Prop}
    (hitem : ∀ p, Lays item p (Ended g)) (p : Progress) :
    Lays (items close item) p (Rows g) := by
  intro hp
  obtain ⟨hp', hread⟩ := lays_itemsFrom hitem p hp
  refine ⟨hp', fun hc => ?_⟩
  obtain ⟨ts, hpass, hrows⟩ := hread hc
  exact ⟨_, ts, rfl, hpass, hrows⟩

/-! ### Classes and modules -/

theorem lays_classDecl {p : Progress} (hk : p.cursor.kind = .word "om.class") :
    Lays classDecl p (Ended (ClassDecl.Derives OperandsRead)) := by
  refine Lays.look_bind (r := Reading.spanHere) rfl ?_
  refine (Lays.attempt fun hc => Reading.lays_classHeader hk hc).bind fun ⟨name, params⟩ p₁ => ?_
  refine (lays_items .rightBrace (fun p => Lays.attempt fun hc => Reading.lays_operation true hc)
    p₁).bind fun body p₂ => ?_
  refine (Lays.attempt fun hc => Reading.lays_closeBody _ _ hc).bind fun span p₃ => ?_
  refine lays_pure fun us₃ h₃ hclose us₂ h₂ hbody us₁ h₁ hheader => ?_
  obtain ⟨_, bs₃, rfl, hbs₃, s₄, rfl, rfl⟩ := hclose
  obtain ⟨_, bs₁, rfl, hbs₁, s, s₁, s₂, s₃, ps, rfl, hparams⟩ := hheader
  obtain ⟨front, hfront⟩ : ∃ front, front = name.symbolToken :: ⟨.leftParen, s₁⟩ ::
      (ps ++ ⟨.rightParen, s₂⟩ :: ⟨.leftBrace, s₃⟩ :: (bs₁ ++ us₂)) := ⟨_, rfl⟩
  have hspan : lineSpan (⟨.word "om.class", s⟩ :: (front ++ [⟨.rightBrace, s₄⟩])) =
      p.cursor.token.span.merge s₄ := by
    rw [lineSpan_cons_append, h₁.token_eq]
  have htext : ⟨.word "om.class", s⟩ :: (front ++ [⟨.rightBrace, s₄⟩]) =
      ⟨.word "om.class", s⟩ :: name.symbolToken :: ⟨.leftParen, s₁⟩ ::
        (ps ++ ⟨.rightParen, s₂⟩ :: ⟨.leftBrace, s₃⟩ ::
          (bs₁ ++ (us₂ ++ [⟨.rightBrace, s₄⟩]))) := by
    simp [hfront]
  refine ⟨⟨.word "om.class", s⟩ :: (front ++ [⟨.rightBrace, s₄⟩]), bs₃, by simp [hfront], hbs₃, ?_⟩
  rw [← hspan]
  exact .intro hparams hbs₁ hbody htext

theorem lays_item (p : Progress) : Lays item p (Ended (Item.Derives OperandsRead)) := by
  have hended {α : Type} {g : List Token → α → Prop} {f : α → Item}
      {x : Noting α} (hx : Lays x p (Ended g))
      (hf : ∀ ts a, g ts a → (f a).Derives OperandsRead ts) :
      Lays (x >>= fun a => pure (f a)) p (Ended (Item.Derives OperandsRead)) := by
    refine hx.bind fun a p' => lays_pure fun us _ hus => ?_
    obtain ⟨line, bs, rfl, hbs, hg⟩ := hus
    exact ⟨line, bs, List.append_nil _, hbs, hf line a hg⟩
  refine Lays.look_bind (r := Reading.kind) rfl ?_
  split
  · next hk => exact hended (lays_classDecl hk) fun _ _ => .ofClass
  · next hk =>
      exact hended (Lays.attempt fun hc => Reading.lays_hardware hk hc) fun _ _ => .ofHardware
  · exact hended (Lays.attempt fun hc => Reading.lays_operation false hc) fun _ _ => .ofOperation
  · exact hended (Lays.attempt fun hc => Reading.lays_operation false hc) fun _ _ => .ofOperation
  · refine Lays.attempt fun _ => ?_
    rintro _ _ ⟨⟩
  · refine Lays.attempt fun _ => ?_
    rintro _ _ ⟨⟩

/-- Line ends, and items with the wrapper around them or without it, are a module. -/
theorem lays_moduleItems (p : Progress) :
    Lays moduleItems p fun ts items => ∀ (file : String) (span : Span) (bs : List Token),
      Blank bs → (ts ≠ [] → span = lineSpan ts) →
        Module.Derives OperandsRead (bs ++ ts) ⟨file, items, span⟩ := by
  refine Lays.look_bind (r := Reading.kind) rfl ?_
  split
  · next hk =>
      have hopen (hc : p.cursor.final.kind = .eof) : Reading.Lays (do
          Reading.advance
          Reading.expect .leftBrace
          Reading.skipNewlines) p.cursor fun ts _ => ∃ s s₁ bs,
            ts = ⟨.word "module", s⟩ :: ⟨.leftBrace, s₁⟩ :: bs ∧ Blank bs := by
        refine (Reading.lays_advance hk (by simp) hc).bind fun _ _ c₁ h₁ hus₁ => ?_
        refine (Reading.lays_expect (by simp) (h₁.final_eq ▸ hc)).bind fun _ _ c₂ _ hus₂ => ?_
        refine (Reading.lays_skipNewlines c₂).mono fun bs _ hbs => ?_
        obtain ⟨s₁, rfl⟩ := hus₂
        subst hus₁
        exact ⟨_, s₁, bs, rfl, hbs⟩
      have hclose {c : Cursor} (hc : c.final.kind = .eof) : Reading.Lays (do
          Reading.expect .rightBrace
          Reading.skipNewlines) c fun ts _ => ∃ s bs, ts = ⟨.rightBrace, s⟩ :: bs ∧ Blank bs := by
        refine (Reading.lays_expect (by simp) hc).bind fun _ _ c₁ _ hus₁ => ?_
        refine (Reading.lays_skipNewlines c₁).mono fun bs _ hbs => ?_
        obtain ⟨s, rfl⟩ := hus₁
        exact ⟨s, bs, rfl, hbs⟩
      refine (Lays.attempt hopen).bind fun _ p₁ => (lays_items .rightBrace lays_item p₁).bind ?_
      refine fun items p₂ => (Lays.attempt fun hc => hclose hc).bind fun _ p₃ => lays_pure ?_
      rintro _ - ⟨s₂, bs₂, rfl, hbs₂⟩ rows - hrows _ - ⟨s, s₁, bs₁, rfl, hbs₁⟩ file span bs hbs hspan
      have htext : ⟨.word "module", s⟩ :: ⟨.leftBrace, s₁⟩ :: bs₁ ++
          (rows ++ (⟨.rightBrace, s₂⟩ :: bs₂ ++ [])) =
            ⟨.word "module", s⟩ :: ⟨.leftBrace, s₁⟩ ::
              (bs₁ ++ (rows ++ ⟨.rightBrace, s₂⟩ :: bs₂)) := by
        simp
      rw [hspan (by simp)]
      exact .wrapped hbs hbs₁ hbs₂ hrows htext
  · refine (lays_items .eof lays_item p).mono fun rows items hrows file span bs hbs hspan => ?_
    exact .bare hbs hrows hspan

theorem lays_module (file : String) (p : Progress) :
    Lays (module file) p (Module.Derives OperandsRead) := by
  refine (Lays.attempt fun _ => Reading.lays_skipNewlines p.cursor).bind fun _ p₁ => ?_
  refine Lays.look_bind (r := Reading.spanHere) rfl ?_
  refine (lays_moduleItems p₁).bind fun items p₂ => ?_
  refine Lays.look_bind (r := Reading.kind) rfl ?_
  have hend : Lays (do
      return { file, items, span := p₁.cursor.token.span.merge (← attempt Reading.lastSpan) })
      p₂ fun vs m => ∀ us, p₁.cursor.Passes us p₂.cursor → (∀ (file : String) (span : Span)
        (bs : List Token), Blank bs → (us ≠ [] → span = lineSpan us) →
          Module.Derives OperandsRead (bs ++ us) ⟨file, items, span⟩) →
            ∀ bs, p.cursor.Passes bs p₁.cursor → Blank bs →
              Module.Derives OperandsRead (bs ++ (us ++ vs)) m := by
    refine Lays.look_bind (r := Reading.lastSpan) rfl (lays_pure ?_)
    intro us hpass hitems bs _ hbs
    rw [List.append_nil]
    refine hitems file _ bs hbs fun hne => ?_
    obtain ⟨t, ts, rfl⟩ := List.exists_cons_of_ne_nil hne
    rw [hpass.token_eq, hpass.merge_last]
  split
  · -- more than a module is a problem
    have hnote {code : Code} {message : String} :
        Lays (note code message) p₂ fun _ _ => False := by
      intro hp
      exact absurd hp (by simp [note, StateT.run])
    refine hnote.bind fun _ p₃ => Lays.look_bind (r := Reading.lastSpan) rfl (lays_pure ?_)
    exact fun _ _ hfalse => hfalse.elim
  · exact hend

end Noting

/-- **What is read as a module without problems is a module of the grammar**, except that one more
comma may stand behind the last operand of an operation.  The tokens of the module begin the text,
which ends with a token that says so. -/
theorem Module.derives_of_ofTokens? {file : String} {ts : List Token} {stop : Token} {m : Module}
    (hstop : stop.kind = .eof) (h : Module.ofTokens? file (ts ++ [stop]) = (some m, [])) :
    ∃ text rest, ts ++ [stop] = text ++ rest ∧ m.Derives Reading.OperandsRead text := by
  obtain ⟨hmodule, hproblems⟩ := Prod.mk.inj h
  have hfinal : (Cursor.ofTokens (ts ++ [stop])).final.kind = .eof := by
    rw [Cursor.ofTokens, List.getLast?_concat]
    exact hstop
  obtain ⟨-, hread⟩ := Noting.lays_module file { cursor := .ofTokens (ts ++ [stop]) } hproblems
  obtain ⟨m', text, hm', hpass, hderives⟩ := hread hfinal
  obtain rfl : m' = m := Option.some.inj (hm'.symm.trans hmodule)
  exact ⟨text, _, hpass.ahead, hderives⟩

end ObjectModel
