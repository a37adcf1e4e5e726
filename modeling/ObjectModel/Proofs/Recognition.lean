/-
**Readers read all that the grammar derives.**

A reader stops at the first token that does not fit, so what it accepts depends on its code and not
only on the rules of the grammar.  It accepts all of them: when the tokens of a type, a constant or
an operation stand next, the reader takes exactly these and its result is the one that is derived,
whatever follows, up to a token at which a list would go on.  With the converse this says which
lines are read as operations, without a word about reading.  What the grammar does not say is that
there are as many types as operands, that fields stand in classes, and one thing nobody would want:
a tuple without elements is read in front of a line feed and of nothing else that ends a line.
Headers of classes and hardware modules are read in the same way, up to their braces.

Main definitions:

* `Inline` — pieces of a line, with braces only where constants close them;
* `Reading.Accepts` — a reader takes a piece of a line and has a result;
* `Action.Fits` — there are as many types as operands.

Main results:

* `Inline.length_le` — a piece does not go beyond the end of its line;
* `Reading.Accepts.bind` — readers one after the other;
* `Reading.accepts_ty`, `Reading.accepts_constant`, `Reading.accepts_operands` — the parts of a
  line;
* `Reading.accepts_operationLine` — operations;
* `Reading.operation_eq_ok_iff` — **which lines are read as operations**;
* `Reading.accepts_headerLine`, `Reading.hardware_of_derives` — headers and hardware modules.
-/

import ObjectModel.Proofs.Declarations
import ObjectModel.Proofs.HardwareBody
import ObjectModel.Proofs.Reading

set_option relaxedAutoImplicit false
set_option autoImplicit false

namespace ObjectModel

/-! ### Pieces of lines -/

instance (k : TokenKind) : Decidable k.EndsLine := inferInstanceAs (Decidable (_ ∨ _ ∨ _))

/-- A piece of a line: no token of it ends a line, except braces with an angle bracket right
behind them. -/
inductive Inline : List Token → Prop where
  | nil : Inline []
  | cons {t : Token} {ts : List Token} (ht : ¬t.kind.EndsLine) (h : Inline ts) : Inline (t :: ts)
  | brace {s s₁ : Span} {ts : List Token} (h : Inline ts) :
      Inline (⟨.rightBrace, s⟩ :: ⟨.greater, s₁⟩ :: ts)

namespace Inline

variable {ts us rest more : List Token} {t stop : Token}

theorem append (h : Inline ts) (h' : Inline us) : Inline (ts ++ us) := by
  induction h with
  | nil => exact h'
  | cons ht _ ih => exact ih.cons ht
  | brace _ ih => exact ih.brace

theorem singleton (ht : ¬t.kind.EndsLine) : Inline [t] := nil.cons ht

/-- A piece does not go beyond the end of its line, unless that is a brace with an angle bracket
right behind it. -/
theorem length_le (h : Inline ts) (hrest : ts ++ rest = us ++ stop :: more)
    (hstop : stop.kind.EndsLine)
    (hbrace : stop.kind = .rightBrace → ∀ t ∈ more.head?, t.kind ≠ .greater) :
    ts.length ≤ us.length := by
  induction h generalizing us with
  | nil => exact Nat.zero_le _
  | @cons t ts ht _ ih =>
      rcases us with _ | ⟨u, us⟩
      · exact absurd ((List.cons.inj hrest).1 ▸ hstop) ht
      · exact Nat.succ_le_succ (ih (List.cons.inj hrest).2)
  | brace _ ih =>
      rcases us with _ | ⟨u, _ | ⟨v, us⟩⟩
      · obtain ⟨rfl, rfl⟩ := List.cons.inj hrest
        exact absurd rfl (hbrace rfl _ rfl)
      · obtain ⟨rfl, -⟩ := List.cons.inj (List.cons.inj hrest).2
        exact absurd hstop (by simp [TokenKind.EndsLine])
      · exact Nat.succ_le_succ (Nat.succ_le_succ (ih (List.cons.inj (List.cons.inj hrest).2).2))

end Inline

namespace Reading

variable {α β : Type}

/-! ### Readers and pieces of lines -/

/-- The reader takes the tokens `ts`, which are a piece of a line, with the result `a`, whenever
they stand next and behind them a token of a kind with the property `F`. -/
structure Accepts (x : Reading α) (F : TokenKind → Prop) (ts : List Token) (a : α) : Prop where
  inline : Inline ts
  run : ∀ (c : Cursor) (rest : List Token), c.ahead = ts ++ rest →
    F (rest.headD c.final).kind → x c = .ok a (c.skip ts.length)

/-- Whatever follows. -/
abbrev Always : TokenKind → Prop := fun _ => True

section Accepts

variable {x : Reading α} {f : α → Reading β} {F G : TokenKind → Prop} {a : α} {b : β}
  {t : Token} {ts us : List Token} {k : TokenKind} {s : Span}

theorem accepts_pure : Accepts (pure a : Reading α) F [] a := ⟨.nil, fun _ _ _ _ => rfl⟩

theorem Accepts.mono (h : Accepts x F ts a) (hF : ∀ k, G k → F k) : Accepts x G ts a :=
  ⟨h.inline, fun c rest hc hrest => h.run c rest hc (hF _ hrest)⟩

/-- Readers one after the other take pieces one after the other. -/
theorem Accepts.bind (hx : Accepts x F ts a) (hf : Accepts (f a) G us b)
    (hF : ∀ k, G k → F ((us.head?.map Token.kind).getD k)) :
    Accepts (x >>= f) G (ts ++ us) b where
  inline := hx.inline.append hf.inline
  run c rest hc hrest := by
    rw [List.append_assoc] at hc
    have hnext : F ((us ++ rest).headD c.final).kind := by
      have h := hF _ hrest
      cases us with
      | nil => exact h
      | cons u us => exact h
    have hahead : (c.skip ts.length).ahead = us ++ rest := by
      rw [c.ahead_skip, hc, List.drop_left]
    rw [bind_of_ok (hx.run c _ hc hnext), hf.run (c.skip ts.length) rest hahead, ← c.skip_add,
      List.length_append]
    rwa [c.final_skip]

/-- A reader that does not look at what follows. -/
theorem Accepts.append (hx : Accepts x Always ts a) (hf : Accepts (f a) G us b) :
    Accepts (x >>= f) G (ts ++ us) b :=
  hx.bind hf fun _ _ => trivial

/-- A reader before a token of another one. -/
theorem Accepts.before (hx : Accepts x F ts a) (hf : Accepts (f a) G (t :: us) b)
    (ht : F t.kind) : Accepts (x >>= f) G (ts ++ t :: us) b :=
  hx.bind hf fun _ _ => ht

/-- A reader behind which nothing is taken. -/
theorem Accepts.bind_nil (hx : Accepts x F ts a) (hf : Accepts (f a) G [] b)
    (hF : ∀ k, G k → F k) : Accepts (x >>= f) G ts b := by
  have h := hx.bind hf hF
  rwa [List.append_nil] at h

theorem Accepts.last {g : α → β} (hx : Accepts x F ts a) :
    Accepts (x >>= fun a => pure (g a)) F ts (g a) :=
  hx.bind_nil accepts_pure fun _ hk => hk

theorem Accepts.advance_bind {f : Unit → Reading β} (ht : decide t.kind.EndsLine = false)
    (hf : Accepts (f ()) G us b) : Accepts (advance >>= f) G (t :: us) b where
  inline := hf.inline.cons (of_decide_eq_false ht)
  run c rest hc hrest := by
    have hahead : (c.skip 1).ahead = us ++ rest := by rw [c.ahead_skip, hc]; rfl
    rw [List.length_cons, Nat.add_comm, c.skip_add,
      ← hf.run (c.skip 1) rest hahead (by rwa [c.final_skip])]
    rfl

/-- A reader that looks at the next token, which it will take. -/
theorem Accepts.kind_bind {f : TokenKind → Reading β} (hf : Accepts (f t.kind) G (t :: us) b) :
    Accepts (kind >>= f) G (t :: us) b where
  inline := hf.inline
  run c rest hc hrest := by
    have hkind : c.kind = t.kind := by rw [Cursor.kind, Cursor.token, hc]; rfl
    rw [kind_bind_run, hkind]
    exact hf.run c rest hc hrest

/-- A reader that looks at the next token, which stays. -/
theorem Accepts.kind_bind_nil {f : TokenKind → Reading β}
    (hf : ∀ k, G k → Accepts (f k) Always [] b) : Accepts (kind >>= f) G [] b where
  inline := .nil
  run c rest hc hrest := by
    have hkind : c.kind = (rest.headD c.final).kind := by rw [Cursor.kind, Cursor.token, hc]; rfl
    rw [kind_bind_run, hkind]
    exact (hf _ hrest).run c rest hc trivial

theorem Accepts.spanHere_bind {f : Span → Reading β} (hf : Accepts (f t.span) G (t :: us) b) :
    Accepts (spanHere >>= f) G (t :: us) b where
  inline := hf.inline
  run c rest hc hrest := by
    have hspan : c.token.span = t.span := by rw [Cursor.token, hc]; rfl
    change f c.token.span c = _
    rw [hspan]
    exact hf.run c rest hc hrest

/-- A reader that keeps the next span for a message it does not write. -/
theorem Accepts.spanHere_bind_any {f : Span → Reading β} (hf : ∀ s, Accepts (f s) G ts b) :
    Accepts (spanHere >>= f) G ts b where
  inline := (hf default).inline
  run c rest hc hrest := (hf c.token.span).run c rest hc hrest

/-- A reader that counts the tokens ahead, which are no fewer than those that it takes. -/
theorem Accepts.get_bind {f : Cursor → Reading β}
    (hf : ∀ c : Cursor, ts.length ≤ c.ahead.length → Accepts (f c) G ts b) :
    Accepts (get >>= f) G ts b where
  inline := (hf ⟨ts, default, default⟩ (Nat.le_refl _)).inline
  run c rest hc hrest := by
    have hlen : ts.length ≤ c.ahead.length := by rw [hc, List.length_append]; omega
    exact (hf c hlen).run c rest hc hrest

/-! ### One token -/

theorem accepts_advance (ht : decide t.kind.EndsLine = false) : Accepts advance Always [t] () :=
  Accepts.advance_bind (f := pure) ht accepts_pure

theorem Accepts.expect_bind {f : Unit → Reading β} (hk : decide k.EndsLine = false)
    (hf : Accepts (f ()) G us b) : Accepts (expect k >>= f) G (⟨k, s⟩ :: us) b := by
  have hexpect : Accepts (expect k) Always [⟨k, s⟩] () := by
    refine Accepts.kind_bind ?_
    rw [if_pos rfl]
    exact accepts_advance hk
  exact hexpect.append hf

/-- A brace is taken with the angle bracket behind it. -/
theorem Accepts.expect_brace_bind {f : Unit → Reading β} {s₁ : Span}
    (hf : Accepts (f ()) G us b) :
    Accepts (expect .rightBrace >>= fun _ => expect .greater >>= f) G
      (⟨.rightBrace, s⟩ :: ⟨.greater, s₁⟩ :: us) b where
  inline := hf.inline.brace
  run c rest hc hrest := by
    obtain ⟨ahead, final, last⟩ := c
    obtain rfl : ahead = _ := hc
    exact hf.run ⟨us ++ rest, final, s₁⟩ rest rfl hrest

theorem accepts_expectSome {what : String} {pick : TokenKind → Option α}
    (ht : decide t.kind.EndsLine = false) (hpick : pick t.kind = some a) :
    Accepts (expectSome what pick) Always [t] a := by
  refine Accepts.kind_bind ?_
  rw [hpick]
  exact Accepts.advance_bind ht accepts_pure

theorem accepts_valueName (x : Ident) : Accepts valueName Always [x.valueToken] x :=
  Accepts.spanHere_bind (accepts_expectSome rfl rfl)

theorem accepts_symbolName (x : Ident) : Accepts symbolName Always [x.symbolToken] x :=
  Accepts.spanHere_bind (accepts_expectSome rfl rfl)

theorem accepts_integerLiteral (n : Int64) :
    Accepts integerLiteral Always [⟨.integer n, s⟩] n :=
  accepts_expectSome rfl rfl

/-- A token that may be taken is taken. -/
theorem Accepts.eat_bind {f : Bool → Reading β} (hk : decide k.EndsLine = false)
    (hf : Accepts (f true) G us b) : Accepts (eat k >>= f) G (⟨k, s⟩ :: us) b := by
  rw [eat_bind_eq]
  refine Accepts.kind_bind ?_
  rw [if_pos rfl]
  exact Accepts.advance_bind hk hf

/-- Another token is left. -/
theorem Accepts.eat_bind_nil {f : Bool → Reading β} (hk : ∀ k', G k' → k' ≠ k)
    (hf : Accepts (f false) Always [] b) : Accepts (eat k >>= f) G [] b := by
  rw [eat_bind_eq]
  refine Accepts.kind_bind_nil fun k' hk' => ?_
  rw [if_neg (hk k' hk')]
  exact hf

end Accepts

/-! ### Lists -/

section Lists

variable {item : Reading α} {g : List Token → α → Prop} {F G : TokenKind → Prop}
  {ts : List Token} {as : List α}

/-- A list is read up to a token that does not go on with it, when the items are that have no more
tokens than the list, and when it may be as long as it has tokens. -/
theorem accepts_commaSeparatedUpTo (h : Commas g ts as)
    (hitem : ∀ us a, us.length ≤ ts.length → g us a → Accepts item F us a) (hcomma : F .comma)
    (hF : ∀ k, G k → F k ∧ k ≠ .comma) {n : Nat} (hn : ts.length ≤ n) :
    Accepts (commaSeparatedUpTo item n) G ts as := by
  induction h generalizing n with
  | @one ts a h =>
      have hone := (hitem ts a (Nat.le_refl _) h).mono fun k hk => (hF k hk).1
      cases n with
      | zero => exact hone.last
      | succ n =>
          exact hone.bind_nil (Accepts.eat_bind_nil (fun k hk => (hF k hk).2) accepts_pure)
            fun _ hk => hk
  | @cons ts us a as s h hrest ih =>
      rw [List.length_append, List.length_cons] at hn
      obtain ⟨n, rfl⟩ : ∃ m, n = m + 1 := ⟨n - 1, by omega⟩
      have hrest := ih (fun vs b hvs => hitem vs b (by simp; omega)) (n := n) (by omega)
      exact (hitem ts a (by simp) h).before (Accepts.eat_bind rfl hrest.last) hcomma

/-- A list, or nothing, is read up to a token that does not go on with it, when no item begins with
the token `close`; nothing is read before that token only. -/
theorem accepts_commaSeparatedBefore {close : TokenKind} (h : CommaList g ts as)
    (hitem : ∀ us a, us.length ≤ ts.length → g us a → Accepts item F us a) (hcomma : F .comma)
    (hF : ∀ k, G k → F k ∧ k ≠ .comma)
    (hstart : ∀ us a, g us a → ∃ t vs, us = t :: vs ∧ t.kind ≠ close)
    (hclose : as = [] → ∀ k, G k → k = close) :
    Accepts (commaSeparatedBefore close item) G ts as := by
  cases h with
  | nil =>
      refine Accepts.kind_bind_nil fun k hk => ?_
      rw [if_pos (hclose rfl k hk)]
      exact accepts_pure
  | some h =>
      have hread : Accepts (commaSeparated item) G ts as :=
        Accepts.get_bind fun c hc => accepts_commaSeparatedUpTo h hitem hcomma hF hc
      obtain ⟨t, us, rfl, ht⟩ : ∃ t us, ts = t :: us ∧ t.kind ≠ close := by
        cases h with
        | one h => exact hstart _ _ h
        | cons h =>
            obtain ⟨t, us, rfl, ht⟩ := hstart _ _ h
            exact ⟨t, _, rfl, ht⟩
      refine Accepts.kind_bind ?_
      rw [if_neg ht]
      exact hread

end Lists

/-! ### Types -/

theorem ofWidth?_of_digits {digits : List Char} {width : Nat} (hdigits : digits ≠ [])
    (hall : ∀ d ∈ digits, d.isDigit = true) (hwidth : Decimal.ofDigits digits = width)
    (hpos : 0 < width) (hlt : width < UInt32.size) :
    Ty.ofWidth? (String.ofList ('i' :: digits)) = some (.bits (.ofNat width)) := by
  have hnatural : Decimal.natural? digits = some width := by
    rw [Decimal.natural?, if_pos ⟨hdigits, by simpa using hall⟩, hwidth]
  rw [Ty.ofWidth?, String.toList_ofList]
  simp [hnatural, hpos, hlt]

/-- A type begins with a name or with a word. -/
theorem starts_of_ty {ts : List Token} {t : Ty} (h : t.Derives ts) :
    ∃ u us, ts = u :: us ∧ ((∃ name, u.kind = .typeName name) ∨ ∃ name, u.kind = .word name) := by
  cases h <;> exact ⟨_, _, rfl, by simp⟩

/-- Types are read up to a token that is no comma, when each of them is, and none before the token
`close` only. -/
theorem accepts_types {close : TokenKind} {item : Reading Ty} {G : TokenKind → Prop}
    {ts : List Token} {tys : List Ty} (h : CommaList (fun ts t => Ty.Derives ts t) ts tys)
    (hitem : ∀ us (t : Ty), us.length ≤ ts.length → t.Derives us → Accepts item Always us t)
    (hG : ∀ k, G k → k ≠ .comma) (hname : ∀ name, close ≠ .typeName name)
    (hword : ∀ name, close ≠ .word name) (hclose : tys = [] → ∀ k, G k → k = close) :
    Accepts (commaSeparatedBefore close item) G ts tys := by
  refine accepts_commaSeparatedBefore h hitem trivial (fun k hk => ⟨trivial, hG k hk⟩) ?_ hclose
  intro us t ht
  obtain ⟨u, vs, rfl, ⟨name, hu⟩ | ⟨name, hu⟩⟩ := starts_of_ty ht
  · exact ⟨u, vs, rfl, fun h => hname name (h.symm.trans hu)⟩
  · exact ⟨u, vs, rfl, fun h => hword name (h.symm.trans hu)⟩

/-- A type is read when nesting is allowed as deep as it has tokens. -/
theorem accepts_tyUpTo (n : Nat) : ∀ {ts : List Token} {t : Ty}, t.Derives ts → ts.length ≤ n →
    Accepts (tyUpTo n) Always ts t := by
  induction n with
  | zero =>
      intro ts t h hlen
      obtain ⟨u, us, rfl, -⟩ := starts_of_ty h
      cases hlen
  | succ n ih =>
      intro ts t h hlen
      cases h with
      | integer | string | ref | any =>
          exact Accepts.spanHere_bind (Accepts.kind_bind (Accepts.advance_bind rfl accepts_pure))
      | @bits s digits width hdigits hall hwidth hpos hlt =>
          have hne : String.ofList ('i' :: digits) ≠ "tuple" := by
            intro h
            have hlist := congrArg String.toList h
            rw [String.toList_ofList] at hlist
            cases (List.cons.inj hlist).1
          refine Accepts.spanHere_bind (Accepts.kind_bind ?_)
          split
          · next h => cases h
          · next h => exact absurd (TokenKind.word.inj h) hne
          · next name _ h =>
              rw [← TokenKind.word.inj h, ofWidth?_of_digits hdigits hall hwidth hpos hlt]
              exact Accepts.advance_bind rfl accepts_pure
          · next h => exact absurd rfl (h _)
      | list h =>
          rw [List.length_cons, List.length_cons, List.length_append] at hlen
          refine Accepts.spanHere_bind (Accepts.kind_bind (Accepts.advance_bind rfl ?_))
          refine Accepts.expect_bind rfl ((ih h (by omega)).append ?_)
          exact Accepts.expect_bind rfl accepts_pure
      | map hkey hvalue =>
          simp only [List.length_cons, List.length_append] at hlen
          refine Accepts.spanHere_bind (Accepts.kind_bind (Accepts.advance_bind rfl ?_))
          refine Accepts.expect_bind rfl ((ih hkey (by omega)).append ?_)
          refine Accepts.expect_bind rfl ((ih hvalue (by omega)).append ?_)
          exact Accepts.expect_bind rfl accepts_pure
      | @object s s₁ s₂ s₃ name =>
          refine Accepts.spanHere_bind (Accepts.kind_bind (Accepts.advance_bind rfl ?_))
          refine Accepts.expect_bind rfl ((accepts_symbolName ⟨name, s₂⟩).append ?_)
          exact Accepts.expect_bind rfl accepts_pure
      | @tuple s s₁ s₂ ts elements h =>
          rw [List.length_cons, List.length_cons, List.length_append] at hlen
          refine Accepts.spanHere_bind (Accepts.kind_bind (Accepts.advance_bind rfl ?_))
          have helements := accepts_types (G := (· = .greater)) h
            (fun us t hus ht => ih ht (by omega)) (by simp) (by simp) (by simp) fun _ _ hk => hk
          refine Accepts.expect_bind rfl (helements.before ?_ rfl)
          exact Accepts.expect_bind rfl accepts_pure

theorem accepts_ty {ts : List Token} {t : Ty} (h : t.Derives ts) : Accepts ty Always ts t :=
  Accepts.get_bind fun _ hc => accepts_tyUpTo _ h (Nat.le_succ_of_le hc)

/-! ### Constants -/

/-- Behind something its type may stand, and else no colon. -/
theorem accepts_annotated {item : Reading α} {g : List Token → α → Prop} {f : α → β}
    {ts : List Token} {a : α} (h : Annotated g ts a)
    (hitem : ∀ us, us.length ≤ ts.length → g us a → Accepts item Always us a) :
    Accepts (item >>= fun a => optionalTy >>= fun _ => pure (f a)) (· ≠ .colon) ts (f a) := by
  cases h with
  | bare h =>
      have hnone : Accepts optionalTy (· ≠ .colon) [] () :=
        Accepts.eat_bind_nil (fun _ hk => hk) accepts_pure
      exact (hitem ts (Nat.le_refl _) h).bind_nil hnone.last fun _ _ => trivial
  | @typed ts us a s t h hty =>
      have htyped : Accepts optionalTy Always (⟨.colon, s⟩ :: us) () :=
        Accepts.eat_bind rfl (accepts_ty hty).last
      exact (hitem ts (by simp) h).append (htyped.last.mono fun _ _ => trivial)

theorem accepts_mapKey {t : Token} {key : String} (h : t.kind = .word key ∨ t.kind = .string key) :
    Accepts mapKey Always [t] key := by
  obtain ⟨k, s⟩ := t
  rcases h with rfl | rfl <;>
    exact Accepts.kind_bind (Accepts.advance_bind rfl accepts_pure)

/-- The names of a path are read when there may be as many as there are tokens. -/
theorem accepts_segmentsUpTo {ts : List Token} {names : List String}
    (h : SymbolPath.Derives ts names) {n : Nat} (hn : ts.length ≤ n) :
    Accepts (segmentsUpTo n) (· ≠ .doubleColon) ts names := by
  induction h generalizing n with
  | @one s name =>
      obtain ⟨n, rfl⟩ : ∃ m, n = m + 1 := ⟨n - 1, by simp at hn; omega⟩
      exact (accepts_symbolName ⟨name, s⟩).bind_nil
        (Accepts.eat_bind_nil (fun _ hk => hk) accepts_pure) fun _ _ => trivial
  | @cons s s₁ name ts names h ih =>
      rw [List.length_cons, List.length_cons] at hn
      obtain ⟨n, rfl⟩ : ∃ m, n = m + 1 := ⟨n - 1, by omega⟩
      exact (accepts_symbolName ⟨name, s⟩).append (Accepts.eat_bind rfl (ih (by omega)).last)

theorem accepts_symbolPath {s₁ s₂ s₃ s₄ : Span} {ts : List Token} {names : List String}
    (h : SymbolPath.Derives ts names) :
    Accepts symbolPath Always
      (⟨.less, s₁⟩ :: ⟨.less, s₂⟩ :: (ts ++ [⟨.greater, s₃⟩, ⟨.greater, s₄⟩])) ⟨names⟩ := by
  have hsegments : Accepts (get >>= fun c => segmentsUpTo c.ahead.length) (· ≠ .doubleColon) ts
      names :=
    Accepts.get_bind fun c hc => accepts_segmentsUpTo h hc
  refine Accepts.expect_bind rfl (Accepts.expect_bind rfl (hsegments.before ?_ (by simp)))
  exact Accepts.expect_bind rfl (Accepts.expect_bind rfl accepts_pure)

/-- A constant begins with a number, a string or a name. -/
theorem starts_of_constant {ts : List Token} {a : Attribute} (h : a.Derives ts) :
    ∃ t us, ts = t :: us ∧ ((∃ n, t.kind = .integer n) ∨ (∃ text, t.kind = .string text) ∨
      ∃ name, t.kind = .attrName name) := by
  cases h <;> exact ⟨_, _, rfl, by simp⟩

/-- The elements of a list are read, when constants are. -/
theorem accepts_elements {item : Reading Attribute} {ts : List Token} {elements : List Attribute}
    (h : CommaList (Annotated fun ts (a : Attribute) => a.Derives ts) ts elements)
    (hitem : ∀ us (a : Attribute), us.length ≤ ts.length → a.Derives us →
      Accepts item Always us a) :
    Accepts (commaSeparatedBefore .rightBracket do
      let element ← item
      optionalTy
      return element) (· = .rightBracket) ts elements := by
  refine accepts_commaSeparatedBefore h (F := (· ≠ .colon)) (fun us a hus ha => ?_) (by simp)
    (by simp) (fun us a ha => ?_) fun _ _ hk => hk
  · exact accepts_annotated (f := id) ha fun vs hvs hv => hitem vs a (Nat.le_trans hvs hus) hv
  · obtain ⟨t, vs, rfl, ht⟩ : ∃ t vs, us = t :: vs ∧ t.kind ≠ .rightBracket := by
      cases ha with
      | bare h | typed h =>
          obtain ⟨t, vs, rfl, ht⟩ := starts_of_constant h
          exact ⟨t, _, rfl, by rcases ht with ⟨_, ht⟩ | ⟨_, ht⟩ | ⟨_, ht⟩ <;> simp [ht]⟩
    exact ⟨t, vs, rfl, ht⟩

/-- The entries of a map are read, when constants are. -/
theorem accepts_entries {item : Reading Attribute} {ts : List Token}
    {entries : List (String × Attribute)}
    (h : CommaList (Keyed (Annotated fun ts (a : Attribute) => a.Derives ts)) ts entries)
    (hitem : ∀ us (a : Attribute), us.length ≤ ts.length → a.Derives us →
      Accepts item Always us a) :
    Accepts (commaSeparatedBefore .rightBrace do
      let key ← mapKey
      expect .equals
      let value ← item
      optionalTy
      return (key, value)) (· = .rightBrace) ts entries := by
  -- an entry behind the token of its key
  have hentry {t : Token} {s₁ : Span} {key : String} {us : List Token} {a : Attribute}
      (hkey : t.kind = .word key ∨ t.kind = .string key) (hus : us.length ≤ ts.length)
      (ha : Annotated (fun ts (a : Attribute) => a.Derives ts) us a) : Accepts (do
        let key ← mapKey
        expect .equals
        let value ← item
        optionalTy
        return (key, value)) (· ≠ .colon) (t :: ⟨.equals, s₁⟩ :: us) (key, a) := by
    refine (accepts_mapKey hkey).append (Accepts.expect_bind rfl ?_)
    exact accepts_annotated ha fun vs hvs hv => hitem vs a (Nat.le_trans hvs hus) hv
  refine accepts_commaSeparatedBefore h (F := (· ≠ .colon)) ?_ (by simp) (by simp) ?_
    fun _ _ hk => hk
  · rintro us ⟨key, a⟩ hus (⟨ha⟩ | ⟨ha⟩) <;>
      simp only [List.length_cons] at hus <;> exact hentry (by simp) (by omega) ha
  · rintro us entry (_ | _) <;> exact ⟨_, _, rfl, by simp⟩

/-- A constant is read when nesting is allowed as deep as it has tokens. -/
theorem accepts_constantUpTo (n : Nat) : ∀ {ts : List Token} {a : Attribute}, a.Derives ts →
    ts.length ≤ n → Accepts (constantUpTo n) Always ts a := by
  induction n with
  | zero =>
      intro ts a h hlen
      obtain ⟨t, us, rfl, -⟩ := starts_of_constant h
      cases hlen
  | succ n ih =>
      intro ts a h hlen
      cases h with
      | integer | string =>
          exact Accepts.spanHere_bind (Accepts.kind_bind (Accepts.advance_bind rfl accepts_pure))
      | @integerForm s s₁ s₂ s₃ i =>
          refine Accepts.spanHere_bind (Accepts.kind_bind (Accepts.advance_bind rfl ?_))
          refine Accepts.expect_bind rfl ((accepts_integerLiteral i).append ?_)
          exact Accepts.expect_bind rfl accepts_pure
      | list hty h =>
          simp only [List.length_cons, List.length_append] at hlen
          have helements := accepts_elements h fun us a hus ha => ih ha (by omega)
          refine Accepts.spanHere_bind (Accepts.kind_bind (Accepts.advance_bind rfl ?_))
          refine Accepts.expect_bind rfl ((accepts_ty hty).append ?_)
          refine Accepts.expect_bind rfl (Accepts.expect_bind rfl (helements.before ?_ rfl))
          exact Accepts.expect_bind rfl (Accepts.expect_bind rfl accepts_pure)
      | map hty h =>
          simp only [List.length_cons, List.length_append] at hlen
          have hentries := accepts_entries h fun us a hus ha => ih ha (by omega)
          refine Accepts.spanHere_bind (Accepts.kind_bind (Accepts.advance_bind rfl ?_))
          refine Accepts.expect_bind rfl ((accepts_ty hty).append ?_)
          refine Accepts.expect_bind rfl (Accepts.expect_bind rfl (hentries.before ?_ rfl))
          exact Accepts.expect_brace_bind accepts_pure
      | ref h =>
          refine Accepts.spanHere_bind (Accepts.kind_bind (Accepts.advance_bind rfl ?_))
          exact (accepts_symbolPath h).last

theorem accepts_constant {ts : List Token} {a : Attribute} (h : a.Derives ts) :
    Accepts constant Always ts a :=
  Accepts.get_bind fun _ hc => accepts_constantUpTo _ h (Nat.le_succ_of_le hc)

/-! ### Operands -/

/-- Behind operands no other one stands and no comma. -/
def AfterOperands (k : TokenKind) : Prop := k ≠ .comma ∧ ∀ name, k ≠ .value name

theorem accepts_operandsUpTo_nil {n : Nat} : Accepts (operandsUpTo n) AfterOperands [] [] := by
  cases n with
  | zero => exact accepts_pure
  | succ n =>
      refine Accepts.kind_bind_nil fun k hk => ?_
      split
      · next name => exact absurd rfl (hk.2 name)
      · exact accepts_pure

/-- Operands are read when there may be as many as there are tokens, with one more comma behind them
or without it. -/
theorem accepts_operandsUpTo {us hanging : List Token} {xs : List Ident}
    (h : Commas (fun ts x => ts = [x.valueToken]) us xs)
    (hhanging : hanging = [] ∨ ∃ s, hanging = [⟨.comma, s⟩]) {n : Nat}
    (hn : (us ++ hanging).length ≤ n) :
    Accepts (operandsUpTo n) AfterOperands (us ++ hanging) xs := by
  induction h generalizing n with
  | @one us x hx =>
      subst hx
      obtain ⟨n, rfl⟩ : ∃ m, n = m + 1 := ⟨n - 1, by simp at hn; omega⟩
      refine Accepts.kind_bind ((accepts_valueName x).append ?_)
      rcases hhanging with rfl | ⟨s, rfl⟩
      · exact Accepts.eat_bind_nil (fun _ hk => hk.1) accepts_pure
      · exact Accepts.eat_bind rfl accepts_operandsUpTo_nil.last
  | @cons us vs x xs s hx _ ih =>
      subst hx
      simp only [List.length_append, List.length_cons] at hn ih
      obtain ⟨n, rfl⟩ : ∃ m, n = m + 1 := ⟨n - 1, by omega⟩
      rw [List.append_assoc]
      refine Accepts.kind_bind ((accepts_valueName x).append ?_)
      exact Accepts.eat_bind rfl (ih (by omega)).last

theorem accepts_operands {ts : List Token} {xs : List Ident} (h : OperandsRead ts xs) :
    Accepts operands AfterOperands ts xs := by
  refine Accepts.get_bind fun c hc => ?_
  rcases h with (_ | h) | ⟨us, s, rfl, h⟩
  · exact accepts_operandsUpTo_nil
  · rw [← List.append_nil ts] at hc ⊢
    exact accepts_operandsUpTo h (.inl rfl) (Nat.le_succ_of_le hc)
  · exact accepts_operandsUpTo h (.inr ⟨s, rfl⟩) (Nat.le_succ_of_le hc)

/-! ### Actions -/

end Reading

/-- There is a type for each operand, where an operation has types for them. -/
def Action.Fits : Action → Prop
  | .object _ actuals operandTys _ => operandTys.length = actuals.length
  | .tupleCreate elements elementTys => elementTys.length = elements.length
  | _ => True

/-- What ends the line of an operation: any token that ends lines, but behind a tuple without
elements only a line feed. -/
def Action.EndsAt (a : Action) (k : TokenKind) : Prop :=
  k.EndsLine ∧ (a = .tupleCreate [] [] → k = .newline)

namespace Reading

theorem accepts_action {ts : List Token} {a : Action} (h : a.Derives OperandsRead ts)
    (hfits : a.Fits) (inClass : Bool) (span : Span) :
    Accepts (action inClass a.name span) a.EndsAt ts a := by
  have hty {β : Type} {f : Ty → β} {ts : List Token} {t : Ty} (h : t.Derives ts) :
      Accepts (ty >>= fun t => pure (f t)) a.EndsAt ts (f t) :=
    (accepts_ty h).last.mono fun _ _ => trivial
  have hcolon : AfterOperands .colon := by simp [AfterOperands]
  have hparen : AfterOperands .rightParen := by simp [AfterOperands]
  cases h with
  | constant hvalue ht =>
      exact (accepts_constant hvalue).append (Accepts.expect_bind rfl (hty ht))
  | @object s s₁ s₂ s₃ s₄ s₅ target xs us ts actuals operandTys t hactuals htys ht =>
      have htysRead : Accepts (tysBefore .rightParen) (· = .rightParen) us operandTys :=
        accepts_types htys (fun _ _ _ => accepts_ty) (by simp) (by simp) (by simp) fun _ _ hk => hk
      refine (accepts_symbolName target).append (Accepts.expect_bind rfl ?_)
      refine (accepts_operands hactuals).before (Accepts.expect_bind rfl ?_) hparen
      refine Accepts.expect_bind rfl (Accepts.expect_bind rfl ?_)
      refine htysRead.before (Accepts.expect_bind rfl (Accepts.expect_bind rfl ?_)) rfl
      refine (accepts_ty ht).bind_nil ?_ fun _ _ => trivial
      rw [if_pos (show operandTys.length = actuals.length from hfits)]
      exact accepts_pure
  | listCreate helements ht =>
      exact (accepts_operands helements).before (Accepts.expect_bind rfl (hty ht)) hcolon
  | @tupleCreate s xs ts elements elementTys helements htys =>
      have hlen : elementTys.length = elements.length := hfits
      have htysRead : Accepts (tysBefore .newline)
          (Action.EndsAt (.tupleCreate elements elementTys)) ts elementTys := by
        refine accepts_types htys (fun _ _ _ => accepts_ty) ?_ (by simp) (by simp) ?_
        · rintro k ⟨hk, -⟩ rfl
          exact absurd hk (by decide)
        · rintro rfl k ⟨-, hk⟩
          rw [List.eq_nil_of_length_eq_zero hlen.symm] at hk
          exact hk rfl
      refine Accepts.spanHere_bind_any fun start => ?_
      refine (accepts_operands helements).before (Accepts.expect_bind rfl ?_) hcolon
      refine htysRead.bind_nil ?_ fun _ hk => hk
      rw [if_pos hlen]
      exact accepts_pure
  | mapCreate hentries hkey hvalue =>
      refine (accepts_operands hentries).before (Accepts.expect_bind rfl ?_) hcolon
      exact (accepts_ty hkey).append (Accepts.expect_bind rfl (hty hvalue))

theorem accepts_fieldAction {ts : List Token} {s s₁ : Span} {name value : Ident} {t : Ty}
    (h : t.Derives ts) :
    Accepts fieldAction Always
      (name.symbolToken :: ⟨.comma, s⟩ :: value.valueToken :: ⟨.colon, s₁⟩ :: ts)
      (.field name value t) := by
  refine (accepts_symbolName name).append (Accepts.expect_bind rfl ?_)
  exact (accepts_valueName value).append (Accepts.expect_bind rfl (accepts_ty h).last)

theorem accepts_checkResult {result : Option Ident} {a : Action} (span : Span)
    (h : result.isSome = !a.isField) : Accepts (checkResult result a span) Always [] () := by
  unfold checkResult
  rw [if_neg (by simp [h]), if_neg ?_]
  · exact accepts_pure
  · cases result <;> simp_all

/-! ### Operations -/

/-- A result, the name of an operation and what stands behind it are read one after the other. -/
theorem accepts_operationLine_of_action {inClass : Bool} {result : Option Ident} {a : Action}
    {us ts : List Token} {s : Span}
    (hresult : Accepts resultName (fun k => ∃ name, k = .word name) us result)
    (haction : Accepts (action inClass a.name s) a.EndsAt ts a)
    (hcheck : result.isSome = !a.isField) :
    Accepts (operationLine inClass) a.EndsAt (us ++ ⟨.word a.name, s⟩ :: ts) (result, a) := by
  have hname : Accepts operationName Always [⟨.word a.name, s⟩] a.name :=
    Accepts.kind_bind (Accepts.advance_bind rfl accepts_pure)
  refine hresult.before (Accepts.spanHere_bind (hname.append ?_)) ⟨_, rfl⟩
  refine haction.bind_nil ?_ fun _ hk => hk
  exact (accepts_checkResult s hcheck).last.mono fun _ _ => trivial

/-- **An operation of the grammar is read** up to the end of its line. -/
theorem accepts_operationLine {line : List Token} {op : Operation} {inClass : Bool}
    (h : op.Derives OperandsRead line) (hfits : op.action.Fits)
    (hfield : op.action.isField = true → inClass = true) :
    Accepts (operationLine inClass) op.action.EndsAt line (op.result, op.action) := by
  cases h with
  | @value ts s s₁ x a h hline =>
      subst hline
      have hresult : Accepts resultName Always [x.valueToken, ⟨.equals, s⟩] (some x) := by
        refine Accepts.kind_bind ?_
        exact (accepts_valueName x).append (Accepts.expect_bind rfl accepts_pure)
      exact accepts_operationLine_of_action (hresult.mono fun _ _ => trivial)
        (accepts_action h hfits inClass s₁) (by rw [isField_of_derives h]; rfl)
  | @field ts s s₁ s₂ name value t h hline =>
      subst hline
      obtain rfl : inClass = true := hfield rfl
      have hresult : Accepts resultName (fun k => ∃ name, k = .word name) [] none := by
        refine Accepts.kind_bind_nil ?_
        rintro _ ⟨name, rfl⟩
        exact accepts_pure
      exact accepts_operationLine_of_action (a := .field name value t) hresult
        ((accepts_fieldAction h).mono fun _ _ => trivial) rfl

/-! ### What the grammar does not say -/

/-- A list without items is read before the token `close` only. -/
theorem kind_of_commaSeparatedBefore_nil {α : Type} {close : TokenKind} {item : Reading α}
    {c c' : Cursor} (h : commaSeparatedBefore close item c = .ok [] c') : c'.kind = close := by
  have hsome (n : Nat) : Gives (· ≠ []) (commaSeparatedUpTo item n) := by
    cases n with
    | zero => exact .after _ fun a => .pure (by simp)
    | succ n =>
        refine .after _ fun a => .after _ fun more => ?_
        split
        · exact .after _ fun as => .pure (by simp)
        · exact .pure (by simp)
  rw [commaSeparatedBefore, kind_bind_run] at h
  split at h
  · next hclose =>
      cases h
      exact hclose
  · exact absurd rfl (hsome _ c [] c' h)

theorem fits_of_objectAction {c c' : Cursor} {a : Action} (h : objectAction c = .ok a c') :
    a.Fits := by
  have hgives : Gives Action.Fits objectAction := by
    refine .after _ fun target => .after _ fun _ => .after _ fun actuals => .after _ fun _ => ?_
    refine .after _ fun _ => .after _ fun _ => .after _ fun operandTys => .after _ fun _ => ?_
    refine .after _ fun _ => .after _ fun t => ?_
    split
    · next hlen => exact .pure hlen
    · exact gives_failAt _ _ _
  exact hgives c a c' h

theorem fits_of_tupleAction {c c' : Cursor} {a : Action} (h : tupleAction c = .ok a c') :
    a.Fits ∧ (a = .tupleCreate [] [] → c'.kind = .newline) := by
  obtain ⟨start, _, ⟨⟩, h⟩ := exists_of_bind h
  obtain ⟨elements, c₁, -, h⟩ := exists_of_bind h
  obtain ⟨_, c₂, -, h⟩ := exists_of_bind h
  obtain ⟨elementTys, c₃, htys, h⟩ := exists_of_bind h
  split at h
  · next hlen =>
      cases h
      refine ⟨hlen, fun heq => ?_⟩
      obtain ⟨-, rfl⟩ := Action.tupleCreate.inj heq
      exact kind_of_commaSeparatedBefore_nil htys
  · cases h

theorem fits_of_action {inClass : Bool} {name : String} {span : Span} {c c' : Cursor} {a : Action}
    (h : action inClass name span c = .ok a c') :
    a.Fits ∧ (a.isField = true → inClass = true) ∧
      (a = .tupleCreate [] [] → c'.kind = .newline) := by
  obtain ⟨n, -, hname, -⟩ := reads_action inClass name span c a c' h
  unfold action at h
  cases a with
  | constant | listCreate | mapCreate => exact ⟨trivial, nofun, nofun⟩
  | object =>
      subst hname
      exact ⟨fits_of_objectAction h, nofun, nofun⟩
  | tupleCreate =>
      subst hname
      obtain ⟨hfits, hnext⟩ := fits_of_tupleAction h
      exact ⟨hfits, nofun, hnext⟩
  | field =>
      subst hname
      refine ⟨trivial, fun _ => ?_, nofun⟩
      cases inClass with
      | true => rfl
      | false => cases h

theorem fits_of_operationLine {inClass : Bool} {c c' : Cursor} {result : Option Ident} {a : Action}
    (h : operationLine inClass c = .ok (result, a) c') :
    a.Fits ∧ (a.isField = true → inClass = true) ∧
      (a = .tupleCreate [] [] → c'.kind = .newline) := by
  obtain ⟨_, c₁, -, h⟩ := exists_of_bind h
  obtain ⟨_, _, ⟨⟩, h⟩ := exists_of_bind h
  obtain ⟨name, c₂, -, h⟩ := exists_of_bind h
  obtain ⟨a', c₃, ha, h⟩ := exists_of_bind h
  obtain ⟨_, c₄, hcheck, ⟨⟩⟩ := exists_of_bind h
  have hstay : c' = c₃ := by
    unfold checkResult at hcheck
    split at hcheck
    · cases hcheck
    · split at hcheck <;> cases hcheck
      rfl
  exact hstay ▸ fits_of_action ha

/-- **Which lines are read as operations**: those of the grammar that have as many types as
operands, that stand in a class if they are fields, and behind which the line ends. -/
theorem operation_eq_ok_iff {inClass : Bool} {c c' : Cursor} {op : Operation} :
    operation inClass c = .ok op c' ↔
      ∃ line rest, c.ahead = line ++ rest ∧ c' = (c.skip line.length).endLine ∧
        op.Derives OperandsRead line ∧ op.action.Fits ∧
        (op.action.isField = true → inClass = true) ∧
        op.action.EndsAt (rest.headD c.final).kind := by
  constructor
  · intro h
    obtain ⟨n, hline, rfl, hends, hderives⟩ := exists_skip_of_operation h
    obtain ⟨hfits, hfield, hnext⟩ := fits_of_operationLine hline
    have hsplit := (List.take_append_drop n c.ahead).symm
    refine ⟨_, _, hsplit, ?_, hderives, hfits, hfield, ?_⟩
    · rw [← Cursor.advanceTo_eq_skip hsplit, ← c.skip_eq_advanceTo]
    · rw [Cursor.kind, Cursor.token, c.ahead_skip, c.final_skip] at hends hnext
      exact ⟨hends, hnext⟩
  · rintro ⟨line, rest, hahead, rfl, hderives, hfits, hfield, hends⟩
    have hline := (accepts_operationLine hderives hfits hfield).run c rest hahead hends
    have hspan : c.token.span.merge (c.skip line.length).last = op.span := by
      rw [Cursor.merge_last_skip hahead]
      · cases hderives <;> rfl
      · obtain ⟨us, t, rfl, -⟩ := endsInside_of_operation hderives
        simp
    have hnext : (c.skip line.length).kind.EndsLine := by
      rw [Cursor.kind, Cursor.token, c.ahead_skip, c.final_skip, hahead, List.drop_left]
      exact hends.1
    rw [operation_eq]
    change (operationLine inClass >>= _) c = _
    rw [bind_of_ok hline]
    change (lineEnd >>= _) (c.skip line.length) = _
    rw [bind_of_ok (lineEnd_of_endsLine hnext), hspan]
    rfl

/-! ### Declarations -/

section Declarations

variable {c : Cursor} {text rest : List Token}

theorem accepts_param {p : Param} (h : p.Derives text) : Accepts param Always text p := by
  cases h with
  | @intro ts s name ty hty hline =>
      subst hline
      have hread : Accepts paramLine Always (name.valueToken :: ⟨.colon, s⟩ :: ts) (name, ty) :=
        (accepts_valueName name).append (Accepts.expect_bind rfl (accepts_ty hty).last)
      refine ⟨hread.inline, fun c rest hc hrest => ?_⟩
      have hspan := Cursor.merge_last_skip hc (by simp)
      have htoken : c.token = name.valueToken := by rw [Cursor.token, hc]; rfl
      rw [param_eq, bind_of_ok (hread.run c rest hc hrest), ← hspan, htoken]
      rfl

/-- The header of a class is read up to the brace behind it. -/
theorem accepts_headerLine {s s₁ s₂ s₃ : Span} {name : Ident} {ps : List Token}
    {params : List Param} (h : CommaList Param.Derives ps params) :
    Accepts headerLine Always (⟨.word "om.class", s⟩ :: name.symbolToken :: ⟨.leftParen, s₁⟩ ::
      (ps ++ [⟨.rightParen, s₂⟩, ⟨.leftBrace, s₃⟩])) (name, params) := by
  have hparams : Accepts (commaSeparatedBefore .rightParen param) (· = .rightParen) ps params := by
    refine accepts_commaSeparatedBefore h (fun _ _ _ => accepts_param) trivial ?_ ?_ ?_
    · rintro _ rfl
      exact ⟨trivial, nofun⟩
    · rintro _ _ ⟨-, rfl⟩
      exact ⟨_, _, rfl, nofun⟩
    · exact fun _ _ hk => hk
  refine Accepts.advance_bind rfl ((accepts_symbolName name).append (Accepts.expect_bind rfl ?_))
  refine hparams.before (Accepts.expect_bind rfl (Accepts.expect_bind rfl ?_)) rfl
  exact accepts_pure

/-- A hardware module is read up to the brace that closes it. -/
theorem hardware_of_derives {m : HardwareModule} (h : m.Derives text)
    (hc : c.ahead = text ++ rest) :
    hardware c = (do lineEnd; return m : Reading HardwareModule) (c.skip text.length) := by
  cases h with
  | @intro gap body s s₁ s₂ name hgap hbody htext =>
      have hheader : text =
          HardwareModule.header s name gap s₁ ++ body ++ [⟨.rightBrace, s₂⟩] := by
        simp [htext, HardwareModule.header]
      have hspan : lineSpan text = s.merge s₂ := by
        rw [hheader]
        exact lineSpan_cons_append _ _ _
      have hsplit : HardwareModule.splitBody 0 (body ++ ⟨.rightBrace, s₂⟩ :: rest) =
          (body, ⟨.rightBrace, s₂⟩ :: rest) := splitBody_append_brace hbody rest
      have hahead : c.ahead = HardwareModule.header s name gap s₁ ++ (body ++
          ⟨.rightBrace, s₂⟩ :: rest) := by
        rw [hc, hheader]
        simp
      have hskip : c.skip text.length = ⟨rest, c.final, s₂⟩ := by
        rw [← List.append_assoc] at hahead
        rw [hheader, List.length_append]
        exact Cursor.skip_succ_eq hahead
      rw [hardware_of_header hgap hahead, bind_of_ok (hardwareBody_of_splitBody hsplit), hskip,
        hspan, HardwareModule.announcedIn_eq, Cursor.advanceTo,
        bind_of_run (closeBody_cons s s₂ _ _ _), bind_assoc]
      rfl

end Declarations

end Reading

end ObjectModel
