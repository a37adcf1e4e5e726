/-
**Readers read what the grammar derives.**

A reader that has a result has taken some tokens, and these are the tokens of what it gives.  This
is followed through composed readers up to the operations, so no reader accepts anything else; but
of the rule for lists there is one exception.  Behind the last operand a comma is taken that
nothing follows, as no other list would let pass.

Main definitions:

* `Cursor.upcoming`, `Cursor.skip` — the next tokens, and where reading stands behind them;
* `Reading.Reads` — what the tokens and the result of a reader have to do with each other;
* `Reading.OperandsRead` — operands as they are read.

Main results:

* `Reading.reads_ty`, `Reading.reads_constant`, `Reading.reads_operands` — the parts of a line;
* `Reading.operation_derives` — **a line that is read as an operation is one of the grammar**, and
  the operation is the one that the grammar derives, if operands are in lists.
-/

import ObjectModel.Operation.Reading
import ObjectModel.Proofs.Grammar

set_option relaxedAutoImplicit false
set_option autoImplicit false

namespace ObjectModel

/-! ### The next tokens -/

namespace Cursor

/-- The next tokens.  Behind the last one there is always the final token. -/
def upcoming (c : Cursor) : Nat → List Token
  | 0 => []
  | n + 1 => c.token :: c.advance.upcoming n

/-- Where reading stands behind the next tokens. -/
def skip (c : Cursor) : Nat → Cursor
  | 0 => c
  | n + 1 => c.advance.skip n

theorem upcoming_add (c : Cursor) (m n : Nat) :
    c.upcoming (m + n) = c.upcoming m ++ (c.skip m).upcoming n := by
  induction m generalizing c with
  | zero => rw [Nat.zero_add]; rfl
  | succ m ih => rw [Nat.add_right_comm, upcoming, upcoming, ih, skip, List.cons_append]

theorem skip_add (c : Cursor) (m n : Nat) : c.skip (m + n) = (c.skip m).skip n := by
  induction m generalizing c with
  | zero => rw [Nat.zero_add]; rfl
  | succ m ih => rw [Nat.add_right_comm, skip, ih, skip]

/-- The next tokens are those that are ahead, and then the final one again and again. -/
theorem upcoming_eq (c : Cursor) (n : Nat) :
    c.upcoming n = c.ahead.take n ++ List.replicate (n - c.ahead.length) c.final := by
  induction n generalizing c with
  | zero => rw [Nat.zero_sub]; rfl
  | succ n ih =>
      obtain ⟨_ | ⟨t, ts⟩, final, last⟩ := c
      · rw [upcoming, ih]
        simp [token, advance, List.replicate_succ]
      · rw [upcoming, ih]
        simp

theorem ahead_skip (c : Cursor) (n : Nat) : (c.skip n).ahead = c.ahead.drop n := by
  induction n generalizing c with
  | zero => rfl
  | succ n ih =>
      obtain ⟨_ | ⟨t, ts⟩, final, last⟩ := c
      · rw [skip, ih]; simp [advance]
      · rw [skip, ih]; rfl

theorem final_skip (c : Cursor) (n : Nat) : (c.skip n).final = c.final := by
  induction n generalizing c with
  | zero => rfl
  | succ n ih =>
      obtain ⟨_ | ⟨t, ts⟩, final, last⟩ := c
      · rw [skip, ih]; rfl
      · rw [skip, ih]; rfl

/-- The token taken last is the last one of those that were ahead. -/
theorem last_skip (c : Cursor) (n : Nat) :
    (c.skip n).last = ((c.ahead.take n).getLast?.map Token.span).getD c.last := by
  induction n generalizing c with
  | zero => rfl
  | succ n ih =>
      obtain ⟨_ | ⟨t, ts⟩, final, last⟩ := c
      · rw [skip, ih]; simp [advance]
      · rw [skip, ih, advance_cons, List.take_succ_cons, List.getLast?_cons]
        cases (ts.take n).getLast? <;> rfl

theorem skip_eq_advanceTo (c : Cursor) (n : Nat) :
    c.skip n = c.advanceTo (c.ahead.take n) (c.ahead.drop n) := by
  rw [advanceTo, ← c.ahead_skip, ← c.last_skip, ← c.final_skip n]

/-- Taking the tokens that are ahead is skipping as many. -/
theorem advanceTo_eq_skip {c : Cursor} {ts rest : List Token} (h : c.ahead = ts ++ rest) :
    c.advanceTo ts rest = c.skip ts.length := by
  rw [c.skip_eq_advanceTo, h, List.take_left, List.drop_left]

/-- The span around the next tokens reaches from the first of them to the last. -/
theorem merge_last_skip {c : Cursor} {ts rest : List Token} (h : c.ahead = ts ++ rest)
    (hne : ts ≠ []) : c.token.span.merge (c.skip ts.length).last = lineSpan ts := by
  obtain ⟨t, ts, rfl⟩ := List.exists_cons_of_ne_nil hne
  have htoken : c.token = t := by rw [token, h]; rfl
  rw [htoken, ← advanceTo_eq_skip h, advanceTo, List.getLast?_cons, lineSpan,
    List.getLastD_eq_getLast?]
  rfl

end Cursor

/-- The token ends the line before it. -/
def TokenKind.EndsLine (k : TokenKind) : Prop := k = .newline ∨ k = .rightBrace ∨ k = .eof

/-- Behind the end of a line, or before a brace or the end of the text. -/
def Cursor.endLine (c : Cursor) : Cursor := if c.kind = .newline then c.skipNewlines else c

theorem Cursor.ahead_endLine (c : Cursor) :
    c.endLine.ahead = c.ahead.dropWhile fun t => t.kind == .newline := by
  rw [endLine]
  split
  · rfl
  · next hk =>
      obtain ⟨_ | ⟨t, ts⟩, final, last⟩ := c
      · rfl
      · exact (List.dropWhile_cons_of_neg (by simpa [kind] using hk)).symm

/-- Tokens of which the last one ends no line are taken from those that are ahead. -/
theorem Cursor.upcoming_eq_take {c : Cursor} {n : Nat} {us : List Token} {t : Token}
    (hline : c.upcoming n = us ++ [t]) (ht : ¬t.kind.EndsLine) (hend : (c.skip n).kind.EndsLine) :
    c.upcoming n = c.ahead.take n := by
  rw [c.upcoming_eq] at hline ⊢
  rcases Nat.lt_or_ge c.ahead.length n with hlt | hle
  · -- what was taken last would be the final token, which stands next and ends a line
    obtain ⟨k, hk⟩ : ∃ k, n - c.ahead.length = k + 1 := ⟨n - c.ahead.length - 1, by omega⟩
    rw [hk, List.replicate_succ', ← List.append_assoc] at hline
    obtain ⟨-, hfinal⟩ := List.append_inj' hline rfl
    have hnext : (c.skip n).token = c.final := by
      rw [token, ahead_skip, final_skip, List.drop_eq_nil_of_le (Nat.le_of_lt hlt)]
      rfl
    rw [kind, hnext, List.singleton_inj.1 hfinal] at hend
    exact absurd hend ht
  · rw [Nat.sub_eq_zero_of_le hle, List.replicate_zero, List.append_nil]

namespace Reading

variable {α β : Type}

/-! ### Readers and their tokens -/

/-- When the reader has a result, `G` holds of the tokens it has taken and of that result. -/
def Reads (x : Reading α) (c : Cursor) (G : List Token → α → Prop) : Prop :=
  ∀ a c', x c = .ok a c' → ∃ n, c' = c.skip n ∧ G (c.upcoming n) a

section Reads

variable {c : Cursor} {x : Reading α} {f : α → Reading β} {g G' : List Token → α → Prop}
  {G : List Token → β → Prop}

/-- A composed reader has a result when its parts have. -/
theorem exists_of_bind {b : β} {c' : Cursor} (h : (x >>= f) c = .ok b c') :
    ∃ a c₁, x c = .ok a c₁ ∧ f a c₁ = .ok b c' := by
  change EStateM.bind x f c = _ at h
  rw [EStateM.bind] at h
  cases hx : x c with
  | error e c₁ => simp [hx] at h
  | ok a c₁ => exact ⟨a, c₁, rfl, by rw [hx] at h; exact h⟩

theorem Reads.mono (h : Reads x c g) (hg : ∀ ts a, g ts a → G' ts a) : Reads x c G' := by
  intro a c' ha
  obtain ⟨n, hc', hn⟩ := h a c' ha
  exact ⟨n, hc', hg _ a hn⟩

theorem reads_pure {a : α} (h : g [] a) : Reads (pure a : Reading α) c g := by
  rintro _ _ ⟨⟩
  exact ⟨0, rfl, h⟩

theorem reads_failAt (code : Code) (message : String) (span : Span) :
    Reads (failAt code message span : Reading α) c g := by
  rintro _ _ ⟨⟩

theorem reads_expected (code : Code) (what : String) :
    Reads (expected code what : Reading α) c g := by
  rintro _ _ ⟨⟩

/-- Readers one after the other take tokens one after the other. -/
theorem Reads.bind (hx : Reads x c g)
    (hf : ∀ a us, g us a → ∀ c', Reads (f a) c' fun vs b => G (us ++ vs) b) :
    Reads (x >>= f) c G := by
  intro b c₂ h
  obtain ⟨a, c₁, ha, hb⟩ := exists_of_bind h
  obtain ⟨m, rfl, hm⟩ := hx a c₁ ha
  obtain ⟨n, rfl, hn⟩ := hf a _ hm _ b c₂ hb
  exact ⟨m + n, (c.skip_add m n).symm, by rw [c.upcoming_add]; exact hn⟩

/-- Behind the last reader no more tokens are taken. -/
theorem Reads.last {f : α → β} (hx : Reads x c g) (hf : ∀ a us, g us a → G us (f a)) :
    Reads (x >>= fun a => pure (f a)) c G :=
  hx.bind fun a us hus _ => reads_pure (by rw [List.append_nil]; exact hf a us hus)

theorem Reads.get_bind {f : Cursor → Reading β} (h : Reads (f c) c G) :
    Reads (get >>= f) c G := h

theorem Reads.spanHere_bind {f : Span → Reading β} (h : Reads (f c.token.span) c G) :
    Reads (spanHere >>= f) c G := h

theorem Reads.kind_bind {f : TokenKind → Reading β} (h : Reads (f c.kind) c G) :
    Reads (kind >>= f) c G := h

/-- A token of a known kind is taken. -/
theorem Reads.advance_bind {f : Unit → Reading β} {k : TokenKind} (hk : c.kind = k)
    (hf : ∀ c', Reads (f ()) c' fun ts b => G (⟨k, c.token.span⟩ :: ts) b) :
    Reads (advance >>= f) c G := by
  intro b c' h
  obtain ⟨n, rfl, hn⟩ := hf c.advance b c' h
  refine ⟨n + 1, rfl, ?_⟩
  rw [Cursor.upcoming, show c.token = ⟨k, c.token.span⟩ by rw [← hk]; rfl]
  exact hn

end Reads

/-! ### One token -/

section Token

variable {c : Cursor} {G : List Token → β → Prop}

theorem Reads.expect_bind {f : Unit → Reading β} (k : TokenKind)
    (hf : ∀ s c', Reads (f ()) c' fun ts b => G (⟨k, s⟩ :: ts) b) :
    Reads (expect k >>= f) c G := by
  have hexpect : Reads (expect k) c fun ts _ => ∃ s, ts = [⟨k, s⟩] := by
    refine Reads.kind_bind ?_
    split
    · next hk => exact Reads.advance_bind hk fun _ => reads_pure ⟨_, rfl⟩
    · exact reads_expected _ _
  refine hexpect.bind ?_
  rintro _ _ ⟨s, rfl⟩ c'
  exact hf s c'

/-- A token may be taken or not. -/
theorem Reads.eat_bind {f : Bool → Reading β} (k : TokenKind)
    (htrue : ∀ s c', Reads (f true) c' fun ts b => G (⟨k, s⟩ :: ts) b)
    (hfalse : ∀ c', Reads (f false) c' G) : Reads (eat k >>= f) c G := by
  have heat : Reads (eat k) c fun ts b =>
      b = true ∧ (∃ s, ts = [⟨k, s⟩]) ∨ b = false ∧ ts = [] := by
    refine Reads.kind_bind ?_
    split
    · next hk => exact Reads.advance_bind hk fun _ => reads_pure (.inl ⟨rfl, _, rfl⟩)
    · exact reads_pure (.inr ⟨rfl, rfl⟩)
  refine heat.bind ?_
  rintro _ _ (⟨rfl, s, rfl⟩ | ⟨rfl, rfl⟩) c'
  · exact htrue s c'
  · exact hfalse c'

theorem reads_valueName : Reads valueName c fun ts x => ts = [x.valueToken] := by
  refine Reads.spanHere_bind (Reads.kind_bind ?_)
  cases hk : c.kind with
  | value name => exact Reads.advance_bind hk fun _ => reads_pure rfl
  | _ => exact reads_expected _ _

theorem reads_symbolName : Reads symbolName c fun ts x => ts = [x.symbolToken] := by
  refine Reads.spanHere_bind (Reads.kind_bind ?_)
  cases hk : c.kind with
  | symbol name => exact Reads.advance_bind hk fun _ => reads_pure rfl
  | _ => exact reads_expected _ _

theorem reads_integerLiteral :
    Reads integerLiteral c fun ts n => ∃ s, ts = [⟨.integer n, s⟩] := by
  refine Reads.kind_bind ?_
  cases hk : c.kind with
  | integer n => exact Reads.advance_bind hk fun _ => reads_pure ⟨_, rfl⟩
  | _ => exact reads_expected _ _

end Token

/-! ### Lists -/

section Lists

variable {item : Reading α} {g : List Token → α → Prop} (hitem : ∀ c, Reads item c g)

include hitem

theorem reads_commaSeparatedUpTo (n : Nat) :
    ∀ c, Reads (commaSeparatedUpTo item n) c (Commas g) := by
  induction n with
  | zero => exact fun c => (hitem c).last fun _ _ h => .one h
  | succ n ih =>
      intro c
      refine (hitem c).bind fun a us ha c' => Reads.eat_bind .comma (fun s c' => ?_) fun c' => ?_
      · exact (ih c').last fun as vs has => .cons ha has
      · exact reads_pure (by rw [List.append_nil]; exact .one ha)

theorem reads_commaSeparatedBefore (close : TokenKind) (c : Cursor) :
    Reads (commaSeparatedBefore close item) c (CommaList g) := by
  refine Reads.kind_bind ?_
  split
  · exact reads_pure .nil
  · exact Reads.get_bind ((reads_commaSeparatedUpTo hitem _ c).mono fun _ _ => .some)

end Lists

/-! ### Types and constants -/

theorem derives_of_ofWidth? {name : String} {t : Ty} (h : Ty.ofWidth? name = some t) (s : Span) :
    t.Derives [⟨.word name, s⟩] := by
  unfold Ty.ofWidth? at h
  split at h
  · next digits hname =>
      obtain ⟨n, hn, h⟩ := Option.bind_eq_some_iff.1 h
      unfold Decimal.natural? at hn
      split at hn
      · next hdigits =>
          split at h
          · next hwidth =>
              cases h
              have hname' : name = String.ofList ('i' :: digits) := by
                rw [← hname, String.ofList_toList]
              rw [hname']
              exact .bits hdigits.1 (by simpa using hdigits.2) (by simpa using hn) hwidth.1 hwidth.2
          · cases h
      · cases hn
  · cases h

theorem reads_tyUpTo (n : Nat) : ∀ c, Reads (tyUpTo n) c fun ts t => t.Derives ts := by
  induction n with
  | zero => exact fun c => reads_expected _ _
  | succ n ih =>
      intro c
      refine Reads.spanHere_bind (Reads.kind_bind ?_)
      cases hk : c.kind with
      | typeName name =>
          refine Reads.advance_bind hk fun c' => ?_
          split
          · exact reads_pure .integer
          · exact reads_pure .string
          · exact reads_pure .ref
          · exact reads_pure .any
          · refine Reads.expect_bind .less fun _ c' => ?_
            refine (ih c').bind fun t us ht c' => Reads.expect_bind .greater fun _ c' => ?_
            exact reads_pure (.list ht)
          · refine Reads.expect_bind .less fun _ c' => ?_
            refine (ih c').bind fun k us hkey c' => Reads.expect_bind .comma fun _ c' => ?_
            refine (ih c').bind fun v vs hvalue c' => Reads.expect_bind .greater fun _ c' => ?_
            exact reads_pure (.map hkey hvalue)
          · refine Reads.expect_bind .less fun _ c' => reads_symbolName.bind ?_
            rintro x _ rfl c'
            exact Reads.expect_bind .greater fun _ c' => reads_pure .object
          · exact reads_failAt _ _ _
      | word name =>
          by_cases hname : name = "tuple"
          · subst hname
            refine Reads.advance_bind hk fun c' => Reads.expect_bind .less fun _ c' => ?_
            refine (reads_commaSeparatedBefore ih .greater c').bind fun ts us hts c' => ?_
            exact Reads.expect_bind .greater fun _ c' => reads_pure (.tuple hts)
          · split
            · next h => cases h
            · next h => exact absurd (TokenKind.word.inj h) hname
            · next name' _ h =>
                obtain rfl : name = name' := TokenKind.word.inj h
                split
                · next t ht =>
                    exact Reads.advance_bind hk fun _ => reads_pure (derives_of_ofWidth? ht _)
                · exact reads_failAt _ _ _
            · next h => exact absurd rfl (h name)
      | _ => exact reads_expected _ _

theorem reads_ty (c : Cursor) : Reads ty c fun ts t => t.Derives ts :=
  Reads.get_bind (reads_tyUpTo _ c)

theorem reads_tysBefore (close : TokenKind) (c : Cursor) :
    Reads (tysBefore close) c (CommaList fun ts t => t.Derives ts) :=
  reads_commaSeparatedBefore reads_ty close c

theorem reads_optionalTy (c : Cursor) :
    Reads optionalTy c fun ts _ => ts = [] ∨ ∃ s us t, ts = ⟨.colon, s⟩ :: us ∧ Ty.Derives us t :=
  Reads.eat_bind .colon
    (fun s c' => (reads_ty c').last fun t us ht => .inr ⟨s, us, t, rfl, ht⟩)
    fun _ => reads_pure (.inl rfl)

/-- Behind an element its type may stand. -/
theorem Reads.optionalTy_bind {c : Cursor} {f : α → β} {item : Reading α}
    {g : List Token → α → Prop} {G : List Token → β → Prop} (hitem : Reads item c g)
    (hf : ∀ ts a, Annotated g ts a → G ts (f a)) :
    Reads (item >>= fun a => optionalTy >>= fun _ => pure (f a)) c G := by
  refine hitem.bind fun a us ha c' => (reads_optionalTy c').last ?_
  rintro _ vs (rfl | ⟨s, vs, t, rfl, ht⟩)
  · rw [List.append_nil]
    exact hf us a (.bare ha)
  · exact hf _ a (.typed ha ht)

theorem reads_mapKey (c : Cursor) :
    Reads mapKey c fun ts key => ∃ s, ts = [⟨.word key, s⟩] ∨ ts = [⟨.string key, s⟩] := by
  refine Reads.kind_bind ?_
  cases hk : c.kind with
  | word key => exact Reads.advance_bind hk fun _ => reads_pure ⟨_, .inl rfl⟩
  | string key => exact Reads.advance_bind hk fun _ => reads_pure ⟨_, .inr rfl⟩
  | _ => exact reads_expected _ _

theorem reads_segmentsUpTo (n : Nat) : ∀ c, Reads (segmentsUpTo n) c SymbolPath.Derives := by
  induction n with
  | zero =>
      refine fun c => reads_symbolName.last ?_
      rintro x _ rfl
      exact .one
  | succ n ih =>
      refine fun c => reads_symbolName.bind ?_
      rintro x _ rfl c'
      refine Reads.eat_bind .doubleColon (fun _ c' => ?_) fun _ => reads_pure .one
      exact (ih c').last fun _ _ h => .cons h

theorem reads_symbolPath (c : Cursor) :
    Reads symbolPath c fun ts p =>
      ∀ s, Attribute.Derives (⟨.attrName "om.ref", s⟩ :: ts) (.ref p) := by
  refine Reads.expect_bind .less fun _ c' => Reads.expect_bind .less fun _ c' => ?_
  refine Reads.get_bind ((reads_segmentsUpTo _ c').bind fun segments us hus c' => ?_)
  refine Reads.expect_bind .greater fun _ c' => Reads.expect_bind .greater fun _ c' => ?_
  exact reads_pure fun _ => .ref hus

theorem reads_constantUpTo (n : Nat) : ∀ c, Reads (constantUpTo n) c fun ts a => a.Derives ts := by
  induction n with
  | zero => exact fun c => reads_expected _ _
  | succ n ih =>
      intro c
      refine Reads.spanHere_bind (Reads.kind_bind ?_)
      cases hk : c.kind with
      | integer n => exact Reads.advance_bind hk fun _ => reads_pure .integer
      | string text => exact Reads.advance_bind hk fun _ => reads_pure .string
      | attrName name =>
          refine Reads.advance_bind hk fun c' => ?_
          split
          · refine Reads.expect_bind .less fun _ c' => reads_integerLiteral.bind ?_
            rintro n _ ⟨s, rfl⟩ c'
            exact Reads.expect_bind .greater fun _ c' => reads_pure .integerForm
          · refine Reads.expect_bind .less fun _ c' => (reads_ty c').bind fun t us ht c' => ?_
            refine Reads.expect_bind .comma fun _ c' => ?_
            refine Reads.expect_bind .leftBracket fun _ c' => ?_
            refine (reads_commaSeparatedBefore (fun c => Reads.optionalTy_bind (ih c)
              fun _ _ h => h) .rightBracket c').bind fun as vs has c' => ?_
            refine Reads.expect_bind .rightBracket fun _ c' => ?_
            exact Reads.expect_bind .greater fun _ c' => reads_pure (.list ht has)
          · refine Reads.expect_bind .less fun _ c' => (reads_ty c').bind fun t us ht c' => ?_
            refine Reads.expect_bind .comma fun _ c' => Reads.expect_bind .leftBrace fun _ c' => ?_
            have hentry : ∀ c, Reads (do
                let key ← mapKey
                expect .equals
                let value ← constantUpTo n
                optionalTy
                return (key, value)) c
                  (Keyed (Annotated fun ts (a : Attribute) => a.Derives ts)) := by
              refine fun c => (reads_mapKey c).bind ?_
              rintro key _ ⟨s, rfl | rfl⟩ c'
              · exact Reads.expect_bind .equals fun _ c' =>
                  Reads.optionalTy_bind (ih c') fun _ _ h => .word h
              · exact Reads.expect_bind .equals fun _ c' =>
                  Reads.optionalTy_bind (ih c') fun _ _ h => .text h
            refine (reads_commaSeparatedBefore hentry .rightBrace c').bind fun as vs has c' => ?_
            refine Reads.expect_bind .rightBrace fun _ c' => ?_
            exact Reads.expect_bind .greater fun _ c' => reads_pure (.map ht has)
          · exact (reads_symbolPath c').last fun _ _ h => h _
          · exact reads_failAt _ _ _
      | _ => exact reads_expected _ _

theorem reads_constant (c : Cursor) : Reads constant c fun ts a => a.Derives ts :=
  Reads.get_bind (reads_constantUpTo _ c)

/-! ### Operands -/

/-- Operands as they are read: in a list, or with one more comma behind the last of them. -/
def OperandsRead (ts : List Token) (xs : List Ident) : Prop := OperandList ts xs ∨ HangingList ts xs

theorem OperandsRead.cons {x : Ident} {s : Span} {ts : List Token} {xs : List Ident}
    (h : OperandsRead ts xs) : OperandsRead (x.valueToken :: ⟨.comma, s⟩ :: ts) (x :: xs) := by
  have hcons : ∀ {us}, Commas (fun ts (x : Ident) => ts = [x.valueToken]) us xs →
      Commas (fun ts (x : Ident) => ts = [x.valueToken])
        ([x.valueToken] ++ ⟨.comma, s⟩ :: us) (x :: xs) := .cons rfl
  rcases h with (_ | h) | ⟨us, s', rfl, h⟩
  · exact .inr ⟨[x.valueToken], s, rfl, .one rfl⟩
  · exact .inl (.some (hcons h))
  · exact .inr ⟨x.valueToken :: ⟨.comma, s⟩ :: us, s', rfl, hcons h⟩

theorem reads_operandsUpTo (n : Nat) : ∀ c, Reads (operandsUpTo n) c OperandsRead := by
  induction n with
  | zero => exact fun c => reads_pure (.inl .nil)
  | succ n ih =>
      intro c
      refine Reads.kind_bind ?_
      split
      · refine reads_valueName.bind ?_
        rintro x _ rfl c'
        refine Reads.eat_bind .comma (fun s c' => ?_) fun _ => reads_pure (.inl (.some (.one rfl)))
        exact (ih c').last fun xs ts h => h.cons
      · exact reads_pure (.inl .nil)

theorem reads_operands (c : Cursor) : Reads operands c OperandsRead :=
  Reads.get_bind (reads_operandsUpTo _ c)

/-! ### Actions -/

/-- The field that an action declares, as it is written. -/
def FieldRead (ts : List Token) (a : Action) : Prop :=
  ∃ (name value : Ident) (ty : Ty) (us : List Token) (s s₁ : Span),
    a = .field name value ty ∧ ty.Derives us ∧
      ts = name.symbolToken :: ⟨.comma, s⟩ :: value.valueToken :: ⟨.colon, s₁⟩ :: us

theorem reads_constantAction (c : Cursor) :
    Reads constantAction c fun ts a => a.name = "om.constant" ∧ a.Derives OperandsRead ts := by
  refine (reads_constant c).bind fun value us hvalue c' => Reads.expect_bind .colon fun _ c' => ?_
  exact (reads_ty c').last fun ty ts hty => ⟨rfl, .constant hvalue hty⟩

theorem reads_objectAction (c : Cursor) :
    Reads objectAction c fun ts a => a.name = "om.object" ∧ a.Derives OperandsRead ts := by
  refine reads_symbolName.bind ?_
  rintro target _ rfl c'
  refine Reads.expect_bind .leftParen fun _ c' => ?_
  refine (reads_operands c').bind fun actuals us hactuals c' => ?_
  refine Reads.expect_bind .rightParen fun _ c' => Reads.expect_bind .colon fun _ c' => ?_
  refine Reads.expect_bind .leftParen fun _ c' => ?_
  refine (reads_tysBefore .rightParen c').bind fun operandTys vs htys c' => ?_
  refine Reads.expect_bind .rightParen fun _ c' => Reads.expect_bind .arrow fun _ c' => ?_
  refine (reads_ty c').bind fun ty ts hty c' => ?_
  split
  · exact reads_pure ⟨rfl, by rw [List.append_nil]; exact .object hactuals htys hty⟩
  · exact reads_failAt _ _ _

theorem reads_listAction (c : Cursor) :
    Reads listAction c fun ts a => a.name = "om.list_create" ∧ a.Derives OperandsRead ts := by
  refine (reads_operands c).bind fun elements us helements c' => ?_
  refine Reads.expect_bind .colon fun _ c' => ?_
  exact (reads_ty c').last fun ty ts hty => ⟨rfl, .listCreate helements hty⟩

theorem reads_tupleAction (c : Cursor) :
    Reads tupleAction c fun ts a => a.name = "om.tuple_create" ∧ a.Derives OperandsRead ts := by
  refine Reads.spanHere_bind ((reads_operands c).bind fun elements us helements c' => ?_)
  refine Reads.expect_bind .colon fun _ c' => ?_
  refine (reads_tysBefore .newline c').bind fun elementTys ts htys c' => ?_
  split
  · exact reads_pure ⟨rfl, by rw [List.append_nil]; exact .tupleCreate helements htys⟩
  · exact reads_failAt _ _ _

theorem reads_mapAction (c : Cursor) :
    Reads mapAction c fun ts a => a.name = "om.map_create" ∧ a.Derives OperandsRead ts := by
  refine (reads_operands c).bind fun entries us hentries c' => ?_
  refine Reads.expect_bind .colon fun _ c' => ?_
  refine (reads_ty c').bind fun keyTy ts hkey c' => Reads.expect_bind .comma fun _ c' => ?_
  exact (reads_ty c').last fun valueTy vs hvalue => ⟨rfl, .mapCreate hentries hkey hvalue⟩

theorem reads_fieldAction (c : Cursor) :
    Reads fieldAction c fun ts a => a.name = "om.class.field" ∧ FieldRead ts a := by
  refine reads_symbolName.bind ?_
  rintro name _ rfl c'
  refine Reads.expect_bind .comma fun _ c' => reads_valueName.bind ?_
  rintro value _ rfl c'
  refine Reads.expect_bind .colon fun _ c' => ?_
  exact (reads_ty c').last fun ty us hty => ⟨rfl, name, value, ty, us, _, _, rfl, hty, rfl⟩

theorem reads_action (inClass : Bool) (name : String) (span : Span) (c : Cursor) :
    Reads (action inClass name span) c fun ts a =>
      a.name = name ∧ (a.Derives OperandsRead ts ∨ FieldRead ts a) := by
  unfold action
  split
  · exact (reads_constantAction c).mono fun _ _ h => ⟨h.1, .inl h.2⟩
  · exact (reads_objectAction c).mono fun _ _ h => ⟨h.1, .inl h.2⟩
  · exact (reads_listAction c).mono fun _ _ h => ⟨h.1, .inl h.2⟩
  · exact (reads_tupleAction c).mono fun _ _ h => ⟨h.1, .inl h.2⟩
  · exact (reads_mapAction c).mono fun _ _ h => ⟨h.1, .inl h.2⟩
  · split
    · exact (reads_fieldAction c).mono fun _ _ h => ⟨h.1, .inr h.2⟩
    · exact reads_failAt _ _ _
  · unfold unknownOperation
    split
    · exact reads_failAt _ _ _
    · rintro _ _ ⟨⟩

/-! ### Operations -/

theorem reads_resultName (c : Cursor) :
    Reads resultName c fun ts r => (r = none ∧ ts = []) ∨
      ∃ x s, r = some x ∧ ts = [Ident.valueToken x, ⟨.equals, s⟩] := by
  refine Reads.kind_bind ?_
  split
  · refine reads_valueName.bind ?_
    rintro x _ rfl c'
    exact Reads.expect_bind .equals fun s c' => reads_pure (.inr ⟨x, s, rfl, rfl⟩)
  · exact reads_pure (.inl ⟨rfl, rfl⟩)

theorem reads_operationName (c : Cursor) :
    Reads operationName c fun ts name => ∃ s, ts = [⟨.word name, s⟩] := by
  refine Reads.kind_bind ?_
  cases hk : c.kind with
  | word name => exact Reads.advance_bind hk fun _ => reads_pure ⟨_, rfl⟩
  | _ => exact reads_expected _ _

theorem reads_checkResult (result : Option Ident) (a : Action) (span : Span) (c : Cursor) :
    Reads (checkResult result a span) c fun ts _ => ts = [] ∧ result.isSome = !a.isField := by
  unfold checkResult
  split
  · exact reads_failAt _ _ _
  · next h =>
      split
      · exact reads_failAt _ _ _
      · next h' =>
          refine reads_pure ⟨rfl, ?_⟩
          cases hr : result.isSome <;> cases ha : a.isField <;> simp_all

/-- An action that defines a value is no field. -/
theorem isField_of_derives {operands : List Token → List Ident → Prop} {ts : List Token}
    {a : Action} (h : a.Derives operands ts) : a.isField = false := by
  cases h <;> rfl

/-- An operation without the end of its line. -/
def operationLine (inClass : Bool) : Reading (Option Ident × Action) := do
  let result ← resultName
  let nameSpan ← spanHere
  let name ← operationName
  let a ← action inClass name nameSpan
  checkResult result a nameSpan
  return (result, a)

/-- An operation is its line and the end of it. -/
theorem operation_eq (inClass : Bool) : operation inClass = (do
    let start ← spanHere
    let line ← operationLine inClass
    let span := start.merge (← lastSpan)
    lineEnd
    return { result := line.1, action := line.2, span }) := by
  simp only [operation, operationLine, bind_assoc, pure_bind]

theorem reads_operationLine (inClass : Bool) (c : Cursor) :
    Reads (operationLine inClass) c fun ts p =>
      Operation.Derives OperandsRead ts ⟨p.1, p.2, lineSpan ts⟩ := by
  refine (reads_resultName c).bind fun result us hus c' => Reads.spanHere_bind ?_
  refine (reads_operationName c').bind ?_
  rintro name _ ⟨s, rfl⟩ c'
  refine (reads_action inClass name _ c').bind fun a ts ⟨hname, ha⟩ c' => ?_
  refine (reads_checkResult result a _ c').last ?_
  rintro _ _ ⟨rfl, hresult⟩
  subst hname
  rw [List.append_nil]
  rcases ha with ha | ⟨field, value, ty, us', s₁, s₂, rfl, hty, rfl⟩
  · rcases hus with ⟨rfl, rfl⟩ | ⟨x, s', rfl, rfl⟩
    · rw [isField_of_derives ha] at hresult
      cases hresult
    · exact .value ha rfl
  · rcases hus with ⟨rfl, rfl⟩ | ⟨x, s', rfl, rfl⟩
    · exact .field hty rfl
    · cases hresult

/-! ### Lines -/

/-- The last token of a line is one that ends no line. -/
def EndsInside (ts : List Token) : Prop := ∃ us t, ts = us ++ [t] ∧ ¬t.kind.EndsLine

theorem EndsInside.append {ts : List Token} (h : EndsInside ts) (us : List Token) :
    EndsInside (us ++ ts) := by
  obtain ⟨vs, t, rfl, ht⟩ := h
  exact ⟨us ++ vs, t, (List.append_assoc _ _ _).symm, ht⟩

theorem EndsInside.cons {ts : List Token} (h : EndsInside ts) (t : Token) : EndsInside (t :: ts) :=
  h.append [t]

theorem endsInside_singleton {t : Token} (ht : ¬t.kind.EndsLine) : EndsInside [t] :=
  ⟨[], t, rfl, ht⟩

theorem endsInside_of_ty {ts : List Token} {t : Ty} (h : t.Derives ts) : EndsInside ts := by
  have hgreater : ∀ s : Span, EndsInside [⟨.greater, s⟩] := fun s =>
    endsInside_singleton (by simp [TokenKind.EndsLine])
  cases h with
  | integer | string | ref | any | bits =>
      exact endsInside_singleton (by simp [TokenKind.EndsLine])
  | list => exact (((hgreater _).append _).cons _).cons _
  | map => exact (((((hgreater _).append _).cons _).append _).cons _).cons _
  | object => exact (((hgreater _).cons _).cons _).cons _
  | tuple => exact (((hgreater _).append _).cons _).cons _

theorem endsInside_of_commas {α : Type} {item : List Token → α → Prop} {ts : List Token}
    {as : List α} (hitem : ∀ ts a, item ts a → EndsInside ts) (h : Commas item ts as) :
    EndsInside ts := by
  induction h with
  | one h => exact hitem _ _ h
  | cons _ _ ih => exact (ih.cons _).append _

theorem endsInside_of_action {operands : List Token → List Ident → Prop} {ts : List Token}
    {a : Action} (h : a.Derives operands ts) : EndsInside ts := by
  cases h with
  | constant _ hty => exact ((endsInside_of_ty hty).cons _).append _
  | object _ _ hty =>
      refine ((EndsInside.append ?_ _).cons _).cons _
      refine (((EndsInside.append ?_ _).cons _).cons _).cons _
      exact ((endsInside_of_ty hty).cons _).cons _
  | listCreate _ hty => exact ((endsInside_of_ty hty).cons _).append _
  | tupleCreate _ htys =>
      refine EndsInside.append ?_ _
      cases htys with
      | nil => exact endsInside_singleton (by simp [TokenKind.EndsLine])
      | some h => exact (endsInside_of_commas (fun _ _ => endsInside_of_ty) h).cons _
  | mapCreate _ _ hvalue => exact ((((endsInside_of_ty hvalue).cons _).append _).cons _).append _

theorem endsInside_of_operation {operands : List Token → List Ident → Prop} {line : List Token}
    {op : Operation} (h : op.Derives operands line) : EndsInside line := by
  cases h with
  | value h hline => exact hline ▸ (((endsInside_of_action h).cons _).cons _).cons _
  | field h hline => exact hline ▸ (((((endsInside_of_ty h).cons _).cons _).cons _).cons _).cons _

theorem lineEnd_run (c : Cursor) : lineEnd c = (match c.kind with
    | .newline => skipNewlines
    | .rightBrace | .eof => pure ()
    | _ => expected .unexpectedToken "end of line" : Reading Unit) c := rfl

/-- A line ends at a token that ends it. -/
theorem lineEnd_of_endsLine {c : Cursor} (h : c.kind.EndsLine) :
    lineEnd c = .ok () c.endLine := by
  rw [lineEnd_run, Cursor.endLine]
  rcases h with hk | hk | hk
  · rw [hk]; rfl
  · rw [hk]; rfl
  · rw [hk]; rfl

/-- Any other token stops the reader. -/
theorem lineEnd_of_not_endsLine {c : Cursor} (h : ¬c.kind.EndsLine) :
    lineEnd c = (expected .unexpectedToken "end of line" : Reading Unit) c := by
  rw [lineEnd_run]
  cases hk : c.kind with
  | newline => exact absurd (.inl hk) h
  | rightBrace => exact absurd (.inr (.inl hk)) h
  | eof => exact absurd (.inr (.inr hk)) h
  | _ => rfl

/-- A line ends where there is a token that ends it, and then the line ends are taken. -/
theorem eq_endLine_of_lineEnd {c c' : Cursor} {u : Unit} (h : lineEnd c = .ok u c') :
    c.kind.EndsLine ∧ c' = c.endLine := by
  by_cases hends : c.kind.EndsLine
  · rw [lineEnd_of_endsLine hends] at h
    cases h
    exact ⟨hends, rfl⟩
  · rw [lineEnd_of_not_endsLine hends] at h
    cases h

/-! ### Commas -/

/-- In a tight line, operands before a colon or a closing parenthesis are in a list. -/
theorem operandList_of_tight (before : List Token) {after xs : List Token} {next : Token}
    {as : List Ident} (h : OperandsRead xs as)
    (hnext : next.kind = .colon ∨ next.kind = .rightParen)
    (ht : Tight (before ++ (xs ++ next :: after))) : OperandList xs as := by
  rcases h with h | ⟨us, s, rfl, -⟩
  · exact h
  · have hsplit : before ++ (us ++ [⟨.comma, s⟩] ++ next :: after) =
        (before ++ us) ++ ⟨.comma, s⟩ :: next :: after := by simp
    rw [Tight, hsplit, List.isChain_append_cons_cons] at ht
    obtain ⟨hcolon, hparen⟩ := ht.2.1 rfl
    exact absurd hnext (not_or.2 ⟨hcolon, hparen⟩)

/-- In a tight line, all operands are in lists. -/
theorem action_derives_of_tight (before : List Token) {ts : List Token} {a : Action}
    (h : a.Derives OperandsRead ts) (ht : Tight (before ++ ts)) : a.Derives OperandList ts := by
  cases h with
  | constant hvalue hty => exact .constant hvalue hty
  | @object s s₁ s₂ s₃ s₄ s₅ target xs us ts actuals operandTys ty hactuals htys hty =>
      refine .object ?_ htys hty
      exact operandList_of_tight (before ++ [target.symbolToken, ⟨.leftParen, s⟩]) hactuals
         (.inr rfl) (by simpa using ht)
  | listCreate helements hty =>
      exact .listCreate (operandList_of_tight before helements (.inl rfl) ht) hty
  | tupleCreate helements htys =>
      exact .tupleCreate (operandList_of_tight before helements (.inl rfl) ht) htys
  | mapCreate hentries hkey hvalue =>
      exact .mapCreate (operandList_of_tight before hentries (.inl rfl) ht) hkey hvalue

theorem operation_derives_of_tight {line : List Token} {op : Operation}
    (h : op.Derives OperandsRead line) (ht : Tight line) : op.Derives OperandList line := by
  cases h with
  | value h hline =>
      subst hline
      exact .value (action_derives_of_tight [_, _, _] h ht) rfl
  | field h hline => exact .field h hline

/-- What is read as an operation are some of the tokens ahead, which are derived as that operation,
and the line ends behind them. -/
theorem exists_skip_of_operation {inClass : Bool} {c c' : Cursor} {op : Operation}
    (h : operation inClass c = .ok op c') :
    ∃ n, operationLine inClass c = .ok (op.result, op.action) (c.skip n) ∧
      c' = (c.skip n).endLine ∧ (c.skip n).kind.EndsLine ∧
        op.Derives OperandsRead (c.ahead.take n) := by
  rw [operation_eq] at h
  obtain ⟨start, _, ⟨⟩, h⟩ := exists_of_bind h
  obtain ⟨⟨result, a⟩, c₁, hline, h⟩ := exists_of_bind h
  obtain ⟨last, _, ⟨⟩, h⟩ := exists_of_bind h
  obtain ⟨u, _, hend, ⟨⟩⟩ := exists_of_bind h
  obtain ⟨hends, rfl⟩ := eq_endLine_of_lineEnd hend
  obtain ⟨n, rfl, hderives⟩ := reads_operationLine inClass c _ c₁ hline
  obtain ⟨us, t, hlast, ht⟩ := endsInside_of_operation hderives
  have htake := Cursor.upcoming_eq_take hlast ht hends
  rw [htake] at hderives hlast
  have hspan : c.token.span.merge (c.skip n).last = lineSpan (c.ahead.take n) := by
    have hmerge := Cursor.merge_last_skip (List.take_append_drop n c.ahead).symm (by simp [hlast])
    rwa [← Cursor.advanceTo_eq_skip (List.take_append_drop n c.ahead).symm,
      ← c.skip_eq_advanceTo] at hmerge
  rw [hspan]
  exact ⟨n, hline, rfl, hends, hderives⟩

/-- **What is read as an operation is an operation of the grammar**: the tokens up to the end of
the line are derived as the operation that is read, except that one more comma may stand behind
the last operand; and there is no such comma, so that the grammar derives the line as it is, exactly
when no comma stands right before a colon or a closing parenthesis. -/
theorem operation_derives {inClass : Bool} {c c' : Cursor} {op : Operation}
    (h : operation inClass c = .ok op c') :
    ∃ line rest, c.ahead = line ++ rest ∧ (rest.headD c.final).kind.EndsLine ∧
      c'.ahead = rest.dropWhile (fun t => t.kind == .newline) ∧ op.Derives OperandsRead line ∧
        (op.Derives OperandList line ↔ Tight line) := by
  obtain ⟨n, -, rfl, hends, hderives⟩ := exists_skip_of_operation h
  refine ⟨c.ahead.take n, c.ahead.drop n, ?_, ?_, ?_, hderives,
    tight_of_operation, operation_derives_of_tight hderives⟩
  · rw [List.take_append_drop]
  · rw [Cursor.kind, Cursor.token, c.ahead_skip, c.final_skip] at hends
    exact hends
  · rw [Cursor.ahead_endLine, c.ahead_skip]

/-- A list of two values on a line, with the line end behind it. -/
def twoValues : List Token :=
  [⟨.value "l", default⟩, ⟨.equals, default⟩, ⟨.word "om.list_create", default⟩,
    ⟨.value "a", default⟩, ⟨.comma, default⟩, ⟨.value "b", default⟩, ⟨.colon, default⟩,
    ⟨.word "i8", default⟩, ⟨.newline, default⟩]

/-- The list is read, and it is the one of the grammar. -/
theorem operation_twoValues_derives :
    ∃ op c', operation true (.ofTokens twoValues) = .ok op c' ∧
      op.action = .listCreate [⟨"a", default⟩, ⟨"b", default⟩] (.bits 8) ∧
      ∃ line rest, twoValues = line ++ rest ∧ op.Derives OperandList line := by
  obtain ⟨op, c', hread, haction⟩ : ∃ op c',
      operation true (.ofTokens twoValues) = .ok op c' ∧
        op.action = .listCreate [⟨"a", default⟩, ⟨"b", default⟩] (.bits 8) := ⟨_, _, rfl, rfl⟩
  obtain ⟨line, rest, hahead, -, -, -, hstrict⟩ := operation_derives hread
  have htight : Tight twoValues := by unfold Tight; decide
  have hahead : twoValues = line ++ rest := hahead
  rw [Tight, hahead] at htight
  exact ⟨op, c', hread, haction, line, rest, hahead, hstrict.2 htight.left_of_append⟩

/-- A list of one value with a comma behind it. -/
def hangingComma : List Token :=
  [⟨.value "l", default⟩, ⟨.equals, default⟩, ⟨.word "om.list_create", default⟩,
    ⟨.value "a", default⟩, ⟨.comma, default⟩, ⟨.colon, default⟩, ⟨.word "i8", default⟩]

/-- That list is read too, and the grammar does not derive its line as any operation. -/
theorem operation_hangingComma_not_derived :
    (∃ op c', operation true (.ofTokens (hangingComma ++ [⟨.newline, default⟩])) = .ok op c' ∧
      op.action = .listCreate [⟨"a", default⟩] (.bits 8) ∧ c'.ahead = []) ∧
    ¬∃ op, Operation.Derives OperandList hangingComma op := by
  refine ⟨⟨_, _, rfl, rfl, rfl⟩, ?_⟩
  rintro ⟨op, h⟩
  have htight : ¬Tight hangingComma := by unfold Tight; decide
  exact htight (tight_of_operation h)

end Reading

end ObjectModel
