/-
**What ends a line.**

An operation ends at a line feed, before a closing brace or at the end of the text.  Which of them
it is makes no difference to what is read, with one exception: a tuple without elements, whose list
of types is empty, is read in front of a line feed only.

Main definitions:

* `Reading.operation?` — the operation that is read, if one is;
* `EmptyTuple` — the line of a tuple without elements.

Main results:

* `Reading.operation_of_stop` — an operation is read again where another token ends its line;
* `Reading.operation?_lineEnds` — **line feeds, braces and the end of the text end the same
  operations**, but for the tuple without elements.
-/

import ObjectModel.Proofs.Recognition

set_option relaxedAutoImplicit false
set_option autoImplicit false

namespace ObjectModel

/-! ### The tuple without elements -/

/-- The line of a tuple without elements: a value, an equals sign, the name of the operation and a
colon. -/
def EmptyTuple (ts : List Token) : Prop :=
  ∃ (x : Ident) (s s₁ s₂ : Span),
    ts = [x.valueToken, ⟨.equals, s⟩, ⟨.word "om.tuple_create", s₁⟩, ⟨.colon, s₂⟩]

namespace Reading

variable {inClass : Bool} {c c' d : Cursor} {op : Operation} {ts rest rest' : List Token}
  {stop stop' : Token}

theorem emptyTuple_of_derives (h : op.Derives OperandsRead ts)
    (haction : op.action = .tupleCreate [] []) : EmptyTuple ts := by
  cases h with
  | field => cases haction
  | @value us s s₁ x a h hline =>
      obtain rfl : a = .tupleCreate [] [] := haction
      cases h with
      | @tupleCreate s₂ xs vs _ _ helements htys =>
          have hxs : xs = [] := by
            rcases helements with helements | ⟨_, _, -, helements⟩
            · cases helements with
              | nil => rfl
              | some helements => cases helements
            · cases helements
          have hvs : vs = [] := by
            cases htys with
            | nil => rfl
            | some htys => cases htys
          exact ⟨x, s, s₁, s₂, by rw [hline, hxs, hvs]; rfl⟩

/-! ### Another end of the line -/

/-- **An operation is read again where another token ends its line**, unless it is the tuple without
elements and the old one is a line feed. -/
theorem operation_of_stop (hc : c.ahead = ts ++ stop :: rest) (hd : d.ahead = ts ++ stop' :: rest')
    (hstop : stop.kind.EndsLine) (hstop' : stop'.kind.EndsLine)
    (hbrace : stop.kind = .rightBrace → ∀ t ∈ rest.head?, t.kind ≠ .greater)
    (htuple : EmptyTuple ts → stop.kind = .newline → stop'.kind = .newline)
    (hread : operation inClass c = .ok op c') :
    ∃ n, n ≤ ts.length ∧ c' = (c.skip n).endLine ∧
      operation inClass d = .ok op (d.skip n).endLine := by
  obtain ⟨line, more, hahead, rfl, hderives, hfits, hfield, hends⟩ := operation_eq_ok_iff.1 hread
  rw [hc] at hahead
  have hlen : line.length ≤ ts.length :=
    (accepts_operationLine hderives hfits hfield).inline.length_le hahead.symm hstop hbrace
  obtain ⟨us, rfl⟩ : line <+: ts :=
    List.prefix_of_prefix_length_le ⟨more, hahead.symm⟩ (List.prefix_append ts _) hlen
  rw [List.append_assoc] at hahead hd
  obtain rfl := List.append_cancel_left hahead
  refine ⟨line.length, hlen, rfl, operation_eq_ok_iff.2 ?_⟩
  refine ⟨line, _, hd, rfl, hderives, hfits, hfield, ?_⟩
  cases us with
  | cons u us => exact hends
  | nil =>
      rw [List.append_nil] at htuple
      exact ⟨hstop', fun haction =>
        htuple (emptyTuple_of_derives hderives haction) (hends.2 haction)⟩

/-! ### The three ends of a line -/

/-- The operation that is read, if one is. -/
def operation? (inClass : Bool) (c : Cursor) : Option Operation :=
  match operation inClass c with
  | .ok op _ => some op
  | .error _ _ => none

theorem operation?_eq_some_iff :
    operation? inClass c = some op ↔ ∃ c', operation inClass c = .ok op c' := by
  unfold operation?
  cases operation inClass c <;> simp

/-- What is read before one end of the line is read before another. -/
theorem operation?_of_stop (hc : c.ahead = ts ++ stop :: rest) (hd : d.ahead = ts ++ stop' :: rest')
    (hstop : stop.kind.EndsLine) (hstop' : stop'.kind.EndsLine)
    (hbrace : stop.kind = .rightBrace → ∀ t ∈ rest.head?, t.kind ≠ .greater)
    (htuple : EmptyTuple ts → stop.kind = .newline → stop'.kind = .newline)
    (hread : operation? inClass c = some op) : operation? inClass d = some op := by
  obtain ⟨c', hread⟩ := operation?_eq_some_iff.1 hread
  obtain ⟨n, -, -, hread'⟩ := operation_of_stop hc hd hstop hstop' hbrace htuple hread
  exact operation?_eq_some_iff.2 ⟨_, hread'⟩

/-- The tuple without elements is read in front of a line feed. -/
theorem operation?_emptyTuple (h : EmptyTuple ts) {s : Span}
    (hc : c.ahead = ts ++ ⟨.newline, s⟩ :: rest) :
    ∃ x, operation? inClass c = some ⟨some x, .tupleCreate [] [], lineSpan ts⟩ := by
  obtain ⟨x, s₁, s₂, s₃, rfl⟩ := h
  obtain ⟨ahead, final, last⟩ := c
  obtain rfl : ahead = _ := hc
  exact ⟨x, rfl⟩

/-- It is not read in front of a brace. -/
theorem operation?_emptyTuple_eq_none (h : EmptyTuple ts) {s : Span}
    (hc : c.ahead = ts ++ ⟨.rightBrace, s⟩ :: rest) : operation? inClass c = none := by
  obtain ⟨x, s₁, s₂, s₃, rfl⟩ := h
  obtain ⟨ahead, final, last⟩ := c
  obtain rfl : ahead = _ := hc
  rfl

/-- **Line feeds, closing braces and the end of the text end the same operations**, but for the
tuple without elements.  Before a brace, which is not the one that closes a constant, and at the end
of the text the same operation is read or none is.  Before a line feed it is that one too, unless
the line is that of the tuple without elements, which is read there and not before the others. -/
theorem operation?_lineEnds (inClass : Bool) {c₁ c₂ c₃ : Cursor} {s₁ s₂ s₃ : Span}
    {rest₁ rest₂ rest₃ : List Token}
    (h₁ : c₁.ahead = ts ++ ⟨.newline, s₁⟩ :: rest₁)
    (h₂ : c₂.ahead = ts ++ ⟨.rightBrace, s₂⟩ :: rest₂)
    (h₃ : c₃.ahead = ts ++ ⟨.eof, s₃⟩ :: rest₃)
    (hbrace : ∀ t ∈ rest₂.head?, t.kind ≠ .greater) :
    operation? inClass c₂ = operation? inClass c₃ ∧
      (¬EmptyTuple ts → operation? inClass c₁ = operation? inClass c₂) ∧
      (EmptyTuple ts → operation? inClass c₂ = none ∧
        ∃ x, operation? inClass c₁ = some ⟨some x, .tupleCreate [] [], lineSpan ts⟩) := by
  have hnewline : (TokenKind.newline).EndsLine := .inl rfl
  have hclose : (TokenKind.rightBrace).EndsLine := .inr (.inl rfl)
  have heof : (TokenKind.eof).EndsLine := .inr (.inr rfl)
  refine ⟨Option.ext fun op => ⟨?_, ?_⟩, fun hne => Option.ext fun op => ⟨?_, ?_⟩, fun h => ?_⟩
  · exact operation?_of_stop h₂ h₃ hclose heof (fun _ => hbrace) fun _ => nofun
  · exact operation?_of_stop h₃ h₂ heof hclose nofun fun _ => nofun
  · exact operation?_of_stop h₁ h₂ hnewline hclose nofun fun h => absurd h hne
  · exact operation?_of_stop h₂ h₁ hclose hnewline (fun _ => hbrace) fun _ => nofun
  · exact ⟨operation?_emptyTuple_eq_none h h₂, operation?_emptyTuple h h₁⟩

/-- A constant on a line. -/
def constantLine : List Token :=
  [⟨.value "a", default⟩, ⟨.equals, default⟩, ⟨.word "om.constant", default⟩,
    ⟨.integer 1, default⟩, ⟨.colon, default⟩, ⟨.word "i8", default⟩]

/-- The constant is read before each of the three. -/
theorem operation?_lineEnds_constant :
    ∃ op, op.action = .constant (.integer 1) (.bits 8) ∧
      operation? true (.ofTokens (constantLine ++ [⟨.newline, default⟩])) = some op ∧
      operation? true (.ofTokens (constantLine ++ [⟨.rightBrace, default⟩])) = some op ∧
      operation? true (.ofTokens (constantLine ++ [⟨.eof, default⟩])) = some op := by
  obtain ⟨op, hread, haction⟩ : ∃ op,
      operation? true (.ofTokens (constantLine ++ [⟨.newline, default⟩])) = some op ∧
        op.action = .constant (.integer 1) (.bits 8) := ⟨_, rfl, rfl⟩
  have hne : ¬EmptyTuple constantLine := by
    rintro ⟨x, s, s₁, s₂, h⟩
    exact absurd (congrArg List.length h) (by simp [constantLine])
  have h₁ : (Cursor.ofTokens (constantLine ++ [⟨.newline, default⟩])).ahead =
      constantLine ++ [⟨.newline, default⟩] := rfl
  have h₂ : (Cursor.ofTokens (constantLine ++ [⟨.rightBrace, default⟩])).ahead =
      constantLine ++ [⟨.rightBrace, default⟩] := rfl
  have h₃ : (Cursor.ofTokens (constantLine ++ [⟨.eof, default⟩])).ahead =
      constantLine ++ [⟨.eof, default⟩] := rfl
  obtain ⟨hsame, hnewline, -⟩ := operation?_lineEnds true h₁ h₂ h₃ nofun
  have hclose := (hnewline hne).symm.trans hread
  exact ⟨op, haction, hread, hclose, hsame.symm.trans hclose⟩

/-- The line of a tuple without elements. -/
def tupleLine : List Token :=
  [⟨.value "t", default⟩, ⟨.equals, default⟩, ⟨.word "om.tuple_create", default⟩,
    ⟨.colon, default⟩]

/-- It is read as an operation when a line feed ends it, and not when a brace or the text does. -/
theorem operation?_tupleLine_differs :
    operation? true (.ofTokens (tupleLine ++ [⟨.newline, default⟩])) =
        some ⟨some ⟨"t", default⟩, .tupleCreate [] [], default⟩ ∧
      operation? true (.ofTokens (tupleLine ++ [⟨.rightBrace, default⟩])) = none ∧
      operation? true (.ofTokens (tupleLine ++ [⟨.eof, default⟩])) = none :=
  ⟨rfl, rfl, rfl⟩

end Reading

end ObjectModel
