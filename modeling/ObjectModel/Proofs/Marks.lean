/-
**Where readers point.**

A reader looks at tokens and at nothing else, so whatever it points at, in its result or in the
problem at which it stops, are spans of tokens or spans around several of them.  A property of
spans that all tokens have, and that the span around two others has when both have it, is therefore
a property of all spans of a module that is read, and of all problems of reading it.  Each of these
problems has a message of its own, which says what stands there or what does not.

Main definitions:

* `Action.idents`, `Operation.spans`, …, `Module.spans` — what has a place in a module;
* `Begins`, `Problem.Marked` — messages that say what is wrong, and problems with such a message
  and with the property;
* `Cursor.Marked` — the tokens that are left have the property;
* `Reading.Marks`, `Noting.Marks` — what a reader points at has it too.

Main results:

* `Reading.marks_operation`, `Noting.marks_itemsFrom` — one operation, and items in a row;
* `Module.marks_ofTokens?` — **the spans of a module, and of the problems of reading it**.
-/

import ObjectModel.Proofs.Reading

set_option relaxedAutoImplicit false
set_option autoImplicit false

namespace ObjectModel

/-! ### The spans of a module -/

/-- The names in an action, in the order in which they are written. -/
def Action.idents : Action → List Ident
  | constant .. => []
  | object target actuals _ _ => target :: actuals
  | listCreate elements _ => elements
  | tupleCreate elements _ => elements
  | mapCreate entries _ _ => entries
  | field name value _ => [name, value]

/-- The names in an operation, in the order in which they are written. -/
def Operation.idents (op : Operation) : List Ident := op.result.toList ++ op.action.idents

/-- The span of an operation and those of the names in it. -/
def Operation.spans (op : Operation) : List Span := op.span :: op.idents.map Ident.span

/-- The span of a parameter and that of its name. -/
def Param.spans (p : Param) : List Span := [p.span, p.name.span]

/-- The spans inside a class: its name, its parameters and its operations. -/
def ClassDecl.innerSpans (c : ClassDecl) : List Span :=
  c.name.span :: (c.params.flatMap Param.spans ++ c.body.flatMap Operation.spans)

/-- The spans inside a hardware module: its name and its symbols. -/
def HardwareModule.innerSpans (h : HardwareModule) : List Span :=
  h.name.span :: h.innerSymbols.map Ident.span

namespace Item

/-- The span of an item. -/
def span : Item → Span
  | ofClass c => c.span
  | ofHardware h => h.span
  | ofOperation op => op.span

/-- The spans inside an item. -/
def innerSpans : Item → List Span
  | ofClass c => c.innerSpans
  | ofHardware h => h.innerSpans
  | ofOperation op => op.idents.map Ident.span

/-- The span of an item and those inside it. -/
def spans (i : Item) : List Span := i.span :: i.innerSpans

end Item

/-- The span of a module and those of everything in it. -/
def Module.spans (m : Module) : List Span := m.span :: m.items.flatMap Item.spans

/-! ### Messages -/

/-- The text begins, and not with the letter of `failed to parse module`, the message of a source of
which nothing else can be said. -/
def Begins (text : String) : Prop := ∃ c cs, text.toList = c :: cs ∧ c ≠ 'f'

theorem Begins.append {a : String} (h : Begins a) (b : String) : Begins (a ++ b) := by
  obtain ⟨c, cs, ha, hc⟩ := h
  exact ⟨c, cs ++ b.toList, by rw [String.toList_append, ha, List.cons_append], hc⟩

theorem Begins.quoting {a : String} (h : Begins a) (b c : String) : Begins (a ++ b ++ c) :=
  (h.append b).append c

/-- The span of a problem has the property, and its message says what is wrong. -/
structure Problem.Marked (P : Span → Prop) (e : Problem) : Prop where
  span : P e.span
  message : Begins e.message

/-! ### Cursors -/

/-- The tokens that are left, the final one and the one taken last have the property. -/
structure Cursor.Marked (P : Span → Prop) (c : Cursor) : Prop where
  ahead : ∀ t ∈ c.ahead, P t.span
  final : P c.final.span
  last : P c.last

namespace Cursor.Marked

variable {P : Span → Prop} {c : Cursor}

theorem token (h : c.Marked P) : P c.token.span := by
  obtain ⟨_ | ⟨t, ts⟩, final, last⟩ := c
  · exact h.final
  · exact h.ahead t List.mem_cons_self

theorem advanceTo (h : c.Marked P) {taken rest : List Token} (hahead : c.ahead = taken ++ rest) :
    (c.advanceTo taken rest).Marked P where
  ahead := fun t ht => h.ahead t (hahead ▸ List.mem_append_right taken ht)
  final := h.final
  last := by
    cases hlast : taken.getLast? with
    | none => simpa [Cursor.advanceTo, hlast] using h.last
    | some t =>
        have hmem := List.mem_append_left rest (List.mem_of_getLast? hlast)
        simpa [Cursor.advanceTo, hlast] using h.ahead t (hahead ▸ hmem)

theorem advance (h : c.Marked P) : c.advance.Marked P := by
  obtain ⟨_ | ⟨t, ts⟩, final, last⟩ := c
  · exact h
  · exact h.advanceTo (List.singleton_append (x := t)).symm

theorem skipWhile (h : c.Marked P) (p : TokenKind → Bool) : (c.skipWhile p).Marked P :=
  h.advanceTo List.takeWhile_append_dropWhile.symm

theorem skipNewlines (h : c.Marked P) : c.skipNewlines.Marked P := h.skipWhile _

theorem resume (h : c.Marked P) (start : Cursor) : (start.resume c).Marked P := by
  have hskip := h.skipWhile fun k => k != .eof && k != .newline && k != .rightBrace
  unfold Cursor.resume
  dsimp only
  split
  · exact hskip.skipNewlines
  · split
    · exact hskip.advance
    · exact hskip
  · exact hskip

end Cursor.Marked

/-! ### Readers that stop at a problem -/

namespace Reading

/-- From a cursor with the property the reader comes to another one with it.  Its result satisfies
`G`, and if it stops, it stops at a problem whose span has the property, and says what is wrong. -/
def Marks {α : Type} (P : Span → Prop) (x : Reading α) (G : α → Prop) : Prop :=
  ∀ c : Cursor, c.Marked P →
    match x c with
    | .ok a c' => c'.Marked P ∧ G a
    | .error e c' => c'.Marked P ∧ e.Marked P

section Marks

variable {α β : Type} {P : Span → Prop} {Q : α → Prop} {G : β → Prop} {x : Reading α}
  {f : α → Reading β}

theorem Marks.pure {a : α} (h : Q a) : Marks P (Pure.pure a : Reading α) Q := fun _ hc => ⟨hc, h⟩

theorem Marks.bind (hx : Marks P x Q) (hf : ∀ a, Q a → Marks P (f a) G) :
    Marks P (x >>= f) G := by
  intro c hc
  have h := hx c hc
  change match EStateM.bind x f c with
    | .ok a c' => c'.Marked P ∧ G a
    | .error e c' => c'.Marked P ∧ e.Marked P
  rw [EStateM.bind]
  cases hxc : x c with
  | error e c' =>
      rw [hxc] at h
      exact h
  | ok a c' =>
      rw [hxc] at h
      exact hf a h.2 c' h.1

theorem Marks.mono {Q' : α → Prop} (hx : Marks P x Q) (h : ∀ a, Q a → Q' a) : Marks P x Q' := by
  intro c hc
  have hread := hx c hc
  split at hread
  · exact ⟨hread.1, h _ hread.2⟩
  · exact hread

/-- What comes first may be anything. -/
theorem Marks.after (hx : Marks P x Q) (hf : ∀ a, Marks P (f a) G) : Marks P (x >>= f) G :=
  hx.bind fun a _ => hf a

theorem marks_get : Marks P (get : Reading Cursor) (Cursor.Marked P) := fun _ hc => ⟨hc, hc⟩

theorem marks_set {c : Cursor} (h : c.Marked P) :
    Marks P (set c : Reading Unit) fun _ => True := fun _ _ => ⟨h, trivial⟩

theorem marks_modify {g : Cursor → Cursor} (h : ∀ c : Cursor, c.Marked P → (g c).Marked P) :
    Marks P (modify g : Reading Unit) fun _ => True := fun c hc => ⟨h c hc, trivial⟩

theorem marks_kind : Marks P kind fun _ => True := fun _ hc => ⟨hc, trivial⟩

theorem marks_spanHere : Marks P spanHere P := fun _ hc => ⟨hc, hc.token⟩

theorem marks_lastSpan : Marks P lastSpan P := fun _ hc => ⟨hc, hc.last⟩

theorem marks_advance : Marks P advance fun _ => True := marks_modify fun _ hc => hc.advance

theorem marks_skipNewlines : Marks P skipNewlines fun _ => True :=
  marks_modify fun _ hc => hc.skipNewlines

theorem marks_failAt {code : Code} {message : String} {span : Span} (hmessage : Begins message)
    (h : P span) : Marks P (failAt code message span : Reading α) Q :=
  fun _ hc => ⟨hc, ⟨h, hmessage⟩⟩

theorem marks_fail (code : Code) {message : String} (hmessage : Begins message) :
    Marks P (fail code message : Reading α) Q :=
  marks_spanHere.bind fun _ h => marks_failAt hmessage h

theorem marks_expected (code : Code) (what : String) :
    Marks P (expected code what : Reading α) Q := by
  have hword : Begins "expected " := ⟨_, _, rfl, by decide⟩
  exact marks_kind.after fun _ => marks_fail _ ((hword.quoting _ _).quoting _ _)

end Marks

/-! ### Tokens and lists -/

section Tokens

variable {α : Type} {P : Span → Prop} {Q : α → Prop}

theorem marks_eat (k : TokenKind) : Marks P (eat k) fun _ => True := by
  refine marks_kind.after fun k' => ?_
  split
  · exact marks_advance.after fun _ => .pure trivial
  · exact .pure trivial

theorem marks_expect (k : TokenKind) : Marks P (expect k) fun _ => True := by
  refine marks_kind.after fun k' => ?_
  split
  · exact marks_advance
  · exact marks_expected _ _

theorem marks_expectSome {what : String} {pick : TokenKind → Option α}
    (h : ∀ k a, pick k = some a → Q a) : Marks P (expectSome what pick) Q := by
  refine marks_kind.after fun k => ?_
  split
  · next a ha => exact marks_advance.after fun _ => .pure (h k a ha)
  · exact marks_expected _ _

theorem marks_valueName : Marks P valueName fun x => P x.span := by
  refine marks_spanHere.bind fun span hspan => marks_expectSome fun k x hx => ?_
  split at hx
  · cases hx
    exact hspan
  · cases hx

theorem marks_symbolName : Marks P symbolName fun x => P x.span := by
  refine marks_spanHere.bind fun span hspan => marks_expectSome fun k x hx => ?_
  split at hx
  · cases hx
    exact hspan
  · cases hx

theorem marks_lineEnd : Marks P lineEnd fun _ => True := by
  refine marks_kind.after fun k => ?_
  split
  · exact marks_skipNewlines
  · exact .pure trivial
  · exact .pure trivial
  · exact marks_expected _ _

theorem marks_commaSeparatedUpTo {item : Reading α} (hitem : Marks P item Q) (n : Nat) :
    Marks P (commaSeparatedUpTo item n) fun as => ∀ a ∈ as, Q a := by
  induction n with
  | zero => exact hitem.bind fun a ha => .pure (by simpa using ha)
  | succ n ih =>
      refine hitem.bind fun a ha => (marks_eat .comma).after fun b => ?_
      split
      · exact ih.bind fun as has => .pure (List.forall_mem_cons.2 ⟨ha, has⟩)
      · exact .pure (by simpa using ha)

theorem marks_commaSeparatedBefore (close : TokenKind) {item : Reading α}
    (hitem : Marks P item Q) :
    Marks P (commaSeparatedBefore close item) fun as => ∀ a ∈ as, Q a := by
  refine marks_kind.after fun k => ?_
  split
  · exact .pure (by simp)
  · exact marks_get.after fun c => marks_commaSeparatedUpTo hitem _

theorem marks_operandsUpTo (n : Nat) :
    Marks P (operandsUpTo n) fun xs => ∀ x ∈ xs, P x.span := by
  induction n with
  | zero => exact .pure (by simp)
  | succ n ih =>
      refine marks_kind.after fun k => ?_
      split
      · refine marks_valueName.bind fun x hx => (marks_eat .comma).after fun b => ?_
        split
        · exact ih.bind fun xs hxs => .pure (List.forall_mem_cons.2 ⟨hx, hxs⟩)
        · exact .pure (by simpa using hx)
      · exact .pure (by simp)

theorem marks_operands : Marks P operands fun xs => ∀ x ∈ xs, P x.span :=
  marks_get.after fun _ => marks_operandsUpTo _

end Tokens

/-! ### Types and constants -/

section Values

variable {P : Span → Prop}

theorem marks_tyUpTo (n : Nat) : Marks P (tyUpTo n) fun _ => True := by
  induction n with
  | zero => exact marks_expected _ _
  | succ n ih =>
      refine marks_spanHere.bind fun span hspan => marks_kind.after fun k => ?_
      split
      · refine marks_advance.after fun _ => ?_
        split
        · exact .pure trivial
        · exact .pure trivial
        · exact .pure trivial
        · exact .pure trivial
        · refine (marks_expect .less).after fun _ => ih.after fun element => ?_
          exact (marks_expect .greater).after fun _ => .pure trivial
        · refine (marks_expect .less).after fun _ => ih.after fun key => ?_
          refine (marks_expect .comma).after fun _ => ih.after fun value => ?_
          exact (marks_expect .greater).after fun _ => .pure trivial
        · refine (marks_expect .less).after fun _ => marks_symbolName.after fun target => ?_
          exact (marks_expect .greater).after fun _ => .pure trivial
        · exact marks_failAt (.quoting ⟨_, _, rfl, by decide⟩ _ _) hspan
      · refine marks_advance.after fun _ => (marks_expect .less).after fun _ => ?_
        refine (marks_commaSeparatedBefore .greater ih).after fun elements => ?_
        exact (marks_expect .greater).after fun _ => .pure trivial
      · split
        · exact marks_advance.after fun _ => .pure trivial
        · exact marks_failAt (.quoting ⟨_, _, rfl, by decide⟩ _ _) hspan
      · exact marks_expected _ _

theorem marks_ty : Marks P ty fun _ => True := marks_get.after fun _ => marks_tyUpTo _

theorem marks_tysBefore (close : TokenKind) : Marks P (tysBefore close) fun _ => True :=
  (marks_commaSeparatedBefore close marks_ty).mono fun _ _ => trivial

theorem marks_optionalTy : Marks P optionalTy fun _ => True := by
  refine (marks_eat .colon).after fun b => ?_
  split
  · exact marks_ty.after fun _ => .pure trivial
  · exact .pure trivial

theorem marks_mapKey : Marks P mapKey fun _ => True := by
  refine marks_kind.after fun k => ?_
  split
  · exact marks_advance.after fun _ => .pure trivial
  · exact marks_advance.after fun _ => .pure trivial
  · exact marks_expected _ _

theorem marks_segmentsUpTo (n : Nat) : Marks P (segmentsUpTo n) fun _ => True := by
  induction n with
  | zero => exact marks_symbolName.after fun _ => .pure trivial
  | succ n ih =>
      refine marks_symbolName.after fun segment => (marks_eat .doubleColon).after fun b => ?_
      split
      · exact ih.after fun _ => .pure trivial
      · exact .pure trivial

theorem marks_symbolPath : Marks P symbolPath fun _ => True := by
  refine (marks_expect .less).after fun _ => (marks_expect .less).after fun _ => ?_
  refine marks_get.after fun c => (marks_segmentsUpTo _).after fun segments => ?_
  refine (marks_expect .greater).after fun _ => (marks_expect .greater).after fun _ => ?_
  exact .pure trivial

theorem marks_constantUpTo (n : Nat) : Marks P (constantUpTo n) fun _ => True := by
  induction n with
  | zero => exact marks_expected _ _
  | succ n ih =>
      refine marks_spanHere.bind fun span hspan => marks_kind.after fun k => ?_
      split
      · exact marks_advance.after fun _ => .pure trivial
      · exact marks_advance.after fun _ => .pure trivial
      · refine marks_advance.after fun _ => ?_
        split
        · refine (marks_expect .less).after fun _ => ?_
          refine (marks_expectSome (Q := fun _ => True) fun _ _ _ => trivial).after fun _ => ?_
          exact (marks_expect .greater).after fun _ => .pure trivial
        · refine (marks_expect .less).after fun _ => marks_ty.after fun elementTy => ?_
          refine (marks_expect .comma).after fun _ => (marks_expect .leftBracket).after fun _ => ?_
          refine (marks_commaSeparatedBefore .rightBracket (Q := fun _ => True)
            (ih.after fun element => marks_optionalTy.after fun _ => .pure trivial)).after
              fun elements => ?_
          refine (marks_expect .rightBracket).after fun _ => ?_
          exact (marks_expect .greater).after fun _ => .pure trivial
        · refine (marks_expect .less).after fun _ => marks_ty.after fun valueTy => ?_
          refine (marks_expect .comma).after fun _ => (marks_expect .leftBrace).after fun _ => ?_
          refine (marks_commaSeparatedBefore .rightBrace (Q := fun _ => True)
            (marks_mapKey.after fun key => (marks_expect .equals).after fun _ =>
              ih.after fun value => marks_optionalTy.after fun _ => .pure trivial)).after
                fun entries => ?_
          refine (marks_expect .rightBrace).after fun _ => ?_
          exact (marks_expect .greater).after fun _ => .pure trivial
        · exact marks_symbolPath.after fun _ => .pure trivial
        · exact marks_failAt (.quoting ⟨_, _, rfl, by decide⟩ _ _) hspan
      · exact marks_expected _ _

theorem marks_constant : Marks P constant fun _ => True :=
  marks_get.after fun _ => marks_constantUpTo _

end Values

/-! ### Operations -/

section Operations

variable {P : Span → Prop}

theorem marks_action (inClass : Bool) (name : String) {span : Span} (hspan : P span) :
    Marks P (action inClass name span) fun a => ∀ x ∈ a.idents, P x.span := by
  unfold action
  split
  · refine marks_constant.after fun value => (marks_expect .colon).after fun _ => ?_
    exact marks_ty.after fun ty => .pure (by simp [Action.idents])
  · refine marks_symbolName.bind fun target htarget => ?_
    refine (marks_expect .leftParen).after fun _ => marks_operands.bind fun actuals hactuals => ?_
    refine (marks_expect .rightParen).after fun _ => (marks_expect .colon).after fun _ => ?_
    refine (marks_expect .leftParen).after fun _ => (marks_tysBefore _).after fun operandTys => ?_
    refine (marks_expect .rightParen).after fun _ => (marks_expect .arrow).after fun _ => ?_
    refine marks_ty.after fun resultTy => ?_
    split
    · exact .pure (List.forall_mem_cons.2 ⟨htarget, hactuals⟩)
    · exact marks_failAt (.quoting (.quoting ⟨_, _, rfl, by decide⟩ _ _) _ _) htarget
  · refine marks_operands.bind fun elements helements => (marks_expect .colon).after fun _ => ?_
    exact marks_ty.after fun ty => .pure helements
  · refine marks_spanHere.bind fun start hstart => marks_operands.bind fun elements helements => ?_
    refine (marks_expect .colon).after fun _ => (marks_tysBefore _).after fun elementTys => ?_
    split
    · exact .pure helements
    · exact marks_failAt (.quoting (.quoting ⟨_, _, rfl, by decide⟩ _ _) _ _) hstart
  · refine marks_operands.bind fun entries hentries => (marks_expect .colon).after fun _ => ?_
    refine marks_ty.after fun keyTy => (marks_expect .comma).after fun _ => ?_
    exact marks_ty.after fun valueTy => .pure hentries
  · split
    · refine marks_symbolName.bind fun name hname => (marks_expect .comma).after fun _ => ?_
      refine marks_valueName.bind fun value hvalue => (marks_expect .colon).after fun _ => ?_
      exact marks_ty.after fun ty => .pure (by simp [Action.idents, hname, hvalue])
    · exact marks_failAt ⟨_, _, rfl, by decide⟩ hspan
  · unfold unknownOperation
    split
    · exact marks_failAt (.quoting ⟨_, _, rfl, by decide⟩ _ _) hspan
    · exact fun _ hc => ⟨hc, ⟨hspan, .quoting ⟨_, _, rfl, by decide⟩ _ _⟩⟩

theorem marks_resultName : Marks P resultName fun r => ∀ x ∈ r.toList, P x.span := by
  refine marks_kind.after fun k => ?_
  split
  · refine marks_valueName.bind fun name hname => (marks_expect .equals).after fun _ => ?_
    exact .pure (by simpa using hname)
  · exact .pure (by simp)

theorem marks_operationName : Marks P operationName fun _ => True := by
  refine marks_kind.after fun k => ?_
  split
  · exact marks_advance.after fun _ => .pure trivial
  · exact marks_expected _ _

theorem marks_checkResult (result : Option Ident) (a : Action) {span : Span} (hspan : P span) :
    Marks P (checkResult result a span) fun _ => True := by
  unfold checkResult
  split
  · exact marks_failAt ⟨_, _, rfl, by decide⟩ hspan
  · split
    · exact marks_failAt (.quoting ⟨_, _, rfl, by decide⟩ _ _) hspan
    · exact .pure trivial

variable (hP : ∀ a b : Span, P a → P b → P (a.merge b))

include hP

/-- An operation points at the tokens of its line. -/
theorem marks_operation (inClass : Bool) :
    Marks P (operation inClass) fun op => ∀ s ∈ op.spans, P s := by
  refine marks_spanHere.bind fun start hstart => marks_resultName.bind fun result hresult => ?_
  refine marks_spanHere.bind fun nameSpan hname => marks_operationName.after fun name => ?_
  refine (marks_action inClass name hname).bind fun a ha => ?_
  refine (marks_checkResult result a hname).after fun _ => marks_lastSpan.bind fun last hlast => ?_
  refine marks_lineEnd.after fun _ => .pure (List.forall_mem_cons.2 ⟨hP _ _ hstart hlast, ?_⟩)
  refine List.forall_mem_map.2 fun x hx => ?_
  rcases List.mem_append.1 hx with hx | hx
  · exact hresult x hx
  · exact ha x hx

theorem marks_param : Marks P param fun p => ∀ s ∈ p.spans, P s := by
  refine marks_valueName.bind fun name hname => (marks_expect .colon).after fun _ => ?_
  refine marks_ty.after fun ty => marks_lastSpan.bind fun last hlast => .pure ?_
  exact List.forall_mem_cons.2 ⟨hP _ _ hname hlast, by simpa using hname⟩

theorem marks_classHeader : Marks P classHeader fun h =>
    P h.1.span ∧ ∀ s ∈ h.2.flatMap Param.spans, P s := by
  refine marks_advance.after fun _ => marks_symbolName.bind fun name hname => ?_
  refine (marks_expect .leftParen).after fun _ => ?_
  refine (marks_commaSeparatedBefore .rightParen (marks_param hP)).bind fun params hparams => ?_
  refine (marks_expect .rightParen).after fun _ => (marks_expect .leftBrace).after fun _ => ?_
  refine marks_skipNewlines.after fun _ => .pure ⟨hname, fun s hs => ?_⟩
  obtain ⟨p, hp, hs⟩ := List.mem_flatMap.1 hs
  exact hparams p hp s hs

theorem marks_closeBody {start : Span} (hstart : P start) (what : String) :
    Marks P (closeBody start what) P := by
  refine marks_kind.after fun k => ?_
  split
  · refine marks_advance.after fun _ => marks_lastSpan.bind fun last hlast => ?_
    exact marks_lineEnd.after fun _ => .pure (hP _ _ hstart hlast)
  · exact marks_fail _ (.append ⟨_, _, rfl, by decide⟩ _)

end Operations

/-! ### Hardware modules -/

section Hardware

variable {P : Span → Prop}

/-- An announced symbol is a token of the body. -/
theorem exists_of_mem_announcedIn {ts : List Token} {x : Ident}
    (h : x ∈ HardwareModule.announcedIn ts) : ∃ t ∈ ts, t.span = x.span := by
  induction ts with
  | nil => cases h
  | cons t ts ih =>
      rcases List.mem_append.1 h with h | h
      · unfold HardwareModule.announced? at h
        split at h
        · split at h
          · next name span us _ =>
              obtain rfl := List.mem_singleton.1 h
              exact ⟨⟨.symbol name, span⟩, by simp, rfl⟩
          · cases h
        · cases h
      · obtain ⟨u, hu, hspan⟩ := ih h
        exact ⟨u, List.mem_cons_of_mem t hu, hspan⟩

theorem marks_hardwareBody : Marks P hardwareBody fun xs => ∀ x ∈ xs, P x.span := by
  refine marks_get.bind fun c hc => ?_
  -- the body and what follows it are the tokens that are left
  have hsplit := HardwareModule.splitBody_append 0 c.ahead
  refine (marks_set (hc.advanceTo hsplit.symm)).after fun _ => .pure fun x hx => ?_
  obtain ⟨t, ht, hspan⟩ := exists_of_mem_announcedIn hx
  exact hspan ▸ hc.ahead t (hsplit ▸ List.mem_append_left _ ht)

theorem marks_hardware (hP : ∀ a b : Span, P a → P b → P (a.merge b)) :
    Marks P hardware fun h => P h.span ∧ ∀ s ∈ h.innerSpans, P s := by
  refine marks_spanHere.bind fun start hstart => marks_advance.after fun _ => ?_
  refine marks_symbolName.bind fun name hname => ?_
  refine (marks_modify fun c hc => hc.skipWhile _).after fun _ => marks_kind.after fun k => ?_
  have hrest : Marks P (do
      let innerSymbols ← hardwareBody
      let span ← closeBody start ("hw.module @" ++ name.name)
      return { name, innerSymbols, span } : Reading HardwareModule)
      fun h => P h.span ∧ ∀ s ∈ h.innerSpans, P s := by
    refine marks_hardwareBody.bind fun xs hxs => ?_
    refine (marks_closeBody hP hstart _).bind fun span hspan => .pure ⟨hspan, ?_⟩
    exact List.forall_mem_cons.2 ⟨hname, List.forall_mem_map.2 hxs⟩
  split
  · exact marks_advance.after fun _ => hrest
  · have hword : Begins "expected '\x7b' to open the body of hw.module @" := ⟨_, _, rfl, by decide⟩
    exact (marks_fail _ (hword.append _) (Q := fun _ => True)).after fun _ => hrest

end Hardware

end Reading

/-! ### Readers that note problems -/

namespace Noting

/-- From a cursor with the property, and with problems that have it, the reader comes to others
that have it, and its result, if it has one, satisfies `G`. -/
def Marks {α : Type} (P : Span → Prop) (x : Noting α) (G : α → Prop) : Prop :=
  ∀ p : Progress, p.cursor.Marked P → (∀ e ∈ p.problems, e.Marked P) →
    (x.run.run p).2.cursor.Marked P ∧ (∀ e ∈ (x.run.run p).2.problems, e.Marked P) ∧
      ∀ a ∈ (x.run.run p).1, G a

variable {α β : Type} {P : Span → Prop} {Q : α → Prop} {G : β → Prop} {x : Noting α}
  {f : α → Noting β}

theorem Marks.pure {a : α} (h : Q a) : Marks P (Pure.pure a : Noting α) Q := by
  refine fun p hp he => ⟨hp, he, ?_⟩
  rintro b ⟨⟩
  exact h

theorem Marks.bind (hx : Marks P x Q) (hf : ∀ a, Q a → Marks P (f a) G) :
    Marks P (x >>= f) G := by
  intro p hp he
  obtain ⟨hp', he', hQ⟩ := hx p hp he
  obtain ⟨o, p', hrun⟩ : ∃ o p', x.run.run p = (o, p') := ⟨_, _, rfl⟩
  rw [hrun] at hp' he' hQ
  cases o with
  | none =>
      rw [run_bind_of_none hrun]
      exact ⟨hp', he', by rintro b ⟨⟩⟩
  | some a =>
      rw [run_bind_of_some hrun]
      exact hf a (hQ a rfl) p' hp' he'

theorem Marks.after (hx : Marks P x Q) (hf : ∀ a, Marks P (f a) G) : Marks P (x >>= f) G :=
  hx.bind fun a _ => hf a

theorem Marks.attempt {x : Reading α} (h : Reading.Marks P x Q) : Marks P (attempt x) Q := by
  intro p hp he
  have hread := h p.cursor hp
  cases hx : x p.cursor with
  | ok a c =>
      rw [hx] at hread
      rw [run_attempt_of_ok hx]
      exact ⟨hread.1, he, by rintro b ⟨⟩; exact hread.2⟩
  | error e c =>
      rw [hx] at hread
      rw [run_attempt_of_error hx]
      refine ⟨hread.1, fun e' he' => ?_, by rintro b ⟨⟩⟩
      rcases List.mem_append.1 he' with he' | he'
      · exact he e' he'
      · exact List.mem_singleton.1 he' ▸ hread.2

theorem marks_note (code : Code) {message : String} (hmessage : Begins message) :
    Marks P (note code message) fun _ => True := by
  refine fun p hp he => ⟨hp, fun e he' => ?_, fun _ _ => trivial⟩
  rcases List.mem_append.1 he' with he' | he'
  · exact he e he'
  · exact List.mem_singleton.1 he' ▸ ⟨hp.token, hmessage⟩

/-- Items in a row point where one item points, and so does what is skipped between them. -/
theorem marks_itemsFrom (close : TokenKind) {item : Noting α} (hitem : Marks P item Q)
    {p : Progress} (hp : p.cursor.Marked P) (he : ∀ e ∈ p.problems, e.Marked P) :
    (itemsFrom close item p).2.cursor.Marked P ∧
      (∀ e ∈ (itemsFrom close item p).2.problems, e.Marked P) ∧
        ∀ a ∈ (itemsFrom close item p).1, Q a := by
  fun_induction itemsFrom close item p with
  | case1 p hstop => exact ⟨hp, he, by simp⟩
  | case2 p hgo read cursor next hless later ih =>
      obtain ⟨hc', he', hQ⟩ := hitem p hp he
      have hcursor : cursor.Marked P := by
        dsimp only [cursor]
        split
        · exact hc'
        · exact hc'.resume p.cursor
      obtain ⟨hc, he'', has⟩ := ih hcursor.skipNewlines he'
      refine ⟨hc, he'', fun a ha => ?_⟩
      rcases List.mem_append.1 ha with ha | ha
      · exact hQ a (Option.mem_toList.1 ha)
      · exact has a ha
  | case3 p hgo read cursor next hless =>
      obtain ⟨hc', he', hQ⟩ := hitem p hp he
      have hcursor : cursor.Marked P := by
        dsimp only [cursor]
        split
        · exact hc'
        · exact hc'.resume p.cursor
      exact ⟨hcursor.skipNewlines, he', fun a ha => hQ a (Option.mem_toList.1 ha)⟩

theorem marks_items {item : Noting α} (close : TokenKind) (hitem : Marks P item Q) :
    Marks P (items close item) fun as => ∀ a ∈ as, Q a := by
  intro p hp he
  obtain ⟨hc, he', has⟩ := marks_itemsFrom close hitem hp he
  refine ⟨hc, he', ?_⟩
  rintro as ⟨⟩
  exact has

section Modules

variable (hP : ∀ a b : Span, P a → P b → P (a.merge b))

include hP

theorem marks_classDecl : Marks P classDecl fun c => P c.span ∧ ∀ s ∈ c.innerSpans, P s := by
  refine (Marks.attempt Reading.marks_spanHere).bind fun start hstart => ?_
  refine (Marks.attempt (Reading.marks_classHeader hP)).bind ?_
  rintro ⟨name, params⟩ ⟨hname, hparams⟩
  refine (marks_items .rightBrace (Marks.attempt (Reading.marks_operation hP true))).bind ?_
  refine fun body hbody => (Marks.attempt (Reading.marks_closeBody hP hstart _)).bind ?_
  refine fun span hspan => Marks.pure ⟨hspan, List.forall_mem_cons.2 ⟨hname, fun s hs => ?_⟩⟩
  rcases List.mem_append.1 hs with hs | hs
  · exact hparams s hs
  · obtain ⟨op, hop, hs⟩ := List.mem_flatMap.1 hs
    exact hbody op hop s hs

theorem marks_item : Marks P item fun i => ∀ s ∈ i.spans, P s := by
  refine (Marks.attempt Reading.marks_kind).after fun k => ?_
  have hoperation : Marks P (do return Item.ofOperation (← attempt (Reading.operation false)))
      fun i => ∀ s ∈ i.spans, P s :=
    (Marks.attempt (Reading.marks_operation hP false)).bind fun op hop => Marks.pure hop
  split
  · exact (marks_classDecl hP).bind fun c hc => Marks.pure (List.forall_mem_cons.2 hc)
  · exact (Marks.attempt (Reading.marks_hardware hP)).bind fun h hh =>
      Marks.pure (List.forall_mem_cons.2 hh)
  · exact hoperation
  · exact hoperation
  · exact Marks.attempt (Reading.marks_fail _ ⟨_, _, rfl, by decide⟩)
  · exact Marks.attempt (Reading.marks_expected _ _)

theorem marks_moduleItems :
    Marks P moduleItems fun items => ∀ i ∈ items, ∀ s ∈ i.spans, P s := by
  refine (Marks.attempt Reading.marks_kind).after fun k => ?_
  split
  · refine (Marks.attempt (Reading.marks_advance.after fun _ =>
      (Reading.marks_expect .leftBrace).after fun _ => Reading.marks_skipNewlines)).after
        fun _ => ?_
    refine (marks_items .rightBrace (marks_item hP)).bind fun items hitems => ?_
    refine (Marks.attempt ((Reading.marks_expect .rightBrace).after fun _ =>
      Reading.marks_skipNewlines)).after fun _ => ?_
    exact Marks.pure hitems
  · exact marks_items .eof (marks_item hP)

theorem marks_module (file : String) : Marks P (module file) fun m => ∀ s ∈ m.spans, P s := by
  refine (Marks.attempt Reading.marks_skipNewlines).after fun _ => ?_
  refine (Marks.attempt Reading.marks_spanHere).bind fun start hstart => ?_
  refine (marks_moduleItems hP).bind fun items hitems => ?_
  refine (Marks.attempt Reading.marks_kind).after fun next => ?_
  have hend : Marks P (do
      return { file, items, span := start.merge (← attempt Reading.lastSpan) } : Noting Module)
      fun m => ∀ s ∈ m.spans, P s := by
    refine (Marks.attempt Reading.marks_lastSpan).bind fun last hlast => Marks.pure ?_
    refine List.forall_mem_cons.2 ⟨hP _ _ hstart hlast, fun s hs => ?_⟩
    obtain ⟨i, hi, hs⟩ := List.mem_flatMap.1 hs
    exact hitems i hi s hs
  split
  · exact (marks_note _ (.quoting ⟨_, _, rfl, by decide⟩ _ _)).after fun _ => hend
  · exact hend

end Modules

end Noting

/-- **What reading a module points at.**  A property of spans that all tokens have, as has the
beginning of the text, and that the span around two others has when both have it, is a property
of every span of the module that is read, and of every problem of reading it; and every such
problem says what is wrong. -/
theorem Module.marks_ofTokens? {P : Span → Prop} (hP : ∀ a b : Span, P a → P b → P (a.merge b))
    (horigin : P (.point .origin)) {ts : List Token} (hts : ∀ t ∈ ts, P t.span) (file : String) :
    (∀ m ∈ (Module.ofTokens? file ts).1, ∀ s ∈ m.spans, P s) ∧
      ∀ e ∈ (Module.ofTokens? file ts).2, e.Marked P := by
  have hmarked : (Cursor.ofTokens ts).Marked P := by
    refine ⟨hts, ?_, horigin⟩
    change P (ts.getLast?.getD ⟨.eof, .point .origin⟩).span
    cases hlast : ts.getLast? with
    | none => exact horigin
    | some t => exact hts t (List.mem_of_getLast? hlast)
  obtain ⟨-, hproblems, hmodule⟩ :=
    Noting.marks_module hP file { cursor := .ofTokens ts } hmarked (by simp)
  exact ⟨hmodule, hproblems⟩

end ObjectModel
