/-
**What is written is read again.**

A module that can be written is read from any text that spells its tokens, without a problem, and
what is read is the module again, except for the places where it stands.

Main definitions:

* `Noting.Takes` — a reader that notes problems takes a list of tokens and notes none.

Main results:

* `Reading.takes_operation` — an operation is read as it is written;
* `Noting.takes_items` — so are items, one after the other;
* `Noting.takes_classDecl`, `Reading.takes_hardware` — so are classes and hardware modules;
* `Module.load_written` — so is a module.
-/

import ObjectModel.Proofs.Reading
import ObjectModel.Proofs.Taking

set_option relaxedAutoImplicit false
set_option autoImplicit false

namespace ObjectModel

/-! ### Taking line ends -/

theorem Cursor.kinds_skipWhile (p : TokenKind → Bool) (c : Cursor) :
    (c.skipWhile p).kinds = c.kinds.dropWhile p := by
  rw [Cursor.kinds, Cursor.kinds, List.dropWhile_map]
  rfl

namespace Reading

/-- Tokens are skipped as long as they are of some kind. -/
theorem takes_skipWhile {p : TokenKind → Bool} {ks : List TokenKind} (h : ks.all p = true) :
    Takes (fun _ => True) ks (Before fun k => p k = false)
      (modify (·.skipWhile p) : Reading Unit) := by
  rintro c rest hc ⟨k, ls, rfl, hk⟩
  refine ⟨(), c.skipWhile p, rfl, ?_, trivial⟩
  rw [Cursor.kinds_skipWhile, hc, List.dropWhile_append_of_pos (List.all_eq_true.1 h)]
  simp [hk]

/-- Line ends are taken, as many as there are. -/
theorem takes_skipNewlines {ks : List TokenKind} (h : ks.all (· == .newline) = true) :
    Takes (fun _ => True) ks (Before (· ≠ .newline)) skipNewlines :=
  (takes_skipWhile h).mono (fun _ h => h) fun _ hrest =>
    hrest.mono fun _ hk => beq_eq_false_iff_ne.2 hk

theorem takes_lineEnd :
    Takes (fun _ => True) [.newline] (Before (· ≠ .newline)) lineEnd :=
  Takes.kind_cons (takes_skipNewlines rfl)

/-! ### Operations -/

/-- What stands behind the name of an operation is read as it is written. -/
theorem takes_action (s : Style) {inClass : Bool} {a : Action} (ha : a.Writable)
    (hfield : a.isField = true → inClass = true) (span : Span) :
    Takes (fun b => b.unplaced = a.unplaced) (a.written s) (Before (· = .newline))
      (action inClass a.name span) := by
  cases ha with
  | @constant value ty hvalue hty =>
      change Takes _ _ _ constantAction
      refine (takes_constant s hvalue).append fun v hv => ?_
      refine (takes_expect .colon).cons fun _ _ => ?_
      exact (takes_ty hty).last fun t ht => Takes.pure (by rw [hv, ht])
  | @object target actuals operandTys ty hactuals htys hlen hty =>
      change Takes _ _ _ objectAction
      refine (takes_symbolName target).cons fun b hb => ?_
      refine (takes_expect .leftParen).cons fun _ _ => ?_
      refine (takes_operands actuals).bind (fun as has => ?_) fun rest _ => before_cons (by simp)
      refine (takes_expect .rightParen).cons fun _ _ => ?_
      refine (takes_expect .colon).cons fun _ _ => ?_
      refine (takes_expect .leftParen).cons fun _ _ => ?_
      refine (takes_tysBefore (by simp) (by simp) (by simp) htys).bind (fun us hus => ?_)
        fun rest _ => before_cons rfl
      refine (takes_expect .rightParen).cons fun _ _ => ?_
      refine (takes_expect .arrow).cons fun _ _ => ?_
      refine (takes_ty hty).last fun t ht => ?_
      have hcount : as.length = actuals.length := by
        simpa using congrArg List.length has
      rw [if_pos (by rw [hus, hlen, hcount])]
      exact Takes.pure (by rw [Action.unplaced, Action.unplaced, hb, has, hus, ht])
  | @listCreate elements elementTy helements hty =>
      change Takes _ _ _ listAction
      refine (takes_operands elements).bind (fun as has => ?_) fun rest _ => before_cons (by simp)
      refine (takes_expect .colon).cons fun _ _ => ?_
      exact (takes_ty hty).last fun t ht =>
        Takes.pure (by rw [Action.unplaced, Action.unplaced, has, ht])
  | @tupleCreate elements elementTys helements htys hlen =>
      change Takes _ _ _ tupleAction
      refine takes_spanHere.after fun start _ => ?_
      refine (takes_operands elements).bind (fun as has => ?_) fun rest _ => before_cons (by simp)
      refine (takes_expect .colon).cons fun _ _ => ?_
      refine (takes_tysBefore (by simp) (by simp) (by simp) htys).bind_nil (fun us hus => ?_)
        fun _ h => h
      have hcount : as.length = elements.length := by
        simpa using congrArg List.length has
      rw [if_pos (by rw [hus, hlen, hcount])]
      exact Takes.pure (by rw [Action.unplaced, Action.unplaced, has, hus])
  | @mapCreate entries keyTy valueTy hentries hkey hvalue =>
      change Takes _ _ _ mapAction
      refine (takes_operands entries).bind (fun as has => ?_) fun rest _ => before_cons (by simp)
      refine (takes_expect .colon).cons fun _ _ => ?_
      refine (takes_ty hkey).append fun k hk => ?_
      refine (takes_expect .comma).cons fun _ _ => ?_
      exact (takes_ty hvalue).last fun v hv =>
        Takes.pure (by rw [Action.unplaced, Action.unplaced, has, hk, hv])
  | @field name value ty hvalue hty =>
      obtain rfl := hfield rfl
      change Takes _ _ _ fieldAction
      refine (takes_symbolName name).cons fun n hn => ?_
      refine (takes_expect .comma).cons fun _ _ => ?_
      refine (takes_valueName value).cons fun v hv => ?_
      refine (takes_expect .colon).cons fun _ _ => ?_
      exact (takes_ty hty).last fun t ht =>
        Takes.pure (by rw [Action.unplaced, Action.unplaced, hn, hv, ht])

/-- The value that an operation defines is read as it is written. -/
theorem takes_resultName (result : Option Ident) :
    Takes (fun r => r.map Ident.unplaced = result.map Ident.unplaced)
      (Operation.writtenResult result) (Before fun k => ∀ name, k ≠ .value name) resultName := by
  cases result with
  | none =>
      refine Takes.kind_before fun k hk => ?_
      split
      · next name => exact absurd rfl (hk name)
      · exact Takes.pure rfl
  | some x =>
      refine Takes.kind_cons ?_
      refine (takes_valueName x).cons fun y hy => ?_
      exact (takes_expect .equals).cons fun _ _ => Takes.pure (by simp [hy])

theorem Action.isField_unplaced (a : Action) : a.unplaced.isField = a.isField := by
  cases a <;> rfl

/-- A field without a value and another operation with one are as they should be. -/
theorem takes_checkResult {result : Option Ident} {a : Action}
    (h : a.isField = true ↔ result = none) (span : Span) :
    Takes (fun _ => True) [] Any (checkResult result a span) := by
  unfold checkResult
  cases result with
  | none => simp [h.2 rfl, Takes.pure]
  | some x =>
      have ha : a.isField = false := by
        cases hf : a.isField with
        | false => rfl
        | true => cases h.1 hf
      simp [ha, Takes.pure]

/-- An operation is read as it is written, up to the end of its line. -/
theorem takes_operation (s : Style) {inClass : Bool} {op : Operation} (hop : op.Writable)
    (hfield : op.action.isField = true → inClass = true) :
    Takes (fun o => o.unplaced = op.unplaced) (op.written s) (Before (· ≠ .newline))
      (operation inClass) := by
  refine takes_spanHere.after fun start _ => ?_
  refine (takes_resultName op.result).bind (fun result hresult => ?_) fun rest _ =>
    before_cons (by simp)
  refine takes_spanHere.after fun nameSpan _ => ?_
  refine (Takes.kind_cons ((takes_advance _).cons fun _ _ => Takes.pure rfl) :
    Takes (· = op.action.name) [.word op.action.name] Any operationName).cons fun name hname => ?_
  rw [hname]
  refine (takes_action s hop.action hfield nameSpan).bind (fun a ha => ?_) fun rest _ =>
    before_cons rfl
  have hcheck : a.isField = true ↔ result = none := by
    rw [← Action.isField_unplaced, ha, Action.isField_unplaced, hop.isField_iff,
      ← Option.map_eq_none_iff (f := Ident.unplaced), ← hresult, Option.map_eq_none_iff]
  refine (takes_checkResult hcheck nameSpan).after fun _ _ => ?_
  refine takes_lastSpan.after fun last _ => ?_
  refine takes_lineEnd.bind_nil (fun _ _ => Takes.pure ?_) fun _ h => h
  rw [Operation.unplaced, Operation.unplaced, hresult, ha]

/-! ### Headers and bodies -/

/-- A parameter is read as it is written. -/
theorem takes_param {p : Param} (hty : p.ty.Writable) :
    Takes (fun q => q.unplaced = p.unplaced) p.written Any param := by
  refine (takes_valueName p.name).cons fun name hname => ?_
  refine (takes_expect .colon).cons fun _ _ => ?_
  refine (takes_ty hty).last fun t ht => ?_
  refine takes_lastSpan.after fun last _ => Takes.pure ?_
  rw [Param.unplaced, Param.unplaced, hname, ht]

/-- The header of a class is read as it is written, and the line ends behind it are taken. -/
theorem takes_classHeader (name : Ident) {params : List Param}
    (hparams : ∀ p ∈ params, p.ty.Writable) (ks : List TokenKind)
    (hks : ks.all (· == .newline) = true) :
    Takes (fun header => header.1.unplaced = name.unplaced ∧
        header.2.map Param.unplaced = params.map Param.unplaced)
      (.word "om.class" :: .symbol name.name :: .leftParen ::
        (commas (params.map Param.written) ++ .rightParen :: .leftBrace :: ks))
      (Before (· ≠ .newline)) classHeader := by
  have hlist : Takes (fun ps => ps.map Param.unplaced = params.map Param.unplaced)
      (commas (params.map Param.written)) (Before (· = .rightParen))
      (commaSeparatedBefore .rightParen param) :=
    takes_commaSeparatedBefore (by simp) params (fun p _ => before_cons (by simp)) fun p hp =>
      (takes_param (hparams p hp)).mono (fun _ h => h) fun _ _ => trivial
  refine (takes_advance _).cons fun _ _ => ?_
  refine (takes_symbolName name).cons fun x hx => ?_
  refine (takes_expect .leftParen).cons fun _ _ => ?_
  refine hlist.bind (fun ps hps => ?_) fun rest _ => before_cons rfl
  refine (takes_expect .rightParen).cons fun _ _ => ?_
  refine (takes_expect .leftBrace).cons fun _ _ => ?_
  exact (takes_skipNewlines hks).bind_nil (fun _ _ => Takes.pure ⟨hx, hps⟩) fun _ h => h

/-- The brace that closes a body is taken with the end of its line. -/
theorem takes_closeBody (start : Span) (what : String) :
    Takes (fun _ => True) [.rightBrace, .newline] (Before (· ≠ .newline))
      (closeBody start what) := by
  refine Takes.kind_cons ?_
  rw [if_pos rfl]
  refine (takes_advance _).cons fun _ _ => ?_
  refine takes_lastSpan.after fun last _ => ?_
  exact takes_lineEnd.bind_nil (fun _ _ => Takes.pure trivial) fun _ h => h

end Reading

/-! ### Hardware modules -/

namespace HardwareModule

/-- The body of a hardware module reaches to the first brace, when that brace closes. -/
theorem kinds_splitBody {ks rest : List TokenKind} {ts : List Token}
    (hks : ∀ k ∈ ks, k ≠ .eof ∧ k ≠ .leftBrace ∧ k ≠ .rightBrace)
    (h : ts.map Token.kind = ks ++ .rightBrace :: rest) :
    (splitBody 0 ts).1.map Token.kind = ks ∧
      (splitBody 0 ts).2.map Token.kind = .rightBrace :: rest := by
  induction ks generalizing ts with
  | nil =>
      obtain ⟨⟨kind, span⟩, ts, rfl, hk, hts⟩ := List.map_eq_cons_iff.1 h
      obtain rfl : kind = .rightBrace := hk
      exact ⟨rfl, h⟩
  | cons k ks ih =>
      obtain ⟨t, ts, rfl, hk, hts⟩ := List.map_eq_cons_iff.1 h
      obtain ⟨heof, hleft, hright⟩ := hks k List.mem_cons_self
      obtain ⟨hbody, hrest⟩ := ih (fun k' hk' => hks k' (List.mem_cons_of_mem _ hk')) hts
      have hstep : splitBody 0 (t :: ts) = (splitBody 0 ts).map (t :: ·) id := by
        conv_lhs => unfold splitBody
        split <;> simp_all
      rw [hstep]
      exact ⟨by rw [Prod.map_fst, List.map_cons, hk, hbody], hrest⟩

/-- A token that is not the word `sym` announces nothing. -/
theorem announcedIn_cons_of_ne {t : Token} (ts : List Token) (h : t.kind ≠ .word "sym") :
    announcedIn (t :: ts) = announcedIn ts := by
  simp [announcedIn, announced?, h]

/-- The symbols of a hardware module are announced by their lines. -/
theorem announcedIn_writtenInner {xs : List Ident} {ts : List Token}
    (h : ts.map Token.kind = xs.flatMap Ident.writtenInner) :
    (announcedIn ts).map Ident.unplaced = xs.map Ident.unplaced := by
  induction xs generalizing ts with
  | nil =>
      obtain rfl := List.map_eq_nil_iff.1 h
      rfl
  | cons x xs ih =>
      obtain ⟨word, ts, rfl, hword, h₁⟩ := List.map_eq_cons_iff.1 h
      obtain ⟨⟨kind, span⟩, ts, rfl, hsymbol, h₂⟩ := List.map_eq_cons_iff.1 h₁
      obtain ⟨line, ts, rfl, hline, h₃⟩ := List.map_eq_cons_iff.1 h₂
      obtain rfl : kind = .symbol x.name := hsymbol
      have hfound : announced? word (⟨.symbol x.name, span⟩ :: line :: ts) =
          some ⟨x.name, span⟩ := by
        rw [announced?, if_pos hword]
      rw [announcedIn, hfound, announcedIn_cons_of_ne _ (by simp),
        announcedIn_cons_of_ne _ (by rw [hline]; simp), List.map_append, ih h₃]
      rfl

end HardwareModule

namespace Reading

/-- The symbols of a hardware module are read as they are written. -/
theorem takes_hardwareBody (xs : List Ident) :
    Takes (fun ys => ys.map Ident.unplaced = xs.map Ident.unplaced)
      (.newline :: xs.flatMap Ident.writtenInner) (Before (· = .rightBrace)) hardwareBody := by
  rintro c rest hc ⟨k, ks, rfl, rfl⟩
  have hkinds : ∀ k ∈ TokenKind.newline :: xs.flatMap Ident.writtenInner,
      k ≠ .eof ∧ k ≠ .leftBrace ∧ k ≠ .rightBrace := by
    simp +contextual [Ident.writtenInner, or_imp]
  obtain ⟨hbody, hrest⟩ := HardwareModule.kinds_splitBody hkinds hc
  obtain ⟨t, ts, hts, ht, hinner⟩ := List.map_eq_cons_iff.1 hbody
  refine ⟨HardwareModule.announcedIn (HardwareModule.splitBody 0 c.ahead).1,
    c.advanceTo _ _, rfl, hrest, ?_⟩
  rw [hts, HardwareModule.announcedIn_cons_of_ne _ (by rw [ht]; simp)]
  exact HardwareModule.announcedIn_writtenInner hinner

/-- A hardware module is read as it is written. -/
theorem takes_hardware (h : HardwareModule) :
    Takes (fun h' => h'.unplaced = h.unplaced) h.written (Before (· ≠ .newline)) hardware := by
  refine takes_spanHere.after fun start _ => ?_
  refine (takes_advance _).cons fun _ _ => ?_
  refine (takes_symbolName h.name).cons fun name hname => ?_
  have hline : Takes (fun _ => True) [] (Before (· = .leftBrace))
      (modify (·.skipWhile fun k => k != .leftBrace && k != .newline && k != .eof)) :=
    (takes_skipWhile rfl).mono (fun _ h => h) fun _ h => h.mono fun k hk => by simp [hk]
  refine hline.nil_bind (fun _ _ => ?_) fun rest _ => before_cons rfl
  refine Takes.kind_cons ?_
  rw [if_pos rfl]
  refine (takes_advance _).cons fun _ _ => ?_
  refine (takes_hardwareBody h.innerSymbols).bind (fun xs hxs => ?_) fun rest _ => before_cons rfl
  refine (takes_closeBody _ _).bind_nil (fun span _ => Takes.pure ?_) fun _ h => h
  rw [HardwareModule.unplaced, HardwareModule.unplaced, hname, hxs]

end Reading

/-! ### Readers that note problems -/

namespace Noting

open Reading (Before before_cons)

variable {α β γ : Type}

/-- The reader takes the tokens `ks`, when what follows them satisfies `F`, has a result with the
property `P` and notes no problem. -/
def Takes (P : α → Prop) (ks : List TokenKind) (F : List TokenKind → Prop) (x : Noting α) : Prop :=
  ∀ c rest, c.kinds = ks ++ rest → F rest →
    ∃ a c', x.run.run ⟨c, []⟩ = (some a, ⟨c', []⟩) ∧ c'.kinds = rest ∧ P a

section Takes

variable {P : α → Prop} {Q : β → Prop} {ks ls : List TokenKind} {F G : List TokenKind → Prop}
  {x : Noting α} {f : α → Noting β}

/-- A reader that stops at no problem notes none. -/
theorem Takes.attempt {x : Reading α} (h : Reading.Takes P ks F x) :
    Takes P ks F (attempt x) := by
  intro c rest hc hrest
  obtain ⟨a, c', ha, hc', hP⟩ := h c rest hc hrest
  exact ⟨a, c', run_attempt_of_ok ha, hc', hP⟩

theorem Takes.pure {a : α} (ha : P a) : Takes P [] F (Pure.pure a : Noting α) :=
  fun c _ hc _ => ⟨a, c, rfl, hc, ha⟩

/-- Readers one after the other take lists one after the other. -/
theorem Takes.bind (hx : Takes P ks F x) (hf : ∀ a, P a → Takes Q ls G (f a))
    (hF : ∀ rest, G rest → F (ls ++ rest)) : Takes Q (ks ++ ls) G (x >>= f) := by
  intro c rest hc hrest
  rw [List.append_assoc] at hc
  obtain ⟨a, c₁, ha, hc₁, hP⟩ := hx c _ hc (hF rest hrest)
  obtain ⟨b, c₂, hb, hc₂, hQ⟩ := hf a hP c₁ rest hc₁ hrest
  refine ⟨b, c₂, ?_, hc₂, hQ⟩
  rw [run_bind_of_some ha]
  exact hb

/-- A reader behind which nothing is left to take. -/
theorem Takes.bind_nil (hx : Takes P ks F x) (hf : ∀ a, P a → Takes Q [] G (f a))
    (hF : ∀ rest, G rest → F rest) : Takes Q ks G (x >>= f) := by
  rw [← List.append_nil ks]
  exact hx.bind hf hF

/-- A reader that takes nothing, and may look at what follows. -/
theorem Takes.nil_bind {x : Reading α} (hx : Reading.Takes P [] F x)
    (hf : ∀ a, P a → Takes Q ls G (f a)) (hF : ∀ rest, G rest → F (ls ++ rest)) :
    Takes Q ls G (Noting.attempt x >>= f) :=
  (Takes.attempt hx).bind hf hF

/-- A reader that takes nothing. -/
theorem Takes.after {x : Reading α} (hx : Reading.Takes P [] Reading.Any x)
    (hf : ∀ a, P a → Takes Q ls G (f a)) : Takes Q ls G (Noting.attempt x >>= f) :=
  Takes.nil_bind hx hf fun _ _ => trivial

/-- A reader that looks at the next token, which is known to have the property `p`. -/
theorem Takes.kind_bind {p : TokenKind → Prop} {f : TokenKind → Noting β}
    (hp : ∀ rest, G rest → Before p (ls ++ rest)) (hf : ∀ k, p k → Takes Q ls G (f k)) :
    Takes Q ls G (Noting.attempt Reading.kind >>= f) := by
  intro c rest hc hrest
  obtain ⟨k, ks, hks, hk⟩ := hp rest hrest
  obtain ⟨b, c', hb, hc', hQ⟩ := hf k hk c rest hc hrest
  refine ⟨b, c', ?_, hc', hQ⟩
  rw [← hb, ← Reading.kind_of_kinds (hc.trans hks)]
  rfl

end Takes

/-! ### Items -/

section Items

variable {f : α → γ} {g : β → γ} {w : β → List TokenKind} {close : TokenKind} {item : Noting α}

/-- What follows a list of things begins as each of them does, and as what stands behind them. -/
theorem before_flatMap {p : TokenKind → Prop} {bs : List β} {rest : List TokenKind}
    (hbs : ∀ b ∈ bs, Before p (w b)) (hrest : Before p rest) :
    Before p (bs.flatMap w ++ rest) := by
  cases bs with
  | nil => exact hrest
  | cons b bs =>
      rw [List.flatMap_cons]
      exact (hbs b List.mem_cons_self).append.append

/-- Line ends are not skipped where there are none. -/
theorem kinds_skipNewlines_of_before {c : Cursor} (h : Before (· ≠ .newline) c.kinds) :
    c.skipNewlines.kinds = c.kinds := by
  obtain ⟨k, ks, hks, hk⟩ := h
  rw [Cursor.skipNewlines, Cursor.kinds_skipWhile, hks]
  exact List.dropWhile_cons_of_neg (by simpa using hk)

/-- Items that are written one after the other are read one by one: each of them begins with a
token that ends neither the list nor a line. -/
theorem takes_items (hclose : close ≠ .newline) (bs : List β)
    (hstart : ∀ b ∈ bs, Before (fun k => k ≠ close ∧ k ≠ .eof ∧ k ≠ .newline) (w b))
    (hitem : ∀ b ∈ bs, Takes (fun a => f a = g b) (w b) (Before (· ≠ .newline)) item) :
    Takes (fun as => as.map f = bs.map g) (bs.flatMap w) (Before (· = close))
      (items close item) := by
  suffices hfrom : ∀ c rest, c.kinds = bs.flatMap w ++ rest → Before (· = close) rest →
      ∃ as c', itemsFrom close item ⟨c, []⟩ = (as, ⟨c', []⟩) ∧ c'.kinds = rest ∧
        as.map f = bs.map g by
    intro c rest hc hrest
    obtain ⟨as, c', has, hc', hP⟩ := hfrom c rest hc hrest
    refine ⟨as, c', ?_, hc', hP⟩
    change (some (itemsFrom close item ⟨c, []⟩).1, (itemsFrom close item ⟨c, []⟩).2) = _
    rw [has]
  induction bs with
  | nil =>
      rintro c rest hc ⟨k, ks, rfl, rfl⟩
      refine ⟨[], c, ?_, hc, rfl⟩
      rw [itemsFrom, if_pos (.inl (Reading.kind_of_kinds hc))]
  | cons b bs ih =>
      intro c rest hc hrest
      rw [List.flatMap_cons, List.append_assoc] at hc
      -- what stands behind an item is the next one, or the token that closes the list
      have hnext : Before (· ≠ .newline) (bs.flatMap w ++ rest) :=
        before_flatMap
          (fun b' hb' => (hstart b' (List.mem_cons_of_mem _ hb')).mono fun k hk => hk.2.2)
          (hrest.mono fun k hk => hk ▸ hclose)
      obtain ⟨a, c₁, ha, hc₁, hP⟩ := hitem b List.mem_cons_self c _ hc hnext
      have hskip : c₁.skipNewlines.kinds = bs.flatMap w ++ rest := by
        rw [kinds_skipNewlines_of_before (hc₁ ▸ hnext), hc₁]
      obtain ⟨as, c₂, has, hc₂, hQ⟩ := ih (fun b' hb' => hstart b' (List.mem_cons_of_mem _ hb'))
        (fun b' hb' => hitem b' (List.mem_cons_of_mem _ hb')) _ rest hskip hrest
      obtain ⟨k, ks, hk, hkclose, hkeof, -⟩ := hstart b List.mem_cons_self
      have hkind : c.kind = k := Reading.kind_of_kinds (by rw [hc, hk]; rfl)
      have hgo : ¬(c.kind = close ∨ c.kind = .eof ∨ Progress.spent ⟨c, []⟩ = true) := by
        simp [hkind, hkclose, hkeof, Progress.spent, Report.maxErrors]
      have hless : Progress.measure ⟨c₁.skipNewlines, []⟩ < Progress.measure ⟨c, []⟩ := by
        have hlen : c₁.skipNewlines.ahead.length < c.ahead.length := by
          have hlengths : c₁.skipNewlines.kinds.length < c.kinds.length := by
            simp only [hskip, hc, hk, List.length_append, List.length_cons]
            omega
          simpa only [Cursor.kinds, List.length_map] using hlengths
        exact Nat.add_lt_add_right hlen _
      refine ⟨a :: as, c₂, ?_, hc₂, by rw [List.map_cons, List.map_cons, hP, hQ]⟩
      rw [itemsFrom, if_neg hgo, ha]
      dsimp only
      rw [if_pos hless, has]
      rfl

end Items

/-! ### Modules -/

/-- An operation begins with the value it defines, or with its name. -/
theorem before_written_operation (s : Style) (op : Operation) :
    Before (fun k => (∃ name, k = .value name) ∨ ∃ name, k = .word name) (op.written s) := by
  rw [Operation.written]
  cases op.result <;> exact before_cons (by simp)

/-- A class is read as it is written. -/
theorem takes_classDecl (s : Style) {c : ClassDecl} (hc : c.Writable) :
    Takes (fun d => d.unplaced = c.unplaced) (c.written s) (Before (· ≠ .newline)) classDecl := by
  have hwritten : c.written s =
      (.word "om.class" :: .symbol c.name.name :: .leftParen ::
        (commas (c.params.map Param.written) ++ [.rightParen, .leftBrace, .newline])) ++
        (c.body.flatMap (Operation.written s) ++ [.rightBrace, .newline]) := by
    simp [ClassDecl.written]
  have hstart : ∀ op : Operation,
      Before (fun k => k ≠ .rightBrace ∧ k ≠ .eof ∧ k ≠ .newline) (op.written s) := fun op =>
    (before_written_operation s op).mono (by rintro k (⟨name, rfl⟩ | ⟨name, rfl⟩) <;> simp)
  have hbody : Takes (fun ops => ops.map Operation.unplaced = c.body.map Operation.unplaced)
      (c.body.flatMap (Operation.written s)) (Before (· = .rightBrace))
      (items .rightBrace (attempt (Reading.operation true))) :=
    takes_items (by simp) c.body (fun op _ => hstart op) fun op hop =>
      Takes.attempt (Reading.takes_operation s (hc.body op hop) fun _ => rfl)
  have hheader := Reading.takes_classHeader c.name (fun p hp => (hc.params p hp).2)
    [.newline] rfl
  rw [hwritten]
  refine Takes.after Reading.takes_spanHere fun start _ => ?_
  refine (Takes.attempt hheader).bind (fun header hheader => ?_) fun rest _ => ?_
  · refine hbody.bind (fun body hbody => ?_) fun rest _ => before_cons rfl
    refine (Takes.attempt (Reading.takes_closeBody _ _)).bind_nil (fun span _ => Takes.pure ?_)
      fun _ h => h
    rw [ClassDecl.unplaced, ClassDecl.unplaced, hheader.1, hheader.2, hbody]
  · rw [List.append_assoc]
    exact before_flatMap (fun op _ => (hstart op).mono fun k hk => hk.2.2) (before_cons (by simp))

/-- An operation that is no field begins with the value it defines. -/
theorem exists_written_eq_value_cons (s : Style) {op : Operation} (hop : op.Writable)
    (hfield : op.action.isField = false) : ∃ name ks, op.written s = .value name :: ks := by
  cases hr : op.result with
  | none =>
      rw [hop.isField_iff.2 hr] at hfield
      cases hfield
  | some x => exact ⟨x.name, _, by rw [Operation.written, hr]; rfl⟩

/-- An item is read as it is written. -/
theorem takes_item (s : Style) {i : Item} (hi : i.Writable) :
    Takes (fun j => j.unplaced = i.unplaced) (i.written s) (Before (· ≠ .newline)) item := by
  cases hi with
  | @ofClass c hc =>
      refine Takes.kind_bind (p := (· = .word "om.class")) (fun rest _ => before_cons rfl) ?_
      rintro _ rfl
      exact (takes_classDecl s hc).bind_nil (fun d hd => Takes.pure (congrArg Item.ofClass hd))
        fun _ h => h
  | ofHardware h =>
      refine Takes.kind_bind (p := (· = .word "hw.module")) (fun rest _ => before_cons rfl) ?_
      rintro _ rfl
      exact (Takes.attempt (Reading.takes_hardware h)).bind_nil
        (fun h' hh' => Takes.pure (congrArg Item.ofHardware hh')) fun _ h => h
  | @ofOperation op hop hfield =>
      obtain ⟨name, ks, hks⟩ := exists_written_eq_value_cons s hop hfield
      refine Takes.kind_bind (p := (· = .value name)) (fun rest _ => ?_) ?_
      · rw [Item.written, hks]
        exact before_cons rfl
      · rintro _ rfl
        have hread : Reading.Takes (fun o => o.unplaced = op.unplaced) (op.written s)
            (Before (· ≠ .newline)) (Reading.operation false) :=
          Reading.takes_operation s hop (by simp [hfield])
        exact (Takes.attempt hread).bind_nil
          (fun o ho => Takes.pure (congrArg Item.ofOperation ho)) fun _ h => h

/-- An item begins with a word for a declaration, or with a value. -/
theorem before_written_item (s : Style) {i : Item} (hi : i.Writable) :
    Before (fun k => k = .word "om.class" ∨ k = .word "hw.module" ∨ ∃ name, k = .value name)
      (i.written s) := by
  cases hi with
  | ofClass hc => exact before_cons (by simp)
  | ofHardware h => exact before_cons (by simp)
  | ofOperation hop hfield =>
      obtain ⟨name, ks, hks⟩ := exists_written_eq_value_cons s hop hfield
      rw [Item.written, hks]
      exact before_cons (by simp)

/-- Where items stand there is neither the end of a line nor a wrapper. -/
theorem before_items (s : Style) {m : Module} (hm : m.Writable) {rest : List TokenKind}
    (hrest : Before (fun k => k ≠ .newline ∧ k ≠ .word "module") rest) :
    Before (fun k => k ≠ .newline ∧ k ≠ .word "module")
      (m.items.flatMap (Item.written s) ++ rest) := by
  refine before_flatMap (fun i hi => (before_written_item s (hm i hi)).mono ?_) hrest
  rintro k (rfl | rfl | ⟨name, rfl⟩) <;> simp

/-- The items of a module are read as they are written. -/
theorem takes_itemsOf (s : Style) {m : Module} (hm : m.Writable) {close : TokenKind}
    (hclose : close = .rightBrace ∨ close = .eof) :
    Takes (fun is => is.map Item.unplaced = m.items.map Item.unplaced)
      (m.items.flatMap (Item.written s)) (Before (· = close)) (items close item) := by
  refine takes_items (by rcases hclose with rfl | rfl <;> simp) m.items (fun i hi => ?_)
    fun i hi => takes_item s (hm i hi)
  refine (before_written_item s (hm i hi)).mono ?_
  rintro k (rfl | rfl | ⟨name, rfl⟩) <;> rcases hclose with rfl | rfl <;> simp

/-- What stands in a module is read as it is written, with the wrapper and without. -/
theorem takes_moduleItems (s : Style) {m : Module} (hm : m.Writable) :
    Takes (fun is => is.map Item.unplaced = m.items.map Item.unplaced) (m.written s)
      (Before (· = .eof)) moduleItems := by
  rw [Module.written]
  split
  · have hopen : Reading.Takes (fun _ => True) [.word "module", .leftBrace, .newline]
        (Before (· ≠ .newline)) (do
          Reading.advance
          Reading.expect .leftBrace
          Reading.skipNewlines) := by
      refine (Reading.takes_advance _).cons fun _ _ => ?_
      exact (Reading.takes_expect .leftBrace).cons fun _ _ => Reading.takes_skipNewlines rfl
    have hclose : Reading.Takes (fun _ => True) [.rightBrace, .newline]
        (Before (· ≠ .newline)) (do
          Reading.expect .rightBrace
          Reading.skipNewlines) :=
      (Reading.takes_expect .rightBrace).cons fun _ _ => Reading.takes_skipNewlines rfl
    refine Takes.kind_bind (p := (· = .word "module")) (fun rest _ => before_cons rfl) ?_
    rintro _ rfl
    rw [if_pos rfl]
    change Takes _ ([.word "module", .leftBrace, .newline] ++
      (m.items.flatMap (Item.written s) ++ [.rightBrace, .newline])) _ _
    refine (Takes.attempt hopen).bind (fun _ _ => ?_) fun rest _ => ?_
    · refine (takes_itemsOf s hm (.inl rfl)).bind (fun is his => ?_) fun rest _ => before_cons rfl
      exact (Takes.attempt hclose).bind_nil (fun _ _ => Takes.pure his) fun _ h =>
        h.mono fun k hk => by simp [hk]
    · rw [List.append_assoc]
      exact (before_items s hm (before_cons (by simp))).mono fun k hk => hk.1
  · refine Takes.kind_bind (p := (· ≠ .word "module")) (fun rest hrest => ?_) fun k hk => ?_
    · have hend := hrest.mono fun k (hk : k = .eof) =>
        (by simp [hk] : k ≠ .newline ∧ k ≠ .word "module")
      exact (before_items s hm hend).mono fun k hk => hk.2
    · rw [if_neg hk]
      exact takes_itemsOf s hm (.inr rfl)

/-- A module is read as it is written. -/
theorem takes_module (s : Style) {m : Module} (hm : m.Writable) :
    Takes (fun m' => m'.unplaced = m.unplaced) (m.written s) (Before (· = .eof))
      (module m.file) := by
  refine Takes.nil_bind (Reading.takes_skipNewlines rfl) (fun _ _ => ?_) fun rest hrest => ?_
  · refine Takes.after Reading.takes_spanHere fun start _ => ?_
    refine (takes_moduleItems s hm).bind_nil (fun is his => ?_) fun _ h => h
    refine Takes.kind_bind (p := (· = .eof)) (fun rest hrest => hrest) ?_
    rintro _ rfl
    rw [if_neg (by simp)]
    refine Takes.after Reading.takes_lastSpan fun last _ => Takes.pure ?_
    rw [Module.unplaced, Module.unplaced, his]
  · rw [Module.written]
    split
    · exact before_cons (by simp)
    · have hend := hrest.mono fun k (hk : k = .eof) =>
        (by simp [hk] : k ≠ .newline ∧ k ≠ .word "module")
      exact (before_items s hm hend).mono fun k hk => hk.1

end Noting

/-! ### Sources -/

/-- **The textual form loses nothing.**  A module that can be written has a text, and from every
text that spells its tokens the module is loaded again, but for the places where it stands. -/
theorem Module.load_written (s : Style) {m : Module} (hm : m.Writable) :
    Token.Spells (m.written s) (m.text s).toList ∧
      ∀ text : String, Token.Spells (m.written s) text.toList →
        ∃ m', (Source.mk m.file text).load = .ok m' ∧ m'.unplaced = m.unplaced := by
  refine ⟨m.spells_text s, fun text htext => ?_⟩
  obtain ⟨ts, hscan, hkinds⟩ := Token.scanAll_of_spells htext
    (List.all_eq_true.1 (Module.spellable_written s hm)) .origin
  obtain ⟨m', c, hread, -, hm'⟩ := Noting.takes_module s hm (.ofTokens ts) [.eof] hkinds
    (Reading.before_cons rfl)
  refine ⟨m', Source.load_eq_ok_iff.2 ⟨?_, ?_⟩, hm'⟩
  · rw [Source.lexicalProblems, hscan]
  · rw [Module.ofTokens?, Source.tokens, hscan, hread]

/-- A board with a light, two shared values, a lamp and one object of it. -/
def Module.assorted : Module where
  file := "lamp.mlir"
  span := default
  items := [
    .ofHardware ⟨⟨"A board", default⟩, [⟨"led", default⟩], default⟩,
    .ofOperation {
      result := some ⟨"0", default⟩
      action := .constant (.list (.bits 8) [.integer (-128), .string "a\"b\\c\nd\te"]) .any
      span := default },
    .ofOperation {
      result := some ⟨"led", default⟩
      action := .constant (.map .any [("é", .ref ⟨["A board", "led"]⟩)]) .any
      span := default },
    .ofClass {
      name := ⟨"Lamp", default⟩
      params := [⟨⟨"part.1", default⟩, .tuple [], default⟩]
      body := [⟨none, .field ⟨"a part", default⟩ ⟨"part.1", default⟩ .any, default⟩]
      span := default },
    .ofOperation {
      result := some ⟨"$", default⟩
      action := .object ⟨"Lamp", default⟩ [⟨"0", default⟩] [.string] (.object "Lamp")
      span := default }]

/-- It can be written, and it is loaded from its text. -/
theorem Module.load_written_assorted :
    Module.assorted.Writable ∧ ∃ m',
      (Source.mk "lamp.mlir" (Module.assorted.text ⟨true, true⟩)).load = .ok m' ∧
        m'.unplaced = Module.assorted.unplaced := by
  have hm : Module.assorted.Writable := by decide +kernel
  obtain ⟨hspells, hload⟩ := Module.load_written ⟨true, true⟩ hm
  exact ⟨hm, hload _ hspells⟩

end ObjectModel
