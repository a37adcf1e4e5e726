/-
**Readers go forward.**

A reader takes tokens, gives none back, and never takes the end of the text, wherever that stands in
the list of tokens.  This is so whether it has a result or stops at a problem.  Readers that ask for
parts of the same kind, such as types with types in them, take a token before they do, so what they
do depends only on what these parts do behind that token; the bound that is put on their depth or
length is therefore never reached.

Main definitions:

* `Cursor.Reaches` — taking tokens one comes from one cursor to another, not beyond the end;
* `Reading.Joint` — two readers do the same from a cursor on, and go forward;
* `Reading.Rounds` — readers with a bound, which is one less in each round.

Main results:

* `Reading.Joint.bind`, `Reading.Joint.advance_bind` — composed readers;
* `Reading.joint_rounds` — **no bound is reached** that is not below the number of tokens left;
* `Reading.joint_operation`, `Reading.joint_classHeader`, `Reading.joint_hardware` — what stands in
  a module is read forward.
-/

import ObjectModel.Proofs.Declarations

set_option relaxedAutoImplicit false
set_option autoImplicit false

namespace ObjectModel

/-! ### From one cursor to another -/

/-- From `c` one comes to `c'` by taking tokens, none of which is the end of the text. -/
def Cursor.Reaches (c c' : Cursor) : Prop := ∃ ts, c.Passes ts c' ∧ ∀ t ∈ ts, t.kind ≠ .eof

namespace Cursor

variable {c c' c'' : Cursor} {p : TokenKind → Bool}

/-- A token that does not end the text is one of those that are left. -/
theorem length_advance_lt (hc : c.final.kind = .eof) (hk : c.kind ≠ .eof) :
    c.advance.ahead.length < c.ahead.length := by
  have htaken := (Passes.advance (hc ▸ hk)).ahead
  rw [htaken]
  exact Nat.lt_succ_self _

namespace Reaches

theorem refl (c : Cursor) : c.Reaches c := ⟨[], .refl c, by simp⟩

theorem trans (h : c.Reaches c') (h' : c'.Reaches c'') : c.Reaches c'' := by
  obtain ⟨ts, hpass, hts⟩ := h
  obtain ⟨us, hpass', hus⟩ := h'
  exact ⟨ts ++ us, hpass.trans hpass', List.forall_mem_append.2 ⟨hts, hus⟩⟩

theorem final_eq (h : c.Reaches c') : c'.final = c.final := by
  obtain ⟨ts, hpass, -⟩ := h
  exact hpass.final_eq

theorem suffix (h : c.Reaches c') : c'.ahead <:+ c.ahead := by
  obtain ⟨ts, hpass, -⟩ := h
  exact ⟨ts, hpass.ahead.symm⟩

theorem length_le (h : c.Reaches c') : c'.ahead.length ≤ c.ahead.length := h.suffix.length_le

/-- Who has taken no token stands where he stood. -/
theorem eq_of_length_le (h : c.Reaches c') (hle : c.ahead.length ≤ c'.ahead.length) : c' = c := by
  obtain ⟨ts, hpass, -⟩ := h
  have hlen := congrArg List.length hpass.ahead
  rw [List.length_append] at hlen
  -- as many tokens are left as before, so none was taken
  obtain rfl : ts = [] := List.length_eq_zero_iff.1 (by omega)
  rw [hpass.cursor, ← List.nil_append c'.ahead, ← hpass.ahead]
  rfl

theorem advance (hc : c.final.kind = .eof) (hk : c.kind ≠ .eof) : c.Reaches c.advance :=
  ⟨[c.token], .advance (hc ▸ hk), List.forall_mem_singleton.2 hk⟩

theorem skipWhile (c : Cursor) (hp : p .eof = false) : c.Reaches (c.skipWhile p) := by
  refine ⟨_, .skipWhile c p, fun t ht hk => ?_⟩
  have htaken := List.mem_takeWhile_imp ht
  rw [hk, hp] at htaken
  cases htaken

theorem skipNewlines (c : Cursor) : c.Reaches c.skipNewlines := skipWhile c rfl

end Reaches

end Cursor

/-! ### Two readers from a cursor on -/

namespace Reading

variable {α β : Type}

/-- Where a reader stands in the end. -/
def stop (x : Reading α) (c : Cursor) : Cursor :=
  match x c with
  | .ok _ c' => c'
  | .error _ c' => c'

/-- From the cursor on the two readers do the same, and they go forward. -/
def Joint (x y : Reading α) (c : Cursor) : Prop :=
  c.final.kind = .eof → x c = y c ∧ c.Reaches (stop y c)

section Joint

variable {c : Cursor} {x y : Reading α} {f g : α → Reading β}

theorem stop_of_eq {c' : Cursor} (h : x c = y c') : stop x c = stop y c' := by
  rw [stop, stop, h]

theorem Joint.left (h : Joint x y c) : Joint x x c := fun hc =>
  ⟨rfl, stop_of_eq (h hc).1 ▸ (h hc).2⟩

theorem Joint.right (h : Joint x y c) : Joint y y c := fun hc => ⟨rfl, (h hc).2⟩

theorem joint_pure (a : α) : Joint (pure a) (pure a) c := fun _ => ⟨rfl, .refl c⟩

theorem joint_failAt (code : Code) (message : String) (span : Span) :
    Joint (failAt code message span : Reading α) (failAt code message span) c :=
  fun _ => ⟨rfl, .refl c⟩

theorem joint_fail (code : Code) (message : String) :
    Joint (fail code message : Reading α) (fail code message) c := fun _ => ⟨rfl, .refl c⟩

theorem joint_expected (code : Code) (what : String) :
    Joint (expected code what : Reading α) (expected code what) c := fun _ => ⟨rfl, .refl c⟩

/-- Readers one after the other. -/
theorem Joint.bind (hx : Joint x y c)
    (hf : ∀ a d, d.ahead.length ≤ c.ahead.length → Joint (f a) (g a) d) :
    Joint (x >>= f) (y >>= g) c := by
  intro hc
  obtain ⟨hsame, hreach⟩ := hx hc
  cases hy : y c with
  | error e d =>
      rw [hy] at hsame
      have hstop : stop (y >>= g) c = stop y c := by rw [stop, stop, bind_of_error hy, hy]
      exact ⟨(bind_of_error hsame).trans (bind_of_error hy).symm, hstop ▸ hreach⟩
  | ok a d =>
      rw [hy] at hsame
      rw [stop, hy] at hreach
      obtain ⟨hsame', hreach'⟩ := hf a d hreach.length_le (hreach.final_eq ▸ hc)
      have hstop : stop (y >>= g) c = stop (g a) d := stop_of_eq (bind_of_ok hy)
      refine ⟨?_, hstop ▸ hreach.trans hreach'⟩
      rw [bind_of_ok hsame, bind_of_ok hy, hsame']

theorem Joint.get_bind {f g : Cursor → Reading β} (h : Joint (f c) (g c) c) :
    Joint (get >>= f) (get >>= g) c := h

theorem Joint.kind_bind {f g : TokenKind → Reading β} (h : Joint (f c.kind) (g c.kind) c) :
    Joint (kind >>= f) (kind >>= g) c := h

theorem Joint.spanHere_bind {f g : Span → Reading β}
    (h : Joint (f c.token.span) (g c.token.span) c) :
    Joint (spanHere >>= f) (spanHere >>= g) c := h

theorem Joint.lastSpan_bind {f g : Span → Reading β} (h : Joint (f c.last) (g c.last) c) :
    Joint (lastSpan >>= f) (lastSpan >>= g) c := h

/-- Behind a token that is taken fewer tokens are left. -/
theorem Joint.advance_bind {f g : Unit → Reading β} (hk : c.kind ≠ .eof)
    (h : ∀ d, d.ahead.length < c.ahead.length → Joint (f ()) (g ()) d) :
    Joint (advance >>= f) (advance >>= g) c := by
  intro hc
  have hreach := Cursor.Reaches.advance hc hk
  obtain ⟨hsame, hreach'⟩ := h c.advance (Cursor.length_advance_lt hc hk) (hreach.final_eq ▸ hc)
  exact ⟨hsame, hreach.trans hreach'⟩

theorem joint_advance (hk : c.kind ≠ .eof) : Joint advance advance c :=
  fun hc => ⟨rfl, .advance hc hk⟩

theorem joint_skipWhile {p : TokenKind → Bool} (hp : p .eof = false) :
    Joint (modify (·.skipWhile p)) (modify (·.skipWhile p)) c := fun _ => ⟨rfl, .skipWhile c hp⟩

theorem joint_skipNewlines : Joint skipNewlines skipNewlines c := joint_skipWhile rfl

end Joint

/-! ### One token -/

section Token

variable {c : Cursor} {k : TokenKind}

theorem joint_expect (hk : k ≠ .eof) : Joint (expect k) (expect k) c := by
  refine Joint.kind_bind ?_
  split
  · next h => exact joint_advance (h ▸ hk)
  · exact joint_expected _ _

theorem Joint.eat_bind {f g : Bool → Reading β} (hk : k ≠ .eof)
    (htrue : ∀ d, d.ahead.length < c.ahead.length → Joint (f true) (g true) d)
    (hfalse : Joint (f false) (g false) c) : Joint (eat k >>= f) (eat k >>= g) c := by
  rw [eat_bind_eq, eat_bind_eq]
  refine Joint.kind_bind ?_
  split
  · next h => exact Joint.advance_bind (h ▸ hk) htrue
  · exact hfalse

theorem joint_expectSome {what : String} {pick : TokenKind → Option α} (hpick : pick .eof = none) :
    Joint (expectSome what pick) (expectSome what pick) c := by
  refine Joint.kind_bind ?_
  split
  · next a ha =>
      have hk : c.kind ≠ .eof := by
        intro hk
        rw [hk, hpick] at ha
        cases ha
      exact Joint.advance_bind hk fun _ _ => joint_pure a
  · exact joint_expected _ _

theorem joint_valueName : Joint valueName valueName c := Joint.spanHere_bind (joint_expectSome rfl)

theorem joint_symbolName : Joint symbolName symbolName c :=
  Joint.spanHere_bind (joint_expectSome rfl)

theorem joint_integerLiteral : Joint integerLiteral integerLiteral c := joint_expectSome rfl

theorem joint_lineEnd : Joint lineEnd lineEnd c := by
  refine Joint.kind_bind ?_
  split
  · exact joint_skipNewlines
  · exact joint_pure ()
  · exact joint_pure ()
  · exact joint_expected _ _

end Token

/-! ### Bounds -/

/-- The reader with the bound `n` makes the round `F`, and the bound is one less for what is read
later.  Only where no token is left may the bound be zero. -/
def Rounds (F : Reading α → Reading α) (x : Nat → Reading α) : Prop :=
  ∀ n (c : Cursor), c.final.kind = .eof → c.ahead.length ≤ n → x n c = F (x (n - 1)) c

theorem rounds_of {F : Reading α → Reading α} {x : Nat → Reading α}
    (hzero : ∀ c : Cursor, c.final.kind = .eof → c.ahead = [] → x 0 c = F (x 0) c)
    (hsucc : ∀ n, x (n + 1) = F (x n)) : Rounds F x := by
  intro n c hc hn
  cases n with
  | zero => exact hzero c hc (List.length_eq_zero_iff.1 (Nat.le_zero.1 hn))
  | succ n => rw [hsucc, Nat.add_sub_cancel]

/-- Where no token is left the text ends. -/
theorem kind_of_nil {c : Cursor} (hc : c.final.kind = .eof) (hnil : c.ahead = []) :
    c.kind = .eof := by
  rw [Cursor.kind, Cursor.token, hnil]
  exact hc

/-- **No bound is reached** that is not below the number of tokens left: readers with such bounds do
the same, whatever the bounds are, when their rounds do and each round takes a token before it goes
on. -/
theorem joint_rounds {F G : Reading α → Reading α} {x y : Nat → Reading α} {k : Nat}
    (hx : Rounds F x) (hy : Rounds G y)
    (hround : ∀ r s c, c.ahead.length ≤ k →
      (∀ d, d.ahead.length < c.ahead.length → Joint r s d) → Joint (F r) (G s) c)
    (c : Cursor) (hk : c.ahead.length ≤ k) :
    ∀ m n, c.ahead.length ≤ m → c.ahead.length ≤ n → Joint (x m) (y n) c := by
  -- on the number of tokens left: a round takes one of them before it asks for what comes later
  induction hsize : c.ahead.length using Nat.strong_induction_on generalizing c with
  | _ size ih =>
      subst hsize
      intro m n hm hn hc
      obtain ⟨hsame, hreach⟩ := hround (x (m - 1)) (y (n - 1)) c hk
        (fun d hd => ih _ hd d (by omega) rfl _ _ (by omega) (by omega)) hc
      have hstop : stop (y n) c = stop (G (y (n - 1))) c := stop_of_eq (hy n c hc hn)
      refine ⟨?_, hstop ▸ hreach⟩
      rw [hx m c hc hm, hy n c hc hn, hsame]

/-! ### Lists -/

section Lists

variable {c : Cursor} {item item' : Reading α} {later later' : Reading (List α)}

theorem joint_commaSeparatedWith (hitem : Joint item item' c)
    (hlater : ∀ d, d.ahead.length < c.ahead.length → Joint later later' d) :
    Joint (commaSeparatedWith item later) (commaSeparatedWith item' later') c := by
  refine hitem.bind fun a d hd => Joint.eat_bind (by decide) (fun e he => ?_) (joint_pure _)
  exact (hlater e (by omega)).bind fun as _ _ => joint_pure _

theorem rounds_commaSeparatedUpTo (hitem : ∀ d : Cursor, d.ahead = [] → Joint item item d) :
    Rounds (commaSeparatedWith item) (commaSeparatedUpTo item) := by
  refine rounds_of (fun c hc hnil => ?_) fun n => rfl
  obtain ⟨-, hreach⟩ := hitem c hnil hc
  change (item >>= fun a => pure [a]) c = (item >>= fun a => eat .comma >>= fun b =>
    if b then do return a :: (← commaSeparatedUpTo item 0) else return [a]) c
  cases hread : item c with
  | error e d => rw [bind_of_error hread, bind_of_error hread]
  | ok a d =>
      rw [stop, hread] at hreach
      -- no comma stands where the text ends, so the list ends with this item
      have hd : d.kind = .eof := kind_of_nil (hreach.final_eq ▸ hc)
        (List.suffix_nil.1 (hnil ▸ hreach.suffix))
      rw [bind_of_ok hread, bind_of_ok hread, eat_bind_eq, kind_bind_run, hd]
      rfl

theorem joint_commaSeparated
    (hitem : ∀ d, d.ahead.length ≤ c.ahead.length → Joint item item' d) :
    Joint (commaSeparated item) (commaSeparated item') c := by
  have hleft : Rounds (commaSeparatedWith item) (commaSeparatedUpTo item) :=
    rounds_commaSeparatedUpTo fun d hd => (hitem d (by simp [hd])).left
  have hright : Rounds (commaSeparatedWith item') (commaSeparatedUpTo item') :=
    rounds_commaSeparatedUpTo fun d hd => (hitem d (by simp [hd])).right
  refine Joint.get_bind (joint_rounds hleft hright ?_ c (Nat.le_refl _) _ _ (Nat.le_refl _)
    (Nat.le_refl _))
  exact fun r s d hd hlater => joint_commaSeparatedWith (hitem d hd) hlater

theorem joint_commaSeparatedBefore (close : TokenKind)
    (hitem : ∀ d, d.ahead.length ≤ c.ahead.length → Joint item item' d) :
    Joint (commaSeparatedBefore close item) (commaSeparatedBefore close item') c := by
  refine Joint.kind_bind ?_
  split
  · exact joint_pure []
  · exact joint_commaSeparated hitem

theorem joint_operandsWith {later later' : Reading (List Ident)}
    (hlater : ∀ d, d.ahead.length < c.ahead.length → Joint later later' d) :
    Joint (operandsWith later) (operandsWith later') c := by
  refine Joint.kind_bind ?_
  split
  · refine joint_valueName.bind fun x d hd => Joint.eat_bind (by decide) (fun e he => ?_)
      (joint_pure _)
    exact (hlater e (by omega)).bind fun xs _ _ => joint_pure _
  · exact joint_pure []

theorem rounds_operandsUpTo : Rounds operandsWith operandsUpTo := by
  refine rounds_of (fun c hc hnil => ?_) fun n => rfl
  rw [operandsWith, kind_bind_run, kind_of_nil hc hnil]
  rfl

theorem joint_operands : Joint operands operands c :=
  Joint.get_bind (joint_rounds rounds_operandsUpTo rounds_operandsUpTo
    (fun _ _ _ _ => joint_operandsWith) c (Nat.le_refl _) _ _ (Nat.le_succ _) (Nat.le_succ _))

end Lists

/-! ### Types and constants -/

section Values

variable {c : Cursor}

/-- A type is read alike when the types nested in it are. -/
theorem joint_tyWith {inner inner' : Reading Ty}
    (hinner : ∀ d, d.ahead.length < c.ahead.length → Joint inner inner' d) :
    Joint (tyWith inner) (tyWith inner') c := by
  refine Joint.spanHere_bind (Joint.kind_bind ?_)
  cases hk : c.kind with
  | typeName name =>
      refine Joint.advance_bind (by simp [hk]) fun d hd => ?_
      split
      · exact joint_pure _
      · exact joint_pure _
      · exact joint_pure _
      · exact joint_pure _
      · refine (joint_expect (by decide)).bind fun _ e he => ?_
        refine (hinner e (by omega)).bind fun element _ _ => ?_
        exact (joint_expect (by decide)).bind fun _ _ _ => joint_pure _
      · refine (joint_expect (by decide)).bind fun _ e he => ?_
        refine (hinner e (by omega)).bind fun key e' he' => ?_
        refine (joint_expect (by decide)).bind fun _ e'' he'' => ?_
        refine (hinner e'' (by omega)).bind fun value _ _ => ?_
        exact (joint_expect (by decide)).bind fun _ _ _ => joint_pure _
      · refine (joint_expect (by decide)).bind fun _ _ _ => ?_
        refine joint_symbolName.bind fun target _ _ => ?_
        exact (joint_expect (by decide)).bind fun _ _ _ => joint_pure _
      · exact joint_failAt _ _ _
  | word name =>
      have hne : c.kind ≠ .eof := by simp [hk]
      split
      · next h => cases h
      · refine Joint.advance_bind hne fun d hd => (joint_expect (by decide)).bind fun _ e he => ?_
        refine (joint_commaSeparatedBefore .greater fun e' he' => hinner e' (by omega)).bind
          fun elements _ _ => ?_
        exact (joint_expect (by decide)).bind fun _ _ _ => joint_pure _
      · split
        · exact Joint.advance_bind hne fun _ _ => joint_pure _
        · exact joint_failAt _ _ _
      · exact joint_expected _ _
  | _ => exact joint_expected _ _

theorem rounds_tyUpTo : Rounds tyWith tyUpTo := by
  refine rounds_of (fun c hc hnil => ?_) fun n => rfl
  have hend : tyWith (tyUpTo 0) c = (expected .unexpectedToken "type" : Reading Ty) c :=
    spanHere_kind_bind (kind_of_nil hc hnil)
  exact hend.symm

theorem joint_tyUpTo : ∀ m n, c.ahead.length ≤ m → c.ahead.length ≤ n →
    Joint (tyUpTo m) (tyUpTo n) c :=
  joint_rounds rounds_tyUpTo rounds_tyUpTo (fun _ _ _ _ => joint_tyWith) c (Nat.le_refl _)

theorem joint_ty : Joint ty ty c :=
  Joint.get_bind (joint_tyUpTo _ _ (Nat.le_succ _) (Nat.le_succ _))

theorem joint_tysBefore (close : TokenKind) : Joint (tysBefore close) (tysBefore close) c :=
  joint_commaSeparatedBefore close fun _ _ => joint_ty

theorem joint_optionalTy : Joint optionalTy optionalTy c :=
  Joint.eat_bind (by decide) (fun _ _ => joint_ty.bind fun _ _ _ => joint_pure ()) (joint_pure ())

theorem joint_mapKey : Joint mapKey mapKey c := by
  refine Joint.kind_bind ?_
  cases hk : c.kind with
  | word key => exact Joint.advance_bind (by simp [hk]) fun _ _ => joint_pure _
  | string key => exact Joint.advance_bind (by simp [hk]) fun _ _ => joint_pure _
  | _ => exact joint_expected _ _

theorem joint_segmentsWith {later later' : Reading (List String)}
    (hlater : ∀ d, d.ahead.length < c.ahead.length → Joint later later' d) :
    Joint (segmentsWith later) (segmentsWith later') c := by
  refine joint_symbolName.bind fun segment d hd => Joint.eat_bind (by decide) (fun e he => ?_)
    (joint_pure _)
  exact (hlater e (by omega)).bind fun _ _ _ => joint_pure _

theorem rounds_segmentsUpTo : Rounds segmentsWith segmentsUpTo := by
  refine rounds_of (fun c hc hnil => ?_) fun n => rfl
  have hname : symbolName c = (expected .unexpectedToken "symbol name" : Reading Ident) c :=
    spanHere_kind_bind (kind_of_nil hc hnil)
  exact (bind_of_error hname).trans (bind_of_error hname).symm

theorem joint_segmentsUpTo : ∀ m n, c.ahead.length ≤ m → c.ahead.length ≤ n →
    Joint (segmentsUpTo m) (segmentsUpTo n) c :=
  joint_rounds rounds_segmentsUpTo rounds_segmentsUpTo (fun _ _ _ _ => joint_segmentsWith) c
    (Nat.le_refl _)

theorem joint_symbolPath : Joint symbolPath symbolPath c := by
  refine (joint_expect (by decide)).bind fun _ _ _ => ?_
  refine (joint_expect (by decide)).bind fun _ d _ => ?_
  refine Joint.get_bind ((joint_segmentsUpTo _ _ (Nat.le_refl _) (Nat.le_refl _)).bind
    fun segments _ _ => ?_)
  refine (joint_expect (by decide)).bind fun _ _ _ => ?_
  refine (joint_expect (by decide)).bind fun _ _ _ => ?_
  exact joint_pure _

/-- A constant is read alike when the constants nested in it are. -/
theorem joint_constantWith {inner inner' : Reading Attribute}
    (hinner : ∀ d, d.ahead.length < c.ahead.length → Joint inner inner' d) :
    Joint (constantWith inner) (constantWith inner') c := by
  refine Joint.spanHere_bind (Joint.kind_bind ?_)
  cases hk : c.kind with
  | integer n => exact Joint.advance_bind (by simp [hk]) fun _ _ => joint_pure _
  | string text => exact Joint.advance_bind (by simp [hk]) fun _ _ => joint_pure _
  | attrName name =>
      refine Joint.advance_bind (by simp [hk]) fun d hd => ?_
      split
      · refine (joint_expect (by decide)).bind fun _ _ _ => ?_
        refine joint_integerLiteral.bind fun n _ _ => ?_
        exact (joint_expect (by decide)).bind fun _ _ _ => joint_pure _
      · refine (joint_expect (by decide)).bind fun _ e he => joint_ty.bind fun t e₁ he₁ => ?_
        refine (joint_expect (by decide)).bind fun _ e₂ he₂ => ?_
        refine (joint_expect (by decide)).bind fun _ e₃ he₃ => ?_
        refine (joint_commaSeparatedBefore .rightBracket fun e' he' => ?_).bind
          fun elements _ _ => ?_
        · refine (hinner e' (by omega)).bind fun element _ _ => ?_
          exact joint_optionalTy.bind fun _ _ _ => joint_pure _
        · refine (joint_expect (by decide)).bind fun _ _ _ => ?_
          exact (joint_expect (by decide)).bind fun _ _ _ => joint_pure _
      · refine (joint_expect (by decide)).bind fun _ e he => joint_ty.bind fun t e₁ he₁ => ?_
        refine (joint_expect (by decide)).bind fun _ e₂ he₂ => ?_
        refine (joint_expect (by decide)).bind fun _ e₃ he₃ => ?_
        refine (joint_commaSeparatedBefore .rightBrace fun e' he' => ?_).bind fun entries _ _ => ?_
        · refine joint_mapKey.bind fun key e₄ he₄ => ?_
          refine (joint_expect (by decide)).bind fun _ e₅ he₅ => ?_
          refine (hinner e₅ (by omega)).bind fun value _ _ => ?_
          exact joint_optionalTy.bind fun _ _ _ => joint_pure _
        · refine (joint_expect (by decide)).bind fun _ _ _ => ?_
          exact (joint_expect (by decide)).bind fun _ _ _ => joint_pure _
      · exact joint_symbolPath.bind fun path _ _ => joint_pure _
      · exact joint_failAt _ _ _
  | _ => exact joint_expected _ _

theorem rounds_constantUpTo : Rounds constantWith constantUpTo := by
  refine rounds_of (fun c hc hnil => ?_) fun n => rfl
  have hend : constantWith (constantUpTo 0) c =
      (expected .invalidAttribute "constant attribute" : Reading Attribute) c :=
    spanHere_kind_bind (kind_of_nil hc hnil)
  exact hend.symm

theorem joint_constantUpTo : ∀ m n, c.ahead.length ≤ m → c.ahead.length ≤ n →
    Joint (constantUpTo m) (constantUpTo n) c :=
  joint_rounds rounds_constantUpTo rounds_constantUpTo (fun _ _ _ _ => joint_constantWith) c
    (Nat.le_refl _)

theorem joint_constant : Joint constant constant c :=
  Joint.get_bind (joint_constantUpTo _ _ (Nat.le_succ _) (Nat.le_succ _))

end Values

/-! ### Operations -/

section Operations

variable {c : Cursor}

theorem joint_unknownOperation (name : String) (span : Span) :
    Joint (unknownOperation name span : Reading α) (unknownOperation name span) c := by
  unfold unknownOperation
  split
  · exact joint_failAt _ _ _
  · exact fun _ => ⟨rfl, .refl c⟩

theorem joint_objectAction : Joint objectAction objectAction c := by
  refine joint_symbolName.bind fun target _ _ => (joint_expect (by decide)).bind fun _ _ _ => ?_
  refine joint_operands.bind fun actuals _ _ => (joint_expect (by decide)).bind fun _ _ _ => ?_
  refine (joint_expect (by decide)).bind fun _ _ _ => ?_
  refine (joint_expect (by decide)).bind fun _ _ _ => ?_
  refine (joint_tysBefore _).bind fun tys _ _ => (joint_expect (by decide)).bind fun _ _ _ => ?_
  refine (joint_expect (by decide)).bind fun _ _ _ => joint_ty.bind fun ty _ _ => ?_
  split
  · exact joint_pure _
  · exact joint_failAt _ _ _

theorem joint_tupleAction : Joint tupleAction tupleAction c := by
  refine Joint.spanHere_bind (joint_operands.bind fun elements _ _ => ?_)
  refine (joint_expect (by decide)).bind fun _ _ _ => (joint_tysBefore _).bind fun tys _ _ => ?_
  split
  · exact joint_pure _
  · exact joint_failAt _ _ _

theorem joint_action (inClass : Bool) (name : String) (span : Span) :
    Joint (action inClass name span) (action inClass name span) c := by
  unfold action
  split
  · refine joint_constant.bind fun value _ _ => (joint_expect (by decide)).bind fun _ _ _ => ?_
    exact joint_ty.bind fun ty _ _ => joint_pure _
  · exact joint_objectAction
  · refine joint_operands.bind fun elements _ _ => (joint_expect (by decide)).bind fun _ _ _ => ?_
    exact joint_ty.bind fun ty _ _ => joint_pure _
  · exact joint_tupleAction
  · refine joint_operands.bind fun entries _ _ => (joint_expect (by decide)).bind fun _ _ _ => ?_
    refine joint_ty.bind fun key _ _ => (joint_expect (by decide)).bind fun _ _ _ => ?_
    exact joint_ty.bind fun value _ _ => joint_pure _
  · split
    · refine joint_symbolName.bind fun field _ _ => (joint_expect (by decide)).bind fun _ _ _ => ?_
      refine joint_valueName.bind fun value _ _ => (joint_expect (by decide)).bind fun _ _ _ => ?_
      exact joint_ty.bind fun ty _ _ => joint_pure _
    · exact joint_failAt _ _ _
  · exact joint_unknownOperation _ _

theorem joint_resultName : Joint resultName resultName c := by
  refine Joint.kind_bind ?_
  split
  · refine joint_valueName.bind fun name _ _ => (joint_expect (by decide)).bind fun _ _ _ => ?_
    exact joint_pure _
  · exact joint_pure none

theorem joint_operationName : Joint operationName operationName c := by
  refine Joint.kind_bind ?_
  cases hk : c.kind with
  | word name => exact Joint.advance_bind (by simp [hk]) fun _ _ => joint_pure name
  | _ => exact joint_expected _ _

theorem joint_checkResult (result : Option Ident) (a : Action) (span : Span) :
    Joint (checkResult result a span) (checkResult result a span) c := by
  unfold checkResult
  split
  · exact joint_failAt _ _ _
  · split
    · exact joint_failAt _ _ _
    · exact joint_pure ()

theorem joint_operation (inClass : Bool) : Joint (operation inClass) (operation inClass) c := by
  refine Joint.spanHere_bind (joint_resultName.bind fun result _ _ => ?_)
  refine Joint.spanHere_bind (joint_operationName.bind fun name _ _ => ?_)
  refine (joint_action _ _ _).bind fun action _ _ => (joint_checkResult _ _ _).bind fun _ _ _ => ?_
  exact Joint.lastSpan_bind (joint_lineEnd.bind fun _ _ _ => joint_pure _)

end Operations

/-! ### Declarations -/

section Declarations

variable {c : Cursor}

theorem joint_param : Joint param param c := by
  refine joint_valueName.bind fun name _ _ => (joint_expect (by decide)).bind fun _ _ _ => ?_
  exact joint_ty.bind fun ty _ _ => Joint.lastSpan_bind (joint_pure _)

theorem joint_classHeader (hk : c.kind ≠ .eof) : Joint classHeader classHeader c := by
  refine Joint.advance_bind hk fun _ _ => joint_symbolName.bind fun name _ _ => ?_
  refine (joint_expect (by decide)).bind fun _ _ _ => ?_
  refine (joint_commaSeparatedBefore _ fun _ _ => joint_param).bind fun params _ _ => ?_
  refine (joint_expect (by decide)).bind fun _ _ _ => ?_
  refine (joint_expect (by decide)).bind fun _ _ _ => ?_
  exact joint_skipNewlines.bind fun _ _ _ => joint_pure _

theorem joint_closeBody (start : Span) (what : String) :
    Joint (closeBody start what) (closeBody start what) c := by
  refine Joint.kind_bind ?_
  split
  · next hk =>
      refine Joint.advance_bind (by simp [hk]) fun _ _ => Joint.lastSpan_bind ?_
      exact joint_lineEnd.bind fun _ _ _ => joint_pure _
  · exact joint_fail _ _

end Declarations

end Reading

/-- The text does not end in the body of a hardware module. -/
theorem HardwareModule.kind_ne_of_mem_splitBody (depth : Nat) (ts : List Token) :
    ∀ t ∈ (splitBody depth ts).1, t.kind ≠ .eof := by
  induction ts generalizing depth with
  | nil => simp [splitBody]
  | cons t ts ih =>
      unfold splitBody
      split
      · simp
      · simp
      · next hk => exact List.forall_mem_cons.2 ⟨by simp [hk], ih _⟩
      · next hk => exact List.forall_mem_cons.2 ⟨by simp [hk], ih _⟩
      · next hk _ _ _ => exact List.forall_mem_cons.2 ⟨hk, ih _⟩

/-- Where the body of a hardware module ends. -/
theorem Cursor.Reaches.splitBody (c : Cursor) (depth : Nat) :
    c.Reaches (c.advanceTo (HardwareModule.splitBody depth c.ahead).1
      (HardwareModule.splitBody depth c.ahead).2) :=
  ⟨_, ⟨(HardwareModule.splitBody_append depth c.ahead).symm, rfl⟩,
    HardwareModule.kind_ne_of_mem_splitBody depth c.ahead⟩

theorem Reading.joint_hardwareBody {c : Cursor} : Joint hardwareBody hardwareBody c :=
  fun _ => ⟨rfl, .splitBody c 0⟩

theorem Reading.joint_hardware {c : Cursor} (hk : c.kind ≠ .eof) : Joint hardware hardware c := by
  refine Joint.spanHere_bind (Joint.advance_bind hk fun _ _ => ?_)
  refine joint_symbolName.bind fun name d _ => ?_
  refine (joint_skipWhile rfl).bind fun _ e _ => Joint.kind_bind ?_
  split
  · next hopen =>
      refine Joint.advance_bind (by simp [hopen]) fun _ _ => joint_hardwareBody.bind fun _ _ _ => ?_
      exact (joint_closeBody _ _).bind fun span _ _ => joint_pure _
  · exact (joint_fail _ _).bind fun _ _ _ => joint_hardwareBody.bind fun _ _ _ =>
      (joint_closeBody _ _).bind fun span _ _ => joint_pure _

end ObjectModel
