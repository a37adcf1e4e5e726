/-
**Tokens that readers take.**

What a reader does is known from the kinds of the tokens ahead.  A reader takes a list of tokens if
it ends behind them with a result whenever they stand next and something suitable follows; readers
one after the other take lists one after the other.

Main definitions:

* `Cursor.kinds` — the kinds of the tokens ahead;
* `Reading.Takes` — a reader takes a list of tokens;
* `Reading.Before` — what follows begins with a token of some kind.

Main results:

* `Reading.Takes.bind` — readers one after the other;
* `Reading.takes_commaSeparatedBefore`, `Reading.takes_operands` — lists;
* `Reading.takes_ty`, `Reading.takes_constant` — types and constants are read as they are written.
-/

import ObjectModel.Operation.Reading
import ObjectModel.Proofs.Writing

set_option relaxedAutoImplicit false
set_option autoImplicit false

namespace ObjectModel

/-- The kinds of the tokens ahead. -/
def Cursor.kinds (c : Cursor) : List TokenKind := c.ahead.map Token.kind

namespace Reading

variable {α β γ : Type}

/-! ### Readers one after the other -/

/-- The reader takes the tokens `ks`, when what follows them satisfies `F`, and has a result with
the property `P`. -/
def Takes (P : α → Prop) (ks : List TokenKind) (F : List TokenKind → Prop) (x : Reading α) : Prop :=
  ∀ c rest, c.kinds = ks ++ rest → F rest →
    ∃ a c', x c = .ok a c' ∧ c'.kinds = rest ∧ P a

/-- Anything may follow. -/
abbrev Any : List TokenKind → Prop := fun _ => True

/-- What follows begins with a token with the property `p`. -/
def Before (p : TokenKind → Prop) (rest : List TokenKind) : Prop := ∃ k ks, rest = k :: ks ∧ p k

theorem before_cons {p : TokenKind → Prop} {k : TokenKind} {ks : List TokenKind} (h : p k) :
    Before p (k :: ks) := ⟨k, ks, rfl, h⟩

theorem Before.mono {p q : TokenKind → Prop} {rest : List TokenKind} (h : Before p rest)
    (hpq : ∀ k, p k → q k) : Before q rest := by
  obtain ⟨k, ks, rfl, hk⟩ := h
  exact before_cons (hpq k hk)

theorem Before.append {p : TokenKind → Prop} {ks rest : List TokenKind} (h : Before p ks) :
    Before p (ks ++ rest) := by
  obtain ⟨k, ls, rfl, hk⟩ := h
  exact before_cons hk

section Takes

variable {P : α → Prop} {Q : β → Prop} {ks ls : List TokenKind} {k : TokenKind}
  {F G : List TokenKind → Prop} {x : Reading α} {f : α → Reading β}

theorem Takes.mono {P' : α → Prop} {F' : List TokenKind → Prop} (h : Takes P ks F x)
    (hP : ∀ a, P a → P' a) (hF : ∀ rest, F' rest → F rest) : Takes P' ks F' x := by
  intro c rest hc hrest
  obtain ⟨a, c', ha, hc', hP'⟩ := h c rest hc (hF rest hrest)
  exact ⟨a, c', ha, hc', hP a hP'⟩

theorem Takes.pure {a : α} (ha : P a) : Takes P [] F (Pure.pure a : Reading α) :=
  fun c _ hc _ => ⟨a, c, rfl, hc, ha⟩

/-- Readers one after the other take lists one after the other. -/
theorem Takes.bind (hx : Takes P ks F x) (hf : ∀ a, P a → Takes Q ls G (f a))
    (hF : ∀ rest, G rest → F (ls ++ rest)) : Takes Q (ks ++ ls) G (x >>= f) := by
  intro c rest hc hrest
  rw [List.append_assoc] at hc
  obtain ⟨a, c₁, ha, hc₁, hP⟩ := hx c _ hc (hF rest hrest)
  obtain ⟨b, c₂, hb, hc₂, hQ⟩ := hf a hP c₁ rest hc₁ hrest
  refine ⟨b, c₂, ?_, hc₂, hQ⟩
  change EStateM.bind x f c = _
  rw [EStateM.bind, ha]
  exact hb

/-- A reader that does not look at what follows. -/
theorem Takes.append (hx : Takes P ks Any x) (hf : ∀ a, P a → Takes Q ls G (f a)) :
    Takes Q (ks ++ ls) G (x >>= f) :=
  hx.bind hf fun _ _ => trivial

/-- A reader of one token. -/
theorem Takes.cons (hx : Takes P [k] Any x) (hf : ∀ a, P a → Takes Q ls G (f a)) :
    Takes Q (k :: ls) G (x >>= f) :=
  hx.append hf

/-- A reader that takes nothing, and may look at what follows. -/
theorem Takes.nil_bind (hx : Takes P [] F x) (hf : ∀ a, P a → Takes Q ls G (f a))
    (hF : ∀ rest, G rest → F (ls ++ rest)) : Takes Q ls G (x >>= f) :=
  hx.bind hf hF

/-- A reader that takes nothing. -/
theorem Takes.after (hx : Takes P [] Any x) (hf : ∀ a, P a → Takes Q ls G (f a)) :
    Takes Q ls G (x >>= f) :=
  hx.append hf

/-- A reader behind which nothing is left to take. -/
theorem Takes.bind_nil (hx : Takes P ks F x) (hf : ∀ a, P a → Takes Q [] G (f a))
    (hF : ∀ rest, G rest → F rest) : Takes Q ks G (x >>= f) := by
  rw [← List.append_nil ks]
  exact hx.bind hf hF

/-- The same behind a reader that does not look at what follows. -/
theorem Takes.last (hx : Takes P ks Any x) (hf : ∀ a, P a → Takes Q [] G (f a)) :
    Takes Q ks G (x >>= f) :=
  hx.bind_nil hf fun _ _ => trivial

/-- A reader that looks at the cursor and counts the tokens ahead. -/
theorem Takes.get_bind {f : Cursor → Reading β}
    (hf : ∀ c : Cursor, ks.length ≤ c.ahead.length → Takes Q ks G (f c)) :
    Takes Q ks G (get >>= f) := by
  intro c rest hc hrest
  have hlen : c.ahead.length = (ks ++ rest).length := by rw [← hc, Cursor.kinds, List.length_map]
  rw [List.length_append] at hlen
  exact hf c (by omega) c rest hc hrest

end Takes

/-! ### One token -/

section Token

variable {Q : β → Prop} {ls : List TokenKind} {k : TokenKind} {G : List TokenKind → Prop}

theorem kind_of_kinds {c : Cursor} {ks : List TokenKind} (h : c.kinds = k :: ks) : c.kind = k := by
  obtain ⟨ahead, final, last⟩ := c
  cases ahead with
  | nil => cases h
  | cons t ts => exact (List.cons.inj h).1

theorem kinds_advance {c : Cursor} {ks : List TokenKind} (h : c.kinds = k :: ks) :
    c.advance.kinds = ks := by
  obtain ⟨ahead, final, last⟩ := c
  cases ahead with
  | nil => cases h
  | cons t ts => exact (List.cons.inj h).2

/-- A reader that looks at the next token, which it will take. -/
theorem Takes.kind_cons {f : TokenKind → Reading β} (hf : Takes Q (k :: ls) G (f k)) :
    Takes Q (k :: ls) G (kind >>= f) := by
  intro c rest hc hrest
  obtain ⟨b, c', hb, hc', hQ⟩ := hf c rest hc hrest
  refine ⟨b, c', ?_, hc', hQ⟩
  rw [← hb, ← kind_of_kinds hc]
  rfl

/-- A reader that looks at the next token and takes nothing. -/
theorem Takes.kind_before {p : TokenKind → Prop} {f : TokenKind → Reading β}
    (hf : ∀ k, p k → Takes Q [] (Before (· = k)) (f k)) :
    Takes Q [] (Before p) (kind >>= f) := by
  rintro c rest hc ⟨k, ks, rfl, hk⟩
  obtain ⟨b, c', hb, hc', hQ⟩ := hf k hk c (k :: ks) hc (before_cons rfl)
  refine ⟨b, c', ?_, hc', hQ⟩
  rw [← hb, ← kind_of_kinds hc]
  rfl

theorem takes_spanHere : Takes (fun _ => True) [] Any spanHere :=
  fun c _ hc _ => ⟨c.token.span, c, rfl, hc, trivial⟩

theorem takes_lastSpan : Takes (fun _ => True) [] Any lastSpan :=
  fun c _ hc _ => ⟨c.last, c, rfl, hc, trivial⟩

theorem takes_advance (k : TokenKind) : Takes (fun _ => True) [k] Any advance :=
  fun c _ hc _ => ⟨(), c.advance, rfl, kinds_advance hc, trivial⟩

theorem takes_eat (k : TokenKind) : Takes (· = true) [k] Any (eat k) := by
  refine Takes.kind_cons ?_
  rw [if_pos rfl]
  exact (takes_advance k).cons fun _ _ => Takes.pure rfl

theorem takes_eat_not (k : TokenKind) : Takes (· = false) [] (Before (· ≠ k)) (eat k) := by
  refine Takes.kind_before fun k' hk' => ?_
  rw [if_neg hk']
  exact Takes.pure rfl

theorem takes_expect (k : TokenKind) : Takes (fun _ => True) [k] Any (expect k) := by
  refine Takes.kind_cons ?_
  rw [if_pos rfl]
  exact takes_advance k

theorem takes_expectSome {what : String} {pick : TokenKind → Option β} {b : β}
    (h : pick k = some b) (hb : Q b) : Takes Q [k] Any (expectSome what pick) := by
  refine Takes.kind_cons ?_
  rw [h]
  exact (takes_advance k).cons fun _ _ => Takes.pure hb

theorem takes_valueName (x : Ident) :
    Takes (fun a => a.unplaced = x.unplaced) [.value x.name] Any valueName :=
  takes_spanHere.after fun _ _ => takes_expectSome rfl rfl

theorem takes_symbolName (x : Ident) :
    Takes (fun a => a.unplaced = x.unplaced) [.symbol x.name] Any symbolName :=
  takes_spanHere.after fun _ _ => takes_expectSome rfl rfl

theorem takes_integerLiteral (n : Int64) : Takes (· = n) [.integer n] Any integerLiteral :=
  takes_expectSome rfl rfl

end Token

/-! ### Lists -/

theorem length_le_intercalate (sep : TokenKind) (ks : List TokenKind)
    (kss : List (List TokenKind)) :
    kss.length ≤ (List.intercalate [sep] (ks :: kss)).length := by
  induction kss generalizing ks with
  | nil => exact Nat.zero_le _
  | cons ls kss ih =>
      have := ih ls
      rw [List.intercalate_cons_cons, List.length_append, List.length_append, List.length_cons,
        List.length_singleton]
      omega

theorem length_le_commas_of_mem {ks : List TokenKind} {kss : List (List TokenKind)}
    (h : ks ∈ kss) : ks.length ≤ (commas kss).length := by
  induction kss with
  | nil => cases h
  | cons ls kss ih =>
      cases kss with
      | nil =>
          obtain rfl := List.mem_singleton.1 h
          simp
      | cons ms kss =>
          rw [commas_cons_cons, List.length_append, List.length_cons]
          rcases List.mem_cons.1 h with rfl | h
          · omega
          · have := ih h
            omega

section Lists

variable {f : α → γ} {g : β → γ} {w : β → List TokenKind} {close : TokenKind} {item : Reading α}

/-- Items with commas between them are read one by one. -/
theorem takes_commaSeparatedUpTo (hclose : close ≠ .comma) (b : β) (bs : List β)
    (hitem : ∀ b' ∈ b :: bs,
      Takes (fun a => f a = g b') (w b') (Before fun k => k = .comma ∨ k = close) item)
    {n : Nat} (hn : bs.length ≤ n) :
    Takes (fun as => as.map f = (b :: bs).map g) (commas ((b :: bs).map w))
      (Before (· = close)) (commaSeparatedUpTo item n) := by
  induction bs generalizing b n with
  | nil =>
      have hitem' := (hitem b List.mem_cons_self).mono (fun _ h => h)
        (fun _ (h : Before (· = close) _) => h.mono fun _ => Or.inr)
      rw [commas_map_singleton]
      cases n with
      | zero => exact hitem'.bind_nil (fun a ha => Takes.pure (by simp [ha])) fun _ h => h
      | succ n =>
          refine hitem'.bind_nil (fun a ha => ?_) fun _ h => h
          have hnot := (takes_eat_not .comma).mono (fun _ h => h)
            (fun _ (h : Before (· = close) _) => h.mono fun k hk => hk ▸ hclose)
          refine hnot.nil_bind (fun b hb => ?_) fun _ h => h
          rw [hb]
          exact Takes.pure (by simp [ha])
  | cons b' bs ih =>
      cases n with
      | zero => cases hn
      | succ n =>
          rw [commas_map_cons_cons]
          refine (hitem b List.mem_cons_self).bind (fun a ha => ?_) fun rest _ =>
            before_cons (.inl rfl)
          refine (takes_eat .comma).cons fun c hc => ?_
          rw [hc]
          have hrest := ih b' (fun c hc => hitem c (List.mem_cons_of_mem _ hc))
            (Nat.le_of_succ_le_succ hn)
          exact hrest.bind_nil (fun as has => Takes.pure (by rw [List.map_cons, ha, has]; rfl))
            fun _ h => h

/-- Items with commas between them, or none, are read up to the token `close`. -/
theorem takes_commaSeparatedBefore (hclose : close ≠ .comma) (bs : List β)
    (hstart : ∀ b ∈ bs, Before (· ≠ close) (w b))
    (hitem : ∀ b ∈ bs,
      Takes (fun a => f a = g b) (w b) (Before fun k => k = .comma ∨ k = close) item) :
    Takes (fun as => as.map f = bs.map g) (commas (bs.map w)) (Before (· = close))
      (commaSeparatedBefore close item) := by
  cases bs with
  | nil =>
      refine Takes.kind_before fun k hk => ?_
      rw [if_pos hk]
      exact Takes.pure rfl
  | cons b bs =>
      have hread : Takes (fun as => as.map f = (b :: bs).map g) (commas ((b :: bs).map w))
          (Before (· = close)) (commaSeparated item) := by
        refine Takes.get_bind fun c hc => takes_commaSeparatedUpTo hclose b bs hitem ?_
        have := length_le_intercalate .comma (w b) (bs.map w)
        rw [List.length_map] at this
        exact Nat.le_trans this hc
      have hfirst : Before (· ≠ close) (commas ((b :: bs).map w)) := by
        have hb := hstart b List.mem_cons_self
        cases bs with
        | nil => rwa [commas_map_singleton]
        | cons b' bs =>
            rw [commas_map_cons_cons]
            exact hb.append
      obtain ⟨k, ks, hks, hk⟩ := hfirst
      rw [hks] at hread ⊢
      refine Takes.kind_cons ?_
      rw [if_neg hk]
      exact hread

/-- The same for items that are read as they were. -/
theorem takes_commaSeparatedBefore_self {w : α → List TokenKind} (hclose : close ≠ .comma)
    (as : List α) (hstart : ∀ a ∈ as, Before (· ≠ close) (w a))
    (hitem : ∀ a ∈ as, Takes (· = a) (w a) (Before fun k => k = .comma ∨ k = close) item) :
    Takes (· = as) (commas (as.map w)) (Before (· = close)) (commaSeparatedBefore close item) :=
  (takes_commaSeparatedBefore (f := id) (g := id) hclose as hstart hitem).mono
    (fun bs hbs => by simpa using hbs) fun _ h => h

end Lists

/-- Operands are read as they are written, up to a token that is no comma. -/
theorem takes_operandsUpTo (x : Ident) (xs : List Ident) {n : Nat} (hn : xs.length < n) :
    Takes (fun as => as.map Ident.unplaced = (x :: xs).map Ident.unplaced)
      (Ident.writtenAll (x :: xs)) (Before (· ≠ .comma)) (operandsUpTo n) := by
  induction xs generalizing x n with
  | nil =>
      obtain ⟨n, rfl⟩ : ∃ m, n = m + 1 := ⟨n - 1, by omega⟩
      refine Takes.kind_cons ?_
      refine (takes_valueName x).cons fun a ha => ?_
      refine (takes_eat_not .comma).nil_bind (fun b hb => ?_) fun _ h => h
      rw [hb]
      exact Takes.pure (by simp [ha])
  | cons y ys ih =>
      obtain ⟨n, rfl⟩ : ∃ m, n = m + 1 := ⟨n - 1, by omega⟩
      rw [Ident.writtenAll, commas_map_cons_cons]
      refine Takes.kind_cons ?_
      refine (takes_valueName x).cons fun a ha => ?_
      refine (takes_eat .comma).cons fun b hb => ?_
      rw [hb]
      exact (ih y (Nat.lt_of_succ_lt_succ hn)).bind_nil
        (fun as has => Takes.pure (by rw [List.map_cons, ha, has]; rfl)) fun _ h => h

/-- Operands, or none, are read as they are written. -/
theorem takes_operands (xs : List Ident) :
    Takes (fun as => as.map Ident.unplaced = xs.map Ident.unplaced) (Ident.writtenAll xs)
      (Before fun k => k ≠ .comma ∧ ∀ name, k ≠ .value name) operands := by
  refine Takes.get_bind fun c hc => ?_
  cases xs with
  | nil =>
      refine Takes.kind_before fun k hk => ?_
      split
      · next name => exact absurd rfl (hk.2 name)
      · exact Takes.pure rfl
  | cons x xs =>
      have hlen : xs.length ≤ (Ident.writtenAll (x :: xs)).length := by
        have := length_le_intercalate .comma [.value x.name]
          (xs.map fun x => [.value x.name])
        rwa [List.length_map] at this
      exact (takes_operandsUpTo x xs (by omega)).mono (fun _ h => h) fun _ h =>
        h.mono fun _ hk => hk.1

/-! ### Types -/

theorem ofWidth?_widthWord {n : UInt32} (hn : 0 < n) :
    Ty.ofWidth? (Ty.widthWord n) = some (.bits n) := by
  have hpos : 0 < n.toNat := UInt32.lt_iff_toNat_lt.1 hn
  rw [Ty.ofWidth?, Ty.toList_widthWord]
  simp [Decimal.natural?_toDigits, hpos, n.toNat_lt_size, UInt32.ofNat_toNat]

/-- A type begins with a name or with a word. -/
theorem before_written (t : Ty) :
    Before (fun k => (∃ name, k = .typeName name) ∨ ∃ name, k = .word name) t.written := by
  cases t <;> exact before_cons (by simp)

/-- Types are read as they are written, up to a token with which no type begins, when each of them
is. -/
theorem takes_types {close : TokenKind} (hcomma : close ≠ .comma)
    (hname : ∀ name, close ≠ .typeName name) (hword : ∀ name, close ≠ .word name) {ts : List Ty}
    {item : Reading Ty} (hitem : ∀ t ∈ ts, Takes (· = t) t.written Any item) :
    Takes (· = ts) (Ty.writtenAll ts) (Before (· = close)) (commaSeparatedBefore close item) := by
  refine takes_commaSeparatedBefore_self hcomma ts (fun t _ => ?_) fun t ht =>
    (hitem t ht).mono (fun _ h => h) fun _ _ => trivial
  refine (before_written t).mono ?_
  rintro k (⟨name, rfl⟩ | ⟨name, rfl⟩)
  · exact (hname name).symm
  · exact (hword name).symm

/-- A type is read as it is written, when nesting is allowed as deep as it has tokens. -/
theorem takes_tyUpTo (n : Nat) : ∀ {t : Ty}, t.Writable → t.written.length ≤ n →
    Takes (· = t) t.written Any (tyUpTo n) := by
  induction n with
  | zero =>
      intro t _ hlen
      obtain ⟨k, ks, hks, -⟩ := before_written t
      rw [hks] at hlen
      cases hlen
  | succ n ih =>
      intro t ht hlen
      refine takes_spanHere.after fun span _ => ?_
      cases ht with
      | integer => exact Takes.kind_cons ((takes_advance _).cons fun _ _ => Takes.pure rfl)
      | string => exact Takes.kind_cons ((takes_advance _).cons fun _ _ => Takes.pure rfl)
      | ref => exact Takes.kind_cons ((takes_advance _).cons fun _ _ => Takes.pure rfl)
      | any => exact Takes.kind_cons ((takes_advance _).cons fun _ _ => Takes.pure rfl)
      | @bits w hw =>
          have hne : Ty.widthWord w ≠ "tuple" := by
            intro h
            have hlist := congrArg String.toList h
            rw [Ty.toList_widthWord] at hlist
            cases (List.cons.inj hlist).1
          refine Takes.kind_cons ?_
          split
          · next h => cases h
          · next h => exact absurd (TokenKind.word.inj h) hne
          · next name _ h =>
              rw [← TokenKind.word.inj h, ofWidth?_widthWord hw]
              exact (takes_advance _).cons fun _ _ => Takes.pure rfl
          · next h => exact absurd rfl (h _)
      | @list u hu =>
          rw [Ty.written, List.length_cons, List.length_cons, List.length_append] at hlen
          refine Takes.kind_cons ?_
          refine (takes_advance _).cons fun _ _ => ?_
          refine (takes_expect .less).cons fun _ _ => ?_
          refine (ih hu (by omega)).append fun a ha => ?_
          exact (takes_expect .greater).cons fun _ _ => Takes.pure (by rw [ha])
      | @map k v hk hv =>
          simp only [Ty.written, List.length_cons, List.length_append] at hlen
          refine Takes.kind_cons ?_
          refine (takes_advance _).cons fun _ _ => ?_
          refine (takes_expect .less).cons fun _ _ => ?_
          refine (ih hk (by omega)).append fun a ha => ?_
          refine (takes_expect .comma).cons fun _ _ => ?_
          refine (ih hv (by omega)).append fun b hb => ?_
          exact (takes_expect .greater).cons fun _ _ => Takes.pure (by rw [ha, hb])
      | @tuple ts hts =>
          rw [Ty.written, Ty.writtenEach_eq] at hlen ⊢
          rw [List.length_cons, List.length_cons, List.length_append] at hlen
          have heach : ∀ u ∈ ts, Takes (· = u) u.written Any (tyUpTo n) := fun u hu => by
            have hle := length_le_commas_of_mem (List.mem_map_of_mem (f := Ty.written) hu)
            exact ih (hts u hu) (by omega)
          refine Takes.kind_cons ?_
          refine (takes_advance _).cons fun _ _ => ?_
          refine (takes_expect .less).cons fun _ _ => ?_
          refine (takes_types (by simp) (by simp) (by simp) heach).bind (fun us hus => ?_)
            fun rest _ => before_cons rfl
          exact (takes_expect .greater).cons fun _ _ => Takes.pure (by rw [hus])
      | object c =>
          refine Takes.kind_cons ?_
          refine (takes_advance _).cons fun _ _ => ?_
          refine (takes_expect .less).cons fun _ _ => ?_
          refine (takes_symbolName ⟨c, default⟩).cons fun a ha => ?_
          refine (takes_expect .greater).cons fun _ _ => Takes.pure ?_
          rw [show a.name = c from congrArg Ident.name ha]

/-- A type is read as it is written. -/
theorem takes_ty {t : Ty} (ht : t.Writable) : Takes (· = t) t.written Any ty :=
  Takes.get_bind fun _ hc => takes_tyUpTo _ ht (Nat.le_succ_of_le hc)

theorem takes_tysBefore {close : TokenKind} (hcomma : close ≠ .comma)
    (hname : ∀ name, close ≠ .typeName name) (hword : ∀ name, close ≠ .word name) {ts : List Ty}
    (hts : ∀ t ∈ ts, t.Writable) :
    Takes (· = ts) (Ty.writtenAll ts) (Before (· = close)) (tysBefore close) :=
  takes_types hcomma hname hword fun t ht => takes_ty (hts t ht)

/-! ### Constants -/

theorem takes_optionalTy {t : Ty} (ht : t.Writable) :
    Takes (fun _ => True) (.colon :: t.written) Any optionalTy := by
  refine (takes_eat .colon).cons fun b hb => ?_
  rw [hb]
  exact (takes_ty ht).last fun _ _ => Takes.pure trivial

theorem takes_optionalTy_missing :
    Takes (fun _ => True) [] (Before (· ≠ .colon)) optionalTy := by
  refine (takes_eat_not .colon).nil_bind (fun b hb => ?_) fun _ h => h
  rw [hb]
  exact Takes.pure trivial

/-- The segments of a path are read as they are written. -/
theorem takes_segmentsUpTo (name : String) (names : List String) {n : Nat}
    (hn : names.length ≤ n) :
    Takes (· = name :: names) (Attribute.segments (name :: names)) (Before (· ≠ .doubleColon))
      (segmentsUpTo n) := by
  induction names generalizing name n with
  | nil =>
      cases n with
      | zero =>
          refine (takes_symbolName ⟨name, default⟩).cons fun a ha => ?_
          rw [show a.name = name from congrArg Ident.name ha]
          exact Takes.pure rfl
      | succ n =>
          refine (takes_symbolName ⟨name, default⟩).cons fun a ha => ?_
          refine (takes_eat_not .doubleColon).nil_bind (fun b hb => ?_) fun _ h => h
          rw [hb, show a.name = name from congrArg Ident.name ha]
          exact Takes.pure rfl
  | cons name' names ih =>
      cases n with
      | zero => cases hn
      | succ n =>
          rw [Attribute.segments_cons_cons]
          refine (takes_symbolName ⟨name, default⟩).cons fun a ha => ?_
          refine (takes_eat .doubleColon).cons fun b hb => ?_
          rw [hb, show a.name = name from congrArg Ident.name ha]
          exact (ih name' (Nat.le_of_succ_le_succ hn)).bind_nil
            (fun as has => Takes.pure (by rw [has])) fun _ h => h

theorem takes_symbolPath {p : SymbolPath} (hp : p.segments ≠ []) :
    Takes (· = p) (.less :: .less :: (Attribute.segments p.segments ++ [.greater, .greater])) Any
      symbolPath := by
  obtain ⟨segments⟩ := p
  obtain ⟨name, names, rfl⟩ := List.exists_cons_of_ne_nil hp
  have hread : Takes (· = name :: names) (Attribute.segments (name :: names))
      (Before (· ≠ .doubleColon)) (get >>= fun c => segmentsUpTo c.ahead.length) := by
    refine Takes.get_bind fun c hc => takes_segmentsUpTo name names (Nat.le_trans ?_ hc)
    have := length_le_intercalate .doubleColon [.symbol name]
      (names.map fun name => [.symbol name])
    rwa [List.length_map] at this
  refine (takes_expect .less).cons fun _ _ => ?_
  refine (takes_expect .less).cons fun _ _ => ?_
  refine hread.bind (fun ns hns => ?_) fun rest _ => before_cons (by simp)
  refine (takes_expect .greater).cons fun _ _ => ?_
  exact (takes_expect .greater).cons fun _ _ => Takes.pure (by rw [hns])

/-- A constant begins with a number, a string or a name. -/
theorem before_written_constant (s : Style) (a : Attribute) :
    Before (fun k => (∃ n, k = .integer n) ∨ (∃ t, k = .string t) ∨ ∃ name, k = .attrName name)
      (a.written s) := by
  cases a with
  | integer n =>
      rw [Attribute.written]
      split <;> exact before_cons (by simp)
  | _ => exact before_cons (by simp)

theorem takes_mapKey (key : String) : Takes (· = key) [.string key] Any mapKey :=
  Takes.kind_cons ((takes_advance _).cons fun _ _ => Takes.pure rfl)

theorem length_written_le_elements (s : Style) (ty : Ty) {a : Attribute} {es : List Attribute}
    (h : a ∈ es) : (a.written s).length ≤ (commas (Attribute.elements s ty es)).length := by
  have hmem : a.written s ++ .colon :: ty.written ∈ Attribute.elements s ty es := by
    rw [Attribute.elements_eq]
    exact List.mem_map.2 ⟨a, h, rfl⟩
  have hle := length_le_commas_of_mem hmem
  rw [List.length_append] at hle
  omega

theorem length_written_le_entries (s : Style) {e : String × Attribute}
    {es : List (String × Attribute)} (h : e ∈ es) :
    (e.2.written s).length ≤ (commas (Attribute.entries s es)).length := by
  have hmem : .string e.1 :: .equals :: e.2.written s ∈ Attribute.entries s es := by
    rw [Attribute.entries_eq]
    exact List.mem_map.2 ⟨e, h, rfl⟩
  have hle := length_le_commas_of_mem hmem
  rw [List.length_cons, List.length_cons] at hle
  omega

/-- The elements of a list are read as they are written, when constants are. -/
theorem takes_elements (s : Style) {ty : Ty} (hty : ty.Writable) {es : List Attribute}
    {item : Reading Attribute} (hitem : ∀ a ∈ es, Takes (· = a) (a.written s) Any item) :
    Takes (· = es) (commas (Attribute.elements s ty es)) (Before (· = .rightBracket))
      (commaSeparatedBefore .rightBracket do
        let element ← item
        optionalTy
        return element) := by
  rw [Attribute.elements_eq]
  refine takes_commaSeparatedBefore_self (by simp) es (fun a _ => ?_) fun a ha => ?_
  · refine ((before_written_constant s a).mono ?_).append
    rintro k (⟨i, rfl⟩ | ⟨t, rfl⟩ | ⟨name, rfl⟩) <;> simp
  · refine (hitem a ha).append fun b hb => ?_
    exact (takes_optionalTy hty).last fun _ _ => Takes.pure hb

/-- The entries of a map are read as they are written, when constants are. -/
theorem takes_entries (s : Style) {es : List (String × Attribute)} {item : Reading Attribute}
    (hitem : ∀ e ∈ es, Takes (· = e.2) (e.2.written s) Any item) :
    Takes (· = es) (commas (Attribute.entries s es)) (Before (· = .rightBrace))
      (commaSeparatedBefore .rightBrace do
        let key ← mapKey
        expect .equals
        let value ← item
        optionalTy
        return (key, value)) := by
  rw [Attribute.entries_eq]
  refine takes_commaSeparatedBefore_self (by simp) es (fun e _ => before_cons (by simp))
    fun e he => ?_
  refine (takes_mapKey e.1).cons fun key hkey => ?_
  refine (takes_expect .equals).cons fun _ _ => ?_
  refine (hitem e he).last fun b hb => ?_
  refine takes_optionalTy_missing.nil_bind (fun _ _ => Takes.pure ?_) fun rest h => ?_
  · rw [hb, hkey]
  · exact h.mono fun k hk => by rcases hk with rfl | rfl <;> simp

/-- A constant is read as it is written, when nesting is allowed as deep as it has tokens. -/
theorem takes_constantUpTo (s : Style) (n : Nat) : ∀ {a : Attribute}, a.Writable →
    (a.written s).length ≤ n → Takes (· = a) (a.written s) Any (constantUpTo n) := by
  induction n with
  | zero =>
      intro a _ hlen
      obtain ⟨k, ks, hks, -⟩ := before_written_constant s a
      rw [hks] at hlen
      cases hlen
  | succ n ih =>
      intro a ha hlen
      refine takes_spanHere.after fun span _ => ?_
      cases ha with
      | integer i =>
          rw [Attribute.written]
          split
          · refine Takes.kind_cons ?_
            refine (takes_advance _).cons fun _ _ => ?_
            refine (takes_expect .less).cons fun _ _ => ?_
            refine (takes_integerLiteral i).cons fun j hj => ?_
            exact (takes_expect .greater).cons fun _ _ => Takes.pure (by rw [hj])
          · exact Takes.kind_cons ((takes_advance _).cons fun _ _ => Takes.pure rfl)
      | string t => exact Takes.kind_cons ((takes_advance _).cons fun _ _ => Takes.pure rfl)
      | @list ty es hty hes =>
          rw [Attribute.written] at hlen ⊢
          simp only [List.length_cons, List.length_append] at hlen
          have heach : ∀ b ∈ es, Takes (· = b) (b.written s) Any (constantUpTo n) := fun b hb => by
            have hle := length_written_le_elements s ty hb
            exact ih (hes b hb) (by omega)
          refine Takes.kind_cons ?_
          refine (takes_advance _).cons fun _ _ => ?_
          refine (takes_expect .less).cons fun _ _ => ?_
          refine (takes_ty hty).append fun t ht => ?_
          refine (takes_expect .comma).cons fun _ _ => ?_
          refine (takes_expect .leftBracket).cons fun _ _ => ?_
          refine (takes_elements s hty heach).bind (fun as has => ?_) fun rest _ =>
            before_cons rfl
          refine (takes_expect .rightBracket).cons fun _ _ => ?_
          exact (takes_expect .greater).cons fun _ _ => Takes.pure (by rw [ht, has])
      | @map ty es hty hes =>
          rw [Attribute.written] at hlen ⊢
          simp only [List.length_cons, List.length_append] at hlen
          have heach : ∀ e ∈ es, Takes (· = e.2) (e.2.written s) Any (constantUpTo n) :=
            fun e he => by
              have hle := length_written_le_entries s he
              exact ih (hes e he) (by omega)
          refine Takes.kind_cons ?_
          refine (takes_advance _).cons fun _ _ => ?_
          refine (takes_expect .less).cons fun _ _ => ?_
          refine (takes_ty hty).append fun t ht => ?_
          refine (takes_expect .comma).cons fun _ _ => ?_
          refine (takes_expect .leftBrace).cons fun _ _ => ?_
          refine (takes_entries s heach).bind (fun as has => ?_) fun rest _ => before_cons rfl
          refine (takes_expect .rightBrace).cons fun _ _ => ?_
          exact (takes_expect .greater).cons fun _ _ => Takes.pure (by rw [ht, has])
      | @ref p hp =>
          refine Takes.kind_cons ?_
          refine (takes_advance _).cons fun _ _ => ?_
          exact (takes_symbolPath hp).last fun q hq => Takes.pure (by rw [hq])

/-- A constant is read as it is written. -/
theorem takes_constant (s : Style) {a : Attribute} (ha : a.Writable) :
    Takes (· = a) (a.written s) Any constant :=
  Takes.get_bind fun _ hc => takes_constantUpTo s _ ha (Nat.le_succ_of_le hc)

end Reading

end ObjectModel
