/-
**Readers do not look beyond a line.**

What an operation is, or why it is none, is decided on its line: two texts that have the line in
common are read alike there, whatever comes behind the line end and whatever was read before.
Readers that count the tokens ahead may count differently in the two texts, but no count is used
up.

Main definitions:

* `Cursor.OnLine` — a cursor before some tokens and a line end behind them;
* `Reading.Alike` — readers that do the same on the same line.

Main results:

* `Reading.Alike.bind`, `Reading.Alike.kind_bind`, `Reading.Alike.advance_bind` — composed readers;
* `Reading.alike_bounded` — readers with a bound that is not reached;
* `Reading.alike_ty`, `Reading.alike_constant`, `Reading.alike_operands` — the parts of a line;
* `Reading.alike_operationSpan`, `Reading.alike_headerLine` — operations and headers of classes;
* `Reading.operation_on_line` — **an operation is read alike wherever its line stands**.
-/

import ObjectModel.Module.Reading
import ObjectModel.Proofs.Derivation

set_option relaxedAutoImplicit false
set_option autoImplicit false

namespace ObjectModel

/-! ### Cursors on a line -/

/-- The cursor stands before the tokens `ts`, behind which `stop` ends the line. -/
def Cursor.OnLine (c : Cursor) (ts : List Token) (stop : Token) : Prop :=
  (∀ t ∈ ts, t.kind ≠ .newline) ∧ stop.kind = .newline ∧ ∃ rest, c.ahead = ts ++ stop :: rest

namespace Cursor.OnLine

variable {c d : Cursor} {ts : List Token} {stop : Token} {n : Nat}

theorem skip (h : c.OnLine ts stop) (hn : n ≤ ts.length) :
    (c.skip n).OnLine (ts.drop n) stop := by
  obtain ⟨hts, hstop, rest, hc⟩ := h
  refine ⟨fun t ht => hts t (List.mem_of_mem_drop ht), hstop, rest, ?_⟩
  rw [c.ahead_skip, hc, List.drop_append_of_le_length hn]

theorem token (h : c.OnLine ts stop) : c.token = ts.headD stop := by
  obtain ⟨-, -, rest, hc⟩ := h
  rw [Cursor.token, hc]
  cases ts <;> rfl

/-- The end of a line stands next when nothing is left of it. -/
theorem kind_of_nil (h : c.OnLine [] stop) : c.kind = .newline := by
  rw [kind, h.token]
  exact h.2.1

theorem kind_of_cons {t : Token} (h : c.OnLine (t :: ts) stop) : c.kind = t.kind := by
  rw [kind, h.token]
  rfl

theorem length_lt (h : c.OnLine ts stop) : ts.length < c.ahead.length := by
  obtain ⟨-, -, rest, hc⟩ := h
  rw [hc, List.length_append, List.length_cons]
  omega

/-- What was taken last is the same when it was on the line, or when it was the same before. -/
theorem last_skip_eq (hc : c.OnLine ts stop) (hd : d.OnLine ts stop) (hn : n ≤ ts.length)
    (h : 0 < n ∨ c.last = d.last) : (c.skip n).last = (d.skip n).last := by
  obtain ⟨-, -, rest, hc⟩ := hc
  obtain ⟨-, -, rest', hd⟩ := hd
  rw [c.last_skip, d.last_skip, hc, hd, List.take_append_of_le_length hn,
    List.take_append_of_le_length hn]
  rcases h with hpos | hlast
  · cases hlast : (ts.take n).getLast? with
    | none =>
        rw [List.getLast?_eq_none_iff, List.take_eq_nil_iff] at hlast
        rcases hlast with rfl | rfl
        · omega
        · exact absurd hn (by rw [List.length_nil]; omega)
    | some t => rfl
  · rw [hlast]

end Cursor.OnLine

namespace Reading

variable {α β : Type}

/-! ### Readers that do the same -/

/-- A result at a cursor. -/
def outcome (r : Except Problem α) (c : Cursor) : EStateM.Result Problem Cursor α :=
  match r with
  | .ok a => .ok a c
  | .error e => .error e c

/-- On every line with `lo` to `hi` tokens left the two readers have the same result, or stop at the
same problem, and take the same tokens of the line.  If `same` holds, this is only said of cursors
behind one and the same token. -/
def Alike (same : Prop) (lo hi : Nat) (x y : Reading α) : Prop :=
  ∀ ts stop c d, lo ≤ ts.length → ts.length ≤ hi → c.OnLine ts stop → d.OnLine ts stop →
    (same → c.last = d.last) →
      ∃ r n, n ≤ ts.length ∧ x c = outcome r (c.skip n) ∧ y d = outcome r (d.skip n)

section Alike

variable {same : Prop} {lo hi : Nat} {x y : Reading α} {f g : α → Reading β}

theorem Alike.mono {lo' hi' : Nat} (h : Alike same lo hi x y) (hlo : lo ≤ lo') (hhi : hi' ≤ hi) :
    Alike same lo' hi' x y := fun ts stop c d hmin hmax hc hd hs =>
  h ts stop c d (by omega) (by omega) hc hd hs

/-- Behind one and the same token less is to be said. -/
theorem Alike.later (h : Alike same lo hi x y) : Alike True lo hi x y :=
  fun ts stop c d hmin hmax hc hd hs => h ts stop c d hmin hmax hc hd fun _ => hs trivial

/-- A reader that takes nothing and has one result on the line. -/
theorem alike_of_stay {x y : Reading α}
    (h : ∀ ts stop c d, lo ≤ ts.length → ts.length ≤ hi → c.OnLine ts stop → d.OnLine ts stop →
      (same → c.last = d.last) → ∃ r, x c = outcome r c ∧ y d = outcome r d) :
    Alike same lo hi x y := by
  intro ts stop c d hmin hmax hc hd hs
  obtain ⟨r, hx, hy⟩ := h ts stop c d hmin hmax hc hd hs
  exact ⟨r, 0, Nat.zero_le _, hx, hy⟩

theorem alike_pure (a : α) : Alike same lo hi (pure a) (pure a) :=
  alike_of_stay fun _ _ _ _ _ _ _ _ _ => ⟨.ok a, rfl, rfl⟩

theorem alike_throw (e : Problem) : Alike same lo hi (throw e : Reading α) (throw e) :=
  alike_of_stay fun _ _ _ _ _ _ _ _ _ => ⟨.error e, rfl, rfl⟩

theorem alike_failAt (code : Code) (message : String) (span : Span) :
    Alike same lo hi (failAt code message span : Reading α) (failAt code message span) :=
  alike_throw _

theorem alike_kind : Alike same lo hi kind kind :=
  alike_of_stay fun ts stop c d _ _ hc hd _ =>
    ⟨.ok c.kind, rfl, by rw [Cursor.kind, hc.token, ← hd.token]; rfl⟩

theorem alike_spanHere : Alike same lo hi spanHere spanHere :=
  alike_of_stay fun ts stop c d _ _ hc hd _ =>
    ⟨.ok c.token.span, rfl, by rw [hc.token, ← hd.token]; rfl⟩

theorem alike_lastSpan : Alike True lo hi lastSpan lastSpan :=
  alike_of_stay fun ts stop c d _ _ _ _ hs => ⟨.ok c.last, rfl, by rw [hs trivial]; rfl⟩

/-- What is said of an unexpected token is said by the line. -/
theorem expected_on_line {ts : List Token} {stop : Token} {c d : Cursor} (hc : c.OnLine ts stop)
    (hd : d.OnLine ts stop) (code : Code) (what : String) :
    ∃ e, (expected code what : Reading α) c = .error e c ∧
      (expected code what : Reading α) d = .error e d := by
  have htoken : c.token = d.token := by rw [hc.token, hd.token]
  refine ⟨⟨code, "expected " ++ what ++ ", got '" ++ c.kind.text ++ "'", c.token.span, none⟩,
    rfl, ?_⟩
  rw [Cursor.kind, htoken]
  rfl

theorem alike_expected (code : Code) (what : String) :
    Alike same lo hi (expected code what : Reading α) (expected code what) :=
  alike_of_stay fun _ _ _ _ _ _ hc hd _ => by
    obtain ⟨e, hc', hd'⟩ := expected_on_line hc hd code what
    exact ⟨.error e, hc', hd'⟩

theorem bind_of_ok {c c' : Cursor} {a : α} (h : x c = .ok a c') : (x >>= f) c = f a c' := by
  change EStateM.bind x f c = _
  rw [EStateM.bind, h]

theorem bind_of_error {c c' : Cursor} {e : Problem} (h : x c = .error e c') :
    (x >>= f) c = .error e c' := by
  change EStateM.bind x f c = _
  rw [EStateM.bind, h]

/-- Behind readers that do the same, the same is done. -/
theorem bind_of_run {c d : Cursor} (h : x c = y d) : (x >>= f) c = (y >>= f) d := by
  change EStateM.bind x f c = EStateM.bind y f d
  rw [EStateM.bind, EStateM.bind, h]

theorem kind_bind_run (F : TokenKind → Reading α) (c : Cursor) :
    (kind >>= F) c = F c.kind c := rfl

/-- Readers one after the other do the same when each of them does. -/
theorem Alike.bind (hx : Alike same lo hi x y) (hf : ∀ a, Alike same 0 hi (f a) (g a)) :
    Alike same lo hi (x >>= f) (y >>= g) := by
  intro ts stop c d hmin hmax hc hd hs
  obtain ⟨r, n, hn, hxc, hyd⟩ := hx ts stop c d hmin hmax hc hd hs
  cases r with
  | error e => exact ⟨.error e, n, hn, bind_of_error hxc, bind_of_error hyd⟩
  | ok a =>
      have hlen : (ts.drop n).length = ts.length - n := List.length_drop
      obtain ⟨r, k, hk, hfc, hgd⟩ := hf a (ts.drop n) stop (c.skip n) (d.skip n) (Nat.zero_le _)
        (by omega) (hc.skip hn) (hd.skip hn) fun h => hc.last_skip_eq hd hn (.inr (hs h))
      refine ⟨r, n + k, by omega, ?_, ?_⟩
      · rw [bind_of_ok hxc, hfc, c.skip_add]
      · rw [bind_of_ok hyd, hgd, d.skip_add]

/-- Behind a token that is taken from the line, both have taken the same token last. -/
theorem Alike.advance_bind {f g : Unit → Reading β} (h : Alike True 0 (hi - 1) (f ()) (g ())) :
    Alike same 1 hi (advance >>= f) (advance >>= g) := by
  intro ts stop c d hmin hmax hc hd _
  have hlen : (ts.drop 1).length = ts.length - 1 := List.length_drop
  obtain ⟨r, n, hn, hfc, hgd⟩ := h (ts.drop 1) stop (c.skip 1) (d.skip 1) (Nat.zero_le _)
    (by omega) (hc.skip hmin) (hd.skip hmin) fun _ => hc.last_skip_eq hd hmin (.inl Nat.one_pos)
  exact ⟨r, n + 1, by omega, hfc, hgd⟩

/-- A reader that looks at the next token: at the end of the line, or before a token of it. -/
theorem Alike.kind_bind {F G : TokenKind → Reading α}
    (hstop : Alike same 0 0 (F .newline) (G .newline))
    (h : ∀ k, k ≠ .newline → Alike same 1 hi (F k) (G k)) :
    Alike same 0 hi (kind >>= F) (kind >>= G) := by
  intro ts stop c d hmin hmax hc hd hs
  rw [kind_bind_run, kind_bind_run]
  cases ts with
  | nil =>
      rw [hc.kind_of_nil, hd.kind_of_nil]
      exact hstop [] stop c d (Nat.le_refl 0) (Nat.le_refl 0) hc hd hs
  | cons t ts =>
      rw [hc.kind_of_cons, hd.kind_of_cons]
      exact h t.kind (hc.1 t List.mem_cons_self) (t :: ts) stop c d (by simp) hmax hc hd hs

/-- At the end of a line it counts only what readers do there. -/
theorem Alike.of_newline {x' y' : Reading α} (hx : ∀ c : Cursor, c.kind = .newline → x c = x' c)
    (hy : ∀ c : Cursor, c.kind = .newline → y c = y' c) (h : Alike same 0 0 x' y') :
    Alike same 0 0 x y := by
  intro ts stop c d hmin hmax hc hd hs
  obtain rfl : ts = [] := List.eq_nil_of_length_eq_zero (Nat.le_zero.1 hmax)
  rw [hx c hc.kind_of_nil, hy d hd.kind_of_nil]
  exact h [] stop c d hmin hmax hc hd hs

/-- A reader that counts the tokens ahead, which are more than those on the line. -/
theorem Alike.get_bind {F G : Nat → Reading α}
    (h : ∀ m j k, m ≤ hi → m ≤ j → m ≤ k → Alike same 0 m (F j) (G k)) :
    Alike same 0 hi (do F (← get).ahead.length) (do G (← get).ahead.length) := by
  intro ts stop c d hmin hmax hc hd hs
  exact h ts.length c.ahead.length d.ahead.length hmax (Nat.le_of_lt hc.length_lt)
    (Nat.le_of_lt hd.length_lt) ts stop c d hmin (Nat.le_refl _) hc hd hs

end Alike

/-! ### One token -/

section Token

variable {same : Prop} {lo hi : Nat} {k : TokenKind}

theorem alike_advance : Alike same 1 hi advance advance :=
  Alike.advance_bind (f := pure) (g := pure) (alike_pure ())

theorem alike_expect (hk : k ≠ .newline) : Alike same 0 hi (expect k) (expect k) := by
  refine Alike.kind_bind ?_ fun k' _ => ?_
  · rw [if_neg (Ne.symm hk)]
    exact alike_expected _ _
  · split
    · exact alike_advance
    · exact alike_expected _ _

theorem eat_bind_eq (k : TokenKind) (f : Bool → Reading β) :
    (eat k >>= f) =
      (kind >>= fun k' => if k' = k then advance >>= fun _ => f true else f false) := by
  rw [eat, bind_assoc]
  congr 1
  funext k'
  split <;> simp

/-- When a token is taken, fewer are left on the line. -/
theorem Alike.eat_bind {f g : Bool → Reading β} (hk : k ≠ .newline)
    (htrue : ∀ m, m < hi → Alike True 0 m (f true) (g true))
    (hfalse : Alike same 0 hi (f false) (g false)) :
    Alike same 0 hi (eat k >>= f) (eat k >>= g) := by
  rw [eat_bind_eq, eat_bind_eq]
  refine Alike.kind_bind ?_ fun k' _ => ?_
  · rw [if_neg (Ne.symm hk), if_neg (Ne.symm hk)]
    exact hfalse.mono (Nat.le_refl 0) (Nat.zero_le hi)
  · split
    · cases hi with
      | zero => exact fun ts _ _ _ hmin hmax => absurd hmin (by omega)
      | succ hi => exact Alike.advance_bind (htrue hi (Nat.lt_succ_self hi))
    · exact hfalse.mono (Nat.zero_le 1) (Nat.le_refl hi)

/-- At the end of a line no token is taken. -/
theorem eat_bind_of_newline {f : Bool → Reading β} (hk : k ≠ .newline) {c : Cursor}
    (hc : c.kind = .newline) : (eat k >>= f) c = f false c := by
  rw [eat_bind_eq, kind_bind_run, hc, if_neg (Ne.symm hk)]

theorem alike_expectSome {what : String} {pick : TokenKind → Option α}
    (hpick : pick .newline = none) :
    Alike same 0 hi (expectSome what pick) (expectSome what pick) := by
  refine Alike.kind_bind ?_ fun k _ => ?_
  · rw [hpick]
    exact alike_expected _ _
  · cases pick k with
    | some a => exact Alike.advance_bind (alike_pure a)
    | none => exact alike_expected _ _

theorem alike_valueName : Alike same 0 hi valueName valueName :=
  alike_spanHere.bind fun _ => alike_expectSome rfl

theorem alike_symbolName : Alike same 0 hi symbolName symbolName :=
  alike_spanHere.bind fun _ => alike_expectSome rfl

theorem alike_integerLiteral : Alike same 0 hi integerLiteral integerLiteral :=
  alike_expectSome rfl

end Token

/-! ### Lists -/

section Lists

variable {same : Prop} {x y : Reading α}

/-- Lists are read alike when their items are, and when no bound on their length is below the number
of tokens left on the line. -/
theorem alike_commaSeparatedUpTo (m : Nat) : ∀ j k, m ≤ j → m ≤ k →
    Alike same 0 m x y → Alike same 0 m (commaSeparatedUpTo x j) (commaSeparatedUpTo y k) := by
  have hcomma : (TokenKind.comma : TokenKind) ≠ .newline := by decide
  induction m generalizing same with
  | zero =>
      -- at the end of the line no comma follows the item, whatever the bounds are
      have hone : ∀ (z : Reading α) (n : Nat) (a : α), ∀ c : Cursor, c.kind = .newline →
          (eat .comma >>= fun b => if b then do
            return a :: (← commaSeparatedUpTo z n) else return [a]) c =
              (pure [a] : Reading (List α)) c := fun z n a c hc => by
        rw [eat_bind_of_newline hcomma hc]
        rfl
      intro j k _ _ hitem
      cases j with
      | zero =>
          cases k with
          | zero => exact hitem.bind fun a => alike_pure [a]
          | succ k =>
              exact hitem.bind fun a =>
                (alike_pure [a]).of_newline (fun _ _ => rfl) (hone y k a)
      | succ j =>
          cases k with
          | zero =>
              exact hitem.bind fun a =>
                (alike_pure [a]).of_newline (hone x j a) fun _ _ => rfl
          | succ k =>
              exact hitem.bind fun a =>
                (alike_pure [a]).of_newline (hone x j a) (hone y k a)
  | succ m ih =>
      intro j k hj hk hitem
      obtain ⟨j, rfl⟩ : ∃ i, j = i + 1 := ⟨j - 1, by omega⟩
      obtain ⟨k, rfl⟩ : ∃ i, k = i + 1 := ⟨k - 1, by omega⟩
      refine hitem.bind fun a => Alike.eat_bind hcomma (fun n hn => ?_) (alike_pure [a])
      have hrest := ih j k (by omega) (by omega) (hitem.later.mono (Nat.le_refl 0) (Nat.le_succ m))
      exact (hrest.bind fun as => alike_pure (a :: as)).mono (Nat.le_refl 0) (by omega)

theorem alike_commaSeparatedBefore (close : TokenKind) {hi : Nat} (hitem : Alike same 0 hi x y) :
    Alike same 0 hi (commaSeparatedBefore close x) (commaSeparatedBefore close y) := by
  refine alike_kind.bind fun k => ?_
  split
  · exact alike_pure []
  · exact Alike.get_bind fun m j k hm hj hk =>
      alike_commaSeparatedUpTo m j k hj hk (hitem.mono (Nat.le_refl 0) hm)

end Lists

/-! ### Types and constants -/

section Parts

variable {same : Prop} {hi : Nat}

/-- Readers with a bound on their depth or length do the same, when no bound is below the number of
tokens left on the line: its end is read alike for every bound, and each step takes a token. -/
theorem alike_bounded {x : Nat → Reading α} {atEnd : Reading α}
    (hend : ∀ n (c : Cursor), c.kind = .newline → x n c = atEnd c)
    (hatEnd : ∀ same, Alike same 0 0 atEnd atEnd)
    (hstep : ∀ m j k, (∀ same, Alike same 0 m (x j) (x k)) →
      ∀ same, Alike same 0 (m + 1) (x (j + 1)) (x (k + 1))) (m : Nat) :
    ∀ j k, m ≤ j → m ≤ k → ∀ same, Alike same 0 m (x j) (x k) := by
  induction m with
  | zero => exact fun j k _ _ same => (hatEnd same).of_newline (hend j) (hend k)
  | succ m ih =>
      intro j k hj hk
      obtain ⟨j, rfl⟩ : ∃ i, j = i + 1 := ⟨j - 1, by omega⟩
      obtain ⟨k, rfl⟩ : ∃ i, k = i + 1 := ⟨k - 1, by omega⟩
      exact hstep m j k (ih j k (by omega) (by omega))

theorem spanHere_kind_bind {F : Span → TokenKind → Reading α} {c : Cursor} {k : TokenKind}
    (hc : c.kind = k) :
    (spanHere >>= fun span => kind >>= F span) c = F c.token.span k c := by
  subst hc
  rfl

/-- At the end of a line no type is read, whatever the depth. -/
theorem tyUpTo_of_newline (n : Nat) {c : Cursor} (hc : c.kind = .newline) :
    tyUpTo n c = (expected .unexpectedToken "type" : Reading Ty) c := by
  cases n with
  | zero => rfl
  | succ n => exact spanHere_kind_bind hc

theorem alike_tyUpTo (m : Nat) : ∀ j k, m ≤ j → m ≤ k →
    ∀ same, Alike same 0 m (tyUpTo j) (tyUpTo k) := by
  refine alike_bounded (fun n _ => tyUpTo_of_newline n) (fun _ => alike_expected _ _)
    (fun m j k hty same => ?_) m
  refine alike_spanHere.bind fun span => Alike.kind_bind (alike_expected _ _) fun k' _ => ?_
  cases k' with
  | typeName name =>
      refine Alike.advance_bind ?_
      rw [Nat.add_sub_cancel]
      split
      · exact alike_pure _
      · exact alike_pure _
      · exact alike_pure _
      · exact alike_pure _
      · refine (alike_expect (by decide)).bind fun _ => (hty True).bind fun t => ?_
        exact (alike_expect (by decide)).bind fun _ => alike_pure _
      · refine (alike_expect (by decide)).bind fun _ => (hty True).bind fun key => ?_
        refine (alike_expect (by decide)).bind fun _ => (hty True).bind fun value => ?_
        exact (alike_expect (by decide)).bind fun _ => alike_pure _
      · refine (alike_expect (by decide)).bind fun _ => alike_symbolName.bind fun target => ?_
        exact (alike_expect (by decide)).bind fun _ => alike_pure _
      · exact alike_failAt _ _ _
  | word name =>
      by_cases hname : name = "tuple"
      · subst hname
        refine Alike.advance_bind ((alike_expect (by decide)).bind fun _ => ?_)
        refine (alike_commaSeparatedBefore .greater (hty True)).bind fun ts => ?_
        exact (alike_expect (by decide)).bind fun _ => alike_pure _
      · split
        · next h => cases h
        · next h => exact absurd (TokenKind.word.inj h) hname
        · split
          · exact Alike.advance_bind (alike_pure _)
          · exact alike_failAt _ _ _
        · next h => exact absurd rfl (h name)
  | _ => exact alike_expected _ _

theorem alike_ty : Alike same 0 hi ty ty :=
  Alike.get_bind (F := fun n => tyUpTo (n + 1)) (G := fun n => tyUpTo (n + 1))
    fun m j k _ hj hk => alike_tyUpTo m (j + 1) (k + 1) (by omega) (by omega) same

theorem alike_tysBefore (close : TokenKind) :
    Alike same 0 hi (tysBefore close) (tysBefore close) :=
  alike_commaSeparatedBefore close alike_ty

theorem alike_optionalTy : Alike same 0 hi optionalTy optionalTy :=
  Alike.eat_bind (by decide) (fun _ _ => alike_ty.bind fun _ => alike_pure ()) (alike_pure ())

theorem alike_mapKey : Alike same 0 hi mapKey mapKey := by
  refine Alike.kind_bind (alike_expected _ _) fun k _ => ?_
  split
  · exact Alike.advance_bind (alike_pure _)
  · exact Alike.advance_bind (alike_pure _)
  · exact alike_expected _ _

/-- At the end of a line no path is read, however long it may be. -/
theorem segmentsUpTo_of_newline (n : Nat) {c : Cursor} (hc : c.kind = .newline) :
    segmentsUpTo n c = (expected .unexpectedToken "symbol name" : Reading (List String)) c := by
  have hname : symbolName c = (expected .unexpectedToken "symbol name" : Reading Ident) c :=
    spanHere_kind_bind hc
  cases n with
  | zero => exact bind_of_error hname
  | succ n => exact bind_of_error hname

theorem alike_segmentsUpTo (m : Nat) : ∀ j k, m ≤ j → m ≤ k →
    ∀ same, Alike same 0 m (segmentsUpTo j) (segmentsUpTo k) := by
  refine alike_bounded (fun n _ => segmentsUpTo_of_newline n) (fun _ => alike_expected _ _)
    (fun m j k hsegments same => ?_) m
  refine alike_symbolName.bind fun name =>
    Alike.eat_bind (by decide) (fun n hn => ?_) (alike_pure [name.name])
  exact ((hsegments True).bind fun _ => alike_pure _).mono (Nat.le_refl 0) (by omega)

theorem alike_symbolPath : Alike same 0 hi symbolPath symbolPath := by
  refine (alike_expect (by decide)).bind fun _ => (alike_expect (by decide)).bind fun _ => ?_
  have hsegments : Alike same 0 hi (do segmentsUpTo (← get).ahead.length)
      (do segmentsUpTo (← get).ahead.length) :=
    Alike.get_bind fun m j k _ hj hk => alike_segmentsUpTo m j k hj hk same
  refine hsegments.bind fun segments => (alike_expect (by decide)).bind fun _ => ?_
  exact (alike_expect (by decide)).bind fun _ => alike_pure _

/-- At the end of a line no constant is read, whatever the depth. -/
theorem constantUpTo_of_newline (n : Nat) {c : Cursor} (hc : c.kind = .newline) :
    constantUpTo n c = (expected .invalidAttribute "constant attribute" : Reading Attribute) c := by
  cases n with
  | zero => rfl
  | succ n => exact spanHere_kind_bind hc

theorem alike_constantUpTo (m : Nat) : ∀ j k, m ≤ j → m ≤ k →
    ∀ same, Alike same 0 m (constantUpTo j) (constantUpTo k) := by
  refine alike_bounded (fun n _ => constantUpTo_of_newline n) (fun _ => alike_expected _ _)
    (fun m j k hconstant same => ?_) m
  refine alike_spanHere.bind fun span => Alike.kind_bind (alike_expected _ _) fun k' _ => ?_
  cases k' with
  | integer n => exact Alike.advance_bind (alike_pure _)
  | string text => exact Alike.advance_bind (alike_pure _)
  | attrName name =>
      refine Alike.advance_bind ?_
      rw [Nat.add_sub_cancel]
      split
      · refine (alike_expect (by decide)).bind fun _ => alike_integerLiteral.bind fun n => ?_
        exact (alike_expect (by decide)).bind fun _ => alike_pure _
      · refine (alike_expect (by decide)).bind fun _ => alike_ty.bind fun t => ?_
        refine (alike_expect (by decide)).bind fun _ => ?_
        refine (alike_expect (by decide)).bind fun _ => ?_
        refine (alike_commaSeparatedBefore .rightBracket ?_).bind fun elements => ?_
        · exact (hconstant True).bind fun a => alike_optionalTy.bind fun _ => alike_pure a
        · refine (alike_expect (by decide)).bind fun _ => ?_
          exact (alike_expect (by decide)).bind fun _ => alike_pure _
      · refine (alike_expect (by decide)).bind fun _ => alike_ty.bind fun t => ?_
        refine (alike_expect (by decide)).bind fun _ => ?_
        refine (alike_expect (by decide)).bind fun _ => ?_
        refine (alike_commaSeparatedBefore .rightBrace ?_).bind fun entries => ?_
        · refine alike_mapKey.bind fun key => (alike_expect (by decide)).bind fun _ => ?_
          exact (hconstant True).bind fun a =>
            alike_optionalTy.bind fun _ => alike_pure (key, a)
        · refine (alike_expect (by decide)).bind fun _ => ?_
          exact (alike_expect (by decide)).bind fun _ => alike_pure _
      · exact alike_symbolPath.bind fun path => alike_pure _
      · exact alike_failAt _ _ _
  | _ => exact alike_expected _ _

theorem alike_constant : Alike same 0 hi constant constant :=
  Alike.get_bind (F := fun n => constantUpTo (n + 1)) (G := fun n => constantUpTo (n + 1))
    fun m j k _ hj hk => alike_constantUpTo m (j + 1) (k + 1) (by omega) (by omega) same

/-! ### Operations -/

/-- At the end of a line there are no operands, however many there may be. -/
theorem operandsUpTo_of_newline (n : Nat) {c : Cursor} (hc : c.kind = .newline) :
    operandsUpTo n c = (pure [] : Reading (List Ident)) c := by
  cases n with
  | zero => rfl
  | succ n =>
      rw [operandsUpTo, operandsWith, kind_bind_run, hc]

theorem alike_operandsUpTo (m : Nat) : ∀ j k, m ≤ j → m ≤ k →
    ∀ same, Alike same 0 m (operandsUpTo j) (operandsUpTo k) := by
  refine alike_bounded (fun n _ => operandsUpTo_of_newline n) (fun _ => alike_pure [])
    (fun m j k hoperands same => ?_) m
  refine alike_kind.bind fun k' => ?_
  split
  · refine alike_valueName.bind fun a =>
      Alike.eat_bind (by decide) (fun n hn => ?_) (alike_pure [a])
    exact ((hoperands True).bind fun _ => alike_pure _).mono (Nat.le_refl 0) (by omega)
  · exact alike_pure []

theorem alike_operands : Alike same 0 hi operands operands :=
  Alike.get_bind (F := fun n => operandsUpTo (n + 1)) (G := fun n => operandsUpTo (n + 1))
    fun m j k _ hj hk => alike_operandsUpTo m (j + 1) (k + 1) (by omega) (by omega) same

theorem alike_constantAction : Alike same 0 hi constantAction constantAction :=
  alike_constant.bind fun _ => (alike_expect (by decide)).bind fun _ =>
    alike_ty.bind fun _ => alike_pure _

theorem alike_objectAction : Alike same 0 hi objectAction objectAction := by
  refine alike_symbolName.bind fun target => (alike_expect (by decide)).bind fun _ => ?_
  refine alike_operands.bind fun actuals => (alike_expect (by decide)).bind fun _ => ?_
  refine (alike_expect (by decide)).bind fun _ => (alike_expect (by decide)).bind fun _ => ?_
  refine (alike_tysBefore .rightParen).bind fun tys => (alike_expect (by decide)).bind fun _ => ?_
  refine (alike_expect (by decide)).bind fun _ => alike_ty.bind fun t => ?_
  split
  · exact alike_pure _
  · exact alike_failAt _ _ _

theorem alike_listAction : Alike same 0 hi listAction listAction :=
  alike_operands.bind fun _ => (alike_expect (by decide)).bind fun _ =>
    alike_ty.bind fun _ => alike_pure _

theorem alike_tupleAction : Alike same 0 hi tupleAction tupleAction := by
  refine alike_spanHere.bind fun start => alike_operands.bind fun elements => ?_
  refine (alike_expect (by decide)).bind fun _ => (alike_tysBefore .newline).bind fun tys => ?_
  split
  · exact alike_pure _
  · exact alike_failAt _ _ _

theorem alike_mapAction : Alike same 0 hi mapAction mapAction :=
  alike_operands.bind fun _ => (alike_expect (by decide)).bind fun _ => alike_ty.bind fun _ =>
    (alike_expect (by decide)).bind fun _ => alike_ty.bind fun _ => alike_pure _

theorem alike_fieldAction : Alike same 0 hi fieldAction fieldAction :=
  alike_symbolName.bind fun _ => (alike_expect (by decide)).bind fun _ =>
    alike_valueName.bind fun _ => (alike_expect (by decide)).bind fun _ =>
      alike_ty.bind fun _ => alike_pure _

theorem alike_action (inClass : Bool) (name : String) (span : Span) :
    Alike same 0 hi (action inClass name span) (action inClass name span) := by
  unfold action
  split
  · exact alike_constantAction
  · exact alike_objectAction
  · exact alike_listAction
  · exact alike_tupleAction
  · exact alike_mapAction
  · split
    · exact alike_fieldAction
    · exact alike_failAt _ _ _
  · unfold unknownOperation
    split
    · exact alike_failAt _ _ _
    · exact alike_throw _

theorem alike_checkResult (result : Option Ident) (a : Action) (span : Span) :
    Alike same 0 hi (checkResult result a span) (checkResult result a span) := by
  unfold checkResult
  split
  · exact alike_failAt _ _ _
  · split
    · exact alike_failAt _ _ _
    · exact alike_pure _

theorem alike_resultName : Alike same 0 hi resultName resultName := by
  refine alike_kind.bind fun k => ?_
  split
  · exact alike_valueName.bind fun _ => (alike_expect (by decide)).bind fun _ => alike_pure _
  · exact alike_pure _

/-- Behind the name of an operation, both have taken that name last. -/
theorem Alike.operationName_bind {F G : String → Reading β}
    (h : ∀ name, Alike True 0 hi (F name) (G name)) :
    Alike same 0 hi (operationName >>= F) (operationName >>= G) := by
  rw [operationName, bind_assoc, bind_assoc]
  refine Alike.kind_bind (alike_expected .unexpectedToken "operation name") fun k _ => ?_
  cases k with
  | word name =>
      simp only [bind_assoc, pure_bind]
      exact Alike.advance_bind ((h name).mono (Nat.le_refl 0) (Nat.sub_le _ _))
  | _ => exact alike_expected .unexpectedToken "operation name"

end Parts

/-- An operation without the end of its line. -/
def operationSpan (inClass : Bool) : Reading Operation := do
  let start ← spanHere
  let line ← operationLine inClass
  return ⟨line.1, line.2, start.merge (← lastSpan)⟩

theorem operation_eq_lineEnd (inClass : Bool) : operation inClass = (do
    let op ← operationSpan inClass
    lineEnd
    return op) := by
  simp only [operation_eq, operationSpan, bind_assoc, pure_bind]

/-- What an operation is, or why it is none, is said by its line. -/
theorem alike_operationSpan (same : Prop) (hi : Nat) (inClass : Bool) :
    Alike same 0 hi (operationSpan inClass) (operationSpan inClass) := by
  unfold operationSpan operationLine
  simp only [bind_assoc, pure_bind]
  refine alike_spanHere.bind fun start => alike_resultName.bind fun result => ?_
  refine alike_spanHere.bind fun nameSpan => Alike.operationName_bind fun name => ?_
  refine (alike_action inClass name nameSpan).bind fun a => ?_
  refine (alike_checkResult result a nameSpan).bind fun _ => ?_
  exact alike_lastSpan.bind fun last => alike_pure _

/-! ### Headers of classes -/

/-- The header of a class without the line ends behind it. -/
def headerLine : Reading (Ident × List Param) := do
  advance
  let name ← symbolName
  expect .leftParen
  let params ← commaSeparatedBefore .rightParen param
  expect .rightParen
  expect .leftBrace
  return (name, params)

theorem classHeader_eq : classHeader = (do
    let header ← headerLine
    skipNewlines
    return header) := by
  simp only [classHeader, headerLine, bind_assoc, pure_bind]

theorem alike_param {hi : Nat} : Alike True 0 hi param param :=
  alike_valueName.bind fun _ => (alike_expect (by decide)).bind fun _ =>
    alike_ty.bind fun _ => alike_lastSpan.bind fun _ => alike_pure _

theorem alike_headerLine (same : Prop) (hi : Nat) : Alike same 1 hi headerLine headerLine := by
  refine Alike.advance_bind (alike_symbolName.bind fun name => ?_)
  refine (alike_expect (by decide)).bind fun _ => ?_
  refine (alike_commaSeparatedBefore .rightParen alike_param).bind fun params => ?_
  refine (alike_expect (by decide)).bind fun _ => (alike_expect (by decide)).bind fun _ => ?_
  exact alike_pure (name, params)

/-! ### Lines -/

variable {ts : List Token} {stop : Token} {c d : Cursor}

theorem lineEnd_on_line (hc : c.OnLine ts stop) (hd : d.OnLine ts stop) :
    (∃ e, lineEnd c = .error e c ∧ lineEnd d = .error e d) ∨
      lineEnd c = .ok () c.endLine ∧ lineEnd d = .ok () d.endLine := by
  have hkind : d.kind = c.kind := by rw [Cursor.kind, Cursor.kind, hc.token, hd.token]
  by_cases hends : c.kind.EndsLine
  · exact .inr ⟨lineEnd_of_endsLine hends, lineEnd_of_endsLine (hkind ▸ hends)⟩
  · rw [lineEnd_of_not_endsLine hends, lineEnd_of_not_endsLine (hkind ▸ hends)]
    exact .inl (expected_on_line hc hd .unexpectedToken "end of line")

/-- **An operation is read alike wherever its line stands**: either it stops at the same problem, or
it is the same one, and the same tokens of the line are taken. -/
theorem operation_on_line (inClass : Bool) (hc : c.OnLine ts stop) (hd : d.OnLine ts stop) :
    ∃ n, n ≤ ts.length ∧
      ((∃ e, operation inClass c = .error e (c.skip n) ∧
          operation inClass d = .error e (d.skip n)) ∨
        ∃ op, operation inClass c = .ok op (c.skip n).endLine ∧
          operation inClass d = .ok op (d.skip n).endLine) := by
  obtain ⟨r, n, hn, hc', hd'⟩ := alike_operationSpan False ts.length inClass ts stop c d
    (Nat.zero_le _) (Nat.le_refl _) hc hd False.elim
  refine ⟨n, hn, ?_⟩
  rw [operation_eq_lineEnd]
  cases r with
  | error e => exact .inl ⟨e, bind_of_error hc', bind_of_error hd'⟩
  | ok op =>
      rw [bind_of_ok hc', bind_of_ok hd']
      rcases lineEnd_on_line (hc.skip hn) (hd.skip hn) with ⟨e, hc', hd'⟩ | ⟨hc', hd'⟩
      · exact .inl ⟨e, bind_of_error hc', bind_of_error hd'⟩
      · exact .inr ⟨op, bind_of_ok hc', bind_of_ok hd'⟩

end Reading

end ObjectModel
