/-
**Reading comes to an end.**

Each loop of reading is one round after the other, and each recursion one level below the other.
What a round does depends only on what is done later, and it takes a token before that; so after one
round more than there are tokens it does not matter what would come then.  This needs a text that
has an end: a list of tokens that is empty, or of which the last token is the end of the text.  The
end of the text may also stand further in front; no loop goes beyond it.

Main definitions:

* `Settles` — a recursion, given by one of its rounds, comes to an end and gives a known result;
* `Cursor.whileRound`, `HardwareModule.bodyRound`, `Cursor.resumeRound`, `Noting.itemsRound` — one
  round of each loop;
* `Noting.behindItem` — an item that may be bad, and where the next one begins;
* `Module.MovesOn`, `Module.Ends` — what is to be said about the loops of reading a list of tokens.

Main results:

* `settles_of_round` — a recursion ends when each round makes the rest smaller;
* `Reading.Rounds.settles` — so do readers whose bound is never reached;
* `Cursor.settles_skipWhile`, `Cursor.settles_resume`, `HardwareModule.settles_body` — the loops
  over tokens;
* `Noting.movesOn_behindItem`, `Noting.settles_items` — behind each item fewer tokens are left;
* `Module.movesOn_and_ends` — **reading always makes progress, and comes to an end**.
-/

import Mathlib.Logic.Function.Iterate
import ObjectModel.Proofs.Forward
import ObjectModel.Proofs.Wrapper

set_option relaxedAutoImplicit false
set_option autoImplicit false

namespace ObjectModel

/-! ### Recursions that end -/

/-- The recursion of which `F` is one round, with an argument for what is done later, comes to an
end where `good` holds, and gives `f`: after more rounds than the size of the state says, it makes
no difference what is done later. -/
def Settles {σ β : Type} (size : σ → Nat) (good : σ → Prop) (F : (σ → β) → σ → β) (f : σ → β) :
    Prop :=
  ∀ (later : σ → β) (n : Nat) (s : σ), good s → size s < n → F^[n] later s = f s

section Settles

variable {σ β : Type} {size : σ → Nat} {good good' : σ → Prop} {F : (σ → β) → σ → β} {f : σ → β}

/-- A recursion ends when each round does what is to be done if the later ones do so from smaller
states on. -/
theorem settles_of_round (h : ∀ later s, good s →
    (∀ t, good t → size t < size s → later t = f t) → F later s = f s) :
    Settles size good F f := by
  intro later n
  induction n with
  | zero => exact fun s _ hn => absurd hn (Nat.not_lt_zero _)
  | succ n ih =>
      intro s hs hn
      rw [Function.iterate_succ_apply']
      exact h _ s hs fun t ht hlt => ih t ht (by omega)

theorem Settles.mono (h : Settles size good F f) (hgood : ∀ s, good' s → good s) :
    Settles size good' F f := fun later n s hs => h later n s (hgood s hs)

end Settles

/-! ### Cursors in a text that has an end -/

/-- How many tokens are left. -/
def Cursor.left (c : Cursor) : Nat := c.ahead.length

/-- Behind the last token there is the end of the text. -/
def Cursor.Finite (c : Cursor) : Prop := c.final.kind = .eof

theorem Cursor.Reaches.finite {c c' : Cursor} (h : c.Reaches c') (hc : c.Finite) : c'.Finite := by
  rw [Finite, h.final_eq]
  exact hc

theorem Reading.Rounds.settles {α : Type} {F : Reading α → Reading α} {x : Nat → Reading α}
    {y : Reading α} (hx : Rounds F x)
    (hround : ∀ r s c, (∀ d, d.ahead.length < c.ahead.length → Joint r s d) → Joint (F r) (F s) c)
    (hy : ∀ c : Cursor, ∃ n, c.ahead.length ≤ n ∧ y c = x n c) :
    Settles Cursor.left Cursor.Finite F y := by
  have hbounds (c : Cursor) := joint_rounds (k := c.ahead.length) hx hx
    (fun r s d _ => hround r s d) c (Nat.le_refl _)
  refine settles_of_round fun later c hc hlater => ?_
  obtain ⟨n, hn, hread⟩ := hy c
  have hjoint : Joint (F later) (F (x (n - 1))) c := by
    refine hround _ _ c fun d hd hfinal => ?_
    obtain ⟨m, hm, hread'⟩ := hy d
    obtain ⟨hsame, hreach⟩ := hbounds d m (n - 1) hm (by omega) hfinal
    exact ⟨(hlater d hfinal hd).trans (hread'.trans hsame), hreach⟩
  rw [hread, hx n c hc hn]
  exact (hjoint hc).1

/-! ### Loops over tokens -/

namespace Cursor

variable {c : Cursor} {p : TokenKind → Bool}

/-- One round of taking tokens as long as their kinds satisfy `p`. -/
def whileRound (p : TokenKind → Bool) (later : Cursor → Cursor) (c : Cursor) : Cursor :=
  if p c.kind then later c.advance else c

/-- One token more in front. -/
theorem advanceTo_cons (t : Token) (us rest ts : List Token) (final : Token) (last : Span) :
    (Cursor.mk (t :: ts) final last).advanceTo (t :: us) rest =
      (Cursor.mk (t :: ts) final last).advance.advanceTo us rest := by
  rw [advanceTo, advanceTo, List.getLast?_cons, advance_cons]
  cases us.getLast? <;> rfl

theorem skipWhile_of_neg (h : p c.kind = false) : c.skipWhile p = c := by
  obtain ⟨_ | ⟨t, ts⟩, final, last⟩ := c
  · rfl
  · have hneg : ¬p t.kind = true := Bool.eq_false_iff.1 h
    have htake : (t :: ts).takeWhile (fun u => p u.kind) = [] := List.takeWhile_cons_of_neg hneg
    have hdrop : (t :: ts).dropWhile (fun u => p u.kind) = t :: ts :=
      List.dropWhile_cons_of_neg hneg
    rw [skipWhile, htake, hdrop]
    rfl

theorem skipWhile_of_pos (hc : c.Finite) (hp : p .eof = false) (h : p c.kind = true) :
    c.skipWhile p = c.advance.skipWhile p := by
  obtain ⟨_ | ⟨t, ts⟩, final, last⟩ := c
  · have hend : final.kind = .eof := hc
    rw [kind, token_nil, hend, hp] at h
    cases h
  · have htake : (t :: ts).takeWhile (fun u => p u.kind) = t :: ts.takeWhile fun u => p u.kind :=
      List.takeWhile_cons_of_pos h
    have hdrop : (t :: ts).dropWhile (fun u => p u.kind) = ts.dropWhile fun u => p u.kind :=
      List.dropWhile_cons_of_pos h
    rw [skipWhile, htake, hdrop]
    exact advanceTo_cons t _ _ ts final last

theorem settles_skipWhile (hp : p .eof = false) :
    Settles left Finite (whileRound p) fun c => c.skipWhile p := by
  refine settles_of_round fun later c hc hlater => ?_
  rw [whileRound]
  split
  · next h =>
      have hk : c.kind ≠ .eof := by
        intro hk
        rw [hk, hp] at h
        cases h
      rw [hlater c.advance ((Reaches.advance hc hk).finite hc) (length_advance_lt hc hk)]
      exact (skipWhile_of_pos hc hp h).symm
  · next h => exact (skipWhile_of_neg (by simpa using h)).symm

/-- Where tokens are no longer taken. -/
theorem kind_skipWhile (hc : c.Finite) (hp : p .eof = false) : p (c.skipWhile p).kind = false := by
  rw [kind, token, skipWhile, advanceTo]
  dsimp only
  cases hrest : c.ahead.dropWhile fun t => p t.kind with
  | nil => rw [List.headD_nil, hc, hp]
  | cons t ts =>
      have hstop := List.head?_dropWhile_not (fun t : Token => p t.kind) c.ahead
      rw [hrest] at hstop
      simpa using hstop

/-- One round of skipping what is left of an item that began at `start`. -/
def resumeRound (start : Cursor) (later : Cursor → Cursor) (c : Cursor) : Cursor :=
  match c.kind with
  | .eof => c
  | .newline => c.skipNewlines
  | .rightBrace => if c.ahead.length = start.ahead.length then c.advance else c
  | _ => later c.advance

/-- Where an item ends, nothing is left to skip. -/
theorem resume_of_stop {start : Cursor} (later : Cursor → Cursor)
    (h : c.kind = .eof ∨ c.kind = .newline ∨ c.kind = .rightBrace) :
    start.resume c = resumeRound start later c := by
  have hskip : (c.skipWhile fun k => k != .eof && k != .newline && k != .rightBrace) = c := by
    refine skipWhile_of_neg ?_
    rcases h with h | h | h <;> simp [h]
  rw [resume, resumeRound, hskip]
  rcases h with h | h | h <;> rw [h]

theorem resume_of_inside {start : Cursor} (hc : c.Finite)
    (h : ¬(c.kind = .eof ∨ c.kind = .newline ∨ c.kind = .rightBrace)) :
    start.resume c = start.resume c.advance := by
  have hinside : (c.kind != .eof && c.kind != .newline && c.kind != .rightBrace) = true := by
    simpa [and_assoc] using h
  rw [resume, resume, skipWhile_of_pos hc rfl hinside]

theorem settles_resume (start : Cursor) :
    Settles left Finite (resumeRound start) start.resume := by
  refine settles_of_round fun later c hc hlater => ?_
  by_cases h : c.kind = .eof ∨ c.kind = .newline ∨ c.kind = .rightBrace
  · exact (resume_of_stop later h).symm
  · have hk : c.kind ≠ .eof := fun hk => h (.inl hk)
    have hround : resumeRound start later c = later c.advance := by
      unfold resumeRound
      split
      · next hk => exact absurd (.inl hk) h
      · next hk => exact absurd (.inr (.inl hk)) h
      · next hk => exact absurd (.inr (.inr hk)) h
      · rfl
    rw [hround, resume_of_inside hc h]
    exact hlater c.advance ((Reaches.advance hc hk).finite hc) (length_advance_lt hc hk)

theorem Reaches.resume (hc : c.Finite) (start : Cursor) : c.Reaches (start.resume c) := by
  have hskip := Reaches.skipWhile (p := fun k => k != .eof && k != .newline && k != .rightBrace)
    c rfl
  unfold Cursor.resume
  dsimp only
  split
  · exact hskip.trans (.skipNewlines _)
  · next hk =>
      split
      · exact hskip.trans (.advance (hskip.finite hc) (by simp [hk]))
      · exact hskip
  · exact hskip

/-- Behind what is left of an item fewer tokens are left than where it began. -/
theorem length_resume_lt {start : Cursor} (hc : start.Finite) (hk : start.kind ≠ .eof)
    (h : start.Reaches c) : (start.resume c).ahead.length < start.ahead.length := by
  have hle := (Reaches.resume (h.finite hc) start).length_le
  rcases Nat.lt_or_ge c.ahead.length start.ahead.length with hlt | hge
  · exact Nat.lt_of_le_of_lt hle hlt
  -- no token of the item was taken, so the next one is taken now
  obtain rfl := h.eq_of_length_le hge
  have hadvance := length_advance_lt hc hk
  have hfinal := (Reaches.advance hc hk).finite hc
  by_cases hstop : c.kind = .eof ∨ c.kind = .newline ∨ c.kind = .rightBrace
  · rw [resume_of_stop id hstop, resumeRound]
    rcases hstop with hstop | hnewline | hbrace
    · exact absurd hstop hk
    · have hskip : c.skipNewlines = c.advance.skipNewlines :=
        skipWhile_of_pos hc rfl (by simp [hnewline])
      have hle := (Reaches.skipNewlines c.advance).length_le
      -- at least one line end is skipped
      rw [hnewline]
      dsimp only
      rw [hskip]
      omega
    · rw [hbrace]
      dsimp only
      rw [if_pos rfl]
      exact hadvance
  · have hle := (Reaches.resume hfinal c).length_le
    rw [resume_of_inside hc hstop]
    omega

end Cursor

/-! ### The bodies of hardware modules -/

namespace HardwareModule

/-- One round of skipping a body that is open at as many braces besides the first as the number
says, with the symbols that are announced. -/
def bodyRound (later : Nat × Cursor → List Ident × Cursor) :
    Nat × Cursor → List Ident × Cursor
  | (depth, c) =>
      match c.kind with
      | .eof => ([], c)
      | .rightBrace =>
          match depth with
          | 0 => ([], c)
          | depth + 1 => later (depth, c.advance)
      | .leftBrace => later (depth + 1, c.advance)
      | .word "sym" =>
          match c.advance.ahead with
          | ⟨.symbol name, span⟩ :: _ =>
              (later (depth, c.advance.advance)).map (⟨name, span⟩ :: ·) id
          | _ => later (depth, c.advance)
      | _ => later (depth, c.advance)

/-- What is skipped of a body, with the symbols in it, and where reading stands behind it. -/
def skipBody (s : Nat × Cursor) : List Ident × Cursor :=
  (announcedIn (splitBody s.1 s.2.ahead).1,
    s.2.advanceTo (splitBody s.1 s.2.ahead).1 (splitBody s.1 s.2.ahead).2)

theorem skipBody_of_stop {depth : Nat} {c : Cursor}
    (h : c.kind = .eof ∨ c.kind = .rightBrace ∧ depth = 0) : skipBody (depth, c) = ([], c) := by
  have hsplit : splitBody depth c.ahead = ([], c.ahead) := by
    obtain ⟨_ | ⟨t, ts⟩, final, last⟩ := c
    · rfl
    · unfold splitBody
      rcases h with hk | ⟨hk, rfl⟩
      · have ht : t.kind = .eof := hk
        rw [ht]
      · have ht : t.kind = .rightBrace := hk
        rw [ht]
  rw [skipBody, hsplit]
  rfl

/-- A token that does not end the body is skipped. -/
theorem skipBody_of_inside {depth depth' : Nat} {t : Token} {ts : List Token} {final : Token}
    {last : Span} (h : splitBody depth (t :: ts) = (splitBody depth' ts).map (t :: ·) id) :
    skipBody (depth, ⟨t :: ts, final, last⟩) =
      (skipBody (depth', ⟨ts, final, t.span⟩)).map
        ((announced? t (splitBody depth' ts).1).toList ++ ·) id := by
  rw [skipBody, h]
  refine Prod.ext rfl ?_
  exact Cursor.advanceTo_cons t _ _ ts final last

/-- A token that announces nothing is skipped. -/
theorem skipBody_of_silent {depth depth' : Nat} {t : Token} {ts : List Token} {final : Token}
    {last : Span} (h : splitBody depth (t :: ts) = (splitBody depth' ts).map (t :: ·) id)
    (ht : announced? t (splitBody depth' ts).1 = none) :
    skipBody (depth, ⟨t :: ts, final, last⟩) = skipBody (depth', ⟨ts, final, t.span⟩) := by
  rw [skipBody_of_inside h, ht]
  rfl

theorem announced?_of_ne {t : Token} (h : t.kind ≠ .word "sym") (ts : List Token) :
    announced? t ts = none := if_neg h

/-- Nothing is announced where no symbol stands behind the word. -/
theorem announced?_splitBody {t : Token} {ts : List Token}
    (h : ∀ name span us, ts = ⟨.symbol name, span⟩ :: us → False) (depth : Nat) :
    announced? t (splitBody depth ts).1 = none := by
  unfold announced?
  split
  · split
    · next name span us hbody =>
        have happend := splitBody_append depth ts
        rw [hbody, List.cons_append] at happend
        exact (h name span _ happend.symm).elim
    · rfl
  · rfl

/-- A token that is no brace and does not end the text changes no depth. -/
theorem splitBody_of_ne {t : Token} (heof : t.kind ≠ .eof) (hopen : t.kind ≠ .leftBrace)
    (hclose : t.kind ≠ .rightBrace) (depth : Nat) (ts : List Token) :
    splitBody depth (t :: ts) = (splitBody depth ts).map (t :: ·) id := by
  conv_lhs => unfold splitBody
  split <;> first | contradiction | rfl

theorem settles_body :
    Settles (fun s : Nat × Cursor => s.2.left) (fun s => s.2.Finite) bodyRound skipBody := by
  refine settles_of_round ?_
  rintro later ⟨depth, c⟩ hc hlater
  by_cases hk : c.kind = .eof
  · unfold bodyRound
    dsimp only
    rw [skipBody_of_stop (.inl hk), hk]
  obtain ⟨_ | ⟨t, ts⟩, final, last⟩ := c
  · exact absurd hc hk
  have hnext (depth' : Nat) : later (depth', ⟨ts, final, t.span⟩) =
      skipBody (depth', ⟨ts, final, t.span⟩) := hlater _ hc (Nat.lt_succ_self _)
  have hkind : (Cursor.mk (t :: ts) final last).kind = t.kind := rfl
  unfold bodyRound
  dsimp only
  rw [hkind] at hk ⊢
  rw [Cursor.advance_cons]
  split
  · next ht => exact absurd ht hk
  · next ht =>
      cases depth with
      | zero => exact (skipBody_of_stop (.inr ⟨hkind.trans ht, rfl⟩)).symm
      | succ depth =>
          -- a closing brace ends an inner body, and the outer one goes on
          have hsplit : splitBody (depth + 1) (t :: ts) = (splitBody depth ts).map (t :: ·) id := by
            conv_lhs => unfold splitBody
            rw [ht]
          dsimp only
          rw [hnext]
          exact (skipBody_of_silent hsplit (announced?_of_ne (by simp [ht]) _)).symm
  · next ht =>
      have hsplit : splitBody depth (t :: ts) = (splitBody (depth + 1) ts).map (t :: ·) id := by
        conv_lhs => unfold splitBody
        rw [ht]
      rw [hnext]
      exact (skipBody_of_silent hsplit (announced?_of_ne (by simp [ht]) _)).symm
  · next ht =>
      have hsplit := splitBody_of_ne (t := t) (by simp [ht]) (by simp [ht]) (by simp [ht]) depth ts
      dsimp only
      split
      · next name span us =>
          -- the word and the symbol behind it are skipped together
          have hsymbol := splitBody_of_ne (t := ⟨.symbol name, span⟩) (by simp) (by simp) (by simp)
            depth us
          have hless : us.length < us.length + 1 + 1 := by omega
          have hlast := hlater (depth, ⟨us, final, span⟩) hc hless
          rw [Cursor.advance_cons, hlast, skipBody_of_inside hsplit,
            skipBody_of_silent hsymbol (announced?_of_ne (by simp) _), hsymbol]
          simp [announced?, ht]
      · next hnone =>
          rw [hnext]
          exact (skipBody_of_silent hsplit (announced?_splitBody hnone depth)).symm
  · next hclose hopen hword =>
      rw [hnext]
      have hsplit := splitBody_of_ne hk hopen hclose depth ts
      exact (skipBody_of_silent hsplit (announced?_of_ne hword _)).symm

theorem stop_splitBody (depth : Nat) (ts : List Token) :
    ∀ t ∈ (splitBody depth ts).2.head?, t.kind = .rightBrace ∨ t.kind = .eof := by
  induction ts generalizing depth with
  | nil => simp [splitBody]
  | cons t ts ih =>
      unfold splitBody
      split
      · next hk => simpa using Or.inr hk
      · next hk => simpa using Or.inl hk
      · exact ih _
      · exact ih _
      · exact ih _

/-- Where a body ends. -/
theorem kind_skipBody {c : Cursor} (hc : c.Finite) (depth : Nat) :
    (skipBody (depth, c)).2.kind = .rightBrace ∨ (skipBody (depth, c)).2.kind = .eof := by
  have hstop := stop_splitBody depth c.ahead
  rw [skipBody, Cursor.kind, Cursor.token, Cursor.advanceTo]
  dsimp only
  cases hrest : (splitBody depth c.ahead).2 with
  | nil => exact .inr hc
  | cons t ts =>
      rw [hrest] at hstop
      exact hstop t rfl

end HardwareModule

/-! ### Items -/

namespace Noting

variable {α β : Type}

/-- The reader goes forward. -/
def Forward (x : Noting α) (p : Progress) : Prop :=
  p.cursor.Finite → p.cursor.Reaches (x.run.run p).2.cursor

/-- The reader has taken a token when it has a result. -/
def Shortens (x : Noting α) (p : Progress) : Prop :=
  p.cursor.Finite → ∀ a, (x.run.run p).1 = some a → (x.run.run p).2.cursor.left < p.cursor.left

/-- An item, which may be bad, and where the next one begins. -/
def behindItem (item : Noting α) (p : Progress) : Option α × Progress :=
  let read := item.run.run p
  (read.1, { read.2 with
    cursor := (match read.1 with
      | some _ => read.2.cursor
      | none => p.cursor.resume read.2.cursor).skipNewlines })

section Forward

variable {p : Progress} {x : Noting α} {f : α → Noting β}

theorem forward_pure (a : α) : Forward (pure a : Noting α) p := fun _ => .refl p.cursor

theorem Forward.attempt {r : Reading α} (h : Reading.Joint r r p.cursor) :
    Forward (attempt r) p := by
  intro hc
  obtain ⟨-, hreach⟩ := h hc
  cases hr : r p.cursor with
  | ok a c =>
      rw [Reading.stop, hr] at hreach
      rw [run_attempt_of_ok hr]
      exact hreach
  | error e c =>
      rw [Reading.stop, hr] at hreach
      rw [run_attempt_of_error hr]
      exact hreach

theorem Forward.bind (hx : Forward x p) (hf : ∀ a q, Forward (f a) q) : Forward (x >>= f) p := by
  intro hc
  have hfirst := hx hc
  cases hrun : x.run.run p with
  | mk o q =>
      rw [hrun] at hfirst
      cases o with
      | none =>
          rw [run_bind_of_none hrun]
          exact hfirst
      | some a =>
          rw [run_bind_of_some hrun]
          exact hfirst.trans (hf a q (hfirst.finite hc))

/-- A reader that looks and takes nothing. -/
theorem Forward.look_bind {r : Reading α} {a : α} (hr : r p.cursor = .ok a p.cursor)
    (h : Forward (f a) p) : Forward (Noting.attempt r >>= f) p := by
  rw [Forward, run_bind_of_some (run_attempt_of_ok hr)]
  exact h

theorem Forward.behindItem {item : Noting α} (hitem : Forward item p) (hc : p.cursor.Finite) :
    p.cursor.Reaches (behindItem item p).2.cursor := by
  have hreach := hitem hc
  refine Cursor.Reaches.trans ?_ (.skipNewlines _)
  split
  · exact hreach
  · exact hreach.trans (.resume (hreach.finite hc) _)

theorem forward_items (close : TokenKind) {item : Noting α} (hitem : ∀ q, Forward item q) :
    Forward (items close item) p := by
  intro hc
  change p.cursor.Reaches (itemsFrom close item p).2.cursor
  fun_induction itemsFrom close item p with
  | case1 p hstop => exact .refl _
  | case2 p hgo read cursor next hless later ih =>
      have hreach := (hitem p).behindItem hc
      exact hreach.trans (ih (hreach.finite hc))
  | case3 p hgo read cursor next hless => exact (hitem p).behindItem hc

theorem Shortens.attempt {r : Reading α} {g : List Token → α → Prop}
    (h : p.cursor.final.kind = .eof → Reading.Lays r p.cursor g) (hne : ∀ a, ¬g [] a) :
    Shortens (attempt r) p := by
  intro hc a ha
  have hrun : (Noting.attempt r).run.run p = (some a, ((Noting.attempt r).run.run p).2) :=
    Prod.ext ha rfl
  obtain ⟨c, hr, hp⟩ := ok_of_run_attempt hrun
  rw [hp]
  obtain ⟨_ | ⟨t, ts⟩, hpass, hg⟩ := h hc a c hr
  · exact absurd hg (hne a)
  · have hlen := congrArg List.length hpass.ahead
    rw [List.length_append, List.length_cons] at hlen
    change c.ahead.length < p.cursor.ahead.length
    omega

theorem Shortens.bind (hx : Shortens x p) (hf : ∀ a q, Forward (f a) q) (hforward : Forward x p) :
    Shortens (x >>= f) p := by
  intro hc b hb
  have hfirst := hx hc
  have hreach := hforward hc
  cases hrun : x.run.run p with
  | mk o q =>
      rw [hrun] at hfirst hreach
      cases o with
      | none =>
          rw [run_bind_of_none hrun] at hb
          cases hb
      | some a =>
          rw [run_bind_of_some hrun]
          exact Nat.lt_of_le_of_lt (hf a q (hreach.finite hc)).length_le (hfirst a rfl)

theorem Shortens.look_bind {r : Reading α} {a : α} (hr : r p.cursor = .ok a p.cursor)
    (h : Shortens (f a) p) : Shortens (Noting.attempt r >>= f) p := by
  rw [Shortens, run_bind_of_some (run_attempt_of_ok hr)]
  exact h

end Forward

/-! ### One item -/

section Item

open Reading (Ended)

variable {p : Progress}

/-- Something in front of line ends takes a token when it is something. -/
theorem not_ended_nil {g : List Token → α → Prop} (hg : ∀ a, ¬g [] a) (a : α) : ¬Ended g [] a := by
  rintro ⟨line, bs, hnil, -, hline⟩
  obtain ⟨rfl, -⟩ := List.append_eq_nil_iff.1 hnil.symm
  exact hg a hline

theorem forward_operation (inClass : Bool) (p : Progress) :
    Forward (attempt (Reading.operation inClass)) p := .attempt (Reading.joint_operation inClass)

theorem shortens_operation (inClass : Bool) (p : Progress) :
    Shortens (attempt (Reading.operation inClass)) p := by
  refine .attempt (Reading.lays_operation inClass) (not_ended_nil fun op hderives => ?_)
  obtain ⟨us, t, hline, -⟩ := Reading.endsInside_of_operation hderives
  simp at hline

theorem forward_hardware (hk : p.cursor.kind ≠ .eof) : Forward (attempt Reading.hardware) p :=
  .attempt (Reading.joint_hardware hk)

theorem shortens_hardware (hk : p.cursor.kind = .word "hw.module") :
    Shortens (attempt Reading.hardware) p := by
  refine .attempt (Reading.lays_hardware hk) (not_ended_nil fun m hderives => ?_)
  cases hderives with
  | intro _ _ htext => cases htext

theorem forward_classDecl (hk : p.cursor.kind ≠ .eof) : Forward classDecl p := by
  refine Forward.look_bind (r := Reading.spanHere) rfl ?_
  refine (Forward.attempt (Reading.joint_classHeader hk)).bind fun header q => ?_
  refine (forward_items .rightBrace (forward_operation true)).bind fun body q => ?_
  exact (Forward.attempt (Reading.joint_closeBody _ _)).bind fun span q => forward_pure _

theorem shortens_classDecl (hk : p.cursor.kind = .word "om.class") : Shortens classDecl p := by
  have hne : p.cursor.kind ≠ .eof := by simp [hk]
  refine Shortens.look_bind (r := Reading.spanHere) rfl ?_
  refine Shortens.bind ?_ (fun header q => ?_) (.attempt (Reading.joint_classHeader hne))
  · refine .attempt (Reading.lays_classHeader hk) (not_ended_nil fun header hline => ?_)
    obtain ⟨s, s₁, s₂, s₃, ps, hline, -⟩ := hline
    cases hline
  · refine (forward_items .rightBrace (forward_operation true)).bind fun body q => ?_
    exact (Forward.attempt (Reading.joint_closeBody _ _)).bind fun span q => forward_pure _

theorem forward_item (p : Progress) : Forward item p := by
  have hended {β : Type} {x : Noting β} {f : β → Item} (hx : Forward x p) :
      Forward (x >>= fun a => pure (f a)) p := hx.bind fun a q => forward_pure (f a)
  refine Forward.look_bind (r := Reading.kind) rfl ?_
  split
  · next hk => exact hended (forward_classDecl (by simp [hk]))
  · next hk => exact hended (forward_hardware (by simp [hk]))
  · exact hended (forward_operation false p)
  · exact hended (forward_operation false p)
  · exact .attempt (Reading.joint_fail _ _)
  · exact .attempt (Reading.joint_expected _ _)

theorem shortens_item (p : Progress) : Shortens item p := by
  have hended {β : Type} {x : Noting β} {f : β → Item} (hx : Shortens x p)
      (hforward : Forward x p) : Shortens (x >>= fun a => pure (f a)) p :=
    hx.bind (fun a q => forward_pure (f a)) hforward
  refine Shortens.look_bind (r := Reading.kind) rfl ?_
  split
  · next hk => exact hended (shortens_classDecl hk) (forward_classDecl (by simp [hk]))
  · next hk => exact hended (shortens_hardware hk) (forward_hardware (by simp [hk]))
  · exact hended (shortens_operation false p) (forward_operation false p)
  · exact hended (shortens_operation false p) (forward_operation false p)
  · rintro - a ⟨⟩
  · rintro - a ⟨⟩

end Item

/-! ### Items in a row -/

/-- One round of reading items up to the token `close`. -/
def itemsRound (close : TokenKind) (item : Noting α) (later : Progress → List α × Progress)
    (p : Progress) : List α × Progress :=
  if p.cursor.kind = close ∨ p.cursor.kind = .eof ∨ p.spent then ([], p)
  else
    let read := behindItem item p
    (later read.2).map (read.1.toList ++ ·) id

section Items

variable {close : TokenKind} {item : Noting α} {p : Progress}

/-- **Behind an item fewer tokens are left**, whether it is good or bad. -/
theorem movesOn_behindItem (hforward : Forward item p) (hshortens : Shortens item p)
    (hc : p.cursor.Finite) (hk : p.cursor.kind ≠ .eof) :
    p.cursor.Reaches (behindItem item p).2.cursor ∧
      (behindItem item p).2.cursor.left < p.cursor.left := by
  refine ⟨hforward.behindItem hc, Nat.lt_of_le_of_lt (Cursor.Reaches.skipNewlines _).length_le ?_⟩
  split
  · next a ha => exact hshortens hc a ha
  · exact Cursor.length_resume_lt hc hk (hforward hc)

theorem itemsFrom_behindItem
    (hgo : ¬(p.cursor.kind = close ∨ p.cursor.kind = .eof ∨ p.spent = true))
    (hless : (behindItem item p).2.measure < p.measure) : itemsFrom close item p =
      (itemsFrom close item (behindItem item p).2).map ((behindItem item p).1.toList ++ ·) id := by
  have hrun : item.run.run p = ((item.run.run p).1, (item.run.run p).2) := rfl
  exact itemsFrom_step hgo hrun rfl hless

/-- Items in a row come to an end when fewer tokens are left behind each of them. -/
theorem settles_items (hforward : ∀ p, Forward item p) (hshortens : ∀ p, Shortens item p)
    (hgrows : Grows item) : Settles (fun p : Progress => p.cursor.left)
      (fun p => p.cursor.Finite) (itemsRound close item) (itemsFrom close item) := by
  refine settles_of_round fun later p hc hlater => ?_
  rw [itemsRound]
  split
  · next hstop => rw [itemsFrom, if_pos hstop]
  · next hgo =>
      have hk : p.cursor.kind ≠ .eof := fun hk => hgo (.inr (.inl hk))
      obtain ⟨hreach, hless⟩ := movesOn_behindItem (hforward p) (hshortens p) hc hk
      -- the reader goes on only where its measure falls, and fewer tokens make it fall
      have hmeasure : (behindItem item p).2.measure < p.measure := by
        have hnoted : p.problems.length ≤ (behindItem item p).2.problems.length :=
          (hgrows p).length_le
        have hless : (behindItem item p).2.cursor.ahead.length < p.cursor.ahead.length := hless
        rw [Progress.measure, Progress.measure]
        omega
      rw [itemsFrom_behindItem hgo hmeasure, ← hlater _ (hreach.finite hc) hless]

end Items

end Noting

/-! ### Modules -/

/-- The cursor stands in the list of tokens `ts`. -/
structure Cursor.In (ts : List Token) (c : Cursor) : Prop where
  ahead : c.ahead <:+ ts
  final : c.final = (ofTokens ts).final

namespace Cursor.In

variable {ts : List Token} {c c' : Cursor}

theorem ofTokens (ts : List Token) : (Cursor.ofTokens ts).In ts := ⟨List.suffix_rfl, rfl⟩

theorem reaches (h : c.In ts) (hreach : c.Reaches c') : c'.In ts :=
  ⟨hreach.suffix.trans h.ahead, hreach.final_eq.trans h.final⟩

/-- Nothing stands behind a list of tokens but the end of the text. -/
theorem finite (hts : ∀ t ∈ ts.getLast?, t.kind = .eof) (h : c.In ts) : c.Finite := by
  rw [Finite, h.final, Cursor.ofTokens]
  cases hlast : ts.getLast? with
  | none => rfl
  | some t => exact hts t hlast

end Cursor.In

namespace Module

open HardwareModule (bodyRound skipBody)
open Reading (commaSeparated commaSeparatedWith operandsWith tyWith segmentsWith constantWith)
open Noting (behindItem itemsRound itemsFrom)

/-- Each round of a loop over items takes tokens of the list `ts`, and the other loops go no further
than to the next end of the text. -/
structure MovesOn (ts : List Token) : Prop where
  start : (Cursor.ofTokens ts).In ts
  item : ∀ p : Progress, p.cursor.In ts → p.cursor.kind ≠ .eof →
    (behindItem Noting.item p).2.cursor.In ts ∧
      (behindItem Noting.item p).2.cursor.left < p.cursor.left
  line : ∀ p : Progress, p.cursor.In ts → p.cursor.kind ≠ .eof →
    (behindItem (Noting.attempt (Reading.operation true)) p).2.cursor.In ts ∧
      (behindItem (Noting.attempt (Reading.operation true)) p).2.cursor.left < p.cursor.left
  newlines : ∀ c : Cursor, c.In ts → c.Reaches c.skipNewlines ∧ c.skipNewlines.kind ≠ .newline
  signature : ∀ c d : Cursor, c.In ts →
    d = c.skipWhile (fun k => k != .leftBrace && k != .newline && k != .eof) →
      c.Reaches d ∧ (d.kind = .leftBrace ∨ d.kind = .newline ∨ d.kind = .eof)
  body : ∀ (c d : Cursor) (xs : List Ident), c.In ts → Reading.hardwareBody c = .ok xs d →
    c.Reaches d ∧ (d.kind = .rightBrace ∨ d.kind = .eof)
  resume : ∀ start c : Cursor, c.In ts → c.Reaches (start.resume c)

/-- Every loop and every recursion of reading comes to an end in the list of tokens `ts`, and gives
what the reader gives. -/
structure Ends (ts : List Token) : Prop where
  newlines : Settles Cursor.left (Cursor.In ts) (Cursor.whileRound (· == .newline))
    Cursor.skipNewlines
  signature : Settles Cursor.left (Cursor.In ts)
    (Cursor.whileRound fun k => k != .leftBrace && k != .newline && k != .eof)
    fun c => c.skipWhile fun k => k != .leftBrace && k != .newline && k != .eof
  body : Settles (fun s => s.2.left) (fun s => s.2.In ts) bodyRound skipBody
  resume : ∀ start, Settles Cursor.left (Cursor.In ts) (Cursor.resumeRound start) start.resume
  commas : ∀ (α : Type) (item : Reading α), (∀ c, Reading.Joint item item c) →
    Settles Cursor.left (Cursor.In ts) (commaSeparatedWith item) (commaSeparated item)
  operands : Settles Cursor.left (Cursor.In ts) operandsWith Reading.operands
  types : Settles Cursor.left (Cursor.In ts) tyWith Reading.ty
  segments : Settles Cursor.left (Cursor.In ts) segmentsWith
    fun c => Reading.segmentsUpTo c.ahead.length c
  constants : Settles Cursor.left (Cursor.In ts) constantWith Reading.constant
  lines : Settles (fun p => p.cursor.left) (fun p => p.cursor.In ts)
    (itemsRound .rightBrace (Noting.attempt (Reading.operation true)))
    (itemsFrom .rightBrace (Noting.attempt (Reading.operation true)))
  items : ∀ close, Settles (fun p => p.cursor.left) (fun p => p.cursor.In ts)
    (itemsRound close Noting.item) (itemsFrom close Noting.item)

section Finite

variable {ts : List Token}

theorem movesOn (hts : ∀ t ∈ ts.getLast?, t.kind = .eof) : MovesOn ts := by
  have hitems {α : Type} {item : Noting α} (hforward : ∀ p, item.Forward p)
      (hshortens : ∀ p, item.Shortens p) (p : Progress) (hp : p.cursor.In ts)
      (hk : p.cursor.kind ≠ .eof) :
      (behindItem item p).2.cursor.In ts ∧ (behindItem item p).2.cursor.left < p.cursor.left :=
    (Noting.movesOn_behindItem (hforward p) (hshortens p) (hp.finite hts) hk).imp_left hp.reaches
  refine
    { start := .ofTokens ts
      item := hitems Noting.forward_item Noting.shortens_item
      line := hitems (Noting.forward_operation true) (Noting.shortens_operation true)
      newlines := fun c hc => ⟨.skipNewlines c, ?_⟩
      signature := ?_
      body := ?_
      resume := fun start c hc => .resume (hc.finite hts) start }
  · have hstop := Cursor.kind_skipWhile (p := (· == .newline)) (hc.finite hts) rfl
    exact of_decide_eq_false hstop
  · rintro c d hc rfl
    have hstop := Cursor.kind_skipWhile
      (p := fun k => k != .leftBrace && k != .newline && k != .eof) (hc.finite hts) rfl
    refine ⟨.skipWhile c rfl, ?_⟩
    simpa [or_iff_not_imp_left] using hstop
  · rintro c _ _ hc ⟨⟩
    exact ⟨.splitBody c 0, HardwareModule.kind_skipBody (hc.finite hts) 0⟩

theorem ends (hts : ∀ t ∈ ts.getLast?, t.kind = .eof) : Ends ts := by
  have hfinite (c : Cursor) (hc : c.In ts) : c.Finite := hc.finite hts
  have hitems {α : Type} {item : Noting α} (close : TokenKind) (hforward : ∀ p, item.Forward p)
      (hshortens : ∀ p, item.Shortens p) (hgrows : item.Grows) :
      Settles (fun p => p.cursor.left) (fun p => p.cursor.In ts) (itemsRound close item)
        (itemsFrom close item) :=
    (Noting.settles_items hforward hshortens hgrows).mono fun p => hfinite p.cursor
  refine
    { newlines := (Cursor.settles_skipWhile rfl).mono hfinite
      signature := (Cursor.settles_skipWhile rfl).mono hfinite
      body := HardwareModule.settles_body.mono fun s => hfinite s.2
      resume := fun start => (Cursor.settles_resume start).mono hfinite
      commas := fun α item hitem => ?_
      operands := ?_
      types := ?_
      segments := ?_
      constants := ?_
      lines := hitems _ (Noting.forward_operation true) (Noting.shortens_operation true)
        (Noting.grows_attempt _)
      items := fun close =>
        hitems close Noting.forward_item Noting.shortens_item Noting.grows_item }
  · have hrounds := Reading.rounds_commaSeparatedUpTo fun d _ => hitem d
    refine Settles.mono (hrounds.settles (fun r s c hlater => ?_) fun c => ?_) hfinite
    · exact Reading.joint_commaSeparatedWith (hitem c) hlater
    · exact ⟨_, Nat.le_refl _, rfl⟩
  · exact Settles.mono (Reading.rounds_operandsUpTo.settles
      (fun _ _ _ => Reading.joint_operandsWith) fun _ => ⟨_, Nat.le_succ _, rfl⟩) hfinite
  · exact Settles.mono (Reading.rounds_tyUpTo.settles
      (fun _ _ _ => Reading.joint_tyWith) fun _ => ⟨_, Nat.le_succ _, rfl⟩) hfinite
  · exact Settles.mono (Reading.rounds_segmentsUpTo.settles
      (fun _ _ _ => Reading.joint_segmentsWith) fun _ => ⟨_, Nat.le_refl _, rfl⟩) hfinite
  · exact Settles.mono (Reading.rounds_constantUpTo.settles
      (fun _ _ _ => Reading.joint_constantWith) fun _ => ⟨_, Nat.le_succ _, rfl⟩) hfinite

/-- **Reading always makes progress, and comes to an end.**  In a list of tokens that is empty or
ends with the end of the text, whatever else stands in it, behind each item, good or bad, fewer
tokens are left than before it; the loops over line ends, over the signature and the body of a
hardware module, and over what is left of a bad item go no further than to the next end of the text;
and every loop and every recursion of reading is over after one round more than there are tokens
left. -/
theorem movesOn_and_ends (hts : ∀ t ∈ ts.getLast?, t.kind = .eof) : MovesOn ts ∧ Ends ts :=
  ⟨movesOn hts, ends hts⟩

end Finite

/-- A stray brace, a blank line, a comma, and a text that ends before its last token. -/
def stray : List Token :=
  [⟨.rightBrace, default⟩, ⟨.newline, default⟩, ⟨.newline, default⟩, ⟨.comma, default⟩,
    ⟨.leftBrace, default⟩, ⟨.eof, default⟩, ⟨.comma, default⟩, ⟨.eof, default⟩]

/-- Reading goes from one stray token to the next, and ends where the text ends first. -/
theorem movesOn_and_ends_stray :
    (∀ t ∈ stray.getLast?, t.kind = .eof) ∧ MovesOn stray ∧ Ends stray ∧
      (ofTokens? "stray.mlir" stray).2.map Problem.message =
        ["unbalanced '\x7d'", "expected operation, got ','"] :=
  have hstray : ∀ t ∈ stray.getLast?, t.kind = .eof := by decide
  ⟨hstray, (movesOn_and_ends hstray).1, (movesOn_and_ends hstray).2, by decide +kernel⟩

end Module

end ObjectModel
