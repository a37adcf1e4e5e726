/-
**The pieces of a text.**

Reading takes a text step by step.  Every step drops some blanks and takes the characters behind
them, which are a token or are rejected.  So reading cuts the text into pieces, one for each step;
nothing of the text is lost, and the tokens and problems of the text are those of its pieces.  A
piece says from which characters its token was read, and with that where the token stands.

Main definitions:

* `Position.behind` — the position behind a text, counted from the whole of it;
* `TokenKind.BeginsWith` — the characters with which a token begins;
* `Token.Scan.From` — everything that a step of reading can come to;
* `Token.Piece`, `Token.cut` — a text cut into pieces;
* `Token.Cuts` — how cutting goes, to argue by induction on it.

Main results:

* `Position.afterAll_origin` — counting character by character leads to `Position.behind`;
* `Token.scan_from` — a step of reading, for every kind of token;
* `Token.Cuts.scanAll_eq` — the tokens and problems of a text are those of its pieces;
* `Token.Cuts.readAt` — every piece is what one step takes where the pieces before it end;
* `Source.position_of_tokens` — **tokens stand where their first characters do, one behind the
  other**.
-/

import Mathlib.Data.List.Induction
import ObjectModel.Proofs.Positions
import ObjectModel.Proofs.Spelling

set_option relaxedAutoImplicit false
set_option autoImplicit false

namespace ObjectModel

/-! ### Positions -/

/-- The position behind a text: on the line behind as many others as the text has line feeds, and
behind the characters that follow the last of them. -/
def Position.behind (done : List Char) : Position :=
  ⟨done.count '\n' + 1, (done.reverse.takeWhile (· ≠ '\n')).length + 1⟩

/-- Counting character by character leads to the position behind the text. -/
theorem Position.afterAll_origin (done : List Char) :
    Position.origin.afterAll done = .behind done := by
  -- the last character decides whether the column goes on or a line begins
  induction done using List.reverseRecOn with
  | nil => rfl
  | append_singleton done c ih =>
      rw [Position.afterAll_append, ih, Position.afterAll_cons, Position.afterAll_nil]
      by_cases hc : c = '\n'
      · simp [behind, hc]
      · simp [Position.after_of_ne, behind, hc]

/-- The only character that a line can lose is the carriage return at its end. -/
theorem Lines.getElem?_trimReturn {l : List Char} {i : Nat} {c : Char} (h : l[i]? = some c)
    (hc : c ≠ '\r') : (trimReturn l)[i]? = some c := by
  unfold trimReturn
  split
  · next hlast =>
      have hi : i < l.length - 1 := by
        obtain ⟨hlt, -⟩ := List.getElem?_eq_some_iff.1 h
        refine Nat.lt_of_le_of_ne (by omega) fun hi => hc ?_
        rw [hi, ← List.getLast?_eq_getElem?, hlast] at h
        exact (Option.some.inj h).symm
      rw [List.getElem?_dropLast, if_pos hi, h]
  · exact h

/-! ### One step of reading -/

/-- The characters with which a token begins: a number begins with a digit or a minus sign, the end
of a line is a line feed, nothing begins the end of the text, and all others begin as they are
shown. -/
def TokenKind.BeginsWith : TokenKind → Char → Prop
  | .integer _, c => c.isDigit = true ∨ c = '-'
  | .newline, c => c = '\n'
  | .eof, _ => False
  | k, c => k.text.toList.head? = some c

/-- A text begins as its first part does. -/
theorem head?_toList_append {a : String} {c : Char} (h : a.toList.head? = some c) (b : String) :
    (a ++ b).toList.head? = some c := by
  rw [String.toList_append, List.head?_append, h]
  rfl

namespace Token

/-- What opens a string or a symbol between quotes, and the kind of token that it opens. -/
inductive Opens : List Char → (String → TokenKind) → Prop where
  | string : Opens ['"'] .string
  | symbol : Opens ['@', '"'] .symbol

theorem beginsWith_word (c : Char) (cs : List Char) :
    (TokenKind.word (String.ofList (c :: cs))).BeginsWith c := by
  change (String.ofList (c :: cs)).toList.head? = some c
  rw [String.toList_ofList]
  rfl

theorem beginsWith_of_sigil? {c : Char} {kind : String → TokenKind} (h : sigil? c = some kind)
    (name : String) : (kind name).BeginsWith c := by
  unfold sigil? at h
  split at h <;> cases h <;> exact head?_toList_append rfl name

theorem beginsWith_of_punctuation? {c : Char} {kind : TokenKind} (h : punctuation? c = some kind) :
    kind.BeginsWith c := by
  unfold punctuation? at h
  split at h <;> cases h <;> rfl

theorem Opens.beginsWith {lead : List Char} {kind : String → TokenKind} {c : Char}
    {cs ds : List Char} (h : Opens lead kind) (hcs : c :: cs = lead ++ ds) (text : String) :
    (kind text).BeginsWith c ∧ kind text ≠ .newline ∧ c ≠ '\n' := by
  cases h with
  | string =>
      obtain ⟨rfl, -⟩ := List.cons.inj hcs
      exact ⟨head?_toList_append (head?_toList_append rfl text) "\"", nofun, by decide⟩
  | symbol =>
      obtain ⟨rfl, -⟩ := List.cons.inj hcs
      exact ⟨head?_toList_append rfl text, nofun, by decide⟩

/-- Everything that a step of reading can come to, from the character `c` at `start` on. -/
inductive Scan.From (start : Position) (c : Char) : List Char → Scan → Prop where
  /-- The end of a line. -/
  | newline (hc : c = '\n') (cs : List Char) :
      From start c cs (found start (start.after c) .newline cs)
  /-- A string, or a symbol between quotes. -/
  | quoted (lead ds : List Char) {kind : String → TokenKind} {cs : List Char}
      (hopens : Opens lead kind) (hcs : c :: cs = lead ++ ds) :
      From start c cs (foundQuoted start kind (scanQuoted start (start.afterAll lead) ds))
  /-- A whole number. -/
  | integer (hc : c.isDigit = true ∨ c = '-') (cs : List Char) :
      From start c cs (scanInteger start (start.after c) [c] cs)
  /-- A sign, a word or a name, none of which has a line feed in it. -/
  | plain (word ahead : List Char) {kind : TokenKind} (hkind : kind.BeginsWith c)
      (hline : '\n' ∉ c :: word) :
      From start c (word ++ ahead) (found start (start.afterAll (c :: word)) kind ahead)
  /-- A character that begins no token. -/
  | rejected {message : String} (hc : c ≠ '\n')
      (hmessage : message = "Unexpected character '" ++ c.toString ++ "'" ∨
        message = "expected a name after '" ++ c.toString ++ "'") (cs : List Char) :
      From start c cs (rejected start (start.after c) message cs)

theorem newline_not_mem_takeWhile {p : Char → Bool} (hp : p '\n' = false) (cs : List Char) :
    '\n' ∉ cs.takeWhile p := by
  intro h
  exact absurd (List.mem_takeWhile_imp h) (by simp [hp])

/-- **A step of reading comes to one of these.** -/
theorem scan_from (start : Position) (c : Char) (cs : List Char) :
    (scan start c cs).From start c cs := by
  have hrun {kind : TokenKind} {p : Char → Bool} (hc : c ≠ '\n') (hp : p '\n' = false)
      (hkind : kind.BeginsWith c) : (found start (start.afterAll (c :: cs.takeWhile p)) kind
        (cs.dropWhile p)).From start c cs := by
    have h : Scan.From start c (cs.takeWhile p ++ cs.dropWhile p) _ :=
      .plain _ _ hkind (by simp [Ne.symm hc, newline_not_mem_takeWhile hp])
    rwa [List.takeWhile_append_dropWhile] at h
  have hunexpected (hc : c ≠ '\n') : (rejected start (start.after c)
      ("Unexpected character '" ++ c.toString ++ "'") cs).From start c cs :=
    .rejected hc (.inl rfl) cs
  unfold scan
  dsimp only
  split
  · next hc => exact .newline hc cs
  next hc =>
  split
  · next hquote =>
      subst hquote
      exact .quoted ['"'] cs .string rfl
  split
  · next hdigit => exact .integer (.inl hdigit) cs
  split
  · -- a minus sign
    next hminus =>
    split
    · exact .plain ['>'] _ (by rw [hminus]; rfl) (by simp [hminus])
    · split
      · exact .integer (.inr hminus) _
      · exact hunexpected hc
    · exact hunexpected hc
  split
  · -- a colon
    next hcolon =>
    split
    · exact .plain [':'] _ (by rw [hcolon]; rfl) (by simp [hcolon])
    · exact .plain [] _ (by rw [hcolon]; rfl) (by simp [hcolon])
  split
  · exact hrun hc rfl (beginsWith_word c _)
  split
  · exact .quoted ['@', '"'] _ .symbol rfl
  · split
    · -- a name behind its sign
      next kind hsigil =>
      unfold scanName
      dsimp only
      split
      · exact .rejected hc (.inr rfl) _
      · exact hrun hc rfl (beginsWith_of_sigil? hsigil _)
    · split
      · next kind hpunctuation =>
          exact .plain [] _ (beginsWith_of_punctuation? hpunctuation) (by simp [Ne.symm hc])
      · exact hunexpected hc

/-- The token of a step begins with the character that the step begins with.  A line feed is read as
the end of a line, with nothing behind it, and nothing else is. -/
theorem Scan.From.token {start : Position} {c : Char} {cs : List Char} {s : Scan} {t : Token}
    (h : s.From start c cs) (ht : s.token? = some t) :
    t.span = .upTo start s.pos ∧ t.kind.BeginsWith c ∧ (t.kind = .newline ↔ c = '\n') ∧
      (c = '\n' → s.ahead = cs) := by
  cases h with
  | newline hc cs =>
      cases ht
      exact ⟨rfl, hc, ⟨fun _ => hc, fun _ => rfl⟩, fun _ => rfl⟩
  | quoted lead ds hopens hcs =>
      cases ht
      obtain ⟨hbegins, hkind, hline⟩ := hopens.beginsWith hcs _
      exact ⟨rfl, hbegins, ⟨fun h => absurd h hkind, fun h => absurd h hline⟩,
        fun h => absurd h hline⟩
  | integer hc cs =>
      have hline : c ≠ '\n' := by
        rintro rfl
        exact absurd hc (by decide)
      unfold scanInteger at ht ⊢
      dsimp only at ht ⊢
      split at ht <;> cases ht <;>
        exact ⟨rfl, hc, ⟨nofun, fun h => absurd h hline⟩, fun h => absurd h hline⟩
  | plain word ahead hkind hline =>
      cases ht
      have hc : c ≠ '\n' := fun h => hline (by simp [h])
      refine ⟨rfl, hkind, ⟨fun h => ?_, fun h => absurd h hc⟩, fun h => absurd h hc⟩
      obtain rfl : _ = TokenKind.newline := h
      exact hkind
  | rejected => cases ht

/-! ### Cutting a text into pieces -/

/-- What one step of reading takes from a text. -/
structure Piece where
  /-- The blanks and comments that were dropped. -/
  blanks : List Char
  /-- The character that the step begins with. -/
  first : Char
  /-- The characters that were taken behind it. -/
  others : List Char
  /-- The token, unless what stood there was none. -/
  token? : Option Token
  /-- The problems found, in the order of reading. -/
  problems : List Problem
  deriving DecidableEq

namespace Piece

/-- The characters that were read, which the token or the problems are about. -/
def chars (p : Piece) : List Char := p.first :: p.others

/-- All characters of a piece. -/
def text (p : Piece) : List Char := p.blanks ++ p.chars

/-- The piece is what one step of reading takes from `pos` on, in front of the characters
`ahead`. -/
structure ReadAt (p : Piece) (pos : Position) (ahead : List Char) : Prop where
  skipped : skipBlanks pos (p.text ++ ahead) =
    (pos.afterAll p.blanks, p.first :: (p.others ++ ahead))
  scanned : scan (pos.afterAll p.blanks) p.first (p.others ++ ahead) =
    ⟨p.token?, p.problems, pos.afterAll p.text, ahead⟩

end Piece

/-- A text as reading cuts it. -/
structure Cut where
  /-- The pieces, in the order of reading. -/
  pieces : List Piece
  /-- The blanks and comments behind the last piece. -/
  blanks : List Char
  /-- The characters that are left unread. -/
  unread : List Char

/-- The characters that reading takes. -/
def Cut.consumed (k : Cut) : List Char := k.pieces.flatMap Piece.text ++ k.blanks

/-- The characters of a text in front of those that are ahead. -/
def taken (cs ahead : List Char) : List Char := cs.take (cs.length - ahead.length)

theorem taken_eq {cs word ahead : List Char} (h : cs = word ++ ahead) : taken cs ahead = word := by
  simp [taken, h]

/-- Cuts the characters `cs`, which begin at `pos`, when `seen` problems were found before them. -/
def cut (seen : Nat) (pos : Position) (cs : List Char) : Cut :=
  match _h : (skipBlanks pos cs).2 with
  | [] => ⟨[], cs, []⟩
  | c :: rest =>
      if Report.maxErrors ≤ seen then ⟨[], taken cs (c :: rest), c :: rest⟩
      else
        let s := scan (skipBlanks pos cs).1 c rest
        let later := cut (seen + s.problems.length) s.pos s.ahead
        { later with
          pieces := ⟨taken cs (c :: rest), c, taken rest s.ahead, s.token?, s.problems⟩ ::
            later.pieces }
termination_by cs.length
decreasing_by
  have h₁ := length_skipBlanks_le pos cs
  have h₂ := length_scan_le (skipBlanks pos cs).1 c rest
  rw [_h, List.length_cons] at h₁
  exact Nat.lt_of_le_of_lt h₂ h₁

/-- How cutting goes: it ends with the text or when the report is full, and before that it takes one
piece after the other. -/
inductive Cuts : Nat → Position → List Char → Cut → Prop where
  | ends {seen : Nat} {pos : Position} {blanks : List Char}
      (hskip : skipBlanks pos blanks = (pos.afterAll blanks, [])) :
      Cuts seen pos blanks ⟨[], blanks, []⟩
  | full {seen : Nat} {pos : Position} {c : Char} {blanks rest : List Char}
      (hskip : skipBlanks pos (blanks ++ c :: rest) = (pos.afterAll blanks, c :: rest))
      (hfull : Report.maxErrors ≤ seen) :
      Cuts seen pos (blanks ++ c :: rest) ⟨[], blanks, c :: rest⟩
  | piece {seen : Nat} {pos : Position} {p : Piece} {ahead : List Char} {k : Cut}
      (hroom : seen < Report.maxErrors) (hp : p.ReadAt pos ahead)
      (h : Cuts (seen + p.problems.length) (pos.afterAll p.text) ahead k) :
      Cuts seen pos (p.text ++ ahead) { k with pieces := p :: k.pieces }

/-- Dropping blanks leaves the characters behind them. -/
theorem exists_blanks (pos : Position) (cs : List Char) : ∃ blanks,
    cs = blanks ++ (skipBlanks pos cs).2 ∧
      skipBlanks pos cs = (pos.afterAll blanks, (skipBlanks pos cs).2) := by
  obtain ⟨blanks, hblanks, hhere⟩ := position_skipBlanks pos cs
  exact ⟨blanks, hblanks, Prod.ext hhere rfl⟩

/-- A step of reading takes a piece. -/
theorem readAt_of_skipBlanks {pos : Position} {cs rest : List Char} {c : Char} {s : Scan}
    (h : (skipBlanks pos cs).2 = c :: rest) (hs : scan (skipBlanks pos cs).1 c rest = s) :
    ∃ p : Piece, p = ⟨taken cs (c :: rest), c, taken rest s.ahead, s.token?, s.problems⟩ ∧
      cs = p.text ++ s.ahead ∧ s.pos = pos.afterAll p.text ∧ p.ReadAt pos s.ahead := by
  obtain ⟨blanks, hblanks, hskip⟩ := exists_blanks pos cs
  have hhere : (skipBlanks pos cs).1 = pos.afterAll blanks := congrArg Prod.fst hskip
  obtain ⟨word, hword, htakes⟩ := scan_takes (skipBlanks pos cs).1 c rest
  rw [hs] at hword htakes
  rw [h, hword] at hskip
  have hcs : cs = (blanks ++ c :: word) ++ s.ahead := by
    rw [List.append_assoc, List.cons_append, ← hword, ← h]
    exact hblanks
  have hpos : s.pos = pos.afterAll (blanks ++ c :: word) := by
    rw [htakes.stands, hhere, Position.afterAll_append]
  refine ⟨⟨blanks, c, word, s.token?, s.problems⟩, ?_, hcs, hpos, ?_, ?_⟩
  · rw [taken_eq (h ▸ hblanks), taken_eq hword]
  · rw [Piece.text, Piece.chars, ← hcs]
    exact hskip
  · change scan (pos.afterAll blanks) c (word ++ s.ahead) = _
    rw [← hword, ← hhere, hs]
    exact congrArg (Scan.mk s.token? s.problems · s.ahead) hpos

theorem cuts_cut (seen : Nat) (pos : Position) (cs : List Char) :
    Cuts seen pos cs (cut seen pos cs) := by
  fun_induction cut seen pos cs with
  | case1 seen pos cs h =>
      obtain ⟨blanks, hblanks, hskip⟩ := exists_blanks pos cs
      rw [h, List.append_nil] at hblanks
      rw [h, ← hblanks] at hskip
      exact .ends hskip
  | case2 seen pos cs c rest h hfull =>
      obtain ⟨blanks, hblanks, hskip⟩ := exists_blanks pos cs
      rw [h] at hblanks hskip
      rw [taken_eq hblanks]
      rw [hblanks] at hskip ⊢
      exact .full hskip hfull
  | case3 seen pos cs c rest h hroom s later ih =>
      obtain ⟨p, hp, hcs, hpos, hread⟩ := readAt_of_skipBlanks (s := s) h rfl
      have hproblems : s.problems = p.problems := by rw [hp]
      have hlater : Cuts (seen + p.problems.length) (pos.afterAll p.text) s.ahead later := by
        rw [← hproblems, ← hpos]
        exact ih
      rw [← hp, hcs]
      exact .piece (Nat.lt_of_not_le hroom) hread hlater

section Cuts

variable {seen : Nat} {pos : Position} {cs : List Char} {k : Cut}

/-- Nothing of a text is lost. -/
theorem Cuts.eq_append (h : Cuts seen pos cs k) : cs = k.consumed ++ k.unread := by
  induction h with
  | ends => simp [Cut.consumed]
  | full => simp [Cut.consumed]
  | piece _ _ _ ih =>
      rw [ih]
      simp [Cut.consumed]

/-- A text is read to its end unless its problems fill the report. -/
theorem Cuts.unread_eq_nil (h : Cuts seen pos cs k)
    (hroom : seen + (k.pieces.flatMap Piece.problems).length < Report.maxErrors) :
    k.unread = [] := by
  induction h with
  | ends => rfl
  | full _ hfull => exact absurd hroom (by simp; omega)
  | piece _ _ _ ih =>
      rw [List.flatMap_cons, List.length_append] at hroom
      exact ih (by omega)

/-- **The tokens and problems of a text are those of its pieces**, and behind the characters that
are read stands the end of the text. -/
theorem Cuts.scanAll_eq (h : Cuts seen pos cs k) :
    scanAll seen pos cs =
      (k.pieces.filterMap Piece.token? ++ [⟨.eof, .point (pos.afterAll k.consumed)⟩],
        k.pieces.flatMap Piece.problems) := by
  induction h with
  | @ends seen pos blanks hskip =>
      rw [scanAll_of_skipBlanks_nil (congrArg Prod.snd hskip), hskip]
      rfl
  | @full seen pos c blanks rest hskip hfull =>
      rw [scanAll_of_skipBlanks_full hfull hskip]
      rfl
  | @piece seen pos p ahead k hroom hp h ih =>
      have hscan := scanAll_of_skipBlanks_cons hroom hp.skipped
      rw [hp.scanned] at hscan
      rw [hscan, ih]
      cases htoken : p.token? <;> simp [htoken, Cut.consumed]

/-- **Every piece is what one step takes** where the pieces in front of it end. -/
theorem Cuts.readAt (h : Cuts seen pos cs k) {before after : List Piece} {p : Piece}
    (hp : k.pieces = before ++ p :: after) :
    ∃ ahead, cs = before.flatMap Piece.text ++ (p.text ++ ahead) ∧
      p.ReadAt (pos.afterAll (before.flatMap Piece.text)) ahead := by
  -- with each piece that is cut off, the pieces in front of `p` are one fewer
  induction h generalizing before with
  | ends => simp at hp
  | full => simp at hp
  | @piece seen pos q ahead k hroom hq h ih =>
      cases before with
      | nil =>
          obtain ⟨rfl, -⟩ := List.cons.inj hp
          exact ⟨ahead, rfl, hq⟩
      | cons q' before =>
          obtain ⟨rfl, hlater⟩ := List.cons.inj hp
          obtain ⟨ahead', hahead, hread⟩ := ih hlater
          refine ⟨ahead', ?_, ?_⟩
          · rw [hahead, List.flatMap_cons, List.append_assoc]
          · rwa [List.flatMap_cons, Position.afterAll_append]

end Cuts

/-- No step begins with a blank. -/
theorem isBlank_eq_false_of_skipBlanks {pos : Position} {cs rest : List Char} {c : Char}
    (h : (skipBlanks pos cs).2 = c :: rest) : isBlank c = false := by
  induction cs generalizing pos with
  | nil => cases h
  | cons d cs ih =>
      rw [skipBlanks] at h
      split at h
      · exact ih h
      · next hd =>
          split at h
          · -- behind a comment stands the end of its line
            have hhead := List.head?_dropWhile_not (· ≠ '\n') (d :: cs)
            rw [show (d :: cs).dropWhile (· ≠ '\n') = c :: rest from h] at hhead
            obtain rfl : c = '\n' := by simpa using hhead
            rfl
          · obtain ⟨rfl, -⟩ := List.cons.inj h
            simpa [isBlank, not_or, and_assoc] using hd

/-- **Tokens begin one behind the other.** -/
theorem pairwise_lt_scanAll (seen : Nat) (pos : Position) (cs : List Char) :
    (scanAll seen pos cs).1.Pairwise fun t u => t.span.start < u.span.start := by
  fun_induction scanAll seen pos cs with
  | case1 => exact List.pairwise_singleton _ _
  | case2 => exact List.pairwise_singleton _ _
  | case3 seen pos cs here c rest hskip hroom s later ih =>
      obtain ⟨blanks, word, hhere, -, htakes⟩ := exists_of_skipBlanks hskip
      refine List.pairwise_append.2 ⟨by cases s.token? <;> simp, ih, fun t ht u hu => ?_⟩
      have hstart := congrArg Span.start (htakes.span t (Option.mem_toList.1 ht))
      have hnext : here < s.pos := by
        have h₁ := here.lt_after c
        have h₂ := (here.after c).le_afterAll word
        rw [← Position.afterAll_cons, ← htakes.stands] at h₂
        exact Position.lt_of_lt_of_le h₁ h₂
      rw [hstart]
      exact Position.lt_of_lt_of_le hnext (le_start_of_mem_scanAll hu)

end Token

/-! ### Sources -/

namespace Source

open Token (Piece)

variable {s : Source}

/-- A source as reading cuts it. -/
def cut (s : Source) : Token.Cut := Token.cut 0 .origin s.text.toList

/-- Reading takes the piece `p` of the source, whose characters stand behind `done` and in front of
`ahead`. -/
structure TakesAt (s : Source) (done : List Char) (p : Piece) (ahead : List Char) : Prop where
  pieces : ∃ before after, s.cut.pieces = before ++ p :: after ∧
    done = before.flatMap Piece.text ++ p.blanks
  text : s.text.toList = done ++ (p.chars ++ ahead)

theorem text_eq (s : Source) : s.text.toList = s.cut.consumed ++ s.cut.unread :=
  (Token.cuts_cut 0 .origin s.text.toList).eq_append

theorem tokens_eq (s : Source) :
    s.tokens =
      s.cut.pieces.filterMap Piece.token? ++ [⟨.eof, .point (.behind s.cut.consumed)⟩] := by
  rw [tokens, (Token.cuts_cut 0 .origin s.text.toList).scanAll_eq, Position.afterAll_origin]
  rfl

theorem lexicalProblems_eq (s : Source) :
    s.lexicalProblems = s.cut.pieces.flatMap Piece.problems := by
  rw [lexicalProblems, (Token.cuts_cut 0 .origin s.text.toList).scanAll_eq]
  rfl

theorem unread_eq_nil (h : s.lexicalProblems.length < Report.maxErrors) : s.cut.unread = [] := by
  rw [lexicalProblems_eq] at h
  exact (Token.cuts_cut 0 .origin s.text.toList).unread_eq_nil (by rwa [Nat.zero_add])

/-- Every piece of a source is taken somewhere. -/
theorem exists_takesAt {p : Piece} (hp : p ∈ s.cut.pieces) :
    ∃ done ahead, s.TakesAt done p ahead := by
  obtain ⟨before, after, hpieces⟩ := List.append_of_mem hp
  obtain ⟨ahead, htext, -⟩ := (Token.cuts_cut 0 .origin s.text.toList).readAt hpieces
  refine ⟨_, ahead, ⟨before, after, hpieces, rfl⟩, ?_⟩
  rw [htext, Piece.text, List.append_assoc, List.append_assoc]

/-- What is taken is one step of reading. -/
theorem TakesAt.scan_eq {done ahead : List Char} {p : Piece} (h : s.TakesAt done p ahead) :
    Token.scan (.behind done) p.first (p.others ++ ahead) =
        ⟨p.token?, p.problems, .behind (done ++ p.chars), ahead⟩ ∧
      Token.isBlank p.first = false := by
  obtain ⟨before, after, hpieces, rfl⟩ := h.pieces
  obtain ⟨ahead', htext, hread⟩ := (Token.cuts_cut 0 .origin s.text.toList).readAt hpieces
  have hahead : ahead' = ahead := by
    have h := h.text.symm.trans htext
    simpa [Piece.text, Piece.chars] using h.symm
  subst hahead
  refine ⟨?_, Token.isBlank_eq_false_of_skipBlanks (congrArg Prod.snd hread.skipped)⟩
  have hscan := hread.scanned
  simpa [← Position.afterAll_origin, Piece.text] using hscan

/-- The token of a piece begins where the piece does, with its first character. -/
theorem TakesAt.token {done ahead : List Char} {p : Piece} {t : Token} (h : s.TakesAt done p ahead)
    (ht : p.token? = some t) : t.span = .upTo (.behind done) (.behind (done ++ p.chars)) ∧
      t.kind.BeginsWith p.first ∧ (t.kind = .newline ↔ p.first = '\n') ∧
        (p.first = '\n' → p.others = []) := by
  have hfrom := Token.scan_from (.behind done) p.first (p.others ++ ahead)
  rw [h.scan_eq.1, ht] at hfrom
  obtain ⟨hspan, hbegins, hnewline, hothers⟩ := hfrom.token rfl
  exact ⟨hspan, hbegins, hnewline, fun hp => List.append_left_eq_self.1 (hothers hp).symm⟩

/-- A character that ends no line is on the line of its position. -/
theorem exists_line_of_behind {done rest : List Char} {c : Char}
    (h : s.text.toList = done ++ c :: rest) (hline : c ≠ '\n') (hreturn : c ≠ '\r') :
    ∃ l, s.line (Position.behind done).line = some l ∧
      l.toList[(Position.behind done).col - 1]? = some c := by
  obtain ⟨front, hfront, hcol⟩ := Position.origin.exists_line done (c :: rest)
  rw [Position.afterAll_origin, ← h, List.takeWhile_cons_of_pos (by simpa using hline)] at hfront
  have hcol : (Position.behind done).col - 1 = front.length := by
    rw [← Position.afterAll_origin, hcol]
    split <;> simp [Position.origin]
  have hchar : (front ++ c :: rest.takeWhile (· ≠ '\n'))[front.length]? = some c := by simp
  refine ⟨String.ofList (Lines.trimReturn (front ++ c :: rest.takeWhile (· ≠ '\n'))), ?_, ?_⟩
  · change s.lines[done.count '\n']? = _
    rw [lines, List.getElem?_map]
    exact congrArg _ hfront
  · rw [hcol, String.toList_ofList]
    exact Lines.getElem?_trimReturn hchar hreturn

/-- **Tokens stand where their first characters do, one behind the other.**  A token is read from
characters that stand behind the text `done`: it begins at the position there, and unless it is the
end of a line, its line has its first character at its column.  The end of the text stands behind
all that was read, which is the whole text unless its problems fill the report. -/
theorem position_of_tokens (s : Source) :
    s.tokens.Pairwise (fun t u => t.span.start < u.span.start) ∧
    s.text.toList = s.cut.consumed ++ s.cut.unread ∧
    (s.lexicalProblems.length < Report.maxErrors → s.cut.unread = []) ∧
    ∃ ts, s.tokens = ts ++ [⟨.eof, .point (.behind s.cut.consumed)⟩] ∧
      ∀ t ∈ ts, ∃ done p ahead, s.TakesAt done p ahead ∧ p.token? = some t ∧
        t.span.start = .behind done ∧ t.kind.BeginsWith p.first ∧
        if t.kind = .newline then p.chars = ['\n']
        else ∃ l, s.line t.span.start.line = some l ∧
          l.toList[t.span.start.col - 1]? = some p.first := by
  refine ⟨Token.pairwise_lt_scanAll 0 .origin s.text.toList, s.text_eq, unread_eq_nil, _,
    s.tokens_eq, ?_⟩
  intro t ht
  obtain ⟨p, hp, hpt⟩ := List.mem_filterMap.1 ht
  obtain ⟨done, ahead, htakes⟩ := exists_takesAt hp
  obtain ⟨hspan, hbegins, hnewline, hothers⟩ := htakes.token hpt
  have hstart : t.span.start = .behind done := congrArg Span.start hspan
  refine ⟨done, p, ahead, htakes, hpt, hstart, hbegins, ?_⟩
  split
  · next hkind =>
      have hfirst := hnewline.1 hkind
      rw [Piece.chars, hothers hfirst, hfirst]
  · next hkind =>
      have hblank := htakes.scan_eq.2
      rw [hstart]
      refine exists_line_of_behind htakes.text (fun hc => hkind (hnewline.2 hc)) fun hc => ?_
      rw [hc] at hblank
      cases hblank

end Source

end ObjectModel
