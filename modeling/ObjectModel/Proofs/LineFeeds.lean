/-
**The line feeds of a text.**

A line feed ends an operation, so reading must not lose one.  Between tokens every line feed is a
token of its own, a comment stops in front of it, and so does a string that is not closed.  There is
one exception: a backslash between quotes takes the character behind it whatever that is, and so a
line feed behind a backslash becomes part of the string.  It is reported as an escape without a
meaning, and the string goes on in the next line.

Main definitions:

* `Position.lineFeeds` — the positions of the line feeds of a text;
* `Token.newline?` — where a token is the end of a line;
* `Token.escapedLineFeed?` — the position of the line feed that a problem names behind a backslash;
* `Source.lineFeeds`, `Source.newlines`, `Source.escapedLineFeeds` — all line feeds of a source,
  those that are tokens, and those that became part of strings.

Main results:

* `Token.Scan.From.keeps` — the line feeds that a step of reading takes;
* `Token.Cuts.lineFeeds_eq` — the line feeds of a text are those of its pieces;
* `Source.newlines_eq` — **every line feed is a token, unless a backslash between quotes takes it**.
-/

import Mathlib.Data.List.Nodup
import Mathlib.Data.List.Perm.Basic
import ObjectModel.Proofs.Escapes

set_option relaxedAutoImplicit false
set_option autoImplicit false

namespace ObjectModel

/-! ### Positions -/

namespace Position

/-- The positions of the line feeds of a text that is read from `p` on. -/
def lineFeeds (p : Position) : List Char → List Position
  | [] => []
  | c :: cs => if c = '\n' then p :: (p.after c).lineFeeds cs else (p.after c).lineFeeds cs

variable (p : Position)

@[simp] theorem lineFeeds_nil : p.lineFeeds [] = [] := rfl

@[simp] theorem lineFeeds_newline (cs : List Char) :
    p.lineFeeds ('\n' :: cs) = p :: (p.after '\n').lineFeeds cs := rfl

theorem lineFeeds_cons_of_ne {c : Char} (hc : c ≠ '\n') (cs : List Char) :
    p.lineFeeds (c :: cs) = (p.after c).lineFeeds cs := if_neg hc

theorem lineFeeds_append (cs ds : List Char) :
    p.lineFeeds (cs ++ ds) = p.lineFeeds cs ++ (p.afterAll cs).lineFeeds ds := by
  induction cs generalizing p with
  | nil => rfl
  | cons c cs ih =>
      by_cases hc : c = '\n'
      · subst hc
        rw [List.cons_append, lineFeeds_newline, lineFeeds_newline, ih]
        rfl
      · rw [List.cons_append, lineFeeds_cons_of_ne p hc, lineFeeds_cons_of_ne p hc, ih]
        rfl

theorem lineFeeds_of_not_mem {cs : List Char} (h : '\n' ∉ cs) : p.lineFeeds cs = [] := by
  induction cs generalizing p with
  | nil => rfl
  | cons c cs ih =>
      rw [List.mem_cons, not_or] at h
      rw [lineFeeds_cons_of_ne p (Ne.symm h.1), ih _ h.2]

variable {p}

/-- A line feed is where the text in front of it ends. -/
theorem mem_lineFeeds_iff {q : Position} {cs : List Char} :
    q ∈ p.lineFeeds cs ↔ ∃ done rest, cs = done ++ '\n' :: rest ∧ q = p.afterAll done := by
  constructor
  · intro h
    induction cs generalizing p with
    | nil => cases h
    | cons c cs ih =>
        by_cases hc : c = '\n'
        · subst hc
          rcases List.mem_cons.1 h with rfl | h
          · exact ⟨[], cs, rfl, rfl⟩
          · obtain ⟨done, rest, rfl, hq⟩ := ih h
            exact ⟨'\n' :: done, rest, rfl, hq⟩
        · rw [lineFeeds_cons_of_ne p hc] at h
          obtain ⟨done, rest, rfl, hq⟩ := ih h
          exact ⟨c :: done, rest, rfl, hq⟩
  · rintro ⟨done, rest, rfl, rfl⟩
    rw [lineFeeds_append, lineFeeds_newline]
    exact List.mem_append_right _ List.mem_cons_self

theorem le_of_mem_lineFeeds {q : Position} {cs : List Char} (h : q ∈ p.lineFeeds cs) : p ≤ q := by
  obtain ⟨done, -, -, rfl⟩ := mem_lineFeeds_iff.1 h
  exact p.le_afterAll done

/-- A line feed behind a character that is none stands behind it, and with the line feed its line
ends. -/
theorem lt_of_mem_lineFeeds {q : Position} {c : Char} {cs : List Char} (hc : c ≠ '\n')
    (h : q ∈ p.lineFeeds (c :: cs)) : p < q ∧ q.line < (p.afterAll (c :: cs)).line := by
  constructor
  · rw [lineFeeds_cons_of_ne p hc] at h
    exact Position.lt_of_lt_of_le (p.lt_after c) (le_of_mem_lineFeeds h)
  · obtain ⟨done, rest, hcs, rfl⟩ := mem_lineFeeds_iff.1 h
    rw [hcs, afterAll_append, afterAll_cons]
    exact Nat.lt_of_succ_le (line_le_afterAll ((p.afterAll done).after '\n') rest)

/-- No two line feeds stand in one place. -/
theorem nodup_lineFeeds (p : Position) (cs : List Char) : (p.lineFeeds cs).Nodup := by
  induction cs generalizing p with
  | nil => exact List.nodup_nil
  | cons c cs ih =>
      by_cases hc : c = '\n'
      · subst hc
        refine List.nodup_cons.2 ⟨fun h => ?_, ih _⟩
        exact Position.not_le.2 (p.lt_after '\n') (le_of_mem_lineFeeds h)
      · rw [lineFeeds_cons_of_ne p hc]
        exact ih _

end Position

namespace Token

/-! ### Problems that name a line feed -/

/-- The position of the line feed behind a backslash, when the problem is that it stands there. -/
def escapedLineFeed? (p : Problem) : Option Position :=
  if p.message = badEscapeMessage '\n' then some (p.span.start.after '\\') else none

/-- A text around a character tells which character it is. -/
theorem eq_of_append_toString_append {a b : String} {c d : Char}
    (h : a ++ c.toString ++ b = a ++ d.toString ++ b) : c = d := by
  have h := congrArg String.toList h
  rw [String.toList_append, String.toList_append, String.toList_append, String.toList_append] at h
  have h := List.append_cancel_left (List.append_cancel_right h)
  simpa [Char.toString] using h

theorem badEscapeMessage_inj {c d : Char} : badEscapeMessage c = badEscapeMessage d ↔ c = d :=
  ⟨eq_of_append_toString_append, congrArg badEscapeMessage⟩

/-- A problem whose message begins otherwise is not about an escape. -/
theorem escapedLineFeed?_eq_none {p : Problem} {c : Char} (hc : p.message.toList.head? = some c)
    (hI : c ≠ 'I') : escapedLineFeed? p = none := by
  refine if_neg fun h => hI ?_
  have hescape : (badEscapeMessage '\n').toList.head? = some 'I' :=
    head?_toList_append (head?_toList_append rfl _) _
  rw [h, hescape] at hc
  exact (Option.some.inj hc).symm

theorem escapedLineFeed?_eq_none_of_append {p : Problem} {a b d : String} {c : Char}
    (hp : p.message = a ++ b ++ d) (hc : a.toList.head? = some c) (hI : c ≠ 'I') :
    escapedLineFeed? p = none :=
  escapedLineFeed?_eq_none (hp ▸ head?_toList_append (head?_toList_append hc b) d) hI

theorem escapedLineFeed?_badEscape (start next : Position) (c : Char) :
    escapedLineFeed? (badEscape start next (unknownEscape c)) =
      if c = '\n' then some (start.after '\\') else none := by
  change (if badEscapeMessage (unknownEscape c) = badEscapeMessage '\n' then _ else _) = _
  simp only [badEscapeMessage_inj, unknownEscape_eq_newline_iff]
  rfl

/-! ### What a step of reading takes -/

/-- The only line feeds among the characters are behind backslashes. -/
def AllEscaped (cs : List Char) : Prop :=
  ∀ done rest, cs = done ++ '\n' :: rest → done.getLast? = some '\\'

theorem allEscaped_of_not_mem {cs : List Char} (h : '\n' ∉ cs) : AllEscaped cs := by
  rintro done rest rfl
  exact absurd (List.mem_append_right done List.mem_cons_self) h

theorem AllEscaped.cons {c : Char} {cs : List Char} (hc : c ≠ '\n') (h : AllEscaped cs) :
    AllEscaped (c :: cs) := by
  intro done rest hcs
  cases done with
  | nil => exact absurd (List.cons.inj hcs).1 hc
  | cons d done =>
      rw [List.getLast?_cons, h done rest (List.cons.inj hcs).2]
      rfl

theorem AllEscaped.escape (c : Char) {cs : List Char} (h : AllEscaped cs) :
    AllEscaped ('\\' :: c :: cs) := by
  by_cases hc : c = '\n'
  · -- nothing stands in front of the backslash, it stands in front of `c`, and others come later
    subst hc
    intro done rest hcs
    rcases done with _ | ⟨d, _ | ⟨e, done⟩⟩
    · exact absurd (List.cons.inj hcs).1 (by decide)
    · rw [← (List.cons.inj hcs).1]
      rfl
    · have hlast := h done rest (List.cons.inj (List.cons.inj hcs).2).2
      rw [List.getLast?_cons, List.getLast?_cons, hlast]
      rfl
  · exact (h.cons hc).cons (by decide)

theorem filterMap_escapedLineFeed?_unterminated (start pos : Position) (ahead : List Char) :
    (unterminated start pos ahead).problems.filterMap escapedLineFeed? = [] :=
  List.filterMap_cons_none (escapedLineFeed?_eq_none (c := 'U') (by simp) (by decide))

/-- **A line feed between quotes** is behind a backslash, and a problem tells where it stands. -/
theorem lineFeeds_scanQuoted (start pos : Position) (cs : List Char) :
    ∃ word, cs = word ++ (scanQuoted start pos cs).ahead ∧ AllEscaped word ∧
      pos.lineFeeds word = (scanQuoted start pos cs).problems.filterMap escapedLineFeed? := by
  fun_induction scanQuoted start pos cs with
  | case1 pos =>
      exact ⟨[], rfl, allEscaped_of_not_mem (by simp),
        (filterMap_escapedLineFeed?_unterminated ..).symm⟩
  | case2 pos cs => exact ⟨['"'], rfl, allEscaped_of_not_mem (by decide), rfl⟩
  | case3 pos cs =>
      exact ⟨[], rfl, allEscaped_of_not_mem (by simp),
        (filterMap_escapedLineFeed?_unterminated ..).symm⟩
  | case4 pos next =>
      refine ⟨['\\'], rfl, allEscaped_of_not_mem (by decide), ?_⟩
      rw [Quoted.report, List.filterMap_cons_none
        (escapedLineFeed?_eq_none (c := 'U') (by simp) (by decide)),
        filterMap_escapedLineFeed?_unterminated]
      rfl
  | case5 pos c cs next ih =>
      obtain ⟨word, hword, hescaped, hfeeds⟩ := ih
      refine ⟨'\\' :: c :: word, ?_, hescaped.escape c, ?_⟩
      · rw [Quoted.ahead_pushEscape, List.cons_append, List.cons_append, ← hword]
      rw [Position.lineFeeds_cons_of_ne pos (by decide)]
      -- the one place where a line feed is taken: it has no meaning there and is reported
      by_cases hc : c = '\n'
      · subst hc
        rw [Position.lineFeeds_newline, hfeeds]
        exact (List.filterMap_cons_some (escapedLineFeed?_badEscape pos next '\n')).symm
      · rw [Position.lineFeeds_cons_of_ne _ hc, hfeeds, Quoted.pushEscape]
        split
        · rfl
        · refine (List.filterMap_cons_none ?_).symm
          rw [escapedLineFeed?_badEscape, if_neg hc]
  | case6 pos c cs _ hline _ _ ih =>
      obtain ⟨word, hword, hescaped, hfeeds⟩ := ih
      have hc : c ≠ '\n' := hline
      refine ⟨c :: word, ?_, hescaped.cons hc, ?_⟩
      · rw [Quoted.ahead_push, List.cons_append, ← hword]
      · rw [Position.lineFeeds_cons_of_ne pos hc, hfeeds]
        rfl

/-- What a step of reading from `start` on, which does not begin with a line feed, says about the
line feeds among the characters `word` that it takes: they are behind backslashes, its problems tell
where, and its token is a string or a symbol when there are any. -/
structure Scan.Keeps (s : Scan) (start : Position) (word : List Char) : Prop where
  escaped : AllEscaped word
  lineFeeds : start.lineFeeds word = s.problems.filterMap escapedLineFeed?
  quoted : '\n' ∈ word → ∃ t ∈ s.token?, ∃ text, t.kind = .string text ∨ t.kind = .symbol text

section Scan

variable {s : Scan} {start : Position} {c : Char}

theorem Scan.Keeps.of_not_mem {word : List Char} (h : '\n' ∉ word)
    (hproblems : ∀ p ∈ s.problems, escapedLineFeed? p = none) : s.Keeps start word where
  escaped := allEscaped_of_not_mem h
  lineFeeds := by
    rw [start.lineFeeds_of_not_mem h, List.filterMap_eq_nil_iff.2 hproblems]
  quoted := fun hmem => absurd hmem h

/-- A string or a symbol between quotes. -/
theorem keeps_foundQuoted (start : Position) {lead : List Char} {kind : String → TokenKind}
    (hopens : Opens lead kind) (ds : List Char) :
    ∃ word, ds = word ++ (scanQuoted start (start.afterAll lead) ds).ahead ∧
      (foundQuoted start kind (scanQuoted start (start.afterAll lead) ds)).Keeps start
        (lead ++ word) := by
  obtain ⟨word, hword, hescaped, hfeeds⟩ := lineFeeds_scanQuoted start (start.afterAll lead) ds
  refine ⟨word, hword, ?_, ?_, fun _ => ⟨_, rfl, ?_⟩⟩
  · cases hopens with
    | string => exact hescaped.cons (by decide)
    | symbol => exact (hescaped.cons (by decide)).cons (by decide)
  · have hlead : '\n' ∉ lead := by cases hopens <;> decide
    rw [start.lineFeeds_append, start.lineFeeds_of_not_mem hlead, hfeeds]
    rfl
  · cases hopens with
    | string => exact ⟨_, .inl rfl⟩
    | symbol => exact ⟨_, .inr rfl⟩

/-- **The line feeds that a step of reading takes**, when it does not begin with one. -/
theorem Scan.From.keeps {cs word : List Char} (h : s.From start c cs) (hc : c ≠ '\n')
    (hcs : cs = word ++ s.ahead) : s.Keeps start (c :: word) := by
  cases h with
  | newline hnewline => exact absurd hnewline hc
  | quoted lead ds hopens hlead =>
      obtain ⟨word', hword, hkeeps⟩ := keeps_foundQuoted start hopens ds
      have htaken : (c :: word) ++ (scanQuoted start (start.afterAll lead) ds).ahead =
          (lead ++ word') ++ (scanQuoted start (start.afterAll lead) ds).ahead := by
        rw [List.append_assoc, ← hword, ← hlead, hcs]
        rfl
      rw [List.append_cancel_right htaken]
      exact hkeeps
  | integer hdigit cs =>
      rw [ahead_scanInteger] at hcs
      have hword : word = cs.takeWhile Char.isDigit :=
        List.append_cancel_right (hcs.symm.trans List.takeWhile_append_dropWhile.symm)
      refine .of_not_mem ?_ fun p hp => ?_
      · rw [hword]
        simp [Ne.symm hc, newline_not_mem_takeWhile]
      · unfold scanInteger at hp
        dsimp only at hp
        split at hp
        · cases hp
        · rw [List.mem_singleton.1 hp]
          exact escapedLineFeed?_eq_none_of_append (c := 'i') rfl (by simp) (by decide)
  | plain word' ahead hkind hline =>
      obtain rfl : word' = word := List.append_cancel_right hcs
      exact .of_not_mem hline (by simp [found])
  | rejected hline hmessage cs =>
      obtain rfl : word = [] := List.append_left_eq_self.1 hcs.symm
      refine .of_not_mem (by simpa using Ne.symm hc) fun p hp => ?_
      rw [List.mem_singleton.1 hp]
      rcases hmessage with rfl | rfl
      · exact escapedLineFeed?_eq_none_of_append (c := 'U') rfl (by simp) (by decide)
      · exact escapedLineFeed?_eq_none_of_append (c := 'e') rfl (by simp) (by decide)

end Scan

/-! ### The line feeds of the pieces -/

/-- Where the token is the end of a line. -/
def newline? (t : Token) : Option Position :=
  if t.kind = .newline then some t.span.start else none

/-- There is no line feed among blanks and in comments. -/
theorem newline_not_mem_blanks (pos : Position) (cs : List Char) :
    ∃ blanks, cs = blanks ++ (skipBlanks pos cs).2 ∧ '\n' ∉ blanks := by
  induction cs generalizing pos with
  | nil => exact ⟨[], rfl, List.not_mem_nil⟩
  | cons c cs ih =>
      rw [skipBlanks]
      split
      · next hblank =>
          obtain ⟨blanks, hblanks, hline⟩ := ih (pos.after c)
          refine ⟨c :: blanks, by rw [List.cons_append, ← hblanks], ?_⟩
          rw [List.mem_cons, not_or]
          refine ⟨?_, hline⟩
          rintro rfl
          exact absurd hblank (by decide)
      · split
        · exact ⟨(c :: cs).takeWhile (· ≠ '\n'), List.takeWhile_append_dropWhile.symm,
            newline_not_mem_takeWhile (by decide) _⟩
        · exact ⟨[], rfl, List.not_mem_nil⟩

section Piece

variable {p : Piece} {start pos : Position} {ahead : List Char}

/-- A step that begins with a line feed takes it as the end of a line. -/
theorem Piece.of_newline
    (h : scan start p.first (p.others ++ ahead) = ⟨p.token?, p.problems, pos, ahead⟩)
    (hp : p.first = '\n') : p.chars = ['\n'] ∧ p.problems = [] ∧
      ∃ t, p.token? = some t ∧ t.kind = .newline ∧ t.span.start = start := by
  obtain ⟨htoken, hproblems, -, hahead⟩ := Scan.mk.inj (hp ▸ h)
  have hothers : p.others = [] := List.append_left_eq_self.1 hahead
  exact ⟨by rw [Piece.chars, hothers, hp], hproblems.symm, _, htoken.symm, rfl, rfl⟩

/-- Another step takes no line feed as the end of a line. -/
theorem Piece.keeps
    (h : scan start p.first (p.others ++ ahead) = ⟨p.token?, p.problems, pos, ahead⟩)
    (hp : p.first ≠ '\n') : (Scan.mk p.token? p.problems pos ahead).Keeps start p.chars ∧
      p.token?.bind newline? = none := by
  have hfrom := scan_from start p.first (p.others ++ ahead)
  rw [h] at hfrom
  refine ⟨hfrom.keeps hp rfl, Option.bind_eq_none_iff.2 fun t ht => ?_⟩
  obtain ⟨-, -, hnewline, -⟩ := hfrom.token ht
  exact if_neg fun hkind => hp (hnewline.1 hkind)

/-- The line feeds of a piece. -/
theorem Piece.ReadAt.lineFeeds (h : p.ReadAt pos ahead) : pos.lineFeeds p.text =
    (p.token?.bind newline?).toList ++ p.problems.filterMap escapedLineFeed? := by
  obtain ⟨blanks, hblanks, hline⟩ := newline_not_mem_blanks pos (p.text ++ ahead)
  have hsame : p.blanks = blanks := by
    rw [h.skipped, Piece.text, List.append_assoc] at hblanks
    exact List.append_cancel_right hblanks
  rw [Piece.text, Position.lineFeeds_append, hsame, pos.lineFeeds_of_not_mem hline, ← hsame,
    List.nil_append]
  by_cases hp : p.first = '\n'
  · obtain ⟨hchars, hproblems, t, ht, hkind, hstart⟩ := Piece.of_newline h.scanned hp
    simp [hchars, hproblems, ht, newline?, hkind, hstart]
  · obtain ⟨hkeeps, hnone⟩ := Piece.keeps h.scanned hp
    rw [hkeeps.lineFeeds, hnone]
    rfl

end Piece

/-- **The line feeds of a text are those of its pieces**: the ends of lines among the tokens, and
those that problems name behind backslashes. -/
theorem Cuts.lineFeeds_eq {seen : Nat} {pos : Position} {cs : List Char} {k : Cut}
    (h : Cuts seen pos cs k) (hread : k.unread = []) : pos.lineFeeds cs =
      k.pieces.flatMap fun p =>
        (p.token?.bind newline?).toList ++ p.problems.filterMap escapedLineFeed? := by
  induction h with
  | @ends seen pos blanks hskip =>
      obtain ⟨blanks', hblanks, hline⟩ := newline_not_mem_blanks pos blanks
      rw [hskip, List.append_nil] at hblanks
      exact pos.lineFeeds_of_not_mem (hblanks ▸ hline)
  | full => cases hread
  | piece _ hp _ ih => rw [Position.lineFeeds_append, hp.lineFeeds, ih hread, List.flatMap_cons]

end Token

/-! ### Sources -/

/-- In a list without duplicates, what is left of pieces without their second parts. -/
theorem filter_flatMap_append {α β : Type} [DecidableEq β] {l : List α} {f g : α → List β}
    (h : (l.flatMap fun a => f a ++ g a).Nodup) :
    (l.flatMap fun a => f a ++ g a).filter (· ∉ l.flatMap g) = l.flatMap f := by
  have hdisjoint := List.disjoint_of_nodup_append ((l.flatMap_append_perm f g).nodup_iff.2 h)
  rw [List.filter_flatMap]
  refine List.flatMap_congr fun a ha => ?_
  have hf : (f a).filter (· ∉ l.flatMap g) = f a :=
    List.filter_eq_self.2 fun b hb =>
      decide_eq_true fun hg => hdisjoint (List.mem_flatMap.2 ⟨a, ha, hb⟩) hg
  have hg : (g a).filter (· ∉ l.flatMap g) = [] :=
    List.filter_eq_nil_iff.2 fun b hb => by simpa using ⟨a, ha, hb⟩
  rw [List.filter_append, hf, hg, List.append_nil]

namespace Source

open Token (Piece)

/-- The positions of the line feeds of a source. -/
def lineFeeds (s : Source) : List Position := Position.origin.lineFeeds s.text.toList

/-- The positions of the tokens that are ends of lines. -/
def newlines (s : Source) : List Position := s.tokens.filterMap Token.newline?

/-- The positions of the line feeds that became part of strings, as its problems tell. -/
def escapedLineFeeds (s : Source) : List Position :=
  s.lexicalProblems.filterMap Token.escapedLineFeed?

variable {s : Source} {q : Position} {done ahead : List Char} {p : Piece} {t : Token}

theorem mem_lineFeeds_iff : q ∈ s.lineFeeds ↔
    ∃ done rest, s.text.toList = done ++ '\n' :: rest ∧ q = .behind done := by
  simp only [lineFeeds, Position.mem_lineFeeds_iff, Position.afterAll_origin]

theorem newlines_eq_flatMap (s : Source) :
    s.newlines = s.cut.pieces.flatMap fun p => (p.token?.bind Token.newline?).toList := by
  rw [newlines, tokens_eq, List.filterMap_append, List.filterMap_filterMap,
    List.filterMap_eq_flatMap_toList]
  simp [Token.newline?]

theorem escapedLineFeeds_eq_flatMap (s : Source) : s.escapedLineFeeds =
    s.cut.pieces.flatMap fun p => p.problems.filterMap Token.escapedLineFeed? := by
  rw [escapedLineFeeds, lexicalProblems_eq, List.filterMap_flatMap]

theorem lineFeeds_eq_flatMap (h : s.lexicalProblems.length < Report.maxErrors) :
    s.lineFeeds = s.cut.pieces.flatMap fun p =>
      (p.token?.bind Token.newline?).toList ++ p.problems.filterMap Token.escapedLineFeed? :=
  (Token.cuts_cut 0 .origin s.text.toList).lineFeeds_eq (unread_eq_nil h)

/-- A line feed in what reading takes is part of a string or a symbol, and behind a backslash. -/
theorem TakesAt.exists_token (h : s.TakesAt done p ahead) (hp : p.first ≠ '\n')
    (hq : q ∈ (Position.behind done).lineFeeds p.chars) :
    (∃ t ∈ p.token?, (∃ text, t.kind = .string text ∨ t.kind = .symbol text) ∧
      t.span.start < q ∧ q < t.span.stop) ∧
    ∃ front rest, s.text.toList = front ++ '\n' :: rest ∧ front.getLast? = some '\\' ∧
      q = .behind front := by
  obtain ⟨hlt, hline⟩ := Position.lt_of_mem_lineFeeds hp hq
  obtain ⟨front, rest, hchars, rfl⟩ := Position.mem_lineFeeds_iff.1 hq
  have hkeeps := (Piece.keeps h.scan_eq.1 hp).1
  constructor
  · obtain ⟨t, ht, hquoted⟩ := hkeeps.quoted (by rw [hchars]; simp)
    obtain ⟨hspan, -⟩ := h.token ht
    refine ⟨t, ht, hquoted, ?_⟩
    rw [hspan, ← Position.afterAll_origin (done ++ p.chars), Position.afterAll_append,
      Position.afterAll_origin]
    exact ⟨hlt, .inl hline⟩
  · refine ⟨done ++ front, rest ++ ahead, ?_, ?_, ?_⟩
    · rw [h.text, hchars]
      simp
    · rw [List.getLast?_append, hkeeps.escaped front rest hchars]
      rfl
    · rw [← Position.afterAll_origin, ← Position.afterAll_origin, Position.afterAll_append]

/-- A line feed that became part of a string is one that a piece takes, not as its first
character. -/
theorem exists_takesAt_of_mem_escapedLineFeeds (hq : q ∈ s.escapedLineFeeds) :
    ∃ done p ahead, s.TakesAt done p ahead ∧ p.first ≠ '\n' ∧
      q ∈ (Position.behind done).lineFeeds p.chars := by
  rw [escapedLineFeeds_eq_flatMap] at hq
  obtain ⟨p, hp, hq⟩ := List.mem_flatMap.1 hq
  obtain ⟨done, ahead, htakes⟩ := exists_takesAt hp
  have hfirst : p.first ≠ '\n' := fun hfirst => by
    rw [(Piece.of_newline htakes.scan_eq.1 hfirst).2.1] at hq
    cases hq
  exact ⟨done, p, ahead, htakes, hfirst, (Piece.keeps htakes.scan_eq.1 hfirst).1.lineFeeds ▸ hq⟩

/-- The line feeds that a piece takes, not as its first character, became part of strings. -/
theorem TakesAt.mem_escapedLineFeeds (h : s.TakesAt done p ahead) (hp : p.first ≠ '\n')
    (hq : q ∈ (Position.behind done).lineFeeds p.chars) : q ∈ s.escapedLineFeeds := by
  rw [(Piece.keeps h.scan_eq.1 hp).1.lineFeeds] at hq
  exact (h.problems_infix.sublist.filterMap _).subset hq

/-- A token is on one line, or it is a string or a symbol that a line feed became part of. -/
theorem line_eq_or_exists (ht : t ∈ s.tokens) (hkind : t.kind ≠ .newline) :
    t.span.stop.line = t.span.start.line ∨
      (∃ text, t.kind = .string text ∨ t.kind = .symbol text) ∧
        ∃ q ∈ s.escapedLineFeeds, t.span.start < q ∧ q < t.span.stop := by
  rw [tokens_eq] at ht
  rcases List.mem_append.1 ht with ht | ht
  · obtain ⟨p, hp, hpt⟩ := List.mem_filterMap.1 ht
    obtain ⟨done, ahead, htakes⟩ := exists_takesAt hp
    obtain ⟨hspan, -, hnewline, -⟩ := htakes.token hpt
    have hfirst := fun h => hkind (hnewline.2 h)
    by_cases hfeed : '\n' ∈ p.chars
    · obtain ⟨front, rest, hchars⟩ := List.append_of_mem hfeed
      have hq : _ ∈ (Position.behind done).lineFeeds p.chars :=
        Position.mem_lineFeeds_iff.2 ⟨front, rest, hchars, rfl⟩
      obtain ⟨⟨u, hu, hquoted, hbetween⟩, -⟩ := htakes.exists_token hfirst hq
      obtain rfl : t = u := Option.some.inj (hpt.symm.trans hu)
      exact .inr ⟨hquoted, _, htakes.mem_escapedLineFeeds hfirst hq, hbetween⟩
    · left
      rw [hspan]
      simp [Span.upTo, Position.behind, List.count_eq_zero.2 hfeed]
  · rw [List.mem_singleton.1 ht]
    exact .inl rfl

/-- **Every line feed is a token, unless a backslash between quotes takes it.**  When the problems
of a text do not fill the report, the ends of lines among the tokens are its line feeds in order,
without those that became part of strings.  Such a line feed stands behind a backslash inside a
string or a quoted symbol, and only such a token goes beyond its line. -/
theorem newlines_eq (h : s.lexicalProblems.length < Report.maxErrors) :
    s.newlines = s.lineFeeds.filter (· ∉ s.escapedLineFeeds) ∧
    (s.newlines = s.lineFeeds ↔ s.escapedLineFeeds = []) ∧
    (∀ q ∈ s.escapedLineFeeds,
      (∃ t ∈ s.tokens, (∃ text, t.kind = .string text ∨ t.kind = .symbol text) ∧
        t.span.start < q ∧ q < t.span.stop) ∧
      ∃ front rest, s.text.toList = front ++ '\n' :: rest ∧ front.getLast? = some '\\' ∧
        q = .behind front) ∧
    ∀ t ∈ s.tokens, t.kind ≠ .newline → t.span.stop.line = t.span.start.line ∨
      (∃ text, t.kind = .string text ∨ t.kind = .symbol text) ∧
        ∃ q ∈ s.escapedLineFeeds, t.span.start < q ∧ q < t.span.stop := by
  have hfilter : s.newlines = s.lineFeeds.filter (· ∉ s.escapedLineFeeds) := by
    have hnodup := Position.origin.nodup_lineFeeds s.text.toList
    rw [show Position.origin.lineFeeds s.text.toList = _ from lineFeeds_eq_flatMap h] at hnodup
    rw [newlines_eq_flatMap, escapedLineFeeds_eq_flatMap, lineFeeds_eq_flatMap h]
    exact (filter_flatMap_append hnodup).symm
  have hescaped : ∀ q ∈ s.escapedLineFeeds,
      (∃ t ∈ s.tokens, (∃ text, t.kind = .string text ∨ t.kind = .symbol text) ∧
        t.span.start < q ∧ q < t.span.stop) ∧
      ∃ front rest, s.text.toList = front ++ '\n' :: rest ∧ front.getLast? = some '\\' ∧
        q = .behind front := by
    intro q hq
    obtain ⟨done, p, ahead, htakes, hfirst, hq⟩ := exists_takesAt_of_mem_escapedLineFeeds hq
    obtain ⟨⟨t, ht, hbetween⟩, hfront⟩ := htakes.exists_token hfirst hq
    exact ⟨⟨t, htakes.mem_tokens ht, hbetween⟩, hfront⟩
  refine ⟨hfilter, ⟨fun hall => ?_, fun hnone => ?_⟩, hescaped, fun t => line_eq_or_exists⟩
  · -- one that became part of a string is a line feed, and would have to be a token as well
    refine List.eq_nil_iff_forall_not_mem.2 fun q hq => ?_
    obtain ⟨-, front, rest, htext, -, rfl⟩ := hescaped q hq
    have hmem := mem_lineFeeds_iff.2 ⟨front, rest, htext, rfl⟩
    rw [← hall, hfilter] at hmem
    exact of_decide_eq_true (List.mem_filter.1 hmem).2 hq
  · rw [hfilter, hnone]
    simp

/-- A string with a line feed behind a backslash, and a line feed behind the string. -/
def continued : Source := ⟨"continued.mlir", "\"a\\\nb\" c\n"⟩

/-- Only the second line feed is a token. -/
theorem newlines_continued : continued.lexicalProblems.length < Report.maxErrors ∧
    continued.newlines = continued.lineFeeds.filter (· ∉ continued.escapedLineFeeds) ∧
    continued.lineFeeds = [⟨1, 4⟩, ⟨2, 5⟩] ∧ continued.escapedLineFeeds = [⟨1, 4⟩] ∧
    ∀ t ∈ continued.tokens, t.kind ≠ .newline → t.span.stop.line = t.span.start.line ∨
      (∃ text, t.kind = .string text ∨ t.kind = .symbol text) ∧
        ∃ q ∈ continued.escapedLineFeeds, t.span.start < q ∧ q < t.span.stop := by
  have hroom : continued.lexicalProblems.length < Report.maxErrors := by decide +kernel
  obtain ⟨hnewlines, -, -, htokens⟩ := newlines_eq hroom
  exact ⟨hroom, hnewlines, by decide +kernel, by decide +kernel, htokens⟩

/-- The first line feed is no token: it is part of a string that goes on in the next line. -/
theorem continued_swallows : continued.lexicalProblems.length < Report.maxErrors ∧
    continued.lineFeeds = [⟨1, 4⟩, ⟨2, 5⟩] ∧ continued.newlines = [⟨2, 5⟩] ∧
      ⟨.string "a\nb", ⟨⟨1, 1⟩, ⟨2, 2⟩⟩⟩ ∈ continued.tokens := by
  decide +kernel

end Source

end ObjectModel
