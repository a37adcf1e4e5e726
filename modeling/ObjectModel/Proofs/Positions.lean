/-
**The places of a text.**

Reading counts lines and columns as it goes, character by character, and never looks back at the
text.  The lines of a source are cut from the text as a whole.  Both agree: every position at which
reading can stand is on one of the lines, no further than one column behind its last character.
Tokens and their problems begin at such places, and the tokens follow each other.

Main definitions:

* `Position.Reaches`, `Source.HasPlace` — where reading can stand in a text;
* `Token.Scan.Takes` — what one step of reading says about the characters it has taken;
* `Token.Before` — one token ends before another one begins.

Main results:

* `Token.scan_takes` — one step of reading, for every kind of token;
* `Token.reaches_scanAll` — tokens and problems begin at places of the text;
* `Token.pairwise_before_scanAll` — **the tokens of a text without problems follow each other**;
* `Source.HasPlace.exists_line` — **a place of a source is on one of its lines**.
-/

import Mathlib.Data.List.TakeWhile
import ObjectModel.Token.Lexer

set_option relaxedAutoImplicit false
set_option autoImplicit false

namespace ObjectModel

/-- The first line is what stands before the first line feed. -/
theorem Lines.getElem?_split_zero (cs : List Char) :
    (split cs)[0]? = some (cs.takeWhile (· ≠ '\n')) := by
  induction cs with
  | nil => simp
  | cons c cs ih =>
      by_cases hc : c = '\n'
      · simp [hc]
      · simp [split_cons_of_ne hc, List.getElem?_modifyHead, ih, hc]

/-! ### Positions -/

namespace Position

theorem lt_of_le_of_lt {p q r : Position} (h : p ≤ q) (h' : q < r) : p < r := by
  simp only [le_def, lt_def] at *
  omega

theorem lt_of_lt_of_le {p q r : Position} (h : p < q) (h' : q ≤ r) : p < r := by
  simp only [le_def, lt_def] at *
  omega

theorem earlier_le_left (p q : Position) : p.earlier q ≤ p := by
  unfold earlier
  split
  · exact p.le_refl
  · next h => exact (Position.le_total p q).resolve_left h

theorem le_later_left (p q : Position) : p ≤ p.later q := by
  unfold later
  split
  · assumption
  · exact p.le_refl

theorem le_later_right (p q : Position) : q ≤ p.later q := by
  unfold later
  split
  · exact q.le_refl
  · next h => exact (Position.le_total p q).resolve_left h

/-- What holds of two positions holds of the earlier of them. -/
theorem earlier_rec {p q : Position} {P : Position → Prop} (hp : P p) (hq : P q) : P (p.earlier q) := by
  unfold earlier
  split
  · exact hp
  · exact hq

/-- What holds of two positions holds of the later of them. -/
theorem later_rec {p q : Position} {P : Position → Prop} (hp : P p) (hq : P q) : P (p.later q) := by
  unfold later
  split
  · exact hq
  · exact hp

@[simp] theorem after_newline (p : Position) : p.after '\n' = ⟨p.line + 1, 1⟩ := rfl

theorem after_of_ne {c : Char} (h : c ≠ '\n') (p : Position) :
    p.after c = ⟨p.line, p.col + 1⟩ := if_neg h

/-- Reading a text does not move back. -/
theorem le_afterAll (p : Position) (cs : List Char) : p ≤ p.afterAll cs := by
  induction cs generalizing p with
  | nil => exact p.le_refl
  | cons c cs ih =>
      have h := p.lt_after c
      exact Position.le_trans (by simp only [le_def, lt_def] at h ⊢; omega) (ih (p.after c))

theorem line_le_afterAll (p : Position) (cs : List Char) : p.line ≤ (p.afterAll cs).line := by
  have h := p.le_afterAll cs
  simp only [le_def] at h
  omega

/-- Columns count from one. -/
theorem col_afterAll_pos {p : Position} (h : 1 ≤ p.col) (cs : List Char) :
    1 ≤ (p.afterAll cs).col := by
  induction cs generalizing p with
  | nil => exact h
  | cons c cs ih =>
      refine ih ?_
      unfold after
      split
      · exact Nat.le_refl 1
      · exact Nat.le_succ_of_le h

/-- When the text is read from `p` on, reading can stand at `q`. -/
def Reaches (p : Position) (cs : List Char) (q : Position) : Prop :=
  ∃ done, done <+: cs ∧ q = p.afterAll done

theorem reaches_self (p : Position) (cs : List Char) : p.Reaches cs p :=
  ⟨[], List.nil_prefix, rfl⟩

/-- What is reached in a text is reached with characters in front of it. -/
theorem Reaches.behind {p q : Position} {taken cs : List Char}
    (h : (p.afterAll taken).Reaches cs q) : p.Reaches (taken ++ cs) q := by
  obtain ⟨done, hdone, rfl⟩ := h
  exact ⟨taken ++ done, (List.prefix_append_right_inj taken).2 hdone, (afterAll_append ..).symm⟩

/-- What is reached in a text is reached when more characters follow. -/
theorem Reaches.before {p q : Position} {cs : List Char} (h : p.Reaches cs q) (ds : List Char) :
    p.Reaches (cs ++ ds) q := by
  obtain ⟨done, hdone, hq⟩ := h
  exact ⟨done, hdone.trans (List.prefix_append cs ds), hq⟩

theorem Reaches.le {p q : Position} {cs : List Char} (h : p.Reaches cs q) : p ≤ q := by
  obtain ⟨done, -, rfl⟩ := h
  exact p.le_afterAll done

/-- A position that reading reaches is in the text read from `p` on: in its line some characters
are done, and those that come before the next line feed follow. -/
theorem exists_line (p : Position) (done ahead : List Char) :
    ∃ front, (Lines.split (done ++ ahead))[(p.afterAll done).line - p.line]? =
        some (front ++ ahead.takeWhile (· ≠ '\n')) ∧
      (p.afterAll done).col =
        (if (p.afterAll done).line = p.line then p.col else 1) + front.length := by
  induction done generalizing p with
  | nil =>
      refine ⟨[], ?_, by simp⟩
      rw [afterAll_nil, Nat.sub_self]
      exact Lines.getElem?_split_zero ahead
  | cons c done ih =>
      have hle := (p.after c).line_le_afterAll done
      obtain ⟨front, hfront, hcol⟩ := ih (p.after c)
      by_cases hc : c = '\n'
      · subst hc
        rw [after_newline] at hle hfront hcol
        refine ⟨front, ?_, ?_⟩
        · have hindex : ((p.after '\n').afterAll done).line - p.line =
              ((⟨p.line + 1, 1⟩ : Position).afterAll done).line - (p.line + 1) + 1 := by
            rw [after_newline]
            simp only at hle
            omega
          rw [afterAll_cons, hindex, List.cons_append, Lines.split_newline,
            List.getElem?_cons_succ]
          exact hfront
        · rw [afterAll_cons, after_newline, hcol, if_neg (c := _ = p.line) (by simp only at hle; omega)]
          split <;> rfl
      · rw [after_of_ne hc] at hle hfront hcol
        rw [afterAll_cons, after_of_ne hc, List.cons_append, Lines.split_cons_of_ne hc,
          List.getElem?_modifyHead]
        split
        · next hzero =>
            rw [hzero] at hfront
            refine ⟨c :: front, by rw [hzero, hfront]; rfl, ?_⟩
            have hsame : ((⟨p.line, p.col + 1⟩ : Position).afterAll done).line = p.line :=
              Nat.le_antisymm (Nat.sub_eq_zero_iff_le.1 hzero) hle
            rw [hcol, if_pos hsame, if_pos hsame, List.length_cons, Nat.add_right_comm]
            rfl
        · next hpos =>
            refine ⟨front, hfront, ?_⟩
            have hother : ((⟨p.line, p.col + 1⟩ : Position).afterAll done).line ≠ p.line :=
              fun h => hpos (by rw [h, Nat.sub_self])
            rw [hcol, if_neg hother, if_neg hother]

/-- A character that is no line feed moves on within its line. -/
theorem two_le_col_afterAll {p : Position} (h : 1 ≤ p.col) {cs : List Char} {c : Char}
    (hlast : cs.getLast? = some c) (hc : c ≠ '\n') : 2 ≤ (p.afterAll cs).col := by
  obtain ⟨cs, rfl⟩ := List.getLast?_eq_some_iff.1 hlast
  rw [afterAll_append, afterAll_cons, afterAll_nil, after_of_ne hc]
  exact Nat.succ_le_succ (col_afterAll_pos h cs)

end Position

namespace Token

/-! ### Strings -/

/-- What reading a string says about the characters it has taken: where it stands, that its
problems begin among them or where the string began, and that a string without problems is
closed. -/
structure Quoted.Takes (q : Quoted) (start pos : Position) (word : List Char) : Prop where
  stands : q.pos = pos.afterAll word
  problems : ∀ p ∈ q.problems, p.span.start = start ∨ pos.Reaches word p.span.start
  closed : q.problems = [] → word.getLast? = some '"'

/-- Characters in front of those that are taken, with a problem at the first of them or none. -/
theorem Quoted.Takes.append {q q' : Quoted} {start pos : Position} {word : List Char}
    (taken : List Char) (h : q.Takes start (pos.afterAll taken) word) (hpos : q'.pos = q.pos)
    (hproblems : ∀ p ∈ q'.problems, p ∈ q.problems ∨ p.span.start = pos)
    (hclosed : q'.problems = [] → q.problems = []) : q'.Takes start pos (taken ++ word) where
  stands := by rw [hpos, h.stands, Position.afterAll_append]
  problems := by
    intro p hp
    rcases hproblems p hp with hp | hp
    · exact (h.problems p hp).imp_right Position.Reaches.behind
    · exact .inr (hp ▸ pos.reaches_self _)
  closed := fun hq => by rw [List.getLast?_append, h.closed (hclosed hq)]; rfl

theorem takes_unterminated (start pos : Position) (ahead : List Char) :
    (unterminated start pos ahead).Takes start pos [] where
  stands := rfl
  problems := by simp [unterminated, Span.upTo]
  closed := by simp [unterminated]

theorem Quoted.Takes.pushEscape {q : Quoted} {start pos : Position} {b c : Char}
    {word : List Char} (h : q.Takes start ((pos.after b).after c) word) :
    (q.pushEscape pos ((pos.after b).after c) c).Takes start pos (b :: c :: word) := by
  refine Takes.append [b, c] h ?_ (fun p hp => ?_) fun hq => ?_
  · unfold Quoted.pushEscape
    split <;> rfl
  · unfold Quoted.pushEscape at hp
    split at hp
    · exact .inl hp
    · rcases List.mem_cons.1 hp with rfl | hp
      · exact .inr rfl
      · exact .inl hp
  · unfold Quoted.pushEscape at hq
    split at hq
    · exact hq
    · cases hq

theorem scanQuoted_takes (start pos : Position) (cs : List Char) :
    ∃ word, cs = word ++ (scanQuoted start pos cs).ahead ∧
      (scanQuoted start pos cs).Takes start pos word := by
  fun_induction scanQuoted start pos cs with
  | case1 pos => exact ⟨[], rfl, takes_unterminated start pos []⟩
  | case2 pos cs =>
      exact ⟨['"'], rfl, { stands := rfl, problems := by simp, closed := fun _ => rfl }⟩
  | case3 pos cs => exact ⟨[], rfl, takes_unterminated start pos _⟩
  | case4 pos next =>
      refine ⟨['\\'], rfl, Quoted.Takes.append ['\\']
        (takes_unterminated start next []) rfl (fun p hp => ?_) fun h => by cases h⟩
      rcases List.mem_cons.1 hp with rfl | hp
      · exact .inr rfl
      · exact .inl hp
  | case5 pos c cs next ih =>
      obtain ⟨word, hword, htakes⟩ := ih
      refine ⟨'\\' :: c :: word, ?_, htakes.pushEscape⟩
      rw [Quoted.ahead_pushEscape, List.cons_append, List.cons_append, ← hword]
  | case6 pos c cs _ _ _ _ ih =>
      obtain ⟨word, hword, htakes⟩ := ih
      refine ⟨c :: word, ?_, Quoted.Takes.append [c] htakes rfl (fun _ => .inl) id⟩
      rw [Quoted.ahead_push, List.cons_append, ← hword]

/-! ### One step -/

/-- What one step of reading, from `start` on, says about the characters it has taken: where it
stands, that its token begins at the first of them and ends with the last, and its problems begin
among them.  No token but a line end ends with a line feed, unless there is a problem with it. -/
structure Scan.Takes (s : Scan) (start : Position) (word : List Char) : Prop where
  stands : s.pos = start.afterAll word
  span : ∀ t ∈ s.token?, t.span = .upTo start s.pos
  problems : ∀ p ∈ s.problems, start.Reaches word p.span.start
  inside : s.problems = [] → ∀ t ∈ s.token?, t.kind ≠ .newline →
    ∃ c, word.getLast? = some c ∧ c ≠ '\n'

section Scan

variable {start pos : Position} {word : List Char}

/-- A character that is no line feed and a run of characters behind it do not end with one. -/
theorem exists_getLast?_takeWhile {c : Char} (hc : c ≠ '\n') {p : Char → Bool}
    (hp : p '\n' = false) (cs : List Char) :
    ∃ d, (c :: cs.takeWhile p).getLast? = some d ∧ d ≠ '\n' := by
  refine ⟨_, List.getLast?_eq_some_getLast (List.cons_ne_nil c _), fun hlast => ?_⟩
  have hmem := List.getLast_mem (List.cons_ne_nil c (cs.takeWhile p))
  rw [hlast, List.mem_cons] at hmem
  rcases hmem with hmem | hmem
  · exact hc hmem.symm
  · exact absurd (List.mem_takeWhile_imp hmem) (by simp [hp])

theorem takes_found (word : List Char) {kind : TokenKind} (hpos : pos = start.afterAll word)
    (h : kind = .newline ∨ ∃ c, word.getLast? = some c ∧ c ≠ '\n') (ahead : List Char) :
    (found start pos kind ahead).Takes start word where
  stands := hpos
  span := by simp [found]
  problems := by simp [found]
  inside := by
    rintro - t ⟨⟩ ht
    exact h.resolve_left ht

theorem takes_rejected (word : List Char) (hpos : pos = start.afterAll word) (message : String)
    (ahead : List Char) :
    (rejected start pos message ahead).Takes start word where
  stands := hpos
  span := by simp [rejected]
  problems := by
    intro p hp
    obtain rfl := List.mem_singleton.1 hp
    exact start.reaches_self word
  inside := by rintro - t ⟨⟩

/-- A quoted text behind the characters `lead`. -/
theorem Quoted.Takes.found {q : Quoted} (lead : List Char)
    (h : q.Takes start (start.afterAll lead) word) (kind : String → TokenKind) :
    (foundQuoted start kind q).Takes start (lead ++ word) where
  stands := by rw [Position.afterAll_append]; exact h.stands
  span := by simp [foundQuoted]
  problems := by
    intro p hp
    rcases h.problems p hp with hp | hp
    · exact hp ▸ start.reaches_self _
    · exact hp.behind
  inside := fun hq _ _ _ =>
    ⟨'"', by rw [List.getLast?_append, h.closed hq]; rfl, by decide⟩

/-- A number takes its digits. -/
theorem scanInteger_takes {c : Char} (hc : c ≠ '\n') (lead cs : List Char) :
    (scanInteger start (start.after c) lead cs).Takes start (c :: cs.takeWhile Char.isDigit) := by
  unfold scanInteger
  dsimp only
  split
  · exact takes_found _ rfl (.inr (exists_getLast?_takeWhile hc (by decide) cs)) _
  · exact
      { stands := rfl
        span := by simp
        problems := fun p hp => by rw [List.mem_singleton.1 hp]; exact start.reaches_self _
        inside := fun h => by cases h }

theorem ahead_scanInteger (start pos : Position) (lead cs : List Char) :
    (scanInteger start pos lead cs).ahead = cs.dropWhile Char.isDigit := by
  unfold scanInteger
  dsimp only
  split <;> rfl

/-- **One step of reading takes its first character and some of those behind it.** -/
theorem scan_takes (start : Position) (c : Char) (cs : List Char) :
    ∃ word, cs = word ++ (scan start c cs).ahead ∧ (scan start c cs).Takes start (c :: word) := by
  have hint (lead : List Char) (hc : c ≠ '\n') : ∃ word,
      cs = word ++ (scanInteger start (start.after c) lead cs).ahead ∧
        (scanInteger start (start.after c) lead cs).Takes start (c :: word) := by
    refine ⟨cs.takeWhile Char.isDigit, ?_, scanInteger_takes hc lead cs⟩
    rw [ahead_scanInteger, List.takeWhile_append_dropWhile]
  have hunexpected (message : String) : ∃ word,
      cs = word ++ (rejected start (start.after c) message cs).ahead ∧
        (rejected start (start.after c) message cs).Takes start (c :: word) :=
    ⟨[], rfl, takes_rejected [c] rfl _ _⟩
  have hsingle {kind : TokenKind} (hc : kind = .newline ∨ c ≠ '\n') : ∃ word,
      cs = word ++ (found start (start.after c) kind cs).ahead ∧
        (found start (start.after c) kind cs).Takes start (c :: word) :=
    ⟨[], rfl, takes_found [c] rfl (hc.imp_right fun hc => ⟨c, rfl, hc⟩) _⟩
  unfold scan
  dsimp only
  split
  · exact hsingle (.inl rfl)
  next hc =>
  split
  · next hquote =>
      subst hquote
      obtain ⟨word, hword, htakes⟩ := scanQuoted_takes start (start.after '"') cs
      exact ⟨word, hword, Quoted.Takes.found ['"'] htakes .string⟩
  split
  · exact hint [c] hc
  split
  · -- a minus sign
    split
    · exact ⟨['>'], rfl, takes_found [c, '>'] rfl (.inr ⟨'>', rfl, by decide⟩) _⟩
    · split
      · exact hint [c] hc
      · exact hunexpected _
    · exact hunexpected _
  split
  · -- a colon
    split
    · exact ⟨[':'], rfl, takes_found [c, ':'] rfl (.inr ⟨':', rfl, by decide⟩) _⟩
    · exact hsingle (.inr hc)
  split
  · refine ⟨cs.takeWhile isNameChar, List.takeWhile_append_dropWhile.symm, ?_⟩
    exact takes_found _ rfl (.inr (exists_getLast?_takeWhile hc (by decide) cs)) _
  split
  · next ds _ _ _ _ _ =>
      obtain ⟨word, hword, htakes⟩ := scanQuoted_takes start ((start.after '@').after '"') ds
      refine ⟨'"' :: word, ?_, Quoted.Takes.found ['@', '"'] htakes .symbol⟩
      rw [List.cons_append]
      exact congrArg _ hword
  · split
    · next kind _ =>
        unfold scanName
        dsimp only
        split
        · exact ⟨[], rfl, takes_rejected [c] rfl _ _⟩
        · refine ⟨cs.takeWhile isNameChar, List.takeWhile_append_dropWhile.symm, ?_⟩
          exact takes_found _ rfl (.inr (exists_getLast?_takeWhile hc (by decide) cs)) _
    · split
      · exact hsingle (.inr hc)
      · exact hunexpected _

end Scan

/-! ### The whole text -/

/-- The first token ends before the second one begins.  A line end reaches up to where the next
line begins, and every other token ends further in front. -/
def Before (t u : Token) : Prop :=
  t.span.stop ≤ u.span.start ∧ (t.kind ≠ .newline → t.span.stop < u.span.start)

/-- The characters from `pos` on begin with blanks, behind which the next step begins. -/
theorem exists_of_skipBlanks {pos : Position} {cs : List Char} {c : Char} {rest : List Char}
    (h : (skipBlanks pos cs).2 = c :: rest) :
    ∃ blanks word, (skipBlanks pos cs).1 = pos.afterAll blanks ∧
      cs = blanks ++ (c :: word ++ (scan (skipBlanks pos cs).1 c rest).ahead) ∧
      (scan (skipBlanks pos cs).1 c rest).Takes (skipBlanks pos cs).1 (c :: word) := by
  obtain ⟨blanks, hblanks, hhere⟩ := position_skipBlanks pos cs
  obtain ⟨word, hword, htakes⟩ := scan_takes (skipBlanks pos cs).1 c rest
  refine ⟨blanks, word, hhere, ?_, htakes⟩
  rw [List.cons_append, ← hword, ← h]
  exact hblanks

theorem reaches_skipBlanks (pos : Position) (cs : List Char) :
    pos.Reaches cs (skipBlanks pos cs).1 := by
  obtain ⟨blanks, hblanks, hhere⟩ := position_skipBlanks pos cs
  exact ⟨blanks, ⟨_, hblanks.symm⟩, hhere⟩

/-- Tokens and problems begin at places of the text. -/
theorem reaches_scanAll (seen : Nat) (pos : Position) (cs : List Char) :
    (∀ t ∈ (scanAll seen pos cs).1, pos.Reaches cs t.span.start) ∧
      ∀ p ∈ (scanAll seen pos cs).2, pos.Reaches cs p.span.start := by
  fun_induction scanAll seen pos cs with
  | case1 seen pos cs here h =>
      exact ⟨fun t ht => List.mem_singleton.1 ht ▸ reaches_skipBlanks pos cs, by simp⟩
  | case2 seen pos cs here c rest h hfull =>
      exact ⟨fun t ht => List.mem_singleton.1 ht ▸ reaches_skipBlanks pos cs, by simp⟩
  | case3 seen pos cs here c rest h hroom s later ih =>
      obtain ⟨blanks, word, hhere, hcs, htakes⟩ := exists_of_skipBlanks h
      have hlater {q : Position} (hq : s.pos.Reaches s.ahead q) : pos.Reaches cs q := by
        rw [htakes.stands, hhere] at hq
        rw [hcs]
        exact hq.behind.behind
      have hthis {q : Position} (hq : here.Reaches (c :: word) q) : pos.Reaches cs q := by
        change (skipBlanks pos cs).1.Reaches (c :: word) q at hq
        rw [hhere] at hq
        rw [hcs]
        exact (hq.before _).behind
      constructor
      · intro t ht
        rcases List.mem_append.1 ht with ht | ht
        · rw [htakes.span t (Option.mem_toList.1 ht)]
          exact hthis (here.reaches_self _)
        · exact hlater (ih.1 t ht)
      · intro p hp
        rcases List.mem_append.1 hp with hp | hp
        · exact hthis (htakes.problems p hp)
        · exact hlater (ih.2 p hp)

/-- The last token says that the text ends. -/
theorem exists_scanAll_eq (seen : Nat) (pos : Position) (cs : List Char) :
    ∃ ts stop, (scanAll seen pos cs).1 = ts ++ [stop] ∧ stop.kind = .eof := by
  fun_induction scanAll seen pos cs with
  | case1 => exact ⟨[], _, rfl, rfl⟩
  | case2 => exact ⟨[], _, rfl, rfl⟩
  | case3 seen pos cs here c rest _ _ s later ih =>
      obtain ⟨ts, stop, hts, hstop⟩ := ih
      refine ⟨s.token?.toList ++ ts, stop, ?_, hstop⟩
      rw [List.append_assoc]
      exact congrArg (s.token?.toList ++ ·) hts

/-- Where reading goes on, everything that is read begins. -/
theorem le_start_of_mem_scanAll {seen : Nat} {pos : Position} {cs : List Char} {t : Token}
    (ht : t ∈ (scanAll seen pos cs).1) : pos ≤ t.span.start :=
  ((reaches_scanAll seen pos cs).1 t ht).le

/-- A token without problems ends before reading goes on. -/
theorem Scan.Takes.span_le {s : Scan} {start : Position} {word : List Char} {c : Char} {t : Token}
    (h : s.Takes start (c :: word)) (hcol : 1 ≤ start.col) (hproblems : s.problems = [])
    (ht : t ∈ s.token?) : t.span.start ≤ t.span.stop ∧ t.span.stop ≤ s.pos ∧
      (t.kind ≠ .newline → t.span.stop < s.pos) := by
  have hpos : 1 ≤ s.pos.col := h.stands ▸ Position.col_afterAll_pos hcol _
  have hlt : start < s.pos := by
    have h₁ := start.lt_after c
    have h₂ := (start.after c).le_afterAll word
    rw [h.stands, Position.afterAll_cons]
    simp only [Position.lt_def, Position.le_def] at h₁ h₂ ⊢
    omega
  have hinside (hk : t.kind ≠ .newline) : 2 ≤ s.pos.col := by
    obtain ⟨d, hlast, hd⟩ := h.inside hproblems t ht hk
    exact h.stands ▸ Position.two_le_col_afterAll hcol hlast hd
  rw [h.span t ht]
  simp only [Span.upTo, Position.lt_def, Position.le_def, true_and] at hlt ⊢
  refine ⟨by omega, by omega, fun hk => ?_⟩
  have hcol := hinside hk
  omega

/-- **The tokens of a text without problems follow each other.** -/
theorem pairwise_before_scanAll {seen : Nat} {pos : Position} {cs : List Char}
    (hcol : 1 ≤ pos.col) (h : (scanAll seen pos cs).2 = []) :
    (scanAll seen pos cs).1.Pairwise Before ∧
      ∀ t ∈ (scanAll seen pos cs).1, t.span.start ≤ t.span.stop := by
  fun_induction scanAll seen pos cs with
  | case1 seen pos cs here _ =>
      exact ⟨List.pairwise_singleton _ _, fun t ht => List.mem_singleton.1 ht ▸ here.le_refl⟩
  | case2 seen pos cs here c rest _ _ =>
      exact ⟨List.pairwise_singleton _ _, fun t ht => List.mem_singleton.1 ht ▸ here.le_refl⟩
  | case3 seen pos cs here c rest hskip hroom s later ih =>
      obtain ⟨hproblems, hlater⟩ := List.append_eq_nil_iff.1 h
      obtain ⟨blanks, word, hhere, -, htakes⟩ := exists_of_skipBlanks hskip
      change here = _ at hhere
      change s.Takes here _ at htakes
      have hhereCol : 1 ≤ here.col := hhere ▸ Position.col_afterAll_pos hcol blanks
      obtain ⟨hbefore, hspans⟩ := ih (htakes.stands ▸ Position.col_afterAll_pos hhereCol _) hlater
      constructor
      · refine List.pairwise_append.2 ⟨by cases s.token? <;> simp, hbefore, fun t ht u hu => ?_⟩
        obtain ⟨-, hle, hlt⟩ := htakes.span_le hhereCol hproblems (Option.mem_toList.1 ht)
        have hu := le_start_of_mem_scanAll hu
        refine ⟨Position.le_trans hle hu, fun hk => ?_⟩
        have hlt := hlt hk
        simp only [Position.lt_def, Position.le_def] at hlt hu ⊢
        omega
      · intro t ht
        rcases List.mem_append.1 ht with ht | ht
        · exact (htakes.span_le hhereCol hproblems (Option.mem_toList.1 ht)).1
        · exact hspans t ht

end Token

/-! ### Sources -/

namespace Source

variable {s : Source} {p : Position}

/-- The position is one at which reading of the source can stand. -/
def HasPlace (s : Source) (p : Position) : Prop := Position.origin.Reaches s.text.toList p

theorem hasPlace_of_mem_tokens {t : Token} (h : t ∈ s.tokens) : s.HasPlace t.span.start :=
  (Token.reaches_scanAll 0 .origin s.text.toList).1 t h

theorem hasPlace_of_mem_lexicalProblems {q : Problem} (h : q ∈ s.lexicalProblems) :
    s.HasPlace q.span.start :=
  (Token.reaches_scanAll 0 .origin s.text.toList).2 q h

/-- **A place of a source is on one of its lines**, at most one column behind the last character
of that line. -/
theorem HasPlace.exists_line (h : s.HasPlace p) : 1 ≤ p.line ∧ 1 ≤ p.col ∧
    ∃ l, (Lines.split s.text.toList)[p.line - 1]? = some l ∧ p.col ≤ l.length + 1 := by
  obtain ⟨done, ⟨ahead, htext⟩, rfl⟩ := h
  obtain ⟨front, hline, hcol⟩ := Position.origin.exists_line done ahead
  rw [htext] at hline
  refine ⟨Position.origin.line_le_afterAll done, Position.col_afterAll_pos (Nat.le_refl 1) done,
    _, hline, ?_⟩
  have hone : (if (Position.origin.afterAll done).line = Position.origin.line
      then Position.origin.col else 1) = 1 := by split <;> rfl
  rw [hcol, hone, List.length_append]
  omega

/-- The last token says that the text ends. -/
theorem exists_tokens_eq (s : Source) : ∃ ts stop, s.tokens = ts ++ [stop] ∧ stop.kind = .eof :=
  Token.exists_scanAll_eq 0 .origin s.text.toList

theorem pairwise_before_tokens (h : s.lexicalProblems = []) : s.tokens.Pairwise Token.Before :=
  (Token.pairwise_before_scanAll (Nat.le_refl 1) h).1

theorem start_le_stop_of_mem_tokens (h : s.lexicalProblems = []) :
    ∀ t ∈ s.tokens, t.span.start ≤ t.span.stop :=
  (Token.pairwise_before_scanAll (Nat.le_refl 1) h).2

end Source

end ObjectModel
