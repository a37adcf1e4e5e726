/-
**Reading line by line.**

What stands on earlier lines matters to reading only when something was left open there or was wrong
with it.  A text that is read without a problem can therefore be read on its own: with a line feed
and another text below, the tokens are its own, the end of its last line, and those of the other
text.  These come further down and are otherwise the same, and so are the problems, down to the
lines that they quote.

Main definitions:

* `Position.down`, `Token.down`, `Problem.down`, `Report.down` — the same, some lines further down;
* `Token.Scan.onto` — a step of reading with more characters ahead;
* `Source.above` — a text with a line feed and another text below.

Main results:

* `Token.scanAll_down` — what is read further down is the same, further down;
* `Token.scan_append` — a step without a problem does not look behind the end of its line;
* `Token.Cuts.scanAll_append` — the text below is read from the beginning of a line;
* `Source.quote_above` — the lines of the text below are quoted as they were;
* `Source.read_above` — **texts are read line by line**.
-/

import ObjectModel.Proofs.Pieces

set_option relaxedAutoImplicit false
set_option autoImplicit false

namespace ObjectModel

/-! ### Lines -/

namespace Lines

theorem split_append_newline (cs ds : List Char) :
    split (cs ++ '\n' :: ds) = split cs ++ split ds := by
  induction cs with
  | nil => simp
  | cons c cs ih =>
      by_cases hc : c = '\n'
      · simp [hc, ih]
      · rw [List.cons_append, split_cons_of_ne hc, split_cons_of_ne hc, ih]
        obtain ⟨l, ls, hs⟩ := List.exists_cons_of_ne_nil (split_ne_nil cs)
        rw [hs]
        rfl

theorem length_split (cs : List Char) : (split cs).length = cs.count '\n' + 1 := by
  induction cs with
  | nil => rfl
  | cons c cs ih =>
      by_cases hc : c = '\n'
      · simp [hc, ih]
      · simp [split_cons_of_ne hc, hc, ih]

end Lines

/-! ### Further down -/

namespace Position

/-- The position `n` lines further down. -/
def down (n : Nat) (p : Position) : Position := ⟨p.line + n, p.col⟩

theorem after_down (n : Nat) (p : Position) (c : Char) :
    (p.down n).after c = (p.after c).down n := by
  unfold after
  split
  · simp [down, Nat.add_right_comm]
  · rfl

theorem afterAll_down (n : Nat) (p : Position) (cs : List Char) :
    (p.down n).afterAll cs = (p.afterAll cs).down n := by
  induction cs generalizing p with
  | nil => rfl
  | cons c cs ih => rw [afterAll_cons, afterAll_cons, after_down, ih]

end Position

/-- The same span, `n` lines further down. -/
def Span.down (n : Nat) (s : Span) : Span := ⟨s.start.down n, s.stop.down n⟩

/-- The same problem, `n` lines further down. -/
def Problem.down (n : Nat) (p : Problem) : Problem := { p with span := p.span.down n }

namespace Token

/-- The same token, `n` lines further down. -/
def down (n : Nat) (t : Token) : Token := { t with span := t.span.down n }

/-- The same string, `n` lines further down. -/
def Quoted.down (n : Nat) (q : Quoted) : Quoted :=
  { q with problems := q.problems.map (Problem.down n), pos := q.pos.down n }

/-- The same step, `n` lines further down. -/
def Scan.down (n : Nat) (s : Scan) : Scan :=
  { s with
    token? := s.token?.map (Token.down n)
    problems := s.problems.map (Problem.down n)
    pos := s.pos.down n }

theorem foundQuoted_down (n : Nat) (start : Position) (kind : String → TokenKind) (q : Quoted) :
    foundQuoted (start.down n) kind (q.down n) = (foundQuoted start kind q).down n := rfl

theorem pushEscape_down (n : Nat) (start next : Position) (c : Char) (q : Quoted) :
    (q.down n).pushEscape (start.down n) (next.down n) c = (q.pushEscape start next c).down n := by
  unfold Quoted.pushEscape
  split <;> rfl

theorem scanQuoted_down (n : Nat) (start pos : Position) (cs : List Char) :
    scanQuoted (start.down n) (pos.down n) cs = (scanQuoted start pos cs).down n := by
  fun_induction scanQuoted start pos cs with
  | case1 => rfl
  | case2 pos cs => rw [scanQuoted, Position.after_down]; rfl
  | case3 => rfl
  | case4 pos next => rw [scanQuoted, Position.after_down]; rfl
  | case5 pos c cs next ih =>
      rw [scanQuoted, Position.after_down, Position.after_down, ih, pushEscape_down]
  | case6 pos c cs hquote hline hlast hslash ih =>
      rw [scanQuoted, Position.after_down, ih]
      · rfl
      all_goals assumption

theorem scanInteger_down (n : Nat) (start pos : Position) (lead cs : List Char) :
    scanInteger (start.down n) (pos.down n) lead cs = (scanInteger start pos lead cs).down n := by
  unfold scanInteger
  simp only [Position.afterAll_down]
  split <;> rfl

theorem scanName_down (n : Nat) (start pos : Position) (sigil : Char)
    (kind : String → TokenKind) (cs : List Char) :
    scanName (start.down n) (pos.down n) sigil kind cs =
      (scanName start pos sigil kind cs).down n := by
  unfold scanName
  simp only [Position.afterAll_down]
  split <;> rfl

/-- A step does not depend on the line on which it is taken. -/
theorem scan_down (n : Nat) (start : Position) (c : Char) (cs : List Char) :
    scan (start.down n) c cs = (scan start c cs).down n := by
  unfold scan
  simp only [Position.after_down, Position.afterAll_down]
  split
  · rfl
  split
  · rw [scanQuoted_down, foundQuoted_down]
  split
  · exact scanInteger_down ..
  split
  · split
    · rfl
    · split
      · exact scanInteger_down ..
      · rfl
    · rfl
  split
  · split <;> rfl
  split
  · rfl
  split
  · rw [scanQuoted_down, foundQuoted_down]
  · split
    · exact scanName_down ..
    · split <;> rfl

theorem skipBlanks_down (n : Nat) (pos : Position) (cs : List Char) :
    skipBlanks (pos.down n) cs = ((skipBlanks pos cs).1.down n, (skipBlanks pos cs).2) := by
  induction cs generalizing pos with
  | nil => rfl
  | cons c cs ih =>
      simp only [skipBlanks, Position.after_down, Position.afterAll_down, ih]
      split
      · rfl
      · split <;> rfl

/-- **What is read further down is the same, further down.** -/
theorem scanAll_down (n seen : Nat) (pos : Position) (cs : List Char) :
    scanAll seen (pos.down n) cs =
      ((scanAll seen pos cs).1.map (Token.down n),
        (scanAll seen pos cs).2.map (Problem.down n)) := by
  have hskip {pos here : Position} {cs rest : List Char} (h : skipBlanks pos cs = (here, rest)) :
      skipBlanks (pos.down n) cs = (here.down n, rest) := by
    rw [skipBlanks_down, h]
  fun_induction scanAll seen pos cs with
  | case1 seen pos cs here h =>
      have hnil : (skipBlanks (pos.down n) cs).2 = [] := by rw [skipBlanks_down, h]
      rw [scanAll_of_skipBlanks_nil hnil, skipBlanks_down]
      rfl
  | case2 seen pos cs here c rest h hfull =>
      rw [scanAll_of_skipBlanks_full hfull (hskip (Prod.ext rfl h))]
      rfl
  | case3 seen pos cs here c rest h hroom s later ih =>
      rw [scanAll_of_skipBlanks_cons (Nat.lt_of_not_le hroom) (hskip (Prod.ext rfl h)), scan_down]
      simp only [Scan.down, List.length_map, List.map_append]
      rw [ih]
      cases s.token? <;> rfl

/-! ### More characters ahead -/

theorem takeWhile_append_newline {p : Char → Bool} (hp : p '\n' = false) (cs rest : List Char) :
    (cs ++ '\n' :: rest).takeWhile p = cs.takeWhile p := by
  rw [List.takeWhile_append]
  split
  · next hall => simp [hp, (List.takeWhile_prefix p).eq_of_length hall]
  · rfl

theorem dropWhile_append_newline {p : Char → Bool} (hp : p '\n' = false) (cs rest : List Char) :
    (cs ++ '\n' :: rest).dropWhile p = cs.dropWhile p ++ '\n' :: rest := by
  rw [List.dropWhile_append]
  split
  · next hnil => simp [hp, List.isEmpty_iff.1 hnil]
  · rfl

/-- The same string, with more characters ahead. -/
def Quoted.onto (rest : List Char) (q : Quoted) : Quoted := { q with ahead := q.ahead ++ rest }

/-- The same step, with more characters ahead. -/
def Scan.onto (rest : List Char) (s : Scan) : Scan := { s with ahead := s.ahead ++ rest }

theorem Quoted.problems_of_pushEscape {start next : Position} {c : Char} {q : Quoted}
    (h : (q.pushEscape start next c).problems = []) : q.problems = [] := by
  unfold pushEscape at h
  split at h
  · exact h
  · cases h

theorem Quoted.pushEscape_onto (start next : Position) (c : Char) (q : Quoted)
    (rest : List Char) :
    (q.onto rest).pushEscape start next c = (q.pushEscape start next c).onto rest := by
  unfold pushEscape
  split <;> rfl

/-- A string that is closed ends with its closing quote, whatever follows. -/
theorem scanQuoted_append {start pos : Position} {cs : List Char} (rest : List Char)
    (h : (scanQuoted start pos cs).problems = []) :
    scanQuoted start pos (cs ++ rest) = (scanQuoted start pos cs).onto rest := by
  fun_induction scanQuoted start pos cs with
  | case1 => cases h
  | case2 => rfl
  | case3 => cases h
  | case4 => cases h
  | case5 pos c cs next ih =>
      rw [List.cons_append, List.cons_append, scanQuoted, ih (Quoted.problems_of_pushEscape h),
        Quoted.pushEscape_onto]
  | case6 pos c cs hquote hline hlast hslash ih =>
      have hback : c ≠ '\\' := by
        rintro rfl
        cases cs with
        | nil => exact hlast rfl rfl
        | cons d ds => exact hslash d ds rfl rfl
      rw [List.cons_append, scanQuoted, ih h]
      · rfl
      · exact hquote
      · exact hline
      · exact fun hc _ => hback hc
      · exact fun _ _ hc _ => hback hc

theorem skipBlanks_append_newline (pos : Position) (cs rest : List Char) :
    skipBlanks pos (cs ++ '\n' :: rest) =
      ((skipBlanks pos cs).1, (skipBlanks pos cs).2 ++ '\n' :: rest) := by
  induction cs generalizing pos with
  | nil => rfl
  | cons c cs ih =>
      have hhead : (cs ++ '\n' :: rest).head? = some '/' ↔ cs.head? = some '/' := by
        cases cs <;> simp
      rw [List.cons_append, skipBlanks, skipBlanks, ih]
      simp only [hhead]
      split
      · rfl
      · split
        · rw [← List.cons_append, takeWhile_append_newline rfl, dropWhile_append_newline rfl]
        · rfl

theorem scanInteger_append (start pos : Position) (lead cs rest : List Char) :
    scanInteger start pos lead (cs ++ '\n' :: rest) =
      (scanInteger start pos lead cs).onto ('\n' :: rest) := by
  unfold scanInteger
  rw [takeWhile_append_newline rfl, dropWhile_append_newline rfl]
  dsimp only
  split <;> rfl

theorem scanName_append (start pos : Position) (sigil : Char) (kind : String → TokenKind)
    (cs rest : List Char) :
    scanName start pos sigil kind (cs ++ '\n' :: rest) =
      (scanName start pos sigil kind cs).onto ('\n' :: rest) := by
  unfold scanName
  rw [takeWhile_append_newline rfl, dropWhile_append_newline rfl]
  dsimp only
  split <;> rfl

/-- A minus sign that is no problem begins an arrow or a number on its line. -/
theorem scan_append_of_minus {start : Position} {cs : List Char} (rest : List Char)
    (h : (scan start '-' cs).problems = []) :
    scan start '-' (cs ++ '\n' :: rest) = (scan start '-' cs).onto ('\n' :: rest) := by
  unfold scan at h ⊢
  simp only [if_neg (by decide : ¬ '-' = '\n'), if_neg (by decide : ¬ '-' = '"'),
    if_neg (by decide : ¬ '-'.isDigit = true), if_pos] at h ⊢
  split at h
  · rfl
  · next d ds hd =>
      split at h
      · next hdigit =>
          split
          · next heq => exact absurd (List.cons.inj heq).1 hd
          · next heq =>
              obtain ⟨rfl, -⟩ := List.cons.inj heq
              simp only [if_pos hdigit]
              exact scanInteger_append ..
          · next heq => cases heq
      · cases h
  · cases h

/-- Behind a colon another one is looked for on its line only. -/
theorem scan_append_of_colon (start : Position) (cs rest : List Char) :
    scan start ':' (cs ++ '\n' :: rest) = (scan start ':' cs).onto ('\n' :: rest) := by
  unfold scan
  simp only [if_neg (by decide : ¬ ':' = '\n'), if_neg (by decide : ¬ ':' = '"'),
    if_neg (by decide : ¬ ':'.isDigit = true), if_neg (by decide : ¬ ':' = '-'), if_pos]
  rcases cs with _ | ⟨d, ds⟩
  · rfl
  · rw [List.cons_append]
    split
    · next heq =>
        obtain ⟨rfl, rfl⟩ := List.cons.inj heq
        rfl
    · next hd =>
        split
        · next heq => exact absurd (congrArg (· ++ '\n' :: rest) heq) (hd _)
        · rfl

/-- **A step without a problem does not look behind the end of its line.** -/
theorem scan_append {start : Position} {c : Char} {cs : List Char} (rest : List Char)
    (h : (scan start c cs).problems = []) :
    scan start c (cs ++ '\n' :: rest) = (scan start c cs).onto ('\n' :: rest) := by
  by_cases hminus : c = '-'
  · subst hminus
    exact scan_append_of_minus rest h
  by_cases hcolon : c = ':'
  · subst hcolon
    exact scan_append_of_colon ..
  unfold scan at h ⊢
  dsimp only at h ⊢
  split
  · rfl
  next hline =>
  rw [if_neg hline] at h
  split
  · next hquote =>
      rw [if_pos hquote] at h
      rw [scanQuoted_append _ h]
      rfl
  next hquote =>
  rw [if_neg hquote] at h
  split
  · exact scanInteger_append ..
  next hdigit =>
  rw [if_neg hdigit, if_neg hminus, if_neg hcolon] at h
  split
  · rw [takeWhile_append_newline rfl, dropWhile_append_newline rfl]
    rfl
  next hword =>
  rw [if_neg hword] at h
  split at h
  · change foundQuoted _ _ (scanQuoted _ _ (_ ++ '\n' :: rest)) = _
    rw [scanQuoted_append _ h]
    rfl
  · next hquoted =>
      split
      · next ds heq =>
          cases cs with
          | nil => cases heq
          | cons d cs =>
              obtain ⟨rfl, -⟩ := List.cons.inj heq
              exact absurd rfl (hquoted cs rfl)
      · split
        · exact scanName_append ..
        · next hsigil =>
          rw [hsigil] at h
          dsimp only at h
          split
          · rfl
          · next hpunctuation =>
              rw [hpunctuation] at h
              cases h

/-- A piece without a problem is taken in the same way when another line comes behind. -/
theorem Piece.ReadAt.append {p : Piece} {pos : Position} {ahead : List Char}
    (h : p.ReadAt pos ahead) (hnone : p.problems = []) (rest : List Char) :
    p.ReadAt pos (ahead ++ '\n' :: rest) where
  skipped := by
    rw [← List.append_assoc, skipBlanks_append_newline, h.skipped, List.cons_append,
      List.append_assoc]
  scanned := by
    have hscan : (scan (pos.afterAll p.blanks) p.first (p.others ++ ahead)).problems = [] := by
      rw [h.scanned, hnone]
    rw [← List.append_assoc, scan_append rest hscan, h.scanned]
    rfl

/-- **The text below is read from the beginning of a line**, when the text above is read without a
problem. -/
theorem Cuts.scanAll_append {seen : Nat} {pos : Position} {cs : List Char} {k : Cut}
    (h : Cuts seen pos cs k) (hroom : seen < Report.maxErrors)
    (hnone : k.pieces.flatMap Piece.problems = []) (ds : List Char) :
    scanAll seen pos (cs ++ '\n' :: ds) =
      (k.pieces.filterMap Piece.token? ++
          ⟨.newline, .upTo (pos.afterAll cs) ((pos.afterAll cs).after '\n')⟩ ::
            (scanAll seen ((pos.afterAll cs).after '\n') ds).1,
        (scanAll seen ((pos.afterAll cs).after '\n') ds).2) := by
  induction h with
  | @ends seen pos blanks hskip =>
      have hskip' := skipBlanks_append_newline pos blanks ds
      rw [hskip] at hskip'
      rw [scanAll_of_skipBlanks_cons hroom hskip']
      rfl
  | full _ hfull => exact absurd hroom (Nat.not_lt.2 hfull)
  | @piece seen pos p ahead k _ hp h ih =>
      rw [List.flatMap_cons, List.append_eq_nil_iff] at hnone
      have hp' := hp.append hnone.1 ds
      rw [hnone.1, List.length_nil, Nat.add_zero] at ih
      rw [List.append_assoc, scanAll_of_skipBlanks_cons hroom hp'.skipped, hp'.scanned]
      dsimp only
      rw [hnone.1, List.length_nil, Nat.add_zero, ih hroom hnone.2, Position.afterAll_append]
      cases htoken : p.token? <;> simp [htoken]

end Token

/-! ### Reports -/

/-- The same diagnostic, `n` lines further down. -/
def Diagnostic.down (n : Nat) (d : Diagnostic) : Diagnostic := { d with span := d.span.down n }

namespace Report

/-- The same report, `n` lines further down. -/
def down (n : Nat) (r : Report) : Report :=
  { r with
    errors := r.errors.map (Diagnostic.down n)
    warnings := r.warnings.map (Diagnostic.down n) }

theorem pushError_down (n : Nat) (r : Report) (d : Diagnostic) :
    (r.down n).pushError (d.down n) = (r.pushError d).down n := by
  unfold pushError down
  rw [List.length_map]
  split <;> simp

theorem pushErrors_down (n : Nat) (r : Report) (ds : List Diagnostic) :
    (r.down n).pushErrors (ds.map (Diagnostic.down n)) = (r.pushErrors ds).down n := by
  induction ds generalizing r with
  | nil => rfl
  | cons d ds ih => rw [List.map_cons, pushErrors_cons, pushError_down, ih, pushErrors_cons]

/-- Problems further down make the same report when their lines are quoted as before. -/
theorem ofProblems_down {file : String} {quote quote' : Nat → String} {n : Nat} {ps : List Problem}
    (h : ∀ p ∈ ps, quote' (p.span.start.line + n) = quote p.span.start.line) :
    ofProblems file quote' (ps.map (Problem.down n)) = (ofProblems file quote ps).down n := by
  have hmap : (ps.map (Problem.down n)).map (Diagnostic.ofProblem file quote') =
      (ps.map (Diagnostic.ofProblem file quote)).map (Diagnostic.down n) := by
    rw [List.map_map, List.map_map]
    refine List.map_congr_left fun p hp => ?_
    simp only [Function.comp, Diagnostic.ofProblem, Diagnostic.down]
    rw [← h p hp]
    rfl
  rw [ofProblems, hmap]
  exact pushErrors_down n empty _

end Report

/-! ### Sources -/

namespace Source

/-- The text of `a` with a line feed and the text of `b` below, under the name of `b`. -/
def above (a b : Source) : Source := ⟨b.name, a.text ++ "\n" ++ b.text⟩

theorem toList_above (a b : Source) :
    (a.above b).text.toList = a.text.toList ++ '\n' :: b.text.toList := by
  simp [above]

/-- **The lines of the text below are quoted as they were.** -/
theorem quote_above (a b : Source) {n : Nat} (hn : 1 ≤ n) :
    (a.above b).quote (n + a.lineCount) = b.quote n := by
  obtain ⟨n, rfl⟩ := Nat.exists_eq_add_of_le' hn
  have hlines : (a.above b).lines = a.lines ++ b.lines := by
    rw [lines, toList_above, Lines.split_append_newline, List.map_append]
    rfl
  rw [quote, quote, Nat.add_right_comm, line_succ, line_succ, hlines,
    List.getElem?_append_right (by simp), length_lines, Nat.add_sub_cancel]

/-- **Texts are read line by line.**  Below a text that is read without a problem, with a line feed
between them, another one is read as it would be on its own, only as many lines further down as the
text above has.  The tokens are those of the text above without its end, the end of its last line,
and those of the text below.  The problems are those of the text below, and the report of them says
the same, counts the same and quotes the same lines. -/
theorem read_above (a b : Source) (h : a.lexicalProblems = []) :
    (∃ ts, a.tokens = ts ++ [⟨.eof, .point (.behind a.text.toList)⟩] ∧
      (a.above b).tokens = ts ++
        ⟨.newline, .upTo (.behind a.text.toList) ((Position.behind a.text.toList).after '\n')⟩ ::
          b.tokens.map (Token.down (a.text.toList.count '\n' + 1))) ∧
    (a.above b).lexicalProblems =
      b.lexicalProblems.map (Problem.down (a.text.toList.count '\n' + 1)) ∧
    (a.above b).report (a.above b).lexicalProblems =
      (b.report b.lexicalProblems).down (a.text.toList.count '\n' + 1) := by
  have hdown : (Position.behind a.text.toList).after '\n' =
      Position.origin.down (a.text.toList.count '\n' + 1) := by
    simp [Position.behind, Position.down, Position.origin, Nat.add_comm]
  have hcuts := Token.cuts_cut 0 .origin a.text.toList
  have hread := hcuts.scanAll_append (by decide) (a.lexicalProblems_eq ▸ h) b.text.toList
  rw [Position.afterAll_origin, ← toList_above, hdown, Token.scanAll_down] at hread
  have hproblems : (a.above b).lexicalProblems =
      b.lexicalProblems.map (Problem.down (a.text.toList.count '\n' + 1)) :=
    congrArg Prod.snd hread
  refine ⟨⟨a.cut.pieces.filterMap Token.Piece.token?, ?_, ?_⟩, hproblems, ?_⟩
  · -- nothing of the text above is left unread
    have hunread : a.cut.unread = [] := unread_eq_nil (by rw [h]; decide)
    have htext := a.text_eq
    rw [hunread, List.append_nil] at htext
    rw [tokens_eq, ← htext]
  · rw [hdown]
    exact congrArg Prod.fst hread
  · rw [hproblems]
    refine Report.ofProblems_down fun p hp => ?_
    have hline := (hasPlace_of_mem_lexicalProblems hp).exists_line.1
    rw [← Lines.length_split]
    exact quote_above a b hline

/-- A line that ends with a comment. -/
def upperLine : Source := ⟨"lines.mlir", "%a -7 // \"open"⟩

/-- A line with a character that begins no token and with a string that is not closed. -/
def lowerLine : Source := ⟨"lines.mlir", "? \"open"⟩

/-- The comment of the upper line ends with it, and what is wrong with the lower line is reported on
line two and quotes that line only. -/
theorem read_upperLine_above : upperLine.lexicalProblems = [] ∧
    (upperLine.above lowerLine).tokens.map Token.kind =
      [.value "a", .integer (-7), .newline, .string "open", .eof] ∧
    ((upperLine.above lowerLine).report (upperLine.above lowerLine).lexicalProblems).errors.map
        (fun d => (d.span.start, d.sourceLine)) =
      [(⟨2, 1⟩, "? \"open"), (⟨2, 3⟩, "? \"open")] := by
  have hnone : upperLine.lexicalProblems = [] := by decide +kernel
  obtain ⟨⟨ts, hupper, htokens⟩, -, hreport⟩ := read_above upperLine lowerLine hnone
  have hts : ts.map Token.kind = [.value "a", .integer (-7)] := by
    have hkinds : upperLine.tokens.map Token.kind = [.value "a", .integer (-7), .eof] := by
      decide +kernel
    rw [hupper, List.map_append] at hkinds
    exact (List.append_inj' hkinds rfl).1
  have hlower : lowerLine.tokens.map Token.kind = [.string "open", .eof] := by decide +kernel
  refine ⟨hnone, ?_, ?_⟩
  · have hkind : Token.kind ∘ Token.down (upperLine.text.toList.count '\n' + 1) = Token.kind := rfl
    rw [htokens, List.map_append, hts, List.map_cons, List.map_map, hkind, hlower]
    rfl
  · rw [hreport]
    decide +kernel

end Source

end ObjectModel
