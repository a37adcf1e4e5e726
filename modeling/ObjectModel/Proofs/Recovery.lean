/-
**Recovery from bad lines.**

The body of a class is read line by line.  A line that is no operation is noted as a problem, and
reading goes on behind it.  So of a body in which good and bad lines stand in any order, all good
lines are kept and all bad ones are reported, each as if it stood alone.

Main definitions:

* `Line` — some tokens and the line end behind them;
* `Line.Reads` — the operations and the problems of lines, each read alone.

Main results:

* `Line.operation_of_ok`, `Line.operation_of_error` — a line in a text is read as if it stood alone;
* `Line.resume_ahead` — behind a bad line reading goes on with the next one;
* `Noting.itemsFrom_lines`, `Noting.run_classDecl` — the body of a class, and the whole class;
* `Module.ofTokens?_recovers` — **a text that is a class, whatever its lines are**.
-/

import Mathlib.Data.List.DropRight
import ObjectModel.Proofs.Locality

set_option relaxedAutoImplicit false
set_option autoImplicit false

namespace ObjectModel

/-! ### Lines -/

/-- Tokens that stand on one line, and the line end behind them. -/
structure Line where
  /-- What stands on the line, if anything. -/
  tokens : List Token
  /-- The end of the line. -/
  stop : Token
  /-- Neither a line end nor the end of the text is among the tokens. -/
  inline : ∀ t ∈ tokens, t.kind ≠ .newline ∧ t.kind ≠ .eof
  /-- The line ends with a line end. -/
  stop_kind : stop.kind = .newline

/-- The tokens of a line with its end. -/
def Line.all (l : Line) : List Token := l.tokens ++ [l.stop]

/-- The operations of several lines, and the problems with them, when each line is read alone.  A
line is blank, or it is good and all of it is read, or it is bad and has no closing brace. -/
inductive Line.Reads : List Line → List Operation → List Problem → Prop where
  | nil : Reads [] [] []
  | blank {l : Line} {ls : List Line} {ops : List Operation} {es : List Problem}
      (h : l.tokens = []) (hls : Reads ls ops es) : Reads (l :: ls) ops es
  | good {l : Line} {ls : List Line} {ops : List Operation} {es : List Problem} {op : Operation}
      {c : Cursor} (h : Reading.operation true (.ofTokens l.all) = .ok op c) (hc : c.ahead = [])
      (hls : Reads ls ops es) : Reads (l :: ls) (op :: ops) es
  | bad {l : Line} {ls : List Line} {ops : List Operation} {es : List Problem} {e : Problem}
      {c : Cursor} (h : Reading.operation true (.ofTokens l.all) = .error e c)
      (hne : l.tokens ≠ []) (hbrace : ∀ t ∈ l.tokens, t.kind ≠ .rightBrace)
      (hls : Reads ls ops es) : Reads (l :: ls) ops (e :: es)

/-- The tokens without the line ends that stand next. -/
def dropNewlines (ts : List Token) : List Token := ts.dropWhile fun t => t.kind == .newline

@[simp] theorem dropNewlines_dropNewlines (ts : List Token) :
    dropNewlines (dropNewlines ts) = dropNewlines ts := List.dropWhile_idempotent _ _

theorem dropNewlines_cons_of_newline {t : Token} (ht : t.kind = .newline) (ts : List Token) :
    dropNewlines (t :: ts) = dropNewlines ts := List.dropWhile_cons_of_pos (by simp [ht])

theorem dropNewlines_cons_of_ne {t : Token} (ht : t.kind ≠ .newline) (ts : List Token) :
    dropNewlines (t :: ts) = t :: ts := List.dropWhile_cons_of_neg (by simp [ht])

theorem dropNewlines_append_cons {t : Token} (ht : t.kind ≠ .newline) (ts rest : List Token) :
    dropNewlines (ts ++ t :: rest) = dropNewlines ts ++ t :: rest := by
  induction ts with
  | nil => exact dropNewlines_cons_of_ne ht rest
  | cons u ts ih =>
      by_cases hu : u.kind = .newline
      · rw [List.cons_append, dropNewlines_cons_of_newline hu, dropNewlines_cons_of_newline hu, ih]
      · rw [List.cons_append, dropNewlines_cons_of_ne hu, dropNewlines_cons_of_ne hu,
          List.cons_append]

theorem length_dropNewlines_le (ts : List Token) : (dropNewlines ts).length ≤ ts.length :=
  (List.dropWhile_sublist _).length_le

theorem Cursor.ahead_skipNewlines (c : Cursor) : c.skipNewlines.ahead = dropNewlines c.ahead := rfl

namespace Line

variable {l : Line} {c : Cursor} {rest : List Token}

theorem onLine (h : c.ahead = l.all ++ rest) : c.OnLine l.tokens l.stop :=
  ⟨fun t ht => (l.inline t ht).1, l.stop_kind, rest, by simpa [all] using h⟩

theorem ahead_skip (h : c.ahead = l.all ++ rest) {n : Nat} (hn : n ≤ l.tokens.length) :
    (c.skip n).ahead = l.tokens.drop n ++ l.stop :: rest := by
  rw [c.ahead_skip, h, all, List.append_assoc, List.drop_append_of_le_length hn]
  rfl

/-- When nothing is left of a line that stands alone, all its tokens were taken. -/
theorem length_le_of_dropNewlines {n : Nat}
    (h : dropNewlines (l.tokens.drop n ++ [l.stop]) = []) : l.tokens.length ≤ n := by
  rw [← List.drop_eq_nil_iff]
  cases hdrop : l.tokens.drop n with
  | nil => rfl
  | cons t ts =>
      have hmem : t ∈ l.tokens := List.mem_of_mem_drop (hdrop ▸ List.mem_cons_self)
      rw [hdrop, List.cons_append, dropNewlines_cons_of_ne (l.inline t hmem).1] at h
      cases h

/-- A good line is read in a text as it is read alone. -/
theorem operation_of_ok {op : Operation} {d : Cursor}
    (h : Reading.operation true (.ofTokens l.all) = .ok op d) (hd : d.ahead = [])
    (hc : c.ahead = l.all ++ rest) :
    ∃ c', Reading.operation true c = .ok op c' ∧ c'.ahead = dropNewlines rest := by
  have halone : (Cursor.ofTokens l.all).ahead = l.all ++ [] := (List.append_nil _).symm
  obtain ⟨n, hn, ⟨e, -, he⟩ | ⟨op', hop, hop'⟩⟩ :=
    Reading.operation_on_line true (onLine hc) (onLine halone)
  · rw [he] at h
    cases h
  · rw [hop'] at h
    cases h
    rw [Cursor.ahead_endLine, ahead_skip halone hn] at hd
    have hlen := length_le_of_dropNewlines hd
    refine ⟨_, hop, ?_⟩
    rw [Cursor.ahead_endLine, ahead_skip hc hn, List.drop_eq_nil_of_le hlen]
    exact dropNewlines_cons_of_newline l.stop_kind rest

/-- A bad line is read in a text as it is read alone, and reading stops on that line. -/
theorem operation_of_error {e : Problem} {d : Cursor}
    (h : Reading.operation true (.ofTokens l.all) = .error e d) (hc : c.ahead = l.all ++ rest) :
    ∃ n, n ≤ l.tokens.length ∧ Reading.operation true c = .error e (c.skip n) := by
  have halone : (Cursor.ofTokens l.all).ahead = l.all ++ [] := (List.append_nil _).symm
  obtain ⟨n, hn, ⟨e', he, he'⟩ | ⟨op, -, hop⟩⟩ :=
    Reading.operation_on_line true (onLine hc) (onLine halone)
  · rw [he'] at h
    cases h
    exact ⟨n, hn, he⟩
  · rw [hop] at h
    cases h

/-- Behind a bad line reading goes on with the next one. -/
theorem resume_ahead (hbrace : ∀ t ∈ l.tokens, t.kind ≠ .rightBrace)
    (hc : c.ahead = l.all ++ rest) {n : Nat} (hn : n ≤ l.tokens.length) :
    (c.resume (c.skip n)).ahead = dropNewlines rest := by
  have hskipped : ((c.skip n).skipWhile fun k =>
      k != .eof && k != .newline && k != .rightBrace).ahead = l.stop :: rest := by
    change ((c.skip n).ahead.dropWhile fun t => _) = _
    rw [ahead_skip hc hn, List.dropWhile_append_of_pos, List.dropWhile_cons_of_neg]
    · simp [l.stop_kind]
    · intro t ht
      have hmem := List.mem_of_mem_drop ht
      simp [l.inline t hmem, hbrace t hmem]
  have hkind : ((c.skip n).skipWhile fun k =>
      k != .eof && k != .newline && k != .rightBrace).kind = .newline := by
    rw [Cursor.kind, Cursor.token, hskipped]
    exact l.stop_kind
  rw [Cursor.resume, hkind]
  dsimp only
  rw [Cursor.ahead_skipNewlines, hskipped]
  exact dropNewlines_cons_of_newline l.stop_kind rest

/-- A line that is read as an operation begins neither with a closing brace nor with its end. -/
theorem exists_of_ok {op : Operation} {d : Cursor}
    (h : Reading.operation true (.ofTokens l.all) = .ok op d) :
    ∃ t ts, l.tokens = t :: ts ∧ t.kind ≠ .rightBrace := by
  obtain ⟨n, -, -, -, hderives⟩ := Reading.exists_skip_of_operation h
  have hfirst : ∃ t ts, l.all.take n = t :: ts ∧ t.kind ≠ .newline ∧ t.kind ≠ .rightBrace := by
    cases hderives with
    | value _ hline => exact ⟨_, _, hline, by simp [Ident.valueToken], by simp [Ident.valueToken]⟩
    | field _ hline => exact ⟨_, _, hline, by simp, by simp⟩
  obtain ⟨t, ts, htake, hnewline, hbrace⟩ := hfirst
  have hahead : l.all = t :: (ts ++ l.all.drop n) := by
    rw [← List.cons_append, ← htake, List.take_append_drop]
  cases htokens : l.tokens with
  | nil =>
      rw [all, htokens] at hahead
      exact absurd l.stop_kind ((List.cons.inj hahead).1 ▸ hnewline)
  | cons t' ts' =>
      rw [all, htokens] at hahead
      exact ⟨t', ts', rfl, (List.cons.inj hahead).1 ▸ hbrace⟩

end Line

/-! ### The body of a class -/

namespace Noting

variable {α β : Type}

/-- One step of reading items. -/
theorem itemsFrom_step {close : TokenKind} {item : Noting α} {p p' : Progress} {o : Option α}
    (hgo : ¬(p.cursor.kind = close ∨ p.cursor.kind = .eof ∨ p.spent = true))
    (hrun : item.run.run p = (o, p')) {next : Progress}
    (hnext : next = { p' with cursor := (match o with
      | some _ => p'.cursor
      | none => p.cursor.resume p'.cursor).skipNewlines })
    (hless : next.measure < p.measure) :
    itemsFrom close item p =
      (o.toList ++ (itemsFrom close item next).1, (itemsFrom close item next).2) := by
  rw [itemsFrom, if_neg hgo]
  dsimp only
  rw [hrun]
  subst hnext
  exact if_pos hless

/-- Items end where an item takes nothing. -/
theorem itemsFrom_last {close : TokenKind} {item : Noting α} {p p' : Progress} {o : Option α}
    (hgo : ¬(p.cursor.kind = close ∨ p.cursor.kind = .eof ∨ p.spent = true))
    (hrun : item.run.run p = (o, p')) {next : Progress}
    (hnext : next = { p' with cursor := (match o with
      | some _ => p'.cursor
      | none => p.cursor.resume p'.cursor).skipNewlines })
    (hless : ¬next.measure < p.measure) : itemsFrom close item p = (o.toList, next) := by
  rw [itemsFrom, if_neg hgo]
  dsimp only
  rw [hrun]
  subst hnext
  exact if_neg hless

/-- Before a line that is not blank and does not begin with a closing brace, reading goes on. -/
theorem ready_of_line {l : Line} {t : Token} {ts rest : List Token} (htokens : l.tokens = t :: ts)
    (hbrace : t.kind ≠ .rightBrace) {p : Progress}
    (hahead : p.cursor.ahead = dropNewlines (l.all ++ rest))
    (hfew : p.problems.length < Report.maxErrors) :
    p.cursor.ahead = l.all ++ rest ∧
      ¬(p.cursor.kind = .rightBrace ∨ p.cursor.kind = .eof ∨ p.spent = true) := by
  have hnotEnd := l.inline t (htokens ▸ List.mem_cons_self)
  have hline : p.cursor.ahead = l.all ++ rest := by
    rw [hahead, Line.all, htokens]
    exact dropNewlines_cons_of_ne hnotEnd.1 _
  have hkind : p.cursor.kind = t.kind := by
    rw [Cursor.kind, Cursor.token, hline, Line.all, htokens]
    rfl
  refine ⟨hline, ?_⟩
  rw [hkind, Progress.spent, decide_eq_true_eq]
  rintro (h | h | h)
  · exact hbrace h
  · exact hnotEnd.2 h
  · omega

/-- **The body of a class is read line by line**: the operations of its good lines are kept in
order, and the problems of its bad ones are noted in order, behind what was noted before. -/
theorem itemsFrom_lines {ls : List Line} {ops : List Operation} {es : List Problem}
    (h : Line.Reads ls ops es) {brace : Token} (hbrace : brace.kind = .rightBrace)
    (tail : List Token) : ∀ p : Progress,
      p.cursor.ahead = dropNewlines (ls.flatMap Line.all ++ brace :: tail) →
      p.problems.length + es.length < Report.maxErrors →
        ∃ c, itemsFrom .rightBrace (attempt (Reading.operation true)) p =
            (ops, ⟨c, p.problems ++ es⟩) ∧ c.ahead = brace :: tail := by
  induction h with
  | nil =>
      intro p hahead _
      rw [List.flatMap_nil, List.nil_append, dropNewlines_cons_of_ne (by simp [hbrace])] at hahead
      have hkind : p.cursor.kind = .rightBrace := by
        rw [Cursor.kind, Cursor.token, hahead]
        exact hbrace
      refine ⟨p.cursor, ?_, hahead⟩
      rw [itemsFrom, if_pos (.inl hkind), List.append_nil]
  | @blank l ls ops es hblank _ ih =>
      intro p hahead hfew
      refine ih p ?_ hfew
      rw [hahead, List.flatMap_cons, Line.all, hblank]
      exact dropNewlines_cons_of_newline l.stop_kind _
  | @good l ls ops es op c hop hc _ ih =>
      intro p hahead hfew
      obtain ⟨t, ts, htokens, hnotBrace⟩ := Line.exists_of_ok hop
      rw [List.flatMap_cons, List.append_assoc] at hahead
      obtain ⟨hline, hgo⟩ := ready_of_line htokens hnotBrace hahead (by omega)
      obtain ⟨c', hop', hc'⟩ := Line.operation_of_ok hop hc hline
      have hnext : c'.skipNewlines.ahead = dropNewlines (ls.flatMap Line.all ++ brace :: tail) := by
        rw [Cursor.ahead_skipNewlines, hc', dropNewlines_dropNewlines]
      obtain ⟨c'', hrest, hahead''⟩ := ih { p with cursor := c'.skipNewlines } hnext hfew
      refine ⟨c'', ?_, hahead''⟩
      rw [itemsFrom_step hgo (run_attempt_of_ok hop') rfl ?_, hrest]
      · rfl
      · have hless := length_dropNewlines_le (ls.flatMap Line.all ++ brace :: tail)
        simp only [Progress.measure, hnext, hline, Line.all, List.length_append,
          List.length_singleton] at hless ⊢
        omega
  | @bad l ls ops es e c he hne hnotBrace _ ih =>
      intro p hahead hfew
      obtain ⟨t, ts, htokens⟩ := List.exists_cons_of_ne_nil hne
      rw [List.length_cons] at hfew
      rw [List.flatMap_cons, List.append_assoc] at hahead
      obtain ⟨hline, hgo⟩ := ready_of_line htokens
        (hnotBrace t (htokens ▸ List.mem_cons_self)) hahead (by omega)
      obtain ⟨n, hn, he'⟩ := Line.operation_of_error he hline
      have hnext : (p.cursor.resume (p.cursor.skip n)).skipNewlines.ahead =
          dropNewlines (ls.flatMap Line.all ++ brace :: tail) := by
        rw [Cursor.ahead_skipNewlines, Line.resume_ahead hnotBrace hline hn,
          dropNewlines_dropNewlines]
      obtain ⟨c'', hrest, hahead''⟩ := ih
        ⟨(p.cursor.resume (p.cursor.skip n)).skipNewlines, p.problems ++ [e]⟩ hnext (by
          rw [List.length_append, List.length_singleton]
          omega)
      refine ⟨c'', ?_, hahead''⟩
      rw [itemsFrom_step hgo (run_attempt_of_error he') rfl ?_, hrest, List.append_assoc]
      · rfl
      · have hless := length_dropNewlines_le (ls.flatMap Line.all ++ brace :: tail)
        simp only [Progress.measure, hnext, hline, Line.all, List.length_append,
          List.length_singleton] at hless ⊢
        omega

end Noting

/-! ### The class -/

/-- The header of a class is read in a text as it is read alone. -/
theorem Line.classHeader_of_ok {l : Line} (hne : l.tokens ≠ []) {header : Ident × List Param}
    {c d : Cursor} {rest : List Token}
    (h : Reading.classHeader (.ofTokens l.all) = .ok header d) (hd : d.ahead = [])
    (hc : c.ahead = l.all ++ rest) :
    ∃ c', Reading.classHeader c = .ok header c' ∧ c'.ahead = dropNewlines rest := by
  have halone : (Cursor.ofTokens l.all).ahead = l.all ++ [] := (List.append_nil _).symm
  rw [Reading.classHeader_eq] at h ⊢
  obtain ⟨r, n, hn, hread, hread'⟩ := Reading.alike_headerLine False l.tokens.length l.tokens
    l.stop c (.ofTokens l.all) (List.length_pos_iff.2 hne) (Nat.le_refl _) (onLine hc)
    (onLine halone) False.elim
  cases r with
  | error e =>
      rw [Reading.bind_of_error hread'] at h
      cases h
  | ok header' =>
      rw [Reading.bind_of_ok hread'] at h
      cases h
      rw [Cursor.ahead_skipNewlines, ahead_skip halone hn] at hd
      have hlen := length_le_of_dropNewlines hd
      refine ⟨(c.skip n).skipNewlines, Reading.bind_of_ok hread, ?_⟩
      rw [Cursor.ahead_skipNewlines, ahead_skip hc hn, List.drop_eq_nil_of_le hlen]
      exact dropNewlines_cons_of_newline l.stop_kind rest

/-- A body is closed by a brace, behind which the line ends. -/
theorem Reading.closeBody_of_brace {c : Cursor} {brace next : Token} {tail : List Token}
    (hc : c.ahead = brace :: next :: tail) (hbrace : brace.kind = .rightBrace)
    (hnext : next.kind.EndsLine) (start : Span) (what : String) :
    ∃ c', closeBody start what c = .ok (start.merge brace.span) c' ∧
      c'.ahead = dropNewlines (next :: tail) := by
  obtain ⟨ahead, final, last⟩ := c
  obtain rfl : ahead = brace :: next :: tail := hc
  have hrun : closeBody start what ⟨brace :: next :: tail, final, last⟩ =
      (lineEnd >>= fun _ => pure (start.merge brace.span) : Reading Span)
        ⟨next :: tail, final, brace.span⟩ := by
    change (if brace.kind = .rightBrace then _ else _ : Reading Span) _ = _
    rw [if_pos hbrace]
    rfl
  refine ⟨_, hrun.trans (bind_of_ok (lineEnd_of_endsLine hnext)), ?_⟩
  rw [Cursor.ahead_endLine]
  rfl

namespace Noting

variable {α β : Type}

theorem run_items {close : TokenKind} {item : Noting α} {p p' : Progress} {as : List α}
    (h : itemsFrom close item p = (as, p')) :
    (items close item).run.run p = (some as, p') := by
  simp [items, StateT.run, h]

/-- **A class is read whatever the lines of its body are**: with the operations of the good ones,
and with one problem for each bad one. -/
theorem run_classDecl {header : Line} {ls : List Line} {ops : List Operation}
    {es : List Problem} {name : Ident} {params : List Param} {d : Cursor} {brace next : Token}
    {tail : List Token} (hne : header.tokens ≠ [])
    (hheader : Reading.classHeader (.ofTokens header.all) = .ok (name, params) d)
    (hd : d.ahead = []) (hls : Line.Reads ls ops es) (hbrace : brace.kind = .rightBrace)
    (hnext : next.kind.EndsLine) {p : Progress}
    (hp : p.cursor.ahead = header.all ++ (ls.flatMap Line.all ++ brace :: next :: tail))
    (hfew : p.problems.length + es.length < Report.maxErrors) :
    ∃ c', classDecl.run.run p =
        (some ⟨name, params, ops, p.cursor.token.span.merge brace.span⟩,
          ⟨c', p.problems ++ es⟩) ∧ c'.ahead = dropNewlines (next :: tail) := by
  obtain ⟨c₁, hread, hc₁⟩ := Line.classHeader_of_ok hne hheader hd hp
  obtain ⟨c₂, hbody, hc₂⟩ := itemsFrom_lines hls hbrace (next :: tail) ⟨c₁, p.problems⟩ hc₁ hfew
  obtain ⟨c₃, hclose, hc₃⟩ := Reading.closeBody_of_brace hc₂ hbrace hnext p.cursor.token.span
    ("class @" ++ name.name)
  refine ⟨c₃, ?_, hc₃⟩
  have hstart : (attempt Reading.spanHere).run.run p = (some p.cursor.token.span, p) := rfl
  unfold classDecl
  rw [run_bind_of_some hstart, run_bind_of_some (run_attempt_of_ok hread)]
  dsimp only
  rw [run_bind_of_some (run_items hbody), run_bind_of_some (run_attempt_of_ok hclose)]
  rfl

/-- A class is an item that begins with its first word. -/
theorem run_item_of_class {p p' : Progress} {c : ClassDecl}
    (hword : p.cursor.kind = .word "om.class") (h : classDecl.run.run p = (some c, p')) :
    item.run.run p = (some (.ofClass c), p') := by
  have hkind : (attempt Reading.kind).run.run p = (some p.cursor.kind, p) := rfl
  unfold item
  rw [run_bind_of_some hkind, hword]
  exact run_bind_of_some (f := fun c => pure (Item.ofClass c)) h

/-- A text that is one item is read as that item. -/
theorem run_module_of_item (file : String) {p p₁ : Progress} {it : Item} {first stop : Token}
    {rest : List Token} (hahead : p.cursor.ahead = first :: rest)
    (hfirst : first.kind ≠ .newline ∧ first.kind ≠ .eof ∧ first.kind ≠ .word "module")
    (hfew : p.problems.length < Report.maxErrors) (hpos : rest ≠ [])
    (hitem : item.run.run { p with cursor := p.cursor.skipNewlines } = (some it, p₁))
    (hp₁ : dropNewlines p₁.cursor.ahead = [stop]) (hstop : stop.kind = .eof)
    (hproblems : p.problems.length ≤ p₁.problems.length) :
    ∃ span p₂, (module file).run.run p = (some { file, items := [it], span }, p₂) ∧
      p₂.problems = p₁.problems := by
  obtain ⟨start, hstart⟩ : ∃ s : Progress, s = { p with cursor := p.cursor.skipNewlines } :=
    ⟨_, rfl⟩
  have hsame : start.cursor.ahead = first :: rest := by
    rw [hstart, Cursor.ahead_skipNewlines, hahead, dropNewlines_cons_of_ne hfirst.1]
  have hkind : start.cursor.kind = first.kind := by
    rw [Cursor.kind, Cursor.token, hsame]
    rfl
  have hend : p₁.cursor.skipNewlines.kind = .eof := by
    rw [Cursor.kind, Cursor.token, Cursor.ahead_skipNewlines, hp₁]
    exact hstop
  -- behind the item there is the end of the text
  have hitems : itemsFrom .eof item start =
      ([it], { p₁ with cursor := p₁.cursor.skipNewlines }) := by
    rw [itemsFrom_step ?_ (hstart ▸ hitem) rfl ?_, itemsFrom, if_pos (.inl hend)]
    · rfl
    · rw [hkind, Progress.spent, decide_eq_true_eq, hstart]
      rintro (h | h | h)
      · exact hfirst.2.1 h
      · exact hfirst.2.1 h
      · exact absurd h (Nat.not_le.2 hfew)
    · have hlen : 0 < rest.length := List.length_pos_iff.2 hpos
      have hstartProblems : start.problems = p.problems := by rw [hstart]
      simp only [Progress.measure, Cursor.ahead_skipNewlines, hp₁, hsame, hstartProblems,
        List.length_cons, List.length_nil]
      omega
  have hmoduleItems : moduleItems.run.run start =
      (some [it], { p₁ with cursor := p₁.cursor.skipNewlines }) := by
    have hlook : (attempt Reading.kind).run.run start = (some first.kind, start) := by
      rw [← hkind]
      rfl
    unfold moduleItems
    rw [run_bind_of_some hlook, if_neg hfirst.2.2]
    exact run_items hitems
  have hskip : (attempt Reading.skipNewlines).run.run p = (some (), start) := by
    rw [hstart]
    rfl
  have hhere : (attempt Reading.spanHere).run.run start = (some start.cursor.token.span, start) :=
    rfl
  have hnext : (attempt Reading.kind).run.run { p₁ with cursor := p₁.cursor.skipNewlines } =
      (some .eof, { p₁ with cursor := p₁.cursor.skipNewlines }) := by
    rw [← hend]
    rfl
  unfold module
  rw [run_bind_of_some hskip, run_bind_of_some hhere, run_bind_of_some hmoduleItems,
    run_bind_of_some hnext]
  exact ⟨_, _, rfl, rfl⟩

end Noting

/-! ### The text of a class -/

/-- **Recovery is local to the bad line.**  A text consists of the header of a class, of lines,
each of them blank, good or bad, fewer than twenty of them bad, and of a closing brace on a line
of its own.  It is read as that class, with the operations of the good lines in order, and there
is exactly one problem for each bad line, in order, the one with which that line stops when it is
read alone. -/
theorem Module.ofTokens?_recovers (file : String) {header : Line} {ls : List Line}
    {ops : List Operation} {es : List Problem} {name : Ident} {params : List Param} {d : Cursor}
    {brace stop : Token} {blanks : List Token} {first : Token} {rest : List Token}
    (hfirst : header.tokens = first :: rest) (hword : first.kind = .word "om.class")
    (hheader : Reading.classHeader (.ofTokens header.all) = .ok (name, params) d)
    (hd : d.ahead = []) (hls : Line.Reads ls ops es) (hfew : es.length < Report.maxErrors)
    (hbrace : brace.kind = .rightBrace) (hblanks : ∀ t ∈ blanks, t.kind = .newline)
    (hstop : stop.kind = .eof) :
    ∃ m, Module.ofTokens? file
        (header.all ++ ls.flatMap Line.all ++ brace :: (blanks ++ [stop])) = (some m, es) ∧
      m.file = file ∧
      m.items = [.ofClass ⟨name, params, ops, first.span.merge brace.span⟩] := by
  obtain ⟨next, tail, htail, hnext⟩ :
      ∃ next tail, blanks ++ [stop] = next :: tail ∧ next.kind.EndsLine := by
    cases blanks with
    | nil => exact ⟨stop, [], rfl, .inr (.inr hstop)⟩
    | cons t ts => exact ⟨t, ts ++ [stop], rfl, .inl (hblanks t List.mem_cons_self)⟩
  have hend : dropNewlines (blanks ++ [stop]) = [stop] := by
    rw [dropNewlines, List.dropWhile_append_of_pos (fun t ht => by simp [hblanks t ht])]
    exact dropNewlines_cons_of_ne (by simp [hstop]) []
  obtain ⟨p, hp⟩ : ∃ p : Progress, p = { cursor := .ofTokens (header.all ++
      ls.flatMap Line.all ++ brace :: (blanks ++ [stop])) } := ⟨_, rfl⟩
  have hahead : p.cursor.ahead =
      header.all ++ (ls.flatMap Line.all ++ brace :: next :: tail) := by
    rw [hp, ← htail, ← List.append_assoc]
    rfl
  have hcons : p.cursor.ahead =
      first :: (rest ++ header.stop :: (ls.flatMap Line.all ++ brace :: next :: tail)) := by
    rw [hahead, Line.all, hfirst]
    simp
  obtain ⟨start, hstart⟩ : ∃ s : Progress, s = { p with cursor := p.cursor.skipNewlines } :=
    ⟨_, rfl⟩
  have hsame : start.cursor.ahead = p.cursor.ahead := by
    rw [hstart, Cursor.ahead_skipNewlines, hcons, dropNewlines_cons_of_ne (by simp [hword])]
  have htoken : start.cursor.token = first := by
    rw [Cursor.token, hsame, hcons]
    rfl
  have hproblems : start.problems = [] := by rw [hstart, hp]
  obtain ⟨c, hclass, hc⟩ := Noting.run_classDecl (by simp [hfirst]) hheader hd hls hbrace hnext
    (hsame.trans hahead) (by rw [hproblems]; simpa using hfew)
  rw [htoken, hproblems, List.nil_append] at hclass
  have hitem := Noting.run_item_of_class (by rw [Cursor.kind, htoken, hword]) hclass
  obtain ⟨span, p₂, hrun, hp₂⟩ := Noting.run_module_of_item file hcons
    (by simp [hword]) (by simp [hp, Report.maxErrors]) (by simp) (hstart ▸ hitem)
    (by rw [hc, ← htail, hend, dropNewlines_cons_of_ne (by simp [hstop])]) hstop (by simp [hp])
  refine ⟨⟨file, _, span⟩, ?_, rfl, rfl⟩
  rw [Module.ofTokens?, ← hp, hrun]
  exact congrArg _ hp₂

/-- A line of tokens of some kinds, wherever it stands. -/
def Line.ofKinds (ks : List TokenKind) (h : ∀ k ∈ ks, k ≠ .newline ∧ k ≠ .eof) : Line where
  tokens := ks.map fun k => ⟨k, default⟩
  stop := ⟨.newline, default⟩
  inline := by simpa using h
  stop_kind := rfl

/-- The header of a box without parameters. -/
def Line.boxHeader : Line :=
  Line.ofKinds [.word "om.class", .symbol "Box", .leftParen, .rightParen, .leftBrace] (by decide)

/-- The body of a box: a blank line, a good line, a line that breaks off, and another good one. -/
def Line.boxBody : List Line :=
  [Line.ofKinds [] (by decide),
    Line.ofKinds [.value "one", .equals, .word "om.constant", .integer 1, .colon, .word "i8"]
      (by decide),
    Line.ofKinds [.value "two", .equals, .word "om.constant"] (by decide),
    Line.ofKinds [.word "om.class.field", .symbol "size", .comma, .value "one", .colon,
      .word "i8"] (by decide)]

/-- The two good lines of the box are kept, and the one that breaks off is reported. -/
theorem Module.ofTokens?_recovers_box :
    ∃ m, Module.ofTokens? "box.mlir"
        (Line.boxHeader.all ++ Line.boxBody.flatMap Line.all ++
          ⟨.rightBrace, default⟩ :: ([⟨.newline, default⟩] ++ [⟨.eof, default⟩])) =
        (some m, [{ code := .invalidAttribute,
                    message := "expected constant attribute, got 'newline'",
                    span := default }]) ∧
      m.file = "box.mlir" ∧
      m.items = [.ofClass ⟨⟨"Box", default⟩, [],
        [⟨some ⟨"one", default⟩, .constant (.integer 1) (.bits 8), default⟩,
          ⟨none, .field ⟨"size", default⟩ ⟨"one", default⟩ (.bits 8), default⟩], default⟩] := by
  have hlines : Line.Reads Line.boxBody _ _ :=
    .blank rfl (.good rfl rfl (.bad rfl (by decide) (by decide) (.good rfl rfl .nil)))
  obtain ⟨d, hheader, hd⟩ : ∃ d, Reading.classHeader (.ofTokens Line.boxHeader.all) =
      .ok (⟨"Box", default⟩, []) d ∧ d.ahead = [] := ⟨_, rfl, rfl⟩
  have hnewline : ∀ t ∈ [Token.mk .newline default], t.kind = .newline := by decide
  have hbrace : (Token.mk .rightBrace default).kind = .rightBrace := rfl
  have hstop : (Token.mk .eof default).kind = .eof := rfl
  exact Module.ofTokens?_recovers "box.mlir" rfl rfl hheader hd hlines (by decide) hbrace hnewline
    hstop

end ObjectModel
