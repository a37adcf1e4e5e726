/-
**From a text to its tokens.**

Reading goes from left to right.  Spaces, tabs, carriage returns and comments from `//` to the end
of the line separate tokens and are dropped; line feeds are tokens, since they end operations.  A
character that begins no token is reported and skipped, so that one reading can find several
problems; once a report is full of them, the rest of the text is left unread.

Main definitions:

* `Token.scan` — one token, or the problems that stand in its place;
* `Token.scanQuoted` — a string up to its closing quote;
* `Token.scanAll` — the tokens of a text, the last of them the end of the text;
* `Source.tokens`, `Source.lexicalProblems` — what is read from a source.

Main results:

* `Token.length_skipBlanks_le`, `Token.length_scan_le` — reading never gives characters back;
* `Token.position_skipBlanks` — the position of what is ahead follows from what was dropped.
-/

import ObjectModel.Diagnostic.Report
import ObjectModel.Source
import ObjectModel.Text.Decimal
import ObjectModel.Token

set_option relaxedAutoImplicit false
set_option autoImplicit false

namespace ObjectModel

namespace Token

/-! ### Characters -/

/-- The characters of a name: ASCII letters and digits and three signs. -/
def isNameChar (c : Char) : Bool := c.isAlphanum || c == '_' || c == '$' || c == '.'

/-- The characters with which a name on its own begins. -/
def isWordStart (c : Char) : Bool := c.isAlpha || c == '_'

/-- The signs that are tokens on their own, except the colon. -/
def punctuation? : Char → Option TokenKind
  | '(' => some .leftParen
  | ')' => some .rightParen
  | '\x7b' => some .leftBrace
  | '\x7d' => some .rightBrace
  | '[' => some .leftBracket
  | ']' => some .rightBracket
  | '<' => some .less
  | '>' => some .greater
  | ',' => some .comma
  | '=' => some .equals
  | _ => none

/-- The kind of name that a sign announces. -/
def sigil? : Char → Option (String → TokenKind)
  | '%' => some .value
  | '@' => some .symbol
  | '#' => some .attrName
  | '!' => some .typeName
  | _ => none

/-- The character that a backslash and `c` stand for when `c` has no meaning of its own there:
the first byte of `c` in UTF-8, read as a character.  For a character of ASCII that is `c`. -/
def unknownEscape (c : Char) : Char :=
  match String.utf8EncodeChar c with
  | b :: _ => Char.ofNat b.toNat
  | [] => c

/-! ### Blanks -/

/-- Drops blanks and comments.  The line feed behind a comment stays. -/
def skipBlanks (pos : Position) : List Char → Position × List Char
  | [] => (pos, [])
  | c :: cs =>
      if c = ' ' ∨ c = '\t' ∨ c = '\r' then skipBlanks (pos.after c) cs
      else if c = '/' ∧ cs.head? = some '/' then
        (pos.afterAll ((c :: cs).takeWhile (· ≠ '\n')), (c :: cs).dropWhile (· ≠ '\n'))
      else (pos, c :: cs)

theorem length_skipBlanks_le (pos : Position) (cs : List Char) :
    (skipBlanks pos cs).2.length ≤ cs.length := by
  induction cs generalizing pos with
  | nil => simp [skipBlanks]
  | cons c cs ih =>
      simp only [skipBlanks]
      split
      · exact Nat.le_succ_of_le (ih _)
      · split
        · exact (List.dropWhile_sublist _).length_le
        · exact Nat.le_refl _

/-- The position of what is ahead follows from what was dropped. -/
theorem position_skipBlanks (pos : Position) (cs : List Char) :
    ∃ dropped, cs = dropped ++ (skipBlanks pos cs).2
      ∧ (skipBlanks pos cs).1 = pos.afterAll dropped := by
  induction cs generalizing pos with
  | nil => exact ⟨[], by simp [skipBlanks]⟩
  | cons c cs ih =>
      simp only [skipBlanks]
      split
      · obtain ⟨dropped, h₁, h₂⟩ := ih (pos.after c)
        exact ⟨c :: dropped, by rw [List.cons_append, ← h₁], by rw [h₂, Position.afterAll_cons]⟩
      · split
        · exact ⟨_, (List.takeWhile_append_dropWhile ..).symm, rfl⟩
        · exact ⟨[], rfl, rfl⟩

/-! ### Strings -/

/-- What was read of a string. -/
structure Quoted where
  /-- The characters of the string, its escapes resolved. -/
  text : List Char
  /-- The problems found, in the order of reading. -/
  problems : List Problem
  /-- Where reading stands. -/
  pos : Position
  /-- The characters ahead. -/
  ahead : List Char
  deriving Inhabited

namespace Quoted

/-- Puts a character in front. -/
def push (c : Char) (q : Quoted) : Quoted := { q with text := c :: q.text }

/-- Puts a problem in front. -/
def report (p : Problem) (q : Quoted) : Quoted := { q with problems := p :: q.problems }

@[simp] theorem ahead_push (c : Char) (q : Quoted) : (q.push c).ahead = q.ahead := rfl

@[simp] theorem ahead_report (p : Problem) (q : Quoted) : (q.report p).ahead = q.ahead := rfl

end Quoted

/-- A string that began at `start` and is not closed before `pos`. -/
def unterminated (start pos : Position) (ahead : List Char) : Quoted :=
  ⟨[], [{ code := .unclosedDelimiter, message := "Unterminated string literal",
          span := .upTo start pos }], pos, ahead⟩

/-- The characters of the four escapes. -/
def escape? : Char → Option Char
  | '"' => some '"'
  | '\\' => some '\\'
  | 'n' => some '\n'
  | 't' => some '\t'
  | _ => none

/-- The problem of a backslash at `start` before a character that has no meaning there. -/
def badEscape (start next : Position) (c : Char) : Problem :=
  { code := .invalidLiteral, message := "Invalid escape sequence '\\" ++ c.toString ++ "'",
    span := .upTo start next }

/-- Puts in front what the backslash at `start` and the character `c` before `next` stand for. -/
def Quoted.pushEscape (start next : Position) (c : Char) (q : Quoted) : Quoted :=
  match escape? c with
  | some d => q.push d
  | none => (q.push (unknownEscape c)).report (badEscape start next (unknownEscape c))

@[simp] theorem Quoted.ahead_pushEscape (start next : Position) (c : Char) (q : Quoted) :
    (q.pushEscape start next c).ahead = q.ahead := by
  unfold pushEscape; split <;> rfl

/-- Reads the string that began at `start`, from `pos` on, up to its closing quote or the end of
the line.  A backslash always takes the character behind it. -/
def scanQuoted (start pos : Position) : List Char → Quoted
  | [] => unterminated start pos []
  | '"' :: cs => ⟨[], [], pos.after '"', cs⟩
  | '\n' :: cs => unterminated start pos ('\n' :: cs)
  | '\\' :: [] =>
      let next := pos.after '\\'
      (unterminated start next []).report
        { code := .unclosedDelimiter, message := "Unexpected end of file in escape sequence",
          span := .upTo pos next }
  | '\\' :: c :: cs =>
      let next := (pos.after '\\').after c
      (scanQuoted start next cs).pushEscape pos next c
  | c :: cs => (scanQuoted start (pos.after c) cs).push c

theorem length_scanQuoted_le (start pos : Position) (cs : List Char) :
    (scanQuoted start pos cs).ahead.length ≤ cs.length := by
  fun_induction scanQuoted start pos cs <;> simp_all [unterminated] <;> omega

/-! ### Tokens -/

/-- What was read in one step. -/
structure Scan where
  /-- The token, unless what stood there was none. -/
  token? : Option Token
  /-- The problems found, in the order of reading. -/
  problems : List Problem
  /-- Where reading stands. -/
  pos : Position
  /-- The characters ahead. -/
  ahead : List Char
  deriving Inhabited

/-- A token of the characters up to `pos`. -/
def found (start pos : Position) (kind : TokenKind) (ahead : List Char) : Scan :=
  ⟨some ⟨kind, .upTo start pos⟩, [], pos, ahead⟩

/-- A string or quoted name that began at `start`. -/
def foundQuoted (start : Position) (kind : String → TokenKind) (q : Quoted) : Scan :=
  ⟨some ⟨kind (String.ofList q.text), .upTo start q.pos⟩, q.problems, q.pos, q.ahead⟩

/-- No token, and a problem with the characters up to `pos`. -/
def rejected (start pos : Position) (message : String) (ahead : List Char) : Scan :=
  ⟨none, [{ code := .unexpectedToken, message := message, span := .upTo start pos }], pos, ahead⟩

/-- A whole number: the text `lead`, already read, and the digits that follow.  A number that does
not fit is reported and counts as zero. -/
def scanInteger (start pos : Position) (lead : List Char) (cs : List Char) : Scan :=
  let digits := cs.takeWhile Char.isDigit
  let next := pos.afterAll digits
  let literal := String.ofList (lead ++ digits)
  match Decimal.int64? literal with
  | some n => found start next (.integer n) (cs.dropWhile Char.isDigit)
  | none =>
      ⟨some ⟨.integer 0, .upTo start next⟩,
        [{ code := .invalidLiteral,
           message := "integer literal '" ++ literal ++ "' does not fit in 64 bits",
           span := .upTo start next }], next, cs.dropWhile Char.isDigit⟩

/-- A name behind its sign. -/
def scanName (start pos : Position) (sigil : Char) (kind : String → TokenKind) (cs : List Char) :
    Scan :=
  let name := cs.takeWhile isNameChar
  if name = [] then
    rejected start pos ("expected a name after '" ++ sigil.toString ++ "'") cs
  else found start (pos.afterAll name) (kind (String.ofList name)) (cs.dropWhile isNameChar)

/-- Reads what begins with the character `c` at `start`. -/
def scan (start : Position) (c : Char) (cs : List Char) : Scan :=
  let pos := start.after c
  let unexpected := rejected start pos ("Unexpected character '" ++ c.toString ++ "'") cs
  if c = '\n' then found start pos .newline cs
  else if c = '"' then foundQuoted start .string (scanQuoted start pos cs)
  else if c.isDigit then scanInteger start pos [c] cs
  else if c = '-' then
    -- a minus sign stands before a number or begins an arrow, and means nothing on its own
    match cs with
    | '>' :: ds => found start (pos.after '>') .arrow ds
    | d :: _ => if d.isDigit then scanInteger start pos [c] cs else unexpected
    | [] => unexpected
  else if c = ':' then
    match cs with
    | ':' :: ds => found start (pos.after ':') .doubleColon ds
    | _ => found start pos .colon cs
  else if isWordStart c then
    let name := cs.takeWhile isNameChar
    found start (pos.afterAll name) (.word (String.ofList (c :: name))) (cs.dropWhile isNameChar)
  else
    match c, cs with
    | '@', '"' :: ds => foundQuoted start .symbol (scanQuoted start (pos.after '"') ds)
    | c, cs =>
        match sigil? c with
        | some kind => scanName start pos c kind cs
        | none =>
            match punctuation? c with
            | some kind => found start pos kind cs
            | none => unexpected

theorem length_scanInteger_le (start pos : Position) (lead cs : List Char) :
    (scanInteger start pos lead cs).ahead.length ≤ cs.length := by
  have h := (List.dropWhile_sublist Char.isDigit (l := cs)).length_le
  unfold scanInteger
  simp only
  split <;> exact h

theorem length_scanName_le (start pos : Position) (sigil : Char) (kind : String → TokenKind)
    (cs : List Char) : (scanName start pos sigil kind cs).ahead.length ≤ cs.length := by
  have h := (List.dropWhile_sublist isNameChar (l := cs)).length_le
  unfold scanName
  simp only
  split
  · exact Nat.le_refl _
  · exact h

/-- Reading a token takes its first character and gives none back. -/
theorem length_scan_le (start : Position) (c : Char) (cs : List Char) :
    (scan start c cs).ahead.length ≤ cs.length := by
  have hi := length_scanInteger_le start (start.after c) [c] cs
  have hn := length_scanName_le start (start.after c) c
  have hq := length_scanQuoted_le start
  have hw := (List.dropWhile_sublist isNameChar (l := cs)).length_le
  unfold scan
  grind [found, foundQuoted, rejected]

/-- The tokens and problems of the characters `cs`, which begin at `pos`, when `seen` problems
were found before them. -/
def scanAll (seen : Nat) (pos : Position) (cs : List Char) : List Token × List Problem :=
  let here := (skipBlanks pos cs).1
  match _h : (skipBlanks pos cs).2 with
  | [] => ([⟨.eof, .point here⟩], [])
  | c :: rest =>
      if Report.maxErrors ≤ seen then
        -- what is left unread counts as if the text ended here
        ([⟨.eof, .point here⟩], [])
      else
        let s := scan here c rest
        let later := scanAll (seen + s.problems.length) s.pos s.ahead
        (s.token?.toList ++ later.1, s.problems ++ later.2)
termination_by cs.length
decreasing_by
  have h₁ := length_skipBlanks_le pos cs
  have h₂ := length_scan_le (skipBlanks pos cs).1 c rest
  rw [_h, List.length_cons] at h₁
  exact Nat.lt_of_le_of_lt h₂ h₁

end Token

/-! ### Sources -/

namespace Source

/-- The tokens of a source.  The last one is the end of the text. -/
def tokens (s : Source) : List Token := (Token.scanAll 0 .origin s.text.toList).1

/-- The problems of reading the tokens of a source. -/
def lexicalProblems (s : Source) : List Problem := (Token.scanAll 0 .origin s.text.toList).2

/-- The report of a list of problems found in a source. -/
def report (s : Source) (ps : List Problem) : Report := Report.ofProblems s.name s.quote ps

end Source

end ObjectModel
