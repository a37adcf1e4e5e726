/-
**Named texts and their lines.**

A source is the text that a module is read from, kept so that messages can quote the line they
speak of.

Main definitions:

* `Lines.split` — a text cut at its line feeds, which belong to no line;
* `Source`, `Source.line` — a named text, and one of its lines without the line's end;
* `Source.quote` — the line that a message quotes, empty where the text has no such line.

Main results:

* `Lines.split_ne_nil` — even the empty text has a line;
* `Lines.intercalate_split` — the cut loses nothing: the lines with a line feed between neighbours
  are the text again;
* `Lines.not_mem_of_mem_split` — no line contains a line feed.
-/

set_option relaxedAutoImplicit false
set_option autoImplicit false

namespace ObjectModel

/-! ### Cutting a text into lines -/

namespace Lines

/-- The lines of a text, without the line feeds that end them. -/
def split : List Char → List (List Char)
  | [] => [[]]
  | c :: cs => if c = '\n' then [] :: split cs else (split cs).modifyHead (c :: ·)

@[simp] theorem split_nil : split [] = [[]] := rfl

@[simp] theorem split_newline (cs : List Char) : split ('\n' :: cs) = [] :: split cs := by
  simp [split]

theorem split_cons_of_ne {c : Char} (h : c ≠ '\n') (cs : List Char) :
    split (c :: cs) = (split cs).modifyHead (c :: ·) := by
  simp [split, h]

theorem split_ne_nil (cs : List Char) : split cs ≠ [] := by
  induction cs with
  | nil => simp
  | cons c cs ih =>
      by_cases h : c = '\n'
      · simp [h]
      · rw [split_cons_of_ne h]
        cases hs : split cs with
        | nil => exact absurd hs ih
        | cons l ls => simp

/-- The lines, with a line feed between neighbours, are the text. -/
theorem intercalate_split (cs : List Char) : List.intercalate ['\n'] (split cs) = cs := by
  induction cs with
  | nil => rfl
  | cons c cs ih =>
      cases hs : split cs with
      | nil => exact absurd hs (split_ne_nil cs)
      | cons l ls =>
          rw [hs] at ih
          by_cases h : c = '\n'
          · subst h
            rw [split_newline, hs, List.intercalate_cons_cons, ih]
            simp
          · rw [split_cons_of_ne h, hs]
            cases ls with
            | nil => simpa using ih
            | cons m ms => simpa using ih

/-- No line contains a line feed. -/
theorem not_mem_of_mem_split {cs l : List Char} (h : l ∈ split cs) : '\n' ∉ l := by
  induction cs generalizing l with
  | nil => simp_all
  | cons c cs ih =>
      by_cases hc : c = '\n'
      · subst hc
        rcases (by simpa using h : l = [] ∨ l ∈ split cs) with rfl | h
        · simp
        · exact ih h
      · rw [split_cons_of_ne hc] at h
        cases hs : split cs with
        | nil => exact absurd hs (split_ne_nil cs)
        | cons m ms =>
            rw [hs] at h
            rcases (by simpa using h : l = c :: m ∨ l ∈ ms) with rfl | h
            · have := ih (l := m) (by simp [hs])
              simp [this, Ne.symm hc]
            · exact ih (by simp [hs, h])

/-- A line without the carriage return that may stand before its line feed.  The end of the text
ends the last line in the same way. -/
def trimReturn (l : List Char) : List Char :=
  if l.getLast? = some '\r' then l.dropLast else l

end Lines

/-! ### Sources -/

/-- A text with the name it is known by. -/
structure Source where
  /-- The name, usually that of a file. -/
  name : String
  /-- The text. -/
  text : String
  deriving DecidableEq, Inhabited

namespace Source

/-- The lines of the text, each without its end. -/
def lines (s : Source) : List String :=
  (Lines.split s.text.toList).map fun l => String.ofList (Lines.trimReturn l)

/-- How many lines there are: one more than line feeds. -/
def lineCount (s : Source) : Nat := (Lines.split s.text.toList).length

/-- The line of a number, counted from one. -/
def line (s : Source) : Nat → Option String
  | 0 => none
  | n + 1 => s.lines[n]?

@[simp] theorem line_zero (s : Source) : s.line 0 = none := rfl

@[simp] theorem line_succ (s : Source) (n : Nat) : s.line (n + 1) = s.lines[n]? := rfl

@[simp] theorem length_lines (s : Source) : s.lines.length = s.lineCount := by
  simp [lines, lineCount]

/-- The line that a message about line `n` quotes. -/
def quote (s : Source) (n : Nat) : String := (s.line n).getD ""

end Source

end ObjectModel
