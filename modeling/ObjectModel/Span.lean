/-
**Positions, spans and locations of a text.**

Everything that is read from a text remembers where it stood.  A position counts lines and columns
from one, a span runs between two positions, and a location adds the name of the file.

Main definitions:

* `Position`, with the order of reading: by line, then by column;
* `Position.after`, `Position.afterAll` — where reading stands after a character, after a text;
* `Span`, `Span.merge` — the smallest span around two others;
* `Location`, `Location.text` — a place as it is written in a message.

Main results:

* `Position.le_antisymm`, `Position.le_trans`, `Position.le_total` — the order is linear;
* `Position.lt_after` — reading a character moves forward;
* `Span.merge_comm`, `Span.merge_assoc` — the span around several others does not depend on how
  they are grouped.
-/

set_option relaxedAutoImplicit false
set_option autoImplicit false

namespace ObjectModel

/-! ### Positions -/

/-- A place in a text.  Lines and columns count from one, columns by characters.  The numbers have
no upper end, so a place is what two words of 32 bits can say of it where a text has fewer than
`2 ^ 32` lines and each of its lines has fewer than `2 ^ 32 - 1` characters; other texts are not
meant. -/
structure Position where
  /-- The line. -/
  line : Nat
  /-- The column. -/
  col : Nat
  deriving DecidableEq, Inhabited

namespace Position

/-- The first position of a text. -/
def origin : Position := ⟨1, 1⟩

/-- The order of reading. -/
protected def le (p q : Position) : Prop :=
  p.line < q.line ∨ (p.line = q.line ∧ p.col ≤ q.col)

/-- The strict order of reading. -/
protected def lt (p q : Position) : Prop :=
  p.line < q.line ∨ (p.line = q.line ∧ p.col < q.col)

instance : LE Position := ⟨Position.le⟩

instance : LT Position := ⟨Position.lt⟩

theorem le_def {p q : Position} :
    p ≤ q ↔ p.line < q.line ∨ (p.line = q.line ∧ p.col ≤ q.col) := Iff.rfl

theorem lt_def {p q : Position} :
    p < q ↔ p.line < q.line ∨ (p.line = q.line ∧ p.col < q.col) := Iff.rfl

instance (p q : Position) : Decidable (p ≤ q) := decidable_of_iff _ le_def.symm

instance (p q : Position) : Decidable (p < q) := decidable_of_iff _ lt_def.symm

protected theorem le_refl (p : Position) : p ≤ p := le_def.2 (.inr ⟨rfl, Nat.le_refl _⟩)

protected theorem le_trans {p q r : Position} (h₁ : p ≤ q) (h₂ : q ≤ r) : p ≤ r := by
  simp only [le_def] at *; omega

protected theorem le_total (p q : Position) : p ≤ q ∨ q ≤ p := by
  simp only [le_def]; omega

protected theorem le_antisymm {p q : Position} (h₁ : p ≤ q) (h₂ : q ≤ p) : p = q := by
  obtain ⟨l, c⟩ := p
  obtain ⟨l', c'⟩ := q
  simp only [le_def, mk.injEq] at *
  omega

protected theorem not_le {p q : Position} : ¬p ≤ q ↔ q < p := by
  simp only [le_def, lt_def]; omega

/-- The earlier of two positions. -/
def earlier (p q : Position) : Position := if p ≤ q then p else q

/-- The later of two positions. -/
def later (p q : Position) : Position := if p ≤ q then q else p

/-- Where reading stands after one character: a line feed opens the next line. -/
def after (p : Position) (c : Char) : Position :=
  if c = '\n' then ⟨p.line + 1, 1⟩ else ⟨p.line, p.col + 1⟩

/-- Where reading stands after a text. -/
def afterAll (p : Position) (cs : List Char) : Position := cs.foldl after p

@[simp] theorem afterAll_nil (p : Position) : p.afterAll [] = p := rfl

@[simp] theorem afterAll_cons (p : Position) (c : Char) (cs : List Char) :
    p.afterAll (c :: cs) = (p.after c).afterAll cs := rfl

@[simp] theorem afterAll_append (p : Position) (cs ds : List Char) :
    p.afterAll (cs ++ ds) = (p.afterAll cs).afterAll ds := List.foldl_append

/-- Reading a character moves forward. -/
theorem lt_after (p : Position) (c : Char) : p < p.after c := by
  simp only [after, lt_def]; split <;> simp

end Position

/-! ### Spans -/

/-- A stretch of text between two positions. -/
structure Span where
  /-- Where it begins. -/
  start : Position
  /-- Where it ends. -/
  stop : Position
  deriving DecidableEq, Inhabited

namespace Span

/-- The empty span at a position. -/
def point (p : Position) : Span := ⟨p, p⟩

/-- From `start` to the character before `next`.  A line that has just been opened has no such
character, and its first column stands in for it. -/
def upTo (start next : Position) : Span := ⟨start, ⟨next.line, max 1 (next.col - 1)⟩⟩

/-- The smallest span around both. -/
def merge (a b : Span) : Span := ⟨a.start.earlier b.start, a.stop.later b.stop⟩

@[simp] theorem merge_self (a : Span) : a.merge a = a := by
  simp [merge, Position.earlier, Position.later]

theorem merge_comm (a b : Span) : a.merge b = b.merge a := by
  have earlier_comm (p q : Position) : p.earlier q = q.earlier p := by
    by_cases h₁ : p ≤ q <;> by_cases h₂ : q ≤ p <;> simp [Position.earlier, h₁, h₂]
    · exact Position.le_antisymm h₁ h₂
    · exact absurd ((Position.le_total p q).resolve_left h₁) h₂
  have later_comm (p q : Position) : p.later q = q.later p := by
    by_cases h₁ : p ≤ q <;> by_cases h₂ : q ≤ p <;> simp [Position.later, h₁, h₂]
    · exact Position.le_antisymm h₂ h₁
    · exact absurd ((Position.le_total p q).resolve_left h₁) h₂
  rw [merge, merge, earlier_comm, later_comm]

theorem merge_assoc (a b c : Span) : (a.merge b).merge c = a.merge (b.merge c) := by
  have earlier_assoc (p q r : Position) : (p.earlier q).earlier r = p.earlier (q.earlier r) := by
    simp only [Position.earlier, Position.le_def]
    grind
  have later_assoc (p q r : Position) : (p.later q).later r = p.later (q.later r) := by
    simp only [Position.later, Position.le_def]
    grind
  simp only [merge, earlier_assoc, later_assoc]

/-- A span is named by its beginning, as `line:column`. -/
def text (s : Span) : String := s!"{s.start.line}:{s.start.col}"

end Span

/-! ### Locations -/

/-- A span of a named file, or no place at all. -/
structure Location where
  /-- The name of the file, possibly empty. -/
  file : String
  /-- The span, unless the place is unknown. -/
  span : Option Span
  deriving DecidableEq, Inhabited

namespace Location

/-- A known place. -/
def ofSpan (file : String) (span : Span) : Location := ⟨file, some span⟩

/-- The place of something that was not read from a text. -/
def unknown : Location := ⟨"", none⟩

/-- Whether there is no place. -/
def isUnknown (l : Location) : Bool := l.span.isNone

/-- A place as it is written in a message.  An empty file name is left out. -/
def text (l : Location) : String :=
  match l.span with
  | none => "loc(unknown)"
  | some s => if l.file.isEmpty then s.text else s!"{l.file}:{s.text}"

end Location

end ObjectModel
