/-
**Blank characters, and texts without blanks at their end.**

Main definitions:

* `Text.isBlank` — the property "white space" of the character database;
* `Text.trimEnd` — a text without the blanks at its end.

Main results:

* `Text.isBlank_of_isWhitespace` — the blanks include the six that ASCII has;
* `Text.trimEndChars_append_blanks` — blanks at the end make no difference.
-/

set_option relaxedAutoImplicit false
set_option autoImplicit false

namespace ObjectModel

namespace Text

/-- A character with the property "white space". -/
def isBlank (c : Char) : Bool :=
  let n := c.toNat
  9 ≤ n && n ≤ 13 || n == 0x20 || n == 0x85 || n == 0xA0 || n == 0x1680
    || 0x2000 ≤ n && n ≤ 0x200A || n == 0x2028 || n == 0x2029 || n == 0x202F || n == 0x205F
    || n == 0x3000

theorem isBlank_of_isWhitespace {c : Char} (h : c.isWhitespace = true) : isBlank c = true := by
  simp only [Char.isWhitespace, Bool.or_eq_true, decide_eq_true_eq] at h
  rcases h with ((rfl | rfl) | rfl) | rfl <;> decide

/-- The characters of a text without the blanks at its end. -/
def trimEndChars (cs : List Char) : List Char := (cs.reverse.dropWhile isBlank).reverse

/-- A text without the blanks at its end. -/
def trimEnd (s : String) : String := String.ofList (trimEndChars s.toList)

theorem dropWhile_isBlank_eq_nil {bs : List Char} (h : ∀ b ∈ bs, isBlank b = true) :
    bs.dropWhile isBlank = [] := by
  induction bs with
  | nil => rfl
  | cons b bs ih => simp_all

/-- Blanks at the end make no difference. -/
theorem trimEndChars_append_blanks (cs bs : List Char) (h : ∀ b ∈ bs, isBlank b = true) :
    trimEndChars (cs ++ bs) = trimEndChars cs := by
  have h' : bs.reverse.dropWhile isBlank = [] := dropWhile_isBlank_eq_nil (by simpa using h)
  simp [trimEndChars, List.dropWhile_append, h']

end Text

end ObjectModel
