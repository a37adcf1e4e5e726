/-
**Quoted texts.**

A string is shown between double quotes.  Five characters have an escape of one letter or sign, a
character that does not show on its own is spelled by its number, and all others stand for
themselves.

Main definitions:

* `Text.escape` — how one character is written;
* `Text.quote` — a text between quotes.

Main results:

* `Text.newline_not_mem_quoteChars` — a quoted text stays on its line.
-/

import ObjectModel.Text.Hidden

set_option relaxedAutoImplicit false
set_option autoImplicit false

namespace ObjectModel

namespace Text

/-- The number of a character in base sixteen, without leading zeros. -/
def hexDigits (c : Char) : List Char := Nat.toDigits 16 c.toNat

/-- The characters written for one character of a quoted text. -/
def escape (c : Char) : List Char :=
  if c = '\t' then ['\\', 't']
  else if c = '\r' then ['\\', 'r']
  else if c = '\n' then ['\\', 'n']
  else if c = '\x00' then ['\\', '0']
  else if c = '"' then ['\\', '"']
  else if c = '\\' then ['\\', '\\']
  else if isHidden c then ['\\', 'u', '{'] ++ hexDigits c ++ ['}']
  else [c]

theorem newline_not_mem_hexDigits (c : Char) : '\n' ∉ hexDigits c := by
  have digit (n : Nat) : Nat.digitChar n ≠ '\n' := Nat.digitChar_ne '\n' (by decide)
  have core (fuel n : Nat) (ds : List Char) (h : '\n' ∉ ds) :
      '\n' ∉ Nat.toDigitsCore 16 fuel n ds := by
    induction fuel generalizing n ds with
    | zero => exact h
    | succ fuel ih =>
        have hd : '\n' ∉ Nat.digitChar (n % 16) :: ds := by simp [h, Ne.symm (digit _)]
        simp only [Nat.toDigitsCore]
        split
        · exact hd
        · exact ih _ _ hd
  exact core _ _ _ (by simp)

/-- No line feed is written as it stands. -/
theorem newline_not_mem_escape (c : Char) : '\n' ∉ escape c := by
  have h := newline_not_mem_hexDigits c
  unfold escape
  grind

/-- The characters of a quoted text. -/
def quoteChars (cs : List Char) : List Char := '"' :: cs.flatMap escape ++ ['"']

theorem newline_not_mem_quoteChars (cs : List Char) : '\n' ∉ quoteChars cs := by
  simp [quoteChars, newline_not_mem_escape]

/-- A text between quotes. -/
def quote (s : String) : String := String.ofList (quoteChars s.toList)

end Text

end ObjectModel
