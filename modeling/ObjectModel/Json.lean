/-
**JSON values with ordered members.**

Main definitions:

* `Json` — a value; the members of an object keep their order;
* `Json.ofMembers` — an object from its members, written one after the other;
* `Json.compact`, `Json.pretty` — the text on one line, and the text with a line for each member
  and two spaces for each level.
-/

import ObjectModel.Entries

set_option relaxedAutoImplicit false
set_option autoImplicit false

namespace ObjectModel

/-- A JSON value.  Values that the library makes hold neither truth values nor numbers with a point;
a value from outside may hold them, in members that are passed over. -/
inductive Json where
  | null
  | bool (b : Bool)
  | number (n : Int)
  /-- The number `mantissa / 10 ^ places`, written with a point or an exponent. -/
  | decimal (mantissa : Int) (places : Nat)
  | string (s : String)
  | array (elements : List Json)
  | object (members : List (String × Json))
  deriving Inhabited

namespace Json

/-- An object whose members are written one after the other: a name that comes again keeps its
place and takes the new value. -/
def ofMembers (ms : List (String × Json)) : Json := object (Entries.ofList ms)

/-- The value of a member, if the value is an object that has it. -/
def member? (name : String) : Json → Option Json
  | object ms => ms.lookup name
  | _ => none

/-! ### Strings -/

/-- How a character is written inside a string: two signs and the controls of ASCII are escaped,
all else stands for itself. -/
def escape (c : Char) : List Char :=
  if c = '"' then ['\\', '"']
  else if c = '\\' then ['\\', '\\']
  else if c = '\x08' then ['\\', 'b']
  else if c = '\x0c' then ['\\', 'f']
  else if c = '\n' then ['\\', 'n']
  else if c = '\r' then ['\\', 'r']
  else if c = '\t' then ['\\', 't']
  else if c.toNat < 0x20 then
    ['\\', 'u', '0', '0', Nat.digitChar (c.toNat / 16), Nat.digitChar (c.toNat % 16)]
  else [c]

/-- A string between quotes. -/
def quote (s : String) : String := String.ofList ('"' :: s.toList.flatMap escape ++ ['"'])

/-- The text of a value that contains no other. -/
def scalar : Json → String
  | null => "null"
  | bool b => if b then "true" else "false"
  | number n => toString n
  | decimal m p => s!"{m}e-{p}"
  | string s => quote s
  | array _ => "[]"
  | object _ => "\x7b\x7d"

/-! ### On one line -/

mutual

/-- The text of a value on one line, without spaces. -/
def compact : Json → String
  | array es => "[" ++ ",".intercalate (compactElements es) ++ "]"
  | object ms => "\x7b" ++ ",".intercalate (compactMembers ms) ++ "\x7d"
  | j => j.scalar

/-- The texts of the elements of an array. -/
def compactElements : List Json → List String
  | [] => []
  | e :: es => e.compact :: compactElements es

/-- The texts of the members of an object. -/
def compactMembers : List (String × Json) → List String
  | [] => []
  | (k, v) :: ms => (quote k ++ ":" ++ v.compact) :: compactMembers ms

end

/-! ### On many lines -/

/-- A new line at a level. -/
def newline (level : Nat) : String := "\n" ++ String.ofList (List.replicate (2 * level) ' ')

/-- The texts of the elements or members of a container, each on a line of the level below. -/
def block (level : Nat) (opening closing : String) : List String → String
  | [] => opening ++ closing
  | texts =>
      opening ++ newline (level + 1) ++ ("," ++ newline (level + 1)).intercalate texts
        ++ newline level ++ closing

mutual

/-- The text of a value that stands at a level. -/
def prettyAt (level : Nat) : Json → String
  | array es => block level "[" "]" (prettyElements (level + 1) es)
  | object ms => block level "\x7b" "\x7d" (prettyMembers (level + 1) ms)
  | j => j.scalar

/-- The texts of the elements of an array. -/
def prettyElements (level : Nat) : List Json → List String
  | [] => []
  | e :: es => e.prettyAt level :: prettyElements level es

/-- The texts of the members of an object. -/
def prettyMembers (level : Nat) : List (String × Json) → List String
  | [] => []
  | (k, v) :: ms => (quote k ++ ": " ++ v.prettyAt level) :: prettyMembers level ms

end

/-- The text of a value on many lines. -/
def pretty (j : Json) : String := j.prettyAt 0

end Json

end ObjectModel
