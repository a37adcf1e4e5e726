/-
**The two texts of a JSON value.**

A value is written on one line, or with a line for each element and member.  The two texts have
the same pieces: brackets, commas, colons, and the texts of strings, numbers and words.  On one
line the pieces stand side by side.  On many lines there are line feeds and spaces between them,
and since the text of a string is one piece, never inside a string.

Main definitions:

* `Json.pieces` — the pieces of the text of a value;
* `Json.SetOut` — a text consists of pieces with space between them.

Main results:

* `Json.compact_eq_join` — the text on one line is the pieces side by side;
* `Json.setOut_pretty` — **the text on many lines is the same pieces set out**.
-/

import ObjectModel.Json
import Mathlib.Data.List.Forall2

set_option relaxedAutoImplicit false
set_option autoImplicit false

namespace ObjectModel

namespace Json

/-! ### Pieces -/

mutual

/-- The pieces of the text of a value. -/
def pieces : Json → List String
  | array es => ["["] ++ List.intercalate [","] (elementPieces es) ++ ["]"]
  | object ms => ["\x7b"] ++ List.intercalate [","] (memberPieces ms) ++ ["\x7d"]
  | j => [j.scalar]

/-- The pieces of the elements of an array, one by one. -/
def elementPieces : List Json → List (List String)
  | [] => []
  | e :: es => e.pieces :: elementPieces es

/-- The pieces of the members of an object, one by one. -/
def memberPieces : List (String × Json) → List (List String)
  | [] => []
  | (k, v) :: ms => ([quote k, ":"] ++ v.pieces) :: memberPieces ms

end

/-- The text consists of line feeds and spaces. -/
def IsSpace (t : String) : Prop := ∀ c ∈ t.toList, c = '\n' ∨ c = ' '

theorem isSpace_newline (level : Nat) : IsSpace (newline level) := by
  simp [IsSpace, newline]

/-- A text consists of pieces, in their order, with line feeds and spaces between them. -/
inductive SetOut : List String → String → Prop where
  /-- No pieces and no text. -/
  | nil : SetOut [] ""
  /-- A piece stands as it is. -/
  | piece (p : String) {ps : List String} {t : String} (h : SetOut ps t) : SetOut (p :: ps) (p ++ t)
  /-- Space may stand anywhere between pieces. -/
  | space {b : String} (hb : IsSpace b) {ps : List String} {t : String} (h : SetOut ps t) :
      SetOut ps (b ++ t)

namespace SetOut

theorem single (p : String) : SetOut [p] p := by
  simpa using SetOut.piece p .nil

theorem append {ps qs : List String} {t u : String} (ht : SetOut ps t) (hu : SetOut qs u) :
    SetOut (ps ++ qs) (t ++ u) := by
  induction ht with
  | nil => simpa using hu
  | piece p _ ih =>
      rw [List.cons_append, String.append_assoc]
      exact .piece p ih
  | space hb _ ih =>
      rw [String.append_assoc]
      exact .space hb ih

/-- A comma with space behind it. -/
theorem comma {b : String} (hb : IsSpace b) : SetOut [","] ("," ++ b) := by
  simpa using SetOut.piece "," (.space hb .nil)

/-- What is set out one by one is set out together, with a comma between any two. -/
theorem intercalate {b : String} (hb : IsSpace b) {pss : List (List String)} {ts : List String}
    (h : List.Forall₂ SetOut pss ts) :
    SetOut (List.intercalate [","] pss) (("," ++ b).intercalate ts) := by
  induction h with
  | nil => exact .nil
  | @cons ps t pss ts hps hrest ih =>
      cases hrest with
      | nil =>
          rw [List.intercalate_singleton, String.intercalate_singleton]
          exact hps
      | cons =>
          rw [List.intercalate_cons_cons, String.intercalate_cons_cons]
          exact (hps.append (comma hb)).append ih

/-- The parts of a container, each on a line of its own. -/
theorem block (level : Nat) (opening closing : String) {pss : List (List String)}
    {ts : List String} (h : List.Forall₂ SetOut pss ts) :
    SetOut ([opening] ++ List.intercalate [","] pss ++ [closing])
      (Json.block level opening closing ts) := by
  have hparts := SetOut.intercalate (isSpace_newline (level + 1)) h
  cases h with
  | nil => exact (single opening).append (single closing)
  | cons =>
      have hopening := (single opening).append (.space (isSpace_newline (level + 1)) .nil)
      have hclosing := (SetOut.space (isSpace_newline level) .nil).append (single closing)
      rw [String.append_empty] at hopening hclosing
      rw [Json.block, String.append_assoc]
      · exact (hopening.append hparts).append hclosing
      · exact List.cons_ne_nil _ _

end SetOut

/-! ### On one line -/

/-- Pieces with a comma between any two parts, side by side. -/
theorem join_intercalate (pss : List (List String)) :
    String.join (List.intercalate [","] pss) = ",".intercalate (pss.map String.join) := by
  induction pss with
  | nil => rfl
  | cons ps pss ih =>
      cases pss with
      | nil => simp
      | cons qs pss =>
          rw [List.intercalate_cons_cons, String.join_append, String.join_append, ih]
          simp [String.intercalate_cons_cons]

mutual

/-- The text on one line is the pieces side by side. -/
theorem compact_eq_join : ∀ j : Json, j.compact = String.join j.pieces
  | array es => by
      rw [compact, pieces, compactElements_eq_map, ← join_intercalate]
      simp [String.append_assoc]
  | object ms => by
      rw [compact, pieces, compactMembers_eq_map, ← join_intercalate]
      simp [String.append_assoc]
  | null => by simp [compact, pieces]
  | bool _ => by simp [compact, pieces]
  | number _ => by simp [compact, pieces]
  | decimal _ _ => by simp [compact, pieces]
  | string _ => by simp [compact, pieces]

theorem compactElements_eq_map : ∀ es : List Json,
    compactElements es = (elementPieces es).map String.join
  | [] => rfl
  | e :: es => by
      rw [compactElements, elementPieces, List.map_cons, e.compact_eq_join,
        compactElements_eq_map es]

theorem compactMembers_eq_map : ∀ ms : List (String × Json),
    compactMembers ms = (memberPieces ms).map String.join
  | [] => rfl
  | (k, v) :: ms => by
      rw [compactMembers, memberPieces, List.map_cons, v.compact_eq_join,
        compactMembers_eq_map ms, String.join_append]
      simp

end

/-! ### On many lines -/

mutual

/-- The text of a value that stands at a level is its pieces set out. -/
theorem setOut_prettyAt : ∀ (level : Nat) (j : Json), SetOut j.pieces (j.prettyAt level)
  | level, array es => by
      rw [pieces, prettyAt]
      exact .block level "[" "]" (setOut_prettyElements (level + 1) es)
  | level, object ms => by
      rw [pieces, prettyAt]
      exact .block level "\x7b" "\x7d" (setOut_prettyMembers (level + 1) ms)
  | _, null => .single _
  | _, bool _ => .single _
  | _, number _ => .single _
  | _, decimal _ _ => .single _
  | _, string _ => .single _

theorem setOut_prettyElements : ∀ (level : Nat) (es : List Json),
    List.Forall₂ SetOut (elementPieces es) (prettyElements level es)
  | _, [] => .nil
  | level, e :: es => .cons (setOut_prettyAt level e) (setOut_prettyElements level es)

theorem setOut_prettyMembers : ∀ (level : Nat) (ms : List (String × Json)),
    List.Forall₂ SetOut (memberPieces ms) (prettyMembers level ms)
  | _, [] => .nil
  | level, (k, v) :: ms => by
      have hcolon : SetOut [":"] ": " := .piece ":" (.space (b := " ") (by simp [IsSpace]) .nil)
      have hname := (SetOut.single (quote k)).append hcolon
      exact .cons (hname.append (setOut_prettyAt level v)) (setOut_prettyMembers level ms)

end

/-- **The text on many lines is the text on one line, set out.**  Both have the same pieces. -/
theorem setOut_pretty (j : Json) : SetOut j.pieces j.pretty := setOut_prettyAt 0 j

end Json

end ObjectModel
