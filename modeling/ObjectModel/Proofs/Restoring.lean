/-
**A text from its lines.**

A line is quoted without the line feed that ends it and without the carriage return that may stand
before that.  So a text is its lines with these ends put back, up to one thing: a carriage return
at the end of the text stands before no line feed and is dropped all the same.

Main definitions:

* `LineEnd`, `Lines.ends` — the ends of lines in a text, as they stand there;
* `Source.restored` — the lines of a text with their ends behind them.

Main results:

* `Lines.ends_line` — a line feed ends its line, with the carriage return before it;
* `Lines.restore_intercalate` — lines and ends are the text, but for a carriage return at its end;
* `Source.restored_append_return` — **when the lines of a text lose nothing of it**;
* `Source.restored_halfEnded_ne` — a text of which they do.
-/

import ObjectModel.Proofs.FieldLines

set_option relaxedAutoImplicit false
set_option autoImplicit false

namespace ObjectModel

/-! ### The ends of lines -/

/-- What ends a line that is not the last one. -/
inductive LineEnd where
  /-- A line feed. -/
  | feed
  /-- A carriage return and a line feed. -/
  | returnFeed
  deriving DecidableEq, Inhabited

/-- The characters of an end. -/
def LineEnd.chars : LineEnd → List Char
  | feed => ['\n']
  | returnFeed => ['\r', '\n']

namespace Lines

/-- The ends of lines in a text, in order.  A carriage return that stands before no line feed ends
no line. -/
def ends : List Char → List LineEnd
  | [] => []
  | '\n' :: cs => .feed :: ends cs
  | '\r' :: '\n' :: cs => .returnFeed :: ends cs
  | _ :: cs => ends cs

/-- Lines with ends behind them.  Nothing stands behind the last line. -/
def restore (ls : List (List Char)) (es : List LineEnd) : List Char :=
  (List.zipWith (· ++ ·) ls (es.map LineEnd.chars ++ [[]])).flatten

/-- A carriage return, if one is the last character of the text. -/
def lastReturn (cs : List Char) : List Char := if cs.getLast? = some '\r' then ['\r'] else []

/-- A character begins no end when it is no line feed, and no carriage return in front of one. -/
theorem ends_cons {c : Char} {cs : List Char} (hc : c ≠ '\n')
    (h : c = '\r' → cs.head? ≠ some '\n') : ends (c :: cs) = ends cs := by
  cases cs with
  | nil => simp [ends]
  | cons d cs =>
      rw [ends]
      · exact hc
      · rintro cs' rfl hcs
        exact h rfl (by rw [hcs]; rfl)

/-- A line feed ends its line, with the carriage return before it if there is one. -/
theorem ends_line {l : List Char} (hl : '\n' ∉ l) (cs : List Char) :
    ends (l ++ '\n' :: cs) =
      (if l.getLast? = some '\r' then .returnFeed else .feed) :: ends cs := by
  induction l with
  | nil => rfl
  | cons c l ih =>
      rw [List.mem_cons, not_or] at hl
      cases l with
      | nil =>
          by_cases hc : c = '\r'
          · subst hc
            rfl
          · rw [List.cons_append, List.nil_append, ends_cons (Ne.symm hl.1) fun h => absurd h hc]
            simp [ends, hc]
      | cons d l =>
          have hd : d ≠ '\n' := fun h => hl.2 (h ▸ List.mem_cons_self)
          rw [List.cons_append, ends_cons (Ne.symm hl.1) (by simp [hd]), ih hl.2,
            List.getLast?_cons_cons]

/-- The last line has no end. -/
theorem ends_of_oneLine {l : List Char} (hl : '\n' ∉ l) : ends l = [] := by
  induction l with
  | nil => rfl
  | cons c l ih =>
      rw [List.mem_cons, not_or] at hl
      rw [ends_cons (Ne.symm hl.1), ih hl.2]
      exact fun _ hhead => hl.2 (List.mem_of_mem_head? (by rw [hhead]; rfl))

/-! ### Putting the ends back -/

/-- A quoted line with its own end behind it is the line and its line feed. -/
theorem trimReturn_append_end (l : List Char) :
    trimReturn l ++ (if l.getLast? = some '\r' then LineEnd.returnFeed else .feed).chars =
      l ++ ['\n'] := by
  unfold trimReturn
  split
  · next h =>
      have hlast := List.dropLast_append_getLast? '\r' h
      rw [LineEnd.chars, ← List.singleton_append, ← List.append_assoc, hlast]
  · rfl

theorem trimReturn_append_lastReturn (l : List Char) : trimReturn l ++ lastReturn l = l := by
  unfold trimReturn lastReturn
  split
  · next h => exact List.dropLast_append_getLast? '\r' h
  · exact List.append_nil l

/-- Behind a line feed a text ends as it does without what stands before. -/
theorem lastReturn_line (l cs : List Char) : lastReturn (l ++ '\n' :: cs) = lastReturn cs := by
  rw [lastReturn, lastReturn, List.getLast?_append_cons]
  cases cs with
  | nil => rfl
  | cons c cs => rw [List.getLast?_cons_cons]

theorem restore_cons (l : List Char) (ls : List (List Char)) (e : LineEnd) (es : List LineEnd) :
    restore (l :: ls) (e :: es) = l ++ e.chars ++ restore ls es := rfl

/-- Quoted lines with their ends put back are the text, but for a carriage return at its end. -/
theorem restore_intercalate {ls : List (List Char)} (hne : ls ≠ []) (hls : ∀ l ∈ ls, '\n' ∉ l) :
    (ends (List.intercalate ['\n'] ls)).length + 1 = ls.length ∧
    restore (ls.map trimReturn) (ends (List.intercalate ['\n'] ls)) ++
        lastReturn (List.intercalate ['\n'] ls) = List.intercalate ['\n'] ls := by
  induction ls with
  | nil => exact absurd rfl hne
  | cons l ls ih =>
      obtain ⟨hl, hls⟩ := List.forall_mem_cons.1 hls
      cases ls with
      | nil =>
          rw [List.intercalate_singleton, ends_of_oneLine hl]
          refine ⟨rfl, ?_⟩
          have hone : restore [trimReturn l] [] = trimReturn l := by simp [restore]
          rw [List.map_singleton, hone, trimReturn_append_lastReturn]
      | cons m ms =>
          obtain ⟨hlength, hrest⟩ := ih (List.cons_ne_nil m ms) hls
          have htext : List.intercalate ['\n'] (l :: m :: ms) =
              l ++ '\n' :: List.intercalate ['\n'] (m :: ms) := by
            rw [List.intercalate_cons_cons, List.append_assoc, List.singleton_append]
          rw [htext, ends_line hl, lastReturn_line]
          refine ⟨congrArg (· + 1) hlength, ?_⟩
          rw [List.map_cons, restore_cons, trimReturn_append_end, List.append_assoc, hrest,
            List.append_assoc, List.singleton_append]

end Lines

/-! ### Sources -/

namespace Source

/-- The ends of the lines of the text. -/
def ends (s : Source) : List LineEnd := Lines.ends s.text.toList

/-- Each line as it is quoted, with its own end behind it. -/
def restored (s : Source) : String :=
  String.ofList (Lines.restore (s.lines.map String.toList) s.ends)

theorem isSome_line_iff (s : Source) (n : Nat) :
    (s.line n).isSome = true ↔ 1 ≤ n ∧ n ≤ s.lineCount := by
  cases n with
  | zero => simp
  | succ n =>
      rw [line_succ, isSome_getElem?, length_lines, and_iff_right (Nat.le_add_left 1 n),
        Nat.succ_le_iff]

/-- No quoted line has a line feed. -/
theorem oneLine_of_line {s : Source} {n : Nat} {l : String} (h : s.line n = some l) :
    OneLine l := by
  cases n with
  | zero => cases h
  | succ n =>
      obtain ⟨cs, hcs, rfl⟩ := List.mem_map.1 (List.mem_of_getElem? h)
      have hnot := Lines.not_mem_of_mem_split hcs
      rw [OneLine, String.toList_ofList, Lines.trimReturn]
      split
      · exact fun hmem => hnot (List.mem_of_mem_dropLast hmem)
      · exact hnot

theorem restored_append_lastReturn (s : Source) :
    s.ends.length + 1 = s.lineCount ∧
      s.restored ++ String.ofList (Lines.lastReturn s.text.toList) = s.text := by
  obtain ⟨hlength, hrestore⟩ := Lines.restore_intercalate (Lines.split_ne_nil s.text.toList)
    fun l hl => Lines.not_mem_of_mem_split hl
  rw [Lines.intercalate_split] at hlength hrestore
  refine ⟨hlength, ?_⟩
  have hlines : s.lines.map String.toList = (Lines.split s.text.toList).map Lines.trimReturn := by
    rw [lines, List.map_map]
    exact List.map_congr_left fun l _ => String.toList_ofList
  rw [restored, hlines, ends, ← String.ofList_append, hrestore, String.ofList_toList]

/-- **The lines of a text lose nothing but a carriage return at its end**: a text has the lines from
the first to the last, and no others; none of them has a line feed; each but the last has one end;
and with these ends put back, the lines are the text, or the text without a carriage return that is
its last character. -/
theorem restored_append_return (s : Source) :
    (∀ n, (s.line n).isSome = true ↔ 1 ≤ n ∧ n ≤ s.lineCount) ∧
    (∀ n l, s.line n = some l → OneLine l) ∧
    s.ends.length + 1 = s.lineCount ∧
    s.restored ++ (if s.text.toList.getLast? = some '\r' then "\r" else "") = s.text ∧
    (s.restored = s.text ↔ s.text.toList.getLast? ≠ some '\r') := by
  obtain ⟨hlength, hrestored⟩ := s.restored_append_lastReturn
  refine ⟨s.isSome_line_iff, fun _ _ => oneLine_of_line, hlength, ?_⟩
  rw [Lines.lastReturn] at hrestored
  split at hrestored
  · next hlast =>
      rw [if_pos hlast]
      refine ⟨hrestored, iff_of_false (fun heq => ?_) (not_not.2 hlast)⟩
      -- the lines are shorter than the text by the carriage return
      have hlength := congrArg String.length hrestored
      rw [heq, String.length_append] at hlength
      exact absurd hlength (Nat.succ_ne_self _)
  · next hlast =>
      rw [if_neg hlast]
      have hsame : s.restored = s.text := by simpa using hrestored
      exact ⟨hrestored, iff_of_true hsame hlast⟩

/-- Lines of all kinds: with the one end and with the other, with a carriage return inside, at the
beginning and in front of the end, and empty ones. -/
def assorted : Source := ⟨"assorted.mlir", "ä\r\n\rb\nc\rd\r\r\n\n\r\n"⟩

/-- They have two ends of the one kind and three of the other, and lose nothing. -/
theorem restored_assorted :
    assorted.lineCount = 6 ∧
    assorted.lines = ["ä", "\rb", "c\rd\r", "", "", ""] ∧
    assorted.ends = [.returnFeed, .feed, .returnFeed, .feed, .returnFeed] ∧
    assorted.text.toList.getLast? ≠ some '\r' ∧ assorted.restored = assorted.text := by
  have hlast : assorted.text.toList.getLast? ≠ some '\r' := by decide
  obtain ⟨-, -, -, -, hrestored⟩ := assorted.restored_append_return
  exact ⟨by decide, by decide, by decide, hlast, hrestored.2 hlast⟩

/-- A text that ends in a carriage return. -/
def halfEnded : Source := ⟨"half.mlir", "a\r"⟩

/-- Its only line has no end, and is quoted without the carriage return. -/
theorem restored_halfEnded_ne :
    halfEnded.lineCount = 1 ∧ halfEnded.ends = [] ∧ halfEnded.line 1 = some "a" ∧
    halfEnded.restored = "a" ∧ halfEnded.restored ≠ halfEnded.text := by
  decide

end Source

end ObjectModel
