/-
**Escapes between quotes.**

A text between quotes is made of characters that stand for themselves and of characters behind a
backslash.  Four of the latter have a meaning; every other one is reported and stands for the first
byte of its UTF-8 form, read as a character.  That is the character itself when it is one of ASCII,
and otherwise, with one exception, it is another one.

Main definitions:

* `Token.Part` — a character between quotes, or a backslash with the character behind it;
* `Token.Part.meaning`, `Token.Part.read` — what a part is meant to stand for, and what it is read
  as.

Main results:

* `Token.unknownEscape_eq_self_iff` — the characters that a backslash in front of them leaves as
  they are;
* `Token.scanQuoted_parts` — a text between quotes is read part by part;
* `Source.quoted_text` — **how a string or a quoted symbol of a source is read**.
-/

import ObjectModel.Proofs.Pieces

set_option relaxedAutoImplicit false
set_option autoImplicit false

namespace ObjectModel

namespace Token

/-! ### Characters without a meaning behind a backslash -/

/-- A byte read as a character has the number of the byte. -/
theorem toNat_charOfByte {n : Nat} (h : n < 256) :
    (Char.ofNat (UInt8.ofNat n).toNat).toNat = n := by
  have hn : n.isValidChar := .inl (by omega)
  rw [UInt8.toNat_ofNat', Nat.mod_eq_of_lt h, Char.ofNat, dif_pos hn]
  rfl

/-- A character of ASCII is its own first byte. -/
theorem unknownEscape_of_lt {c : Char} (h : c.toNat < 128) : unknownEscape c = c := by
  have hbytes : String.utf8EncodeChar c = [UInt8.ofNat c.toNat] := by
    rw [String.utf8EncodeChar]
    exact if_pos (Nat.le_of_lt_succ h)
  rw [unknownEscape, hbytes]
  exact Char.toNat_inj.1 (toNat_charOfByte (by omega))

/-- The first byte of another character is at least 192, and is the number of the character in one
case only. -/
theorem toNat_unknownEscape {c : Char} (h : 128 ≤ c.toNat) :
    192 ≤ (unknownEscape c).toNat ∧ ((unknownEscape c).toNat = c.toNat ↔ c.toNat = 195) := by
  have hlead {n : Nat} {bs : List UInt8} (hn : n < 256)
      (hbytes : String.utf8EncodeChar c = UInt8.ofNat n :: bs) : (unknownEscape c).toNat = n := by
    rw [unknownEscape, hbytes]
    exact toNat_charOfByte hn
  have hone : ¬c.toNat ≤ 127 := by omega
  -- of two, three or four bytes, the first one holds the upper bits of the number
  by_cases htwo : c.toNat ≤ 2047
  · rw [hlead (n := c.toNat / 64 % 32 + 192) (by omega)
      (by rw [String.utf8EncodeChar]; exact (if_neg hone).trans (if_pos htwo))]
    omega
  by_cases hthree : c.toNat ≤ 65535
  · rw [hlead (n := c.toNat / 4096 % 16 + 224) (by omega)
      (by rw [String.utf8EncodeChar]
          exact (if_neg hone).trans ((if_neg htwo).trans (if_pos hthree)))]
    omega
  · rw [hlead (n := c.toNat / 262144 % 8 + 240) (by omega)
      (by rw [String.utf8EncodeChar]
          exact (if_neg hone).trans ((if_neg htwo).trans (if_neg hthree)))]
    omega

theorem unknownEscape_eq_newline_iff {c : Char} : unknownEscape c = '\n' ↔ c = '\n' := by
  rcases Nat.lt_or_ge c.toNat 128 with h | h
  · rw [unknownEscape_of_lt h]
  · constructor
    · intro hc
      have hlow := (toNat_unknownEscape h).1
      rw [hc] at hlow
      exact absurd hlow (by decide)
    · rintro rfl
      exact absurd h (by decide)

/-- The characters of ASCII are left as they are, and so is one other, whose first byte happens to
be its number. -/
theorem unknownEscape_eq_self_iff {c : Char} :
    unknownEscape c = c ↔ c.toNat < 128 ∨ c = 'Ã' := by
  rcases Nat.lt_or_ge c.toNat 128 with h | h
  · exact ⟨fun _ => .inl h, fun _ => unknownEscape_of_lt h⟩
  · rw [← Char.toNat_inj, (toNat_unknownEscape h).2, ← Char.toNat_inj]
    exact ⟨.inr, fun hc => hc.resolve_left (Nat.not_lt.2 h)⟩

/-! ### The parts of a quoted text -/

/-- What the problem of a backslash before `c` says, when `c` has no meaning there. -/
def badEscapeMessage (c : Char) : String := "Invalid escape sequence '\\" ++ c.toString ++ "'"

/-- A character between quotes, or a backslash with the character behind it. -/
inductive Part where
  | plain (c : Char)
  | escape (c : Char)
  deriving DecidableEq

namespace Part

/-- The characters of a part. -/
def chars : Part → List Char
  | plain c => [c]
  | escape c => ['\\', c]

/-- Whether a part can stand between quotes on one line: a quote or a backslash needs another
backslash in front of it, and a line feed ends the line. -/
def Fits : Part → Prop
  | plain c => c ≠ '"' ∧ c ≠ '\\' ∧ c ≠ '\n'
  | escape c => c ≠ '\n'

instance : DecidablePred Fits := fun x => by
  cases x <;> unfold Fits <;> infer_instance

/-- The character behind a backslash, when it has no meaning there. -/
def unknown? : Part → Option Char
  | plain _ => none
  | escape c => if escape? c = none then some c else none

/-- What a part is meant to stand for: the four escapes for their characters, and every other
character for itself. -/
def meaning : Part → Char
  | plain c => c
  | escape c => (escape? c).getD c

/-- What a part is read as. -/
def read : Part → Char
  | plain c => c
  | escape c => (escape? c).getD (unknownEscape c)

/-- A part is read as what it is meant to stand for, unless its character has no meaning there and
is read as another one. -/
theorem read_eq_meaning_iff (x : Part) :
    x.read = x.meaning ↔ ∀ c ∈ x.unknown?, unknownEscape c = c := by
  cases x with
  | plain c => simp [read, meaning, unknown?]
  | escape c => cases h : escape? c <;> simp [read, meaning, unknown?, h]

end Part

/-- **A text between quotes is read part by part**, up to the quote that closes it, and its problems
are the characters without a meaning behind backslashes. -/
theorem scanQuoted_parts (start pos : Position) {parts : List Part} (hparts : ∀ x ∈ parts, x.Fits)
    (rest : List Char) :
    ∃ q, scanQuoted start pos (parts.flatMap Part.chars ++ '"' :: rest) = q ∧
      q.text = parts.map Part.read ∧ q.ahead = rest ∧
      q.problems.map (fun p => (p.code, p.message)) = (parts.filterMap Part.unknown?).map
        fun c => (Code.invalidLiteral, badEscapeMessage (unknownEscape c)) := by
  -- one part is one call of `scanQuoted`, which takes one character or two
  induction parts generalizing pos with
  | nil => exact ⟨_, rfl, rfl, rfl, rfl⟩
  | cons x parts ih =>
      have hx := hparts x List.mem_cons_self
      have hparts' := fun y hy => hparts y (List.mem_cons_of_mem x hy)
      rw [List.flatMap_cons, List.append_assoc]
      cases x with
      | plain c =>
          obtain ⟨q, hq, htext, hahead, hproblems⟩ := ih (pos.after c) hparts'
          refine ⟨q.push c, ?_, ?_, hahead, hproblems⟩
          · rw [Part.chars, List.singleton_append, scanQuoted, hq]
            · exact hx.1
            · exact hx.2.2
            · exact fun h _ => hx.2.1 h
            · exact fun _ _ h _ => hx.2.1 h
          · exact congrArg (c :: ·) htext
      | escape c =>
          obtain ⟨q, hq, htext, hahead, hproblems⟩ := ih ((pos.after '\\').after c) hparts'
          refine ⟨q.pushEscape pos ((pos.after '\\').after c) c, ?_, ?_, ?_, ?_⟩
          · rw [Part.chars, List.cons_append, List.singleton_append, scanQuoted, hq]
          · cases h : escape? c <;>
              simp [Quoted.pushEscape, Quoted.push, Quoted.report, Part.read, h, htext]
          · exact (q.ahead_pushEscape ..).trans hahead
          · cases h : escape? c with
            | some d =>
                rw [Quoted.pushEscape, h, List.filterMap_cons_none (by simp [Part.unknown?, h])]
                exact hproblems
            | none =>
                rw [Quoted.pushEscape, h,
                  List.filterMap_cons_some (show (Part.escape c).unknown? = some c by
                    simp [Part.unknown?, h]),
                  List.map_cons, ← hproblems]
                rfl

/-- Behind what opens a quoted text, a step of reading takes that text. -/
theorem scan_of_opens {start : Position} {c : Char} {cs lead ds : List Char}
    {kind : String → TokenKind} (hopens : Opens lead kind) (h : c :: cs = lead ++ ds) :
    scan start c cs = foundQuoted start kind (scanQuoted start (start.afterAll lead) ds) := by
  cases hopens with
  | string =>
      obtain ⟨rfl, rfl⟩ := List.cons.inj h
      rfl
  | symbol =>
      obtain ⟨rfl, rfl⟩ := List.cons.inj h
      rfl

theorem Opens.injective {lead : List Char} {kind : String → TokenKind} (h : Opens lead kind)
    {a b : String} : kind a = kind b ↔ a = b := by
  cases h <;> simp

end Token

/-! ### Quoted texts of a source -/

namespace Source

open Token (Part Piece)

variable {s : Source} {done ahead : List Char} {p : Piece}

theorem TakesAt.mem_tokens (h : s.TakesAt done p ahead) {t : Token} (ht : p.token? = some t) :
    t ∈ s.tokens := by
  obtain ⟨before, after, hpieces, -⟩ := h.pieces
  rw [s.tokens_eq, hpieces]
  exact List.mem_append_left _ (List.mem_filterMap.2 ⟨p, by simp, ht⟩)

theorem TakesAt.problems_infix (h : s.TakesAt done p ahead) :
    p.problems <:+: s.lexicalProblems := by
  obtain ⟨before, after, hpieces, -⟩ := h.pieces
  rw [s.lexicalProblems_eq, hpieces, List.flatMap_append, List.flatMap_cons]
  exact ⟨_, _, by rw [List.append_assoc]⟩

/-- **How a string or a quoted symbol of a source is read.**  Where reading begins with what opens
it, the piece goes up to the quote that closes it, the token has the text that its parts are read
as, and the problems are the characters without a meaning behind backslashes.  All of it is as it is
meant to be exactly when these characters are of ASCII, up to one other that happens to be kept. -/
theorem quoted_text {lead rest : List Char} {kind : String → TokenKind} {parts : List Part}
    (h : s.TakesAt done p ahead) (hopens : Token.Opens lead kind) (hparts : ∀ x ∈ parts, x.Fits)
    (htext : s.text.toList = done ++ (lead ++ (parts.flatMap Part.chars ++ '"' :: rest))) :
    p.chars = lead ++ (parts.flatMap Part.chars ++ ['"']) ∧
    p.problems <:+: s.lexicalProblems ∧
    ∃ t ∈ s.tokens, p.token? = some t ∧
      t.kind = kind (String.ofList (parts.map Part.read)) ∧
      p.problems.map (fun q => (q.code, q.message)) = (parts.filterMap Part.unknown?).map
        (fun c => (.invalidLiteral, Token.badEscapeMessage (Token.unknownEscape c))) ∧
      (t.kind = kind (String.ofList (parts.map Part.meaning)) ∧
          p.problems.map (fun q => (q.code, q.message)) = (parts.filterMap Part.unknown?).map
            (fun c => (.invalidLiteral, Token.badEscapeMessage c)) ↔
        ∀ c ∈ parts.filterMap Part.unknown?, c.toNat < 128 ∨ c = 'Ã') := by
  have hcs : p.first :: (p.others ++ ahead) =
      lead ++ (parts.flatMap Part.chars ++ '"' :: rest) :=
    List.append_cancel_left (h.text.symm.trans htext)
  obtain ⟨q, hq, hqtext, hqahead, hqproblems⟩ :=
    Token.scanQuoted_parts (.behind done) ((Position.behind done).afterAll lead) hparts rest
  have hscan := h.scan_eq.1
  rw [Token.scan_of_opens hopens hcs, hq] at hscan
  obtain ⟨htoken, hproblems, -, hahead⟩ := Token.Scan.mk.inj hscan
  have hahead : ahead = rest := hahead.symm.trans hqahead
  have hread : p.problems.map (fun q => (q.code, q.message)) = (parts.filterMap Part.unknown?).map
      (fun c => (.invalidLiteral, Token.badEscapeMessage (Token.unknownEscape c))) :=
    hproblems ▸ hqproblems
  have hmeant : parts.map Part.read = parts.map Part.meaning ↔
      ∀ c ∈ parts.filterMap Part.unknown?, c.toNat < 128 ∨ c = 'Ã' := by
    simp only [List.map_inj_left, Part.read_eq_meaning_iff, List.mem_filterMap,
      ← Token.unknownEscape_eq_self_iff]
    exact ⟨fun h c ⟨x, hx, hc⟩ => h x hx c hc, fun h x hx c hc => h c ⟨x, hx, hc⟩⟩
  refine ⟨?_, h.problems_infix, _, h.mem_tokens htoken.symm, htoken.symm, by rw [hqtext], hread, ?_⟩
  · rw [hahead, ← List.cons_append] at hcs
    have hchars : p.chars ++ rest = (lead ++ (parts.flatMap Part.chars ++ ['"'])) ++ rest := by
      rw [Piece.chars, hcs]
      simp
    exact List.append_cancel_right hchars
  · rw [hopens.injective, String.ofList_inj, hqtext, hmeant, hread]
    refine ⟨And.left, fun hc => ⟨hc, List.map_congr_left fun c hmem => ?_⟩⟩
    rw [Token.unknownEscape_eq_self_iff.2 (hc c hmem)]

/-- A quoted symbol with a character that has no meaning behind a backslash, and with one that
has. -/
def escaping : Source := ⟨"escaping.mlir", " @\"a\\qé\\n\""⟩

/-- The symbol is read as it is meant to be, and the character without a meaning is reported. -/
theorem quoted_text_escaping : ∃ p, escaping.TakesAt [' '] p [] ∧
    p.chars = ['@', '"', 'a', '\\', 'q', 'é', '\\', 'n', '"'] ∧
    ∃ t ∈ escaping.tokens, p.token? = some t ∧ t.kind = .symbol "aqé\n" ∧
      p.problems.map (fun q => (q.code, q.message)) =
        [(.invalidLiteral, "Invalid escape sequence '\\q'")] := by
  have hpieces : escaping.cut.pieces = [⟨[' '], '@', ['"', 'a', '\\', 'q', 'é', '\\', 'n', '"'],
      some ⟨.symbol "aqé\n", ⟨⟨1, 2⟩, ⟨1, 10⟩⟩⟩, [Token.badEscape ⟨1, 5⟩ ⟨1, 7⟩ 'q']⟩] := by
    decide +kernel
  have htakes : escaping.TakesAt [' '] _ [] := ⟨⟨[], [], hpieces, rfl⟩, by decide +kernel⟩
  have hparts : ∀ x ∈ [Part.plain 'a', .escape 'q', .plain 'é', .escape 'n'], x.Fits := by decide
  have htext : escaping.text.toList = [' '] ++ (['@', '"'] ++
      ([Part.plain 'a', .escape 'q', .plain 'é', .escape 'n'].flatMap Part.chars ++
        '"' :: [])) := by
    decide +kernel
  obtain ⟨hchars, -, t, ht, htoken, -, -, hmeant⟩ := quoted_text htakes .symbol hparts htext
  obtain ⟨hkind, hproblems⟩ := hmeant.2 (by simp [Part.unknown?, Token.escape?])
  exact ⟨_, htakes, hchars, t, ht, htoken, hkind, hproblems⟩

/-- A string with a character behind a backslash that is not one of ASCII. -/
def accented : Source := ⟨"accented.mlir", "\"\\é\""⟩

/-- That character is not kept: the string is read as another one, and the problem names it. -/
theorem accented_not_kept :
    accented.text.toList = '"' :: ([Part.escape 'é'].flatMap Part.chars ++ ['"']) ∧
      accented.tokens.map Token.kind = [.string "Ã", .eof] ∧
      accented.lexicalProblems.map Problem.message = ["Invalid escape sequence '\\Ã'"] ∧
      ¬∃ t ∈ accented.tokens,
        t.kind = .string (String.ofList ([Part.escape 'é'].map Part.meaning)) := by
  decide +kernel

end Source

end ObjectModel
