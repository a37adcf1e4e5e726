/-
**Tokens and their spelling.**

Every token can be written down so that it is read again: a name behind its sign, a word as it is, a
symbol or a string between quotes with its escapes, a number in decimal digits.  Written one after
the other, with blanks between them where they would run together, tokens are read again one after
the other.

Main definitions:

* `TokenKind.spelling` — how a token is written;
* `TokenKind.spellable` — whether a token can be written at all;
* `TokenKind.mayPrecede` — whether a character may stand right behind a token;
* `Token.Scans` — characters are read as a list of tokens;
* `Token.Spells` — a text spells a list of tokens;
* `Token.spellAll` — one text that does;
* `Token.SetsApart` — a text that spells tokens with a gap between neighbours.

Main results:

* `Decimal.int64?_toString` — a signed word is read as what it was;
* `Token.scanQuoted_escaped` — a quoted text is read as what was quoted;
* `Token.isScanned_spelling` — a token that is spelled is read, and nothing behind it;
* `Token.scanAll_of_spells` — a text that spells tokens is read as these tokens;
* `Token.spells_spellAll` — tokens that can be written have a text;
* `Source.tokens_of_setsApart` — **tokens that are set apart are read as they were written**.
-/

import Mathlib.Data.List.Basic
import ObjectModel.Token.Lexer

set_option relaxedAutoImplicit false
set_option autoImplicit false

namespace ObjectModel

/-! ### Numbers -/

namespace Decimal

theorem ofDigits_toDigits (n : Nat) : ofDigits (Nat.toDigits 10 n) = n :=
  Nat.ofDigitChars_toDigits (by decide) (by decide)

theorem all_isDigit_toDigits (n : Nat) : (Nat.toDigits 10 n).all Char.isDigit = true :=
  List.all_eq_true.2 fun _ h => Nat.isDigit_of_mem_toDigits (by decide) (by decide) h

theorem natural?_toDigits (n : Nat) : natural? (Nat.toDigits 10 n) = some n := by
  rw [natural?, if_pos ⟨Nat.toDigits_ne_nil, all_isDigit_toDigits n⟩, ofDigits_toDigits]

/-- A whole number is written as digits, of which there is at least one, with a minus sign before
them or without. -/
theorem toList_toString (n : Int) : ∃ d ds, (d :: ds).all Char.isDigit = true ∧
    ((toString n).toList = d :: ds ∨ (toString n).toList = '-' :: d :: ds) := by
  have hdigits : ∀ m : Nat, ∃ d ds, Nat.toDigits 10 m = d :: ds ∧
      (d :: ds).all Char.isDigit = true := by
    intro m
    obtain ⟨d, ds, hds⟩ := List.exists_cons_of_ne_nil (Nat.toDigits_ne_nil (n := m) (b := 10))
    exact ⟨d, ds, hds, hds ▸ all_isDigit_toDigits m⟩
  rw [Int.toString_eq_repr]
  cases n with
  | ofNat m =>
      obtain ⟨d, ds, hds, hall⟩ := hdigits m
      exact ⟨d, ds, hall, .inl (by simp [Int.repr, Nat.repr_eq_ofList_toDigits, hds])⟩
  | negSucc m =>
      obtain ⟨d, ds, hds, hall⟩ := hdigits m.succ
      exact ⟨d, ds, hall, .inr (by
        simp only [Int.repr, Nat.repr_eq_ofList_toDigits, String.toList_append,
          String.toList_ofList, hds]
        rfl)⟩

/-- A whole number is read as what it was. -/
theorem signed?_toString (n : Int) : signed? (toString n).toList = some n := by
  rw [Int.toString_eq_repr]
  cases n with
  | ofNat m =>
      have hnot : ∀ c cs, Nat.toDigits 10 m = c :: cs → c ≠ '-' ∧ c ≠ '+' := by
        intro c cs h
        have hc : c.isDigit = true :=
          List.all_eq_true.1 (all_isDigit_toDigits m) c (by rw [h]; exact List.mem_cons_self)
        constructor <;> (rintro rfl; exact absurd hc (by decide))
      simp only [Int.repr, Nat.repr_eq_ofList_toDigits, String.toList_ofList]
      unfold signed?
      split
      · next h => exact absurd rfl (hnot _ _ h).1
      · next h => exact absurd rfl (hnot _ _ h).2
      · rw [natural?_toDigits]
        rfl
  | negSucc m =>
      simp only [Int.repr, Nat.repr_eq_ofList_toDigits, String.toList_append, String.toList_ofList]
      change (natural? (Nat.toDigits 10 m.succ)).map _ = _
      rw [natural?_toDigits]
      rfl

/-- A signed word is read as what it was. -/
theorem int64?_toString (n : Int64) : int64? (toString n.toInt) = some n :=
  int64?_eq_some_iff.2 (signed?_toString n.toInt)

end Decimal

namespace Token

/-! ### Strings -/

/-- How a character of a string is written between quotes. -/
def escaped (c : Char) : List Char :=
  if c = '"' then ['\\', '"']
  else if c = '\\' then ['\\', '\\']
  else if c = '\n' then ['\\', 'n']
  else if c = '\t' then ['\\', 't']
  else [c]

/-- A string between quotes. -/
def quoted (s : String) : List Char := '"' :: (s.toList.flatMap escaped ++ ['"'])

/-- A character is escaped, or it stands for itself. -/
theorem escaped_cases (c : Char) : (∃ d, escaped c = ['\\', d] ∧ escape? d = some c) ∨
    (escaped c = [c] ∧ c ≠ '"' ∧ c ≠ '\n' ∧ c ≠ '\\') := by
  unfold escaped
  split
  · next h => exact .inl ⟨'"', rfl, by rw [h]; rfl⟩
  split
  · next h => exact .inl ⟨'\\', rfl, by rw [h]; rfl⟩
  split
  · next h => exact .inl ⟨'n', rfl, by rw [h]; rfl⟩
  split
  · next h => exact .inl ⟨'t', rfl, by rw [h]; rfl⟩
  next hquote hslash hfeed htab => exact .inr ⟨rfl, hquote, hfeed, hslash⟩

/-- A quoted text is read as what was quoted, up to its closing quote. -/
theorem scanQuoted_escaped (start pos : Position) (cs rest : List Char) :
    ∃ next, scanQuoted start pos (cs.flatMap escaped ++ '"' :: rest) = ⟨cs, [], next, rest⟩ := by
  induction cs generalizing pos with
  | nil => exact ⟨_, rfl⟩
  | cons c cs ih =>
      rw [List.flatMap_cons, List.append_assoc]
      obtain ⟨d, hd, hc⟩ | ⟨hc, hquote, hfeed, hslash⟩ := escaped_cases c
      · obtain ⟨next, hnext⟩ := ih ((pos.after '\\').after d)
        refine ⟨next, ?_⟩
        rw [hd, List.cons_append, List.singleton_append, scanQuoted, hnext, Quoted.pushEscape, hc]
        rfl
      · obtain ⟨next, hnext⟩ := ih (pos.after c)
        refine ⟨next, ?_⟩
        rw [hc, List.singleton_append, scanQuoted, hnext]
        · rfl
        · exact hquote
        · exact hfeed
        · exact fun h _ => hslash h
        · exact fun _ _ h _ => hslash h

end Token

/-! ### The spelling of tokens -/

namespace TokenKind

/-- How a token is written.  Symbols stand between quotes, as strings do, and the end of the text is
not written. -/
def spelling : TokenKind → List Char
  | string s => Token.quoted s
  | symbol s => '@' :: Token.quoted s
  | newline => ['\n']
  | eof => []
  | k => k.text.toList

/-- Whether a token can be written: a name has characters, and they are those of names, and a word
begins as words do. -/
def spellable : TokenKind → Bool
  | value n | attrName n | typeName n => n != "" && n.toList.all Token.isNameChar
  | word n =>
      match n.toList with
      | c :: cs => Token.isWordStart c && cs.all Token.isNameChar
      | [] => false
  | eof => false
  | _ => true

@[simp] theorem spellable_integer (n : Int64) : (integer n).spellable = true := rfl

@[simp] theorem spellable_string (s : String) : (string s).spellable = true := rfl

@[simp] theorem spellable_symbol (s : String) : (symbol s).spellable = true := rfl

/-- Whether a character may stand right behind a token: one that would belong to the token may
not. -/
def mayPrecede : TokenKind → Char → Bool
  | value _, c | attrName _, c | typeName _, c | word _, c => !Token.isNameChar c
  | integer _, c => !c.isDigit
  | colon, c => c != ':'
  | _, _ => true

/-- A blank and the end of a line may stand behind every token. -/
theorem mayPrecede_gap (k : TokenKind) {c : Char} (hc : c = ' ' ∨ c = '\t' ∨ c = '\n') :
    k.mayPrecede c = true := by
  rcases hc with rfl | rfl | rfl <;> cases k <;> rfl

end TokenKind

namespace Token

/-- Blanks that are dropped between tokens. -/
def isBlank (c : Char) : Bool := c == ' ' || c == '\t' || c == '\r'

/-- Written before `rest`, the characters `cs` are read as the token `k` and nothing more. -/
def IsScanned (k : TokenKind) (cs rest : List Char) : Prop :=
  ∃ c ds, cs = c :: ds ∧ isBlank c = false ∧ c ≠ '/' ∧
    ∀ start, ∃ next, scan start c (ds ++ rest) = found start next k rest

/-- A run of characters ends where one comes that does not belong to it. -/
theorem takeWhile_dropWhile_append {p : Char → Bool} {cs rest : List Char}
    (hcs : cs.all p = true) (hrest : ∀ c ∈ rest.head?, p c = false) :
    (cs ++ rest).takeWhile p = cs ∧ (cs ++ rest).dropWhile p = rest := by
  have hall := List.all_eq_true.1 hcs
  rw [List.takeWhile_append_of_pos hall, List.dropWhile_append_of_pos hall]
  cases rest with
  | nil => simp
  | cons c rest =>
      have hc := hrest c (by simp)
      simp [hc]

section Scanned

variable {rest : List Char}

/-- A name behind its sign. -/
theorem isScanned_name {sigil : Char} {kind : String → TokenKind} {name : String}
    (hsigil : sigil? sigil = some kind) (hname : name ≠ "")
    (hall : name.toList.all isNameChar = true) (hrest : ∀ c ∈ rest.head?, isNameChar c = false) :
    IsScanned (kind name) (sigil :: name.toList) rest := by
  -- behind the sign of symbols there may be a quote, which no name begins with
  have hscan : isBlank sigil = false ∧ sigil ≠ '/' ∧ ∀ start c cs, isNameChar c = true →
      scan start sigil (c :: cs) = scanName start (start.after sigil) sigil kind (c :: cs) := by
    unfold sigil? at hsigil
    split at hsigil
    · cases hsigil; exact ⟨rfl, by decide, fun _ _ _ _ => rfl⟩
    · cases hsigil
      refine ⟨rfl, by decide, fun start c cs hc => ?_⟩
      have hquote : c ≠ '"' := by rintro rfl; cases hc
      unfold scan
      simp [hquote, isWordStart, sigil?]
    · cases hsigil; exact ⟨rfl, by decide, fun _ _ _ _ => rfl⟩
    · cases hsigil; exact ⟨rfl, by decide, fun _ _ _ _ => rfl⟩
    · cases hsigil
  obtain ⟨hblank, hslash, hscan⟩ := hscan
  obtain ⟨htake, hdrop⟩ := takeWhile_dropWhile_append hall hrest
  have hne : name.toList ≠ [] := fun h => hname (String.toList_eq_nil_iff.1 h)
  refine ⟨sigil, _, rfl, hblank, hslash, fun start =>
    ⟨(start.after sigil).afterAll name.toList, ?_⟩⟩
  obtain ⟨c, cs, hcs⟩ := List.exists_cons_of_ne_nil hne
  have hc : isNameChar c = true := List.all_eq_true.1 hall c (by rw [hcs]; exact List.mem_cons_self)
  have hfirst : name.toList ++ rest = c :: (cs ++ rest) := by rw [hcs, List.cons_append]
  rw [hfirst, hscan _ _ _ hc, ← hfirst, scanName, htake, if_neg hne, hdrop, String.ofList_toList]

/-- A letter is no digit: all letters stand behind the digits. -/
theorem isDigit_eq_false_of_isAlpha {c : Char} (h : c.isAlpha = true) : c.isDigit = false := by
  have hpos : 'A'.val ≤ c.val := by
    obtain hupper | hlower := Bool.or_eq_true_iff.1 h
    · exact (of_decide_eq_true hupper).1
    · exact UInt32.le_trans (by decide) (of_decide_eq_true (Bool.and_eq_true_iff.1 hlower).1)
  have hnot : ¬c.val ≤ '9'.val := fun hle => absurd (UInt32.le_trans hpos hle) (by decide)
  change (decide (c.val ≥ '0'.val) && decide (c.val ≤ '9'.val)) = false
  rw [decide_eq_false hnot, Bool.and_false]

/-- A word. -/
theorem isScanned_word {name : String} {c : Char} {cs : List Char} (hname : name.toList = c :: cs)
    (hc : isWordStart c = true) (hall : cs.all isNameChar = true)
    (hrest : ∀ c ∈ rest.head?, isNameChar c = false) :
    IsScanned (.word name) name.toList rest := by
  have hnot : ∀ d, isWordStart d = false → c ≠ d := by
    rintro d hd rfl
    rw [hc] at hd
    cases hd
  have hdigit : c.isDigit = false := by
    rw [isWordStart, Bool.or_eq_true, beq_iff_eq] at hc
    rcases hc with hc | rfl
    · exact isDigit_eq_false_of_isAlpha hc
    · rfl
  obtain ⟨htake, hdrop⟩ := takeWhile_dropWhile_append hall hrest
  have hblank : isBlank c = false := by
    simp [isBlank, hnot ' ' rfl, hnot '\t' rfl, hnot '\r' rfl]
  refine ⟨c, cs, hname, hblank, hnot '/' rfl, fun start =>
    ⟨(start.after c).afterAll cs, ?_⟩⟩
  unfold scan
  rw [if_neg (hnot _ rfl), if_neg (hnot _ rfl), if_neg (by simp [hdigit]),
    if_neg (hnot _ rfl), if_neg (hnot _ rfl), if_pos hc, htake, hdrop]
  dsimp only
  rw [← hname, String.ofList_toList]

/-- A whole number. -/
theorem isScanned_integer (n : Int64) (hrest : ∀ c ∈ rest.head?, c.isDigit = false) :
    IsScanned (.integer n) (toString n.toInt).toList rest := by
  obtain ⟨d, ds, hall, htext⟩ := Decimal.toList_toString n.toInt
  have hint : ∀ start pos lead cs, (toString n.toInt).toList = lead ++ cs →
      cs.all Char.isDigit = true →
      ∃ next, scanInteger start pos lead (cs ++ rest) = found start next (.integer n) rest := by
    intro start pos lead cs hcs hall
    obtain ⟨htake, hdrop⟩ := takeWhile_dropWhile_append hall hrest
    refine ⟨pos.afterAll cs, ?_⟩
    rw [scanInteger, htake, hdrop, ← hcs, String.ofList_toList, Decimal.int64?_toString]
  rw [List.all_cons, Bool.and_eq_true] at hall
  have hnot : ∀ c, c.isDigit = false → d ≠ c := by
    rintro c hc rfl
    rw [hall.1] at hc
    cases hc
  obtain htext | htext := htext
  · have hblank : isBlank d = false := by
      simp [isBlank, hnot ' ' rfl, hnot '\t' rfl, hnot '\r' rfl]
    refine ⟨d, ds, htext, hblank, hnot '/' rfl, fun start => ?_⟩
    unfold scan
    rw [if_neg (hnot _ rfl), if_neg (hnot _ rfl), if_pos hall.1]
    exact hint start _ [d] ds htext hall.2
  · refine ⟨'-', d :: ds, htext, rfl, by decide, fun start => ?_⟩
    have hscan : scan start '-' (d :: ds ++ rest) =
        scanInteger start (start.after '-') ['-'] (d :: ds ++ rest) := by
      unfold scan
      rw [if_neg (by decide), if_neg (by decide), if_neg (by decide), if_pos rfl]
      rw [List.cons_append]
      split
      · next h => exact absurd (List.cons.inj h).1 (hnot '>' rfl)
      · next h =>
          obtain ⟨rfl, -⟩ := List.cons.inj h
          rw [if_pos hall.1]
      · next h => cases h
    rw [hscan]
    exact hint start _ ['-'] (d :: ds) htext (by rw [List.all_cons, hall.1, hall.2]; rfl)

/-- A string. -/
theorem isScanned_string (s : String) : IsScanned (.string s) (quoted s) rest := by
  refine ⟨'"', _, rfl, rfl, by decide, fun start => ?_⟩
  obtain ⟨next, hnext⟩ := scanQuoted_escaped start (start.after '"') s.toList rest
  refine ⟨next, ?_⟩
  change foundQuoted start .string (scanQuoted start (start.after '"') _) = _
  rw [List.append_assoc, List.singleton_append, hnext, foundQuoted, String.ofList_toList]
  rfl

/-- A symbol, which stands between quotes. -/
theorem isScanned_symbol (s : String) : IsScanned (.symbol s) ('@' :: quoted s) rest := by
  refine ⟨'@', _, rfl, rfl, by decide, fun start => ?_⟩
  obtain ⟨next, hnext⟩ :=
    scanQuoted_escaped start ((start.after '@').after '"') s.toList rest
  refine ⟨next, ?_⟩
  change foundQuoted start .symbol (scanQuoted start ((start.after '@').after '"')
    (s.toList.flatMap escaped ++ ['"'] ++ rest)) = _
  rw [List.append_assoc, List.singleton_append, hnext, foundQuoted, String.ofList_toList]
  rfl

/-- A colon, when no other one stands behind it. -/
theorem isScanned_colon (hrest : ∀ c ∈ rest.head?, c ≠ ':') : IsScanned .colon [':'] rest := by
  refine ⟨':', [], rfl, rfl, by decide, fun start => ⟨start.after ':', ?_⟩⟩
  rw [List.nil_append]
  unfold scan
  rw [if_neg (by decide), if_neg (by decide), if_neg (by decide), if_neg (by decide), if_pos rfl]
  split
  · next ds => exact absurd rfl (hrest ':' rfl)
  · rfl

/-- A sign on its own. -/
theorem isScanned_punctuation {c : Char} {k : TokenKind} (hc : punctuation? c = some k) :
    IsScanned k [c] rest := by
  unfold punctuation? at hc
  split at hc
  case h_11 => cases hc
  all_goals
    cases hc
    exact ⟨_, [], rfl, rfl, by decide, fun start => ⟨_, rfl⟩⟩

end Scanned

/-- A token that is spelled is read, and nothing behind it. -/
theorem isScanned_spelling {k : TokenKind} {rest : List Char} (hk : k.spellable = true)
    (hrest : ∀ c ∈ rest.head?, k.mayPrecede c = true) : IsScanned k k.spelling rest := by
  have hname : ∀ (sigil : Char) (sign : String) (kind : String → TokenKind) (name : String),
      sigil? sigil = some kind → sign.toList = [sigil] →
        (name != "" && name.toList.all isNameChar) = true →
          (∀ c ∈ rest.head?, (!isNameChar c) = true) →
            IsScanned (kind name) (sign ++ name).toList rest := by
    intro sigil sign kind name hsigil hsign hname hrest
    rw [Bool.and_eq_true, bne_iff_ne] at hname
    rw [String.toList_append, hsign]
    exact isScanned_name hsigil hname.1 hname.2 fun c hc =>
      Bool.not_eq_true' _ ▸ hrest c hc
  cases k with
  | integer n => exact isScanned_integer n fun c hc => Bool.not_eq_true' _ ▸ hrest c hc
  | string s => exact isScanned_string s
  | symbol s => exact isScanned_symbol s
  | value n => exact hname '%' "%" .value n rfl rfl hk hrest
  | attrName n => exact hname '#' "#" .attrName n rfl rfl hk hrest
  | typeName n => exact hname '!' "!" .typeName n rfl rfl hk hrest
  | word n =>
      rw [TokenKind.spellable] at hk
      split at hk
      · next c cs hn =>
          rw [Bool.and_eq_true] at hk
          exact isScanned_word hn hk.1 hk.2 fun c hc => Bool.not_eq_true' _ ▸ hrest c hc
      · cases hk
  | newline => exact ⟨'\n', [], rfl, rfl, by decide, fun start => ⟨_, rfl⟩⟩
  | colon => exact isScanned_colon fun c hc => bne_iff_ne.1 (hrest c hc)
  | doubleColon => exact ⟨':', [':'], rfl, rfl, by decide, fun start => ⟨_, rfl⟩⟩
  | arrow => exact ⟨'-', ['>'], rfl, rfl, by decide, fun start => ⟨_, rfl⟩⟩
  | eof => cases hk
  | leftParen => exact isScanned_punctuation rfl
  | rightParen => exact isScanned_punctuation rfl
  | leftBrace => exact isScanned_punctuation rfl
  | rightBrace => exact isScanned_punctuation rfl
  | leftBracket => exact isScanned_punctuation rfl
  | rightBracket => exact isScanned_punctuation rfl
  | less => exact isScanned_punctuation rfl
  | greater => exact isScanned_punctuation rfl
  | comma => exact isScanned_punctuation rfl
  | equals => exact isScanned_punctuation rfl

/-! ### The spelling of texts -/

/-- The text spells the tokens: they stand one after the other, with any number of blanks before
each of them and behind the last, and no character stands right behind a token to which it would
belong. -/
inductive Spells : List TokenKind → List Char → Prop where
  | nil {blanks : List Char} (hblanks : blanks.all isBlank = true) : Spells [] blanks
  | cons {k : TokenKind} {ks : List TokenKind} {blanks rest : List Char}
      (hblanks : blanks.all isBlank = true) (hrest : ∀ c ∈ rest.head?, k.mayPrecede c = true)
      (h : Spells ks rest) : Spells (k :: ks) (blanks ++ k.spelling ++ rest)

theorem skipBlanks_append {blanks : List Char} (h : blanks.all isBlank = true) (pos : Position)
    (cs : List Char) : skipBlanks pos (blanks ++ cs) = skipBlanks (pos.afterAll blanks) cs := by
  induction blanks generalizing pos with
  | nil => rfl
  | cons b blanks ih =>
      rw [List.all_cons, Bool.and_eq_true] at h
      have hb : b = ' ' ∨ b = '\t' ∨ b = '\r' := by
        simpa [isBlank, or_assoc] using h.1
      rw [List.cons_append, skipBlanks, if_pos hb, ih h.2]
      rfl

theorem skipBlanks_cons {c : Char} (hblank : isBlank c = false) (hslash : c ≠ '/')
    (pos : Position) (cs : List Char) : skipBlanks pos (c :: cs) = (pos, c :: cs) := by
  have hb : ¬(c = ' ' ∨ c = '\t' ∨ c = '\r') := by
    simpa [isBlank, not_or, and_assoc] using hblank
  rw [skipBlanks, if_neg hb, if_neg fun h => hslash h.1]

theorem scanAll_of_skipBlanks_nil {seen : Nat} {pos : Position} {cs : List Char}
    (h : (skipBlanks pos cs).2 = []) :
    scanAll seen pos cs = ([⟨.eof, .point (skipBlanks pos cs).1⟩], []) := by
  rw [scanAll]
  split
  · rfl
  · next heq =>
      rw [h] at heq
      cases heq

theorem scanAll_of_skipBlanks_full {seen : Nat} {pos here : Position} {cs rest : List Char}
    {c : Char} (hfull : Report.maxErrors ≤ seen) (h : skipBlanks pos cs = (here, c :: rest)) :
    scanAll seen pos cs = ([⟨.eof, .point here⟩], []) := by
  rw [scanAll]
  split
  · rw [h]
  · rw [if_pos hfull, h]

theorem scanAll_of_skipBlanks_cons {seen : Nat} {pos here : Position} {cs rest : List Char}
    {c : Char} (hroom : seen < Report.maxErrors) (h : skipBlanks pos cs = (here, c :: rest)) :
    scanAll seen pos cs =
      ((scan here c rest).token?.toList ++
          (scanAll (seen + (scan here c rest).problems.length) (scan here c rest).pos
            (scan here c rest).ahead).1,
        (scan here c rest).problems ++
          (scanAll (seen + (scan here c rest).problems.length) (scan here c rest).pos
            (scan here c rest).ahead).2) := by
  rw [scanAll]
  split
  · next heq =>
      rw [h] at heq
      cases heq
  · next c' rest' heq =>
      rw [h] at heq
      cases heq
      simp [h, Nat.not_le.2 hroom]

/-- The characters are read as the tokens, without a problem, and the end of the text stands behind
them. -/
def Scans (ks : List TokenKind) (cs : List Char) : Prop :=
  ∀ pos, ∃ ts, scanAll 0 pos cs = (ts, []) ∧ ts.map kind = ks ++ [.eof]

theorem scans_nil : Scans [] [] := fun _ => ⟨_, scanAll_of_skipBlanks_nil rfl, rfl⟩

/-- Blanks may stand in front of what is read as tokens. -/
theorem Scans.behind {ks : List TokenKind} {blanks cs : List Char}
    (hblanks : blanks.all isBlank = true) (h : Scans ks cs) : Scans ks (blanks ++ cs) := by
  intro pos
  have hsame : scanAll 0 pos (blanks ++ cs) = scanAll 0 (pos.afterAll blanks) cs := by
    have hskip := skipBlanks_append hblanks pos cs
    cases hcs : (skipBlanks (pos.afterAll blanks) cs).2 with
    | nil =>
        rw [scanAll_of_skipBlanks_nil hcs, scanAll_of_skipBlanks_nil (hskip ▸ hcs), hskip]
    | cons c rest =>
        have hcs : skipBlanks (pos.afterAll blanks) cs =
            ((skipBlanks (pos.afterAll blanks) cs).1, c :: rest) := Prod.ext rfl hcs
        rw [scanAll_of_skipBlanks_cons (by decide) hcs,
          scanAll_of_skipBlanks_cons (by decide) (hskip.trans hcs)]
  rw [hsame]
  exact h _

/-- A token is read in front of what is read as tokens. -/
theorem Scans.cons {k : TokenKind} {ks : List TokenKind} {cs rest : List Char}
    (hk : IsScanned k cs rest) (h : Scans ks rest) : Scans (k :: ks) (cs ++ rest) := by
  intro pos
  obtain ⟨c, ds, rfl, hblank, hslash, hscan⟩ := hk
  obtain ⟨next, hnext⟩ := hscan pos
  obtain ⟨ts, hts, hkinds⟩ := h next
  refine ⟨⟨k, .upTo pos next⟩ :: ts, ?_, by rw [List.map_cons, hkinds]; rfl⟩
  rw [List.cons_append, scanAll_of_skipBlanks_cons (by decide) (skipBlanks_cons hblank hslash _ _),
    hnext]
  simp [found, hts]

/-- **A text that spells tokens is read as these tokens**, without a problem, and the end of the
text stands behind them. -/
theorem scanAll_of_spells {ks : List TokenKind} {cs : List Char} (h : Spells ks cs)
    (hks : ∀ k ∈ ks, k.spellable = true) : Scans ks cs := by
  induction h with
  | @nil blanks hblanks =>
      rw [← List.append_nil blanks]
      exact scans_nil.behind hblanks
  | @cons k ks blanks rest hblanks hrest h ih =>
      rw [List.append_assoc]
      have hlater := ih fun k' hk' => hks k' (List.mem_cons_of_mem _ hk')
      exact (hlater.cons (isScanned_spelling (hks k List.mem_cons_self) hrest)).behind hblanks

/-- One text that spells tokens: a blank before each of them, except at the ends of lines. -/
def spellAll : List TokenKind → List Char
  | [] => []
  | k :: ks => (if k = .newline then [] else [' ']) ++ k.spelling ++ spellAll ks

/-- Tokens have a text that spells them. -/
theorem spells_spellAll (ks : List TokenKind) : Spells ks (spellAll ks) := by
  induction ks with
  | nil => exact .nil rfl
  | cons k ks ih =>
      refine .cons (by split <;> rfl) (fun c hc => ?_) ih
      have hc : c = ' ' ∨ c = '\n' := by
        cases ks with
        | nil => cases hc
        | cons l ks =>
            by_cases hl : l = .newline
            · right
              simpa [spellAll, hl, TokenKind.spelling, eq_comm] using hc
            · left
              simpa [spellAll, hl, eq_comm] using hc
      exact k.mayPrecede_gap (hc.imp_right .inr)

/-! ### Tokens set apart -/

/-- What sets two tokens apart: one space or tab, or several. -/
def IsGap (gap : List Char) : Prop := gap ≠ [] ∧ ∀ c ∈ gap, c = ' ' ∨ c = '\t'

/-- The text is the tokens one after the other, each as it is spelled, with a gap between
neighbours. -/
inductive SetsApart : List TokenKind → List Char → Prop where
  | nil : SetsApart [] []
  | single (k : TokenKind) : SetsApart [k] k.spelling
  | cons (k : TokenKind) {l : TokenKind} {ks : List TokenKind} {gap rest : List Char}
      (hgap : IsGap gap) (h : SetsApart (l :: ks) rest) :
      SetsApart (k :: l :: ks) (k.spelling ++ (gap ++ rest))

/-- Blanks may stand in front of a text that spells tokens. -/
theorem Spells.behind {ks : List TokenKind} {gap cs : List Char} (hgap : gap.all isBlank = true)
    (h : Spells ks cs) : Spells ks (gap ++ cs) := by
  cases h with
  | nil hblanks => exact .nil (by rw [List.all_append, hgap, hblanks]; rfl)
  | @cons k ks blanks rest hblanks hrest h =>
      rw [List.append_assoc, ← List.append_assoc, ← List.append_assoc]
      exact .cons (by rw [List.all_append, hgap, hblanks]; rfl) hrest h

theorem IsGap.all_isBlank {gap : List Char} (h : IsGap gap) : gap.all isBlank = true := by
  refine List.all_eq_true.2 fun c hc => ?_
  rcases h.2 c hc with rfl | rfl <;> rfl

/-- Tokens that are set apart do not run together. -/
theorem SetsApart.spells {ks : List TokenKind} {cs : List Char} (h : SetsApart ks cs) :
    Spells ks cs := by
  induction h with
  | nil => exact .nil rfl
  | single k =>
      have h : Spells [k] ([] ++ k.spelling ++ []) := .cons rfl (by simp) (.nil rfl)
      rwa [List.nil_append, List.append_nil] at h
  | @cons k l ks gap rest hgap h ih =>
      change Spells (k :: l :: ks) ([] ++ k.spelling ++ (gap ++ rest))
      refine .cons rfl (fun c hc => ?_) (ih.behind hgap.all_isBlank)
      obtain ⟨d, gap', rfl⟩ := List.exists_cons_of_ne_nil hgap.1
      obtain rfl : d = c := Option.some.inj hc
      exact k.mayPrecede_gap ((hgap.2 d List.mem_cons_self).imp_right .inl)

end Token

/-- **Tokens that are set apart are read as they were written**, without a problem, and the end of
the text stands behind them. -/
theorem Source.tokens_of_setsApart {s : Source} {ks : List TokenKind}
    (h : Token.SetsApart ks s.text.toList) (hks : ∀ k ∈ ks, k.spellable = true) :
    s.tokens.map Token.kind = ks ++ [.eof] ∧ s.lexicalProblems = [] := by
  obtain ⟨ts, hts, hkinds⟩ := Token.scanAll_of_spells h.spells hks .origin
  rw [Source.tokens, Source.lexicalProblems, hts]
  exact ⟨hkinds, rfl⟩

/-- Tokens that would be read as others without the gaps, and a string with all escapes. -/
def Source.assortment : Source where
  name := "assortment.mlir"
  text := "-9223372036854775808 7\t: ::  om.class @\"two words\" \n \"a\\\"\\\\\\n\\té\""

/-- The tokens are read one by one, the least number and the escaped characters among them. -/
theorem Source.tokens_of_assortment :
    Source.assortment.tokens.map Token.kind =
        [.integer Int64.minValue, .integer 7, .colon, .doubleColon, .word "om.class",
          .symbol "two words", .newline, .string "a\"\\\n\té", .eof] ∧
      Source.assortment.lexicalProblems = [] := by
  have htext : Source.assortment.text.toList =
      (TokenKind.integer Int64.minValue).spelling ++ ([' '] ++
        ((TokenKind.integer 7).spelling ++ (['\t'] ++ (TokenKind.colon.spelling ++ ([' '] ++
          (TokenKind.doubleColon.spelling ++ ([' ', ' '] ++
            ((TokenKind.word "om.class").spelling ++ ([' '] ++
              ((TokenKind.symbol "two words").spelling ++ ([' '] ++
                (TokenKind.newline.spelling ++ ([' '] ++
                  (TokenKind.string "a\"\\\n\té").spelling))))))))))))) := by
    decide +kernel
  have hgap : Token.IsGap [' '] := ⟨by simp, by simp⟩
  have htab : Token.IsGap ['\t'] := ⟨by simp, by simp⟩
  have hgaps : Token.IsGap [' ', ' '] := ⟨by simp, by simp⟩
  have hapart : Token.SetsApart [.integer Int64.minValue, .integer 7, .colon, .doubleColon,
      .word "om.class", .symbol "two words", .newline, .string "a\"\\\n\té"]
      Source.assortment.text.toList := by
    rw [htext]
    exact .cons _ hgap (.cons _ htab (.cons _ hgap (.cons _ hgaps (.cons _ hgap (.cons _ hgap
      (.cons _ hgap (.single _)))))))
  exact tokens_of_setsApart hapart (by decide)

end ObjectModel
