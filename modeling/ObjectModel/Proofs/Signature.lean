/-
**Signatures read back.**

Messages quote the header of a class as `ClassDecl.signature` prints it: its name and its
parameters, each with its type.  What is printed is part of the textual form.  With an empty body
behind it, it is the text of a class, and reading it gives the name and the parameters again,
however deep the types are nested.

Printing puts no blank between most tokens, so the printed characters are followed from the left:
each piece is read as its tokens in front of whatever may come next.

Main definitions:

* `Token.Prints` — characters that are read as some tokens in front of what may follow;
* `Token.IsPlainName`, `Ty.Printable` — names that need no quotes, and types with such names;
* `IsEmptyBody` — a text of a body without operations.

Main results:

* `Token.Prints.append`, `Token.prints_commas` — pieces one after the other, and lists of pieces;
* `Token.prints_ty`, `Token.prints_signature` — a type and a header are printed as their tokens;
* `Noting.takes_emptyClass` — a class without operations is read as its header says;
* `ClassDecl.load_signature` — **a printed header reads back**.
-/

import ObjectModel.Proofs.Recovery
import ObjectModel.Proofs.RoundTrip

set_option relaxedAutoImplicit false
set_option autoImplicit false

namespace ObjectModel

/-! ### What is printed -/

namespace Token

/-- No character of a name stands next. -/
def Apart (rest : List Char) : Prop := ∀ c ∈ rest.head?, isNameChar c = false

theorem apart_cons {c : Char} {rest : List Char} (h : isNameChar c = false) :
    Apart (c :: rest) := by
  rintro _ ⟨⟩
  exact h

/-- In front of what satisfies `F`, the characters are read as the tokens. -/
def Prints (ks : List TokenKind) (F : List Char → Prop) (cs : List Char) : Prop :=
  ∀ ls rest, F rest → Scans ls rest → Scans (ks ++ ls) (cs ++ rest)

/-- Anything may follow. -/
abbrev AnyRest : List Char → Prop := fun _ => True

variable {ks ls : List TokenKind} {cs ds : List Char} {F G : List Char → Prop}

theorem prints_nil : Prints [] F [] := fun _ _ _ h => h

theorem Prints.mono (h : Prints ks F cs) (hF : ∀ rest, G rest → F rest) : Prints ks G cs :=
  fun ls rest hrest hls => h ls rest (hF rest hrest) hls

/-- Pieces one after the other are read as their tokens one after the other. -/
theorem Prints.append (h : Prints ks F cs) (h' : Prints ls G ds)
    (hF : ∀ rest, G rest → F (ds ++ rest)) : Prints (ks ++ ls) G (cs ++ ds) := by
  intro ms rest hrest hms
  rw [List.append_assoc, List.append_assoc]
  exact h _ _ (hF rest hrest) (h' ms rest hrest hms)

/-- A piece in front of one that begins with no character of a name. -/
theorem Prints.apart {c : Char} (h : Prints ks Apart cs) (h' : Prints ls G (c :: ds))
    (hc : isNameChar c = false) : Prints (ks ++ ls) G (cs ++ c :: ds) :=
  h.append h' fun _ _ => apart_cons hc

/-- A piece behind which anything may stand. -/
theorem Prints.before (h : Prints ks AnyRest cs) (h' : Prints ls G ds) :
    Prints (ks ++ ls) G (cs ++ ds) :=
  h.append h' fun _ _ => trivial

theorem prints_token {k : TokenKind} (h : ∀ rest, F rest → IsScanned k cs rest) :
    Prints [k] F cs := fun _ rest hrest hls => hls.cons (h rest hrest)

/-- Blanks are no token. -/
theorem prints_blanks (cs : List Char) (h : cs.all isBlank = true) : Prints [] AnyRest cs :=
  fun _ _ _ hls => hls.behind h

theorem prints_punctuation {c : Char} {k : TokenKind} (h : punctuation? c = some k) :
    Prints [k] AnyRest [c] := prints_token fun _ _ => isScanned_punctuation h

/-- Commas and colons are printed with a blank behind them. -/
theorem prints_comma : Prints [.comma] AnyRest [',', ' '] :=
  (prints_punctuation (c := ',') rfl).before (prints_blanks [' '] rfl)

theorem prints_colon : Prints [.colon] AnyRest [':', ' '] := by
  have hcolon : Prints [.colon] (fun rest => ∀ c ∈ rest.head?, c ≠ ':') [':'] :=
    prints_token fun _ hrest => isScanned_colon hrest
  refine hcolon.append (prints_blanks [' '] rfl) ?_
  rintro rest - _ ⟨⟩
  decide

/-- Pieces with commas between them. -/
theorem prints_commas {α : Type} {w : α → List TokenKind} {p : α → List Char} {as : List α}
    (h : ∀ a ∈ as, Prints (w a) Apart (p a)) :
    Prints (commas (as.map w)) Apart (List.intercalate [',', ' '] (as.map p)) := by
  induction as with
  | nil => exact prints_nil
  | cons a as ih =>
      have ha := h a List.mem_cons_self
      have has := ih fun b hb => h b (List.mem_cons_of_mem _ hb)
      cases as with
      | nil => rwa [List.map_singleton, List.map_singleton, commas_singleton,
          List.intercalate_singleton]
      | cons b bs =>
          have hjoin : List.intercalate [',', ' '] ((a :: b :: bs).map p) =
              p a ++ ',' :: ([' '] ++ List.intercalate [',', ' '] ((b :: bs).map p)) := by
            rw [List.map_cons, List.map_cons, List.intercalate_cons_cons, List.append_assoc]
            rfl
          rw [commas_map_cons_cons, hjoin]
          -- a comma is no character of a name, so it ends the piece in front of it
          exact ha.apart (prints_comma.before has) rfl

/-! ### Names and types -/

/-- A name that is printed as it is: it has characters, and they are letters, digits and the three
signs of names. -/
def IsPlainName (name : String) : Prop := name ≠ "" ∧ name.toList.all isNameChar = true

instance (name : String) : Decidable (IsPlainName name) := inferInstanceAs (Decidable (_ ∧ _))

theorem prints_name (sigil : Char) {kind : String → TokenKind} {name : String}
    (hsigil : sigil? sigil = some kind) (hname : IsPlainName name) :
    Prints [kind name] Apart (sigil :: name.toList) :=
  prints_token fun _ hrest => isScanned_name hsigil hname.1 hname.2 hrest

theorem prints_word {name : String} {c : Char} {cs : List Char} (hname : name.toList = c :: cs)
    (hc : isWordStart c = true) (hcs : cs.all isNameChar = true) :
    Prints [.word name] Apart name.toList :=
  prints_token fun _ hrest => isScanned_word hname hc hcs hrest

end Token

/-- A type that is printed as it can be read: widths are positive, and the names of classes need no
quotes. -/
inductive Ty.Printable : Ty → Prop where
  | integer : Printable .integer
  | bits {n : UInt32} (hn : 0 < n) : Printable (.bits n)
  | string : Printable .string
  | ref : Printable .ref
  | any : Printable .any
  | list {t : Ty} (ht : Printable t) : Printable (.list t)
  | map {k v : Ty} (hk : Printable k) (hv : Printable v) : Printable (.map k v)
  | tuple {ts : List Ty} (hts : ∀ t ∈ ts, Printable t) : Printable (.tuple ts)
  | object {c : String} (hc : Token.IsPlainName c) : Printable (.object c)

theorem Ty.Printable.writable {t : Ty} (h : t.Printable) : t.Writable := by
  induction h with
  | integer => exact .integer
  | bits hn => exact .bits hn
  | string => exact .string
  | ref => exact .ref
  | any => exact .any
  | list _ ih => exact .list ih
  | map _ _ ihk ihv => exact .map ihk ihv
  | tuple _ ih => exact .tuple ih
  | object _ => exact .object _

theorem Ty.texts_eq (ts : List Ty) : Ty.texts ts = ts.map Ty.text := by
  induction ts with
  | nil => rfl
  | cons t ts ih => rw [Ty.texts, ih, List.map_cons]

namespace Token

theorem prints_typeName (name : String) (hname : IsPlainName name) :
    Prints [.typeName name] Apart ("!" ++ name).toList := by
  rw [String.toList_append]
  exact prints_name '!' rfl hname

/-- A type is printed as its tokens. -/
theorem prints_ty {t : Ty} (h : t.Printable) : Prints t.written Apart t.text.toList := by
  have hless : Prints [.less] AnyRest ['<'] := prints_punctuation rfl
  have hgreater : Prints [.greater] AnyRest ['>'] := prints_punctuation rfl
  induction h with
  | integer => exact prints_typeName "om.integer" (by decide)
  | string => exact prints_typeName "om.string" (by decide)
  | ref => exact prints_typeName "om.ref" (by decide)
  | any => exact prints_typeName "om.any" (by decide)
  | @bits n hn =>
      have hdigits : (Nat.toDigits 10 n.toNat).all isNameChar = true :=
        List.all_eq_true.2 fun c hc => by
          have hc : c.isDigit = true := List.all_eq_true.1 (Decimal.all_isDigit_toDigits _) c hc
          simp [isNameChar, Char.isAlphanum, hc]
      -- the letter `i` and the digits are one word
      exact prints_word (Ty.toList_widthWord n) rfl hdigits
  | @list t ht ih =>
      have hname := prints_typeName "om.list" (by decide)
      have htext : (Ty.list t).text.toList =
          ("!" ++ "om.list").toList ++ '<' :: (t.text.toList ++ ['>']) := by
        change ("!om.list<" ++ t.text ++ ">").toList = _
        rw [String.toList_append, String.toList_append, List.append_assoc]
        rfl
      rw [htext]
      exact (hname.apart (hless.before (ih.apart hgreater rfl)) rfl).mono fun _ _ => trivial
  | @map k v hk hv ihk ihv =>
      have hname := prints_typeName "om.map" (by decide)
      have htext : (Ty.map k v).text.toList = ("!" ++ "om.map").toList ++
          '<' :: (k.text.toList ++ ',' :: ([' '] ++ (v.text.toList ++ ['>']))) := by
        change ("!om.map<" ++ k.text ++ ", " ++ v.text ++ ">").toList = _
        simp only [String.toList_append, List.append_assoc]
        rfl
      -- each closing bracket is a token of its own, however many of them stand in a row
      have hvalue := prints_comma.before (ihv.apart hgreater rfl)
      rw [htext]
      exact (hname.apart (hless.before (ihk.apart hvalue rfl)) rfl).mono fun _ _ => trivial
  | @tuple ts hts ih =>
      have hname : Prints [.word "tuple"] Apart "tuple".toList :=
        prints_word (show "tuple".toList = 't' :: "uple".toList from rfl) rfl rfl
      have helements := prints_commas ih
      have htext : (Ty.tuple ts).text.toList = "tuple".toList ++
          '<' :: (List.intercalate [',', ' '] (ts.map fun t => t.text.toList) ++ ['>']) := by
        change ("tuple<" ++ ", ".intercalate (Ty.texts ts) ++ ">").toList = _
        rw [String.toList_append, String.toList_append, String.toList_intercalate, Ty.texts_eq,
          List.map_map, List.append_assoc]
        rfl
      rw [htext, Ty.written, Ty.writtenEach_eq]
      exact (hname.apart (hless.before (helements.apart hgreater rfl)) rfl).mono
        fun _ _ => trivial
  | @object c hc =>
      have hname := prints_typeName "om.class.type" (by decide)
      have hsymbol := prints_name '@' rfl hc
      have htext : (Ty.object c).text.toList =
          ("!" ++ "om.class.type").toList ++ '<' :: ('@' :: c.toList ++ ['>']) := by
        change ("!om.class.type<@" ++ c ++ ">").toList = _
        rw [String.toList_append, String.toList_append, List.append_assoc]
        rfl
      rw [htext]
      exact (hname.apart (hless.before (hsymbol.apart hgreater rfl)) rfl).mono fun _ _ => trivial

/-- A parameter is printed as its tokens. -/
theorem prints_param {p : Param} (hname : IsPlainName p.name.name) (hty : p.ty.Printable) :
    Prints p.written Apart p.text.toList := by
  have htext : p.text.toList = '%' :: p.name.name.toList ++ ':' :: ([' '] ++ p.ty.text.toList) := by
    rw [Param.text]
    simp only [String.toList_append, List.append_assoc]
    rfl
  rw [htext]
  exact (prints_name '%' rfl hname).apart (prints_colon.before (prints_ty hty)) rfl

end Token

/-- A class whose signature can be read: the names in it need no quotes. -/
structure ClassDecl.Printable (c : ClassDecl) : Prop where
  name : Token.IsPlainName c.name.name
  params : ∀ p ∈ c.params, Token.IsPlainName p.name.name ∧ p.ty.Printable

/-- The tokens of a signature. -/
def ClassDecl.header (c : ClassDecl) : List TokenKind :=
  .word "om.class" :: .symbol c.name.name :: .leftParen ::
    (commas (c.params.map Param.written) ++ [.rightParen])

/-- A signature is printed as its tokens. -/
theorem Token.prints_signature {c : ClassDecl} (hc : c.Printable) :
    Prints c.header AnyRest c.signature.toList := by
  have hword : Prints [.word "om.class"] Apart "om.class".toList :=
    prints_word (show "om.class".toList = 'o' :: "m.class".toList from rfl) rfl rfl
  have hname := prints_name '@' rfl hc.name
  have hopen : Prints [.leftParen] AnyRest ['('] := prints_punctuation rfl
  have hclose : Prints [.rightParen] AnyRest [')'] := prints_punctuation rfl
  have hparams := prints_commas fun p hp => prints_param (hc.params p hp).1 (hc.params p hp).2
  have hlist := hopen.before (hparams.apart hclose rfl)
  have hblank : Prints [] AnyRest [' '] := prints_blanks [' '] rfl
  have htext : c.signature.toList = "om.class".toList ++ ' ' :: ([] ++ ('@' :: c.name.name.toList ++
      '(' :: ([] ++ (List.intercalate [',', ' '] (c.params.map fun p => p.text.toList) ++
        [')'])))) := by
    rw [ClassDecl.signature]
    simp only [String.toList_append, String.toList_intercalate, List.map_map, List.append_assoc]
    rfl
  rw [htext]
  exact hword.apart (hblank.before (hname.apart hlist rfl)) rfl

/-! ### What is read -/

/-- A text of a body without operations: two braces, with blanks and line ends between them and
behind them. -/
def IsEmptyBody (body : String) : Prop :=
  ∃ ks ls : List TokenKind, ks.all (· == .newline) = true ∧ ls.all (· == .newline) = true ∧
    Token.Spells (.leftBrace :: (ks ++ .rightBrace :: ls)) body.toList

namespace Reading

/-- Behind the last line there may be any number of line ends. -/
theorem takes_lineEnd_last {ks : List TokenKind} (hks : ks.all (· == .newline) = true) :
    Takes (fun _ => True) ks (Before (· = .eof)) lineEnd := by
  cases ks with
  | nil =>
      refine Takes.kind_before fun k hk => ?_
      subst hk
      exact Takes.pure trivial
  | cons k ks =>
      have hskip := (takes_skipNewlines hks).mono (fun _ h => h)
        (fun _ (h : Before (· = .eof) _) => h.mono fun k hk => by simp [hk])
      -- the first line end is looked at, and all of them are skipped
      obtain rfl : k = .newline := by
        simpa using List.all_eq_true.1 hks k List.mem_cons_self
      exact Takes.kind_cons hskip

/-- The brace that closes the last body. -/
theorem takes_closeBody_last {ks : List TokenKind} (hks : ks.all (· == .newline) = true)
    (start : Span) (what : String) :
    Takes (fun _ => True) (.rightBrace :: ks) (Before (· = .eof)) (closeBody start what) := by
  refine Takes.kind_cons ?_
  rw [if_pos rfl]
  refine (takes_advance _).cons fun _ _ => ?_
  refine takes_lastSpan.after fun last _ => ?_
  exact (takes_lineEnd_last hks).bind_nil (fun _ _ => Takes.pure trivial) fun _ h => h

end Reading

namespace Noting

open Reading (Before before_cons)

/-- A class has the name and the parameters of another, and no operations. -/
def ReadsAs (c d : ClassDecl) : Prop :=
  d.name.unplaced = c.name.unplaced ∧ d.params.map Param.unplaced = c.params.map Param.unplaced ∧
    d.body = []

/-- There are no items where the closing token stands next. -/
theorem takes_items_nil {α : Type} {close : TokenKind} (item : Noting α) :
    Takes (· = []) [] (Before (· = close)) (items close item) := by
  rintro c rest hc ⟨k, ks, rfl, rfl⟩
  have hstop : itemsFrom k item ⟨c, []⟩ = ([], ⟨c, []⟩) := by
    rw [itemsFrom, if_pos (.inl (Reading.kind_of_kinds hc))]
  exact ⟨[], c, run_items hstop, hc, rfl⟩

/-- A class without operations is read as its header says. -/
theorem takes_emptyClass {c : ClassDecl} (hc : c.Printable) {ks ls : List TokenKind}
    (hks : ks.all (· == .newline) = true) (hls : ls.all (· == .newline) = true) :
    Takes (ReadsAs c) (c.header ++ .leftBrace :: (ks ++ .rightBrace :: ls)) (Before (· = .eof))
      classDecl := by
  have hheader :=
    Reading.takes_classHeader c.name (fun p hp => (hc.params p hp).2.writable) ks hks
  have htokens : c.header ++ .leftBrace :: (ks ++ .rightBrace :: ls) =
      (.word "om.class" :: .symbol c.name.name :: .leftParen ::
        (commas (c.params.map Param.written) ++ .rightParen :: .leftBrace :: ks)) ++
        .rightBrace :: ls := by
    simp [ClassDecl.header]
  rw [htokens]
  refine Takes.after Reading.takes_spanHere fun start _ => ?_
  refine (Takes.attempt hheader).bind (fun header hheader => ?_) fun rest _ => before_cons (by simp)
  refine (takes_items_nil _).bind (fun body hbody => ?_) fun rest _ => before_cons rfl
  exact (Takes.attempt (Reading.takes_closeBody_last hls _ _)).bind_nil
    (fun span _ => Takes.pure ⟨hheader.1, hheader.2, hbody⟩) fun _ h => h

/-- It is an item of a module. -/
theorem takes_item_emptyClass {c : ClassDecl} (hc : c.Printable) {ks ls : List TokenKind}
    (hks : ks.all (· == .newline) = true) (hls : ls.all (· == .newline) = true) :
    Takes (fun i => ∃ d, i = .ofClass d ∧ ReadsAs c d)
      (c.header ++ .leftBrace :: (ks ++ .rightBrace :: ls)) (Before (· = .eof)) item := by
  refine Takes.kind_bind (p := (· = .word "om.class")) (fun rest _ => before_cons rfl) ?_
  rintro _ rfl
  exact (takes_emptyClass hc hks hls).bind_nil (fun d hd => Takes.pure ⟨d, rfl, hd⟩) fun _ h => h

end Noting

/-! ### Reading a printed header -/

/-- A signature with an empty body behind it is read as its tokens and those of the body. -/
theorem Token.scans_signature {c : ClassDecl} (hc : c.Printable) {body : String}
    {ks ls : List TokenKind} (hks : ks.all (· == .newline) = true)
    (hls : ls.all (· == .newline) = true)
    (hbody : Spells (.leftBrace :: (ks ++ .rightBrace :: ls)) body.toList) :
    Scans (c.header ++ .leftBrace :: (ks ++ .rightBrace :: ls)) (c.signature ++ body).toList := by
  have hline : ∀ k, (k == TokenKind.newline) = true → k.spellable = true := fun k hk => by
    rw [beq_iff_eq.1 hk]
    rfl
  have hspellable : ∀ k ∈ .leftBrace :: (ks ++ .rightBrace :: ls), k.spellable = true := by
    intro k hk
    simp only [List.mem_cons, List.mem_append] at hk
    rcases hk with rfl | hk | rfl | hk
    · rfl
    · exact hline k (List.all_eq_true.1 hks k hk)
    · rfl
    · exact hline k (List.all_eq_true.1 hls k hk)
  rw [String.toList_append]
  exact prints_signature hc _ _ trivial (scanAll_of_spells hbody hspellable)

/-- The tokens of a class without operations, and of nothing else, are a module of that class. -/
theorem Module.ofTokens?_emptyClass (file : String) {c : ClassDecl} (hc : c.Printable)
    {ks ls : List TokenKind} (hks : ks.all (· == .newline) = true)
    (hls : ls.all (· == .newline) = true) {ts : List Token}
    (hts : ts.map Token.kind = c.header ++ .leftBrace :: (ks ++ .rightBrace :: ls) ++ [.eof]) :
    ∃ d span, Module.ofTokens? file ts = (some { file, items := [.ofClass d], span }, []) ∧
      Noting.ReadsAs c d := by
  obtain ⟨first, rest, rfl, hfirst, hrest⟩ := List.map_eq_cons_iff.1 hts
  have hne : rest ≠ [] := by
    rintro rfl
    cases hrest
  have hfew : (Progress.mk (.ofTokens (first :: rest)) []).problems.length < Report.maxErrors := by
    rw [List.length_nil]
    decide
  have hbegins : Reading.Before (· ≠ .newline) (Cursor.ofTokens (first :: rest)).kinds :=
    ⟨first.kind, _, rfl, by rw [hfirst]; simp⟩
  obtain ⟨i, c', hitem, hc', d, rfl, hd⟩ := Noting.takes_item_emptyClass hc hks hls _ _
    ((Noting.kinds_skipNewlines_of_before hbegins).trans hts) (Reading.before_cons rfl)
  obtain ⟨stop, stops, hstop, heof, hstops⟩ := List.map_eq_cons_iff.1 hc'
  rw [List.map_eq_nil_iff.1 hstops] at hstop
  have hend : dropNewlines c'.ahead = [stop] := by
    rw [hstop, dropNewlines_cons_of_ne (by rw [heof]; simp)]
  obtain ⟨span, p, hmodule, hproblems⟩ := Noting.run_module_of_item file rfl
    (by rw [hfirst]; simp) hfew hne hitem hend heof (Nat.le_refl _)
  exact ⟨d, span, by rw [Module.ofTokens?, hmodule, hproblems], hd⟩

/-- **Printed class headers read back.**  Let the names in the signature of a class need no quotes,
and its widths be positive.  With an empty body behind it the signature is loaded as one class,
which has the name and the parameters of the class, with their types, and no operations. -/
theorem ClassDecl.load_signature {c : ClassDecl} (hc : c.Printable) (file : String) {body : String}
    (hbody : IsEmptyBody body) :
    ∃ m d, (Source.mk file (c.signature ++ body)).load = .ok m ∧ m.items = [.ofClass d] ∧
      d.name.name = c.name.name ∧
      d.params.map (fun p => (p.name.name, p.ty)) = c.params.map (fun p => (p.name.name, p.ty)) ∧
      d.body = [] := by
  obtain ⟨ks, ls, hks, hls, hspells⟩ := hbody
  obtain ⟨ts, hscan, hkinds⟩ := Token.scans_signature hc hks hls hspells .origin
  obtain ⟨d, span, hread, hname, hparams, hempty⟩ :=
    Module.ofTokens?_emptyClass file hc hks hls hkinds
  have hload : (Source.mk file (c.signature ++ body)).load =
      .ok { file, items := [.ofClass d], span } := by
    refine Source.load_eq_ok_iff.2 ⟨?_, ?_⟩
    · rw [Source.lexicalProblems, hscan]
    · rw [Source.tokens, hscan, hread]
  have hnames : d.name.unplaced.name = c.name.unplaced.name := congrArg Ident.name hname
  have hshapes := congrArg (List.map fun p : Param => (p.name.name, p.ty)) hparams
  rw [List.map_map, List.map_map] at hshapes
  exact ⟨_, d, hload, rfl, hnames, hshapes, hempty⟩

/-- A class with a parameter of a nested type. -/
def ClassDecl.nested : ClassDecl where
  name := ⟨"Board.v2", default⟩
  params := [
    ⟨⟨"0", default⟩, .map (.bits 8) (.list (.tuple [.object "lib.Part$1", .tuple [], .ref])),
      default⟩,
    ⟨⟨"on_off", default⟩, .any, default⟩]
  body := []
  span := default

/-- Its signature closes three brackets at once, and reads back. -/
theorem ClassDecl.load_signature_nested :
    ClassDecl.nested.Printable ∧ IsEmptyBody " \x7b\n\x7d\n" ∧
    ClassDecl.nested.signature = "om.class @Board.v2(%0: !om.map<i8, " ++
      "!om.list<tuple<!om.class.type<@lib.Part$1>, tuple<>, !om.ref>>>, %on_off: !om.any)" ∧
    ∃ m d, (Source.mk "board.mlir" (ClassDecl.nested.signature ++ " \x7b\n\x7d\n")).load = .ok m ∧
      m.items = [.ofClass d] ∧ d.params.map (fun p => (p.name.name, p.ty)) =
        [("0", .map (.bits 8) (.list (.tuple [.object "lib.Part$1", .tuple [], .ref]))),
          ("on_off", .any)] := by
  have htypes : ∀ t ∈ [Ty.object "lib.Part$1", .tuple [], .ref], t.Printable := by
    simp only [List.forall_mem_cons]
    exact ⟨.object (by decide), .tuple (by simp), .ref, List.forall_mem_nil _⟩
  have hc : ClassDecl.nested.Printable := by
    refine ⟨by decide, ?_⟩
    simp only [ClassDecl.nested, List.forall_mem_cons]
    exact ⟨⟨by decide, .map (.bits (by decide)) (.list (.tuple htypes))⟩, ⟨by decide, .any⟩,
      List.forall_mem_nil _⟩
  have hbody : IsEmptyBody " \x7b\n\x7d\n" := by
    have hspells : Token.Spells [.leftBrace, .newline, .rightBrace, .newline]
        ([' '] ++ ['\x7b'] ++ ([] ++ ['\n'] ++ ([] ++ ['\x7d'] ++ ([] ++ ['\n'] ++ [])))) :=
      .cons rfl (fun _ _ => rfl) (.cons rfl (fun _ _ => rfl) (.cons rfl (fun _ _ => rfl)
        (.cons rfl (fun _ _ => rfl) (.nil rfl))))
    exact ⟨[.newline], [.newline], rfl, rfl, hspells⟩
  obtain ⟨m, d, hload, hitems, -, hparams, -⟩ := ClassDecl.load_signature hc "board.mlir" hbody
  exact ⟨hc, hbody, by decide, m, d, hload, hitems, hparams⟩

end ObjectModel
