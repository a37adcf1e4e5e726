/-
**The lines of an object.**

An object is shown with a line for each of its fields.  Texts stand between quotes, where a line
feed is escaped, and whole numbers have none.  But the names of fields and classes and the segments
of references are shown as they are, and a quoted symbol may have a line feed in it.  So the lines
are those of the fields exactly when no such name has one; with a name that has one there are more.

Main definitions:

* `OneLine` — a text without line feeds;
* `Value.names`, `Object.shownNames` — the names that a value and the fields of an object are shown
  with;
* `Module.symbolNames` — the names of all symbols of a module.

Main results:

* `Lines.split_flatMap_ended` — the lines of several texts, each ended by a line feed;
* `Value.oneLine_text` — the text of a value is on one line exactly when its names are;
* `Registry.describe_lines` — **when an object is shown with one line for each field**;
* `Registry.describe_brokenName` — an object that is not.
-/

import ObjectModel.Command
import ObjectModel.Proofs.LineByLine
import ObjectModel.Proofs.Spelling
import ObjectModel.Proofs.WellFormedValue

set_option relaxedAutoImplicit false
set_option autoImplicit false

namespace ObjectModel

/-! ### Texts on one line -/

/-- The text has no line feed. -/
def OneLine (s : String) : Prop := '\n' ∉ s.toList

instance (s : String) : Decidable (OneLine s) := inferInstanceAs (Decidable ('\n' ∉ s.toList))

@[simp] theorem oneLine_append {s t : String} : OneLine (s ++ t) ↔ OneLine s ∧ OneLine t := by
  simp [OneLine]

theorem oneLine_quote (s : String) : OneLine (Text.quote s) := by
  rw [OneLine, Text.quote, String.toList_ofList]
  exact Text.newline_not_mem_quoteChars s.toList

theorem oneLine_toString (n : Int) : OneLine (toString n) := by
  obtain ⟨d, ds, hall, hn⟩ := Decimal.toList_toString n
  have hdigits : '\n' ∉ d :: ds := fun h => by cases List.all_eq_true.1 hall _ h
  rcases hn with hn | hn
  · rwa [OneLine, hn]
  · rw [OneLine, hn, List.mem_cons, not_or]
    exact ⟨by decide, hdigits⟩

theorem oneLine_keyText (k : Key) : OneLine k.text := by
  cases k with
  | integer n => exact oneLine_toString n.toInt
  | string s => exact oneLine_quote s

/-- Texts that are joined on one line are on one line. -/
theorem oneLine_intercalate {sep : String} (hsep : OneLine sep) (ts : List String) :
    OneLine (sep.intercalate ts) ↔ ∀ t ∈ ts, OneLine t := by
  rw [OneLine, String.toList_intercalate]
  induction ts with
  | nil => simp
  | cons t ts ih =>
      cases ts with
      | nil => simp [OneLine]
      | cons u us =>
          rw [List.map_cons, List.map_cons, List.intercalate_cons_cons, List.forall_mem_cons, ← ih,
            List.map_cons, List.mem_append, List.mem_append, not_or, not_or]
          exact and_congr_left fun _ => and_iff_left hsep

/-- Brackets on one line add no line. -/
theorem oneLine_between {opening closing : String} (hopening : OneLine opening)
    (hclosing : OneLine closing) (s : String) : OneLine (opening ++ s ++ closing) ↔ OneLine s := by
  rw [oneLine_append, oneLine_append, and_iff_left hclosing, and_iff_right hopening]

theorem oneLine_braced (ts : List String) : OneLine (Value.braced ts) ↔ ∀ t ∈ ts, OneLine t := by
  unfold Value.braced
  split
  · exact iff_of_true (by decide) (List.forall_mem_nil _)
  · rw [oneLine_between (by decide) (by decide), oneLine_intercalate (by decide)]

theorem oneLine_refText (p : SymbolPath) : OneLine p.refText ↔ ∀ x ∈ p.segments, OneLine x := by
  rw [SymbolPath.refText, oneLine_between (by decide) (by decide), SymbolPath.text,
    oneLine_between (by decide) (by decide), oneLine_intercalate (by decide), List.forall_mem_map]
  have hat : OneLine "@" := by decide
  simp only [oneLine_append, and_iff_right hat]

namespace Lines

theorem split_of_oneLine {cs : List Char} (h : '\n' ∉ cs) : split cs = [cs] := by
  induction cs with
  | nil => rfl
  | cons c cs ih =>
      rw [List.mem_cons, not_or] at h
      rw [split_cons_of_ne (Ne.symm h.1), ih h.2]
      rfl

/-- Several texts, each ended by a line feed, have the lines of each of them, and an empty one. -/
theorem split_flatMap_ended {α : Type} (f : α → List Char) (as : List α) :
    split (as.flatMap fun a => f a ++ ['\n']) = as.flatMap (fun a => split (f a)) ++ [[]] := by
  induction as with
  | nil => rfl
  | cons a as ih =>
      rw [List.flatMap_cons, List.append_assoc, List.singleton_append, split_append_newline, ih,
        List.flatMap_cons, List.append_assoc]

/-- Texts have as many lines as there are texts exactly when none has a line feed. -/
theorem length_flatMap_split_iff {α : Type} (f : α → List Char) (as : List α) :
    (as.flatMap fun a => split (f a)).length = as.length ↔ ∀ a ∈ as, '\n' ∉ f a := by
  -- each text has one line, and one more for each line feed
  have hlength : ∀ as : List α, (as.flatMap fun a => split (f a)).length =
      as.length + (as.map fun a => (f a).count '\n').sum := by
    intro as
    induction as with
    | nil => rfl
    | cons a as ih =>
        rw [List.flatMap_cons, List.length_append, length_split, ih, List.length_cons,
          List.map_cons, List.sum_cons]
        omega
  rw [hlength, Nat.add_eq_left, List.sum_eq_zero_iff_forall_eq_nat]
  simp [List.count_eq_zero]

end Lines

/-! ### The names that a value is shown with -/

namespace Value

mutual

/-- The names that a value is shown with: those of classes and fields and the segments of
references, but no texts and no keys. -/
def names : Value → List String
  | integer _ => []
  | string _ => []
  | list _ vs => elementNames vs
  | tuple vs => elementNames vs
  | map _ _ es => entryNames es
  | object c fs => c.name.name :: fieldNames fs
  | ref p => p.segments

/-- The names that values are shown with. -/
def elementNames : List Value → List String
  | [] => []
  | v :: vs => v.names ++ elementNames vs

/-- The names that the values of a map are shown with. -/
def entryNames : List (Key × Value) → List String
  | [] => []
  | (_, v) :: es => v.names ++ entryNames es

/-- The names of fields, and those that their values are shown with. -/
def fieldNames : List (String × Value) → List String
  | [] => []
  | (n, v) :: fs => n :: (v.names ++ fieldNames fs)

end

mutual

/-- The text of a value is on one line exactly when its names are. -/
theorem oneLine_text : ∀ v : Value, OneLine v.text ↔ ∀ x ∈ v.names, OneLine x
  | integer n => iff_of_true (oneLine_toString n.toInt) (List.forall_mem_nil _)
  | string s => iff_of_true (oneLine_quote s) (List.forall_mem_nil _)
  | list ty vs => by
      rw [text, names, oneLine_between (by decide) (by decide), oneLine_intercalate (by decide),
        oneLine_texts vs]
  | tuple vs => by
      rw [text, names, oneLine_between (by decide) (by decide), oneLine_intercalate (by decide),
        oneLine_texts vs]
  | map k ty es => by
      rw [text, names, oneLine_between (by decide) (by decide), oneLine_intercalate (by decide),
        oneLine_entryTexts es]
  | object c fs => by
      rw [text, names, oneLine_append, oneLine_between (by decide) (by decide), oneLine_braced,
        oneLine_fieldTexts fs, List.forall_mem_cons]
  | ref p => by rw [text, names, oneLine_refText]

theorem oneLine_texts : ∀ vs : List Value,
    (∀ t ∈ texts vs, OneLine t) ↔ ∀ x ∈ elementNames vs, OneLine x
  | [] => by simp [texts, elementNames]
  | v :: vs => by
      rw [texts, elementNames, List.forall_mem_cons, List.forall_mem_append, oneLine_text v,
        oneLine_texts vs]

theorem oneLine_entryTexts : ∀ es : List (Key × Value),
    (∀ t ∈ entryTexts es, OneLine t) ↔ ∀ x ∈ entryNames es, OneLine x
  | [] => by simp [entryTexts, entryNames]
  | (k, v) :: es => by
      rw [entryTexts, entryNames, List.forall_mem_cons, List.forall_mem_append, oneLine_append,
        oneLine_append, oneLine_text v, oneLine_entryTexts es]
      have hkey : OneLine k.text ∧ OneLine ": " := ⟨oneLine_keyText k, by decide⟩
      rw [and_iff_right hkey]

theorem oneLine_fieldTexts : ∀ fs : List (String × Value),
    (∀ t ∈ fieldTexts fs, OneLine t) ↔ ∀ x ∈ fieldNames fs, OneLine x
  | [] => by simp [fieldTexts, fieldNames]
  | (n, v) :: fs => by
      rw [fieldTexts, fieldNames, List.forall_mem_cons, List.forall_mem_cons,
        List.forall_mem_append, oneLine_append, oneLine_append, oneLine_text v,
        oneLine_fieldTexts fs]
      have hcolon : OneLine ": " := by decide
      rw [and_iff_left hcolon, and_assoc]

end

end Value

/-- The names that the fields of an object are shown with. -/
def Object.shownNames (o : Object) : List String := Value.fieldNames o.fields

/-- The line of a field. -/
def Object.fieldLine (e : String × Value) : List Char := (e.1 ++ ": " ++ e.2.text).toList

theorem Object.toList_describe (o : Object) :
    o.describe.toList = o.fields.flatMap fun e => fieldLine e ++ ['\n'] := by
  rw [Object.describe, String.toList_join, List.flatMap_map]
  refine congrArg (fun f => o.fields.flatMap f) (funext fun e => ?_)
  rw [String.toList_append]
  rfl

/-- The lines of fields are lines exactly when the names that they are shown with have no line
feed. -/
theorem Object.oneLine_fieldLines (o : Object) :
    (∀ e ∈ o.fields, '\n' ∉ fieldLine e) ↔ ∀ x ∈ o.shownNames, OneLine x := by
  rw [shownNames, ← Value.oneLine_fieldTexts]
  generalize o.fields = fs
  induction fs with
  | nil => simp [Value.fieldTexts]
  | cons e fs ih =>
      obtain ⟨n, v⟩ := e
      rw [Value.fieldTexts, List.forall_mem_cons, List.forall_mem_cons, ih]
      rfl

/-! ### Where names come from -/

/-- The names of the classes of a module and of their fields, of its hardware modules and of the
symbols inside them. -/
def Module.symbolNames (m : Module) : List String :=
  m.classes.flatMap (fun c => c.name.name :: c.fields.map fun f => f.name.name) ++
    m.hardware.flatMap fun h => h.name.name :: h.innerSymbols.map Ident.name

theorem Module.mem_symbolNames_of_class {m : Module} {c : ClassDecl} (hc : c ∈ m.classes)
    {x : String} (hx : x ∈ c.name.name :: c.fields.map fun f => f.name.name) :
    x ∈ m.symbolNames :=
  List.mem_append_left _ (List.mem_flatMap.2 ⟨c, hc, hx⟩)

theorem Module.mem_symbolNames_of_hardware {m : Module} {h : HardwareModule} (hh : h ∈ m.hardware)
    {x : String} (hx : x ∈ h.name.name :: h.innerSymbols.map Ident.name) : x ∈ m.symbolNames :=
  List.mem_append_right _ (List.mem_flatMap.2 ⟨h, hh, hx⟩)

/-- The segments of a path to a symbol are names of symbols. -/
theorem Module.Declares.mem_symbolNames {m : Module} {p : SymbolPath} (hp : m.Declares p) :
    ∀ x ∈ p.segments, x ∈ m.symbolNames := by
  cases hp with
  | ofClass hc =>
      exact List.forall_mem_singleton.2 (mem_symbolNames_of_class hc List.mem_cons_self)
  | ofHardware hh =>
      exact List.forall_mem_singleton.2 (mem_symbolNames_of_hardware hh List.mem_cons_self)
  | inner hh hx =>
      refine List.forall_mem_cons.2 ⟨mem_symbolNames_of_hardware hh List.mem_cons_self, ?_⟩
      exact List.forall_mem_singleton.2
        (mem_symbolNames_of_hardware hh (List.mem_cons_of_mem _ (List.mem_map_of_mem hx)))

namespace Value

variable {Q : String → Prop}

theorem forall_elementNames {vs : List Value} :
    (∀ x ∈ elementNames vs, Q x) ↔ ∀ v ∈ vs, ∀ x ∈ v.names, Q x := by
  induction vs with
  | nil => simp [elementNames]
  | cons v vs ih => rw [elementNames, List.forall_mem_append, ih, List.forall_mem_cons]

theorem forall_entryNames {es : List (Key × Value)} :
    (∀ x ∈ entryNames es, Q x) ↔ ∀ e ∈ es, ∀ x ∈ e.2.names, Q x := by
  induction es with
  | nil => simp [entryNames]
  | cons e es ih => rw [entryNames, List.forall_mem_append, ih, List.forall_mem_cons]

theorem forall_fieldNames {fs : List (String × Value)} :
    (∀ x ∈ fieldNames fs, Q x) ↔ (∀ x ∈ Entries.keys fs, Q x) ∧ ∀ e ∈ fs, ∀ x ∈ e.2.names, Q x := by
  induction fs with
  | nil => simp [fieldNames]
  | cons e fs ih =>
      rw [fieldNames, List.forall_mem_cons, List.forall_mem_append, ih, Entries.keys_cons,
        List.forall_mem_cons, List.forall_mem_cons]
      tauto

/-- What holds of the names of all symbols is handed on to the names that values are shown with. -/
theorem hereditary_names {m : Module} (hQ : ∀ x ∈ m.symbolNames, Q x) :
    Hereditary m fun v => ∀ x ∈ v.names, Q x where
  integer _ := List.forall_mem_nil _
  string _ := List.forall_mem_nil _
  list h := forall_elementNames.2 h
  tuple h := forall_elementNames.2 h
  map _ _ h := forall_entryNames.2 h
  object hc hfields _ h := by
    refine List.forall_mem_cons.2 ⟨hQ _ (m.mem_symbolNames_of_class hc List.mem_cons_self), ?_⟩
    refine forall_fieldNames.2 ⟨fun x hx => ?_, h⟩
    rw [hfields] at hx
    exact hQ x (m.mem_symbolNames_of_class hc (List.mem_cons_of_mem _ hx))
  ref hp x hx := hQ x (hp.mem_symbolNames x hx)
  of_pair h := forall_elementNames.1 h _ (by simp)

end Value

/-! ### Objects -/

/-- **When an object is shown with one line for each field.**  An object that a call on an accepted
module makes has the fields of its class.  It is shown with as many lines as it has fields, and an
empty one behind the last line feed, exactly when no name that the fields are shown with has a line
feed in it, and then the lines are those of the fields in their order.  These names are names of
symbols of the module, or names that the values for the parameters are shown with. -/
theorem Registry.describe_lines {m : Module} {quote : Nat → String} {r : Registry}
    (hbuild : Registry.build m quote = .ok r) {maxDepth : Nat} {name : String}
    {actuals : List Value} {o : Object}
    (h : r.instantiate maxDepth name actuals = some (.ok o)) :
    r.class? name = some o.cls ∧
    Entries.keys o.fields = (o.cls.fields.map fun f => f.name.name) ∧
    ((∀ x ∈ o.shownNames, OneLine x) ↔
      (Lines.split o.describe.toList).length = o.fields.length + 1) ∧
    ((∀ x ∈ o.shownNames, OneLine x) ↔
      Lines.split o.describe.toList =
        o.fields.map (fun e => (e.1 ++ ": " ++ e.2.text).toList) ++ [[]]) ∧
    ∀ x ∈ o.shownNames, x ∈ m.symbolNames ∨ ∃ v ∈ actuals, x ∈ v.names := by
  obtain ⟨hm, rfl⟩ := Registry.build_eq_ok_iff.1 hbuild
  obtain ⟨hnames, hclass, hfields⟩ := (Value.hereditary_names
    (Q := fun x => x ∈ m.symbolNames ∨ ∃ v ∈ actuals, x ∈ v.names) fun x hx =>
      .inl hx).of_instantiate hm (fun v hv x hx => .inr ⟨v, hv, hx⟩) h
  have hlines : Lines.split o.describe.toList =
      (o.fields.flatMap fun e => Lines.split (Object.fieldLine e)) ++ [[]] := by
    rw [Object.toList_describe, Lines.split_flatMap_ended]
  have hlength : (Lines.split o.describe.toList).length = o.fields.length + 1 ↔
      ∀ x ∈ o.shownNames, OneLine x := by
    rw [hlines, List.length_append, List.length_singleton, Nat.add_right_cancel_iff,
      Lines.length_flatMap_split_iff, Object.oneLine_fieldLines]
  refine ⟨hclass, hfields, hlength.symm, ⟨fun hone => ?_, fun heq => ?_⟩,
    fun x hx => hnames x (List.mem_cons_of_mem _ hx)⟩
  · have hsingle : ∀ e ∈ o.fields, Lines.split (Object.fieldLine e) = [Object.fieldLine e] :=
      fun e he => Lines.split_of_oneLine (o.oneLine_fieldLines.2 hone e he)
    rw [hlines, List.flatMap_congr hsingle, ← List.map_eq_flatMap]
    rfl
  · rw [← hlength, heq, List.length_append, List.length_map]
    rfl

/-- A note with a text of two lines and a pin of the board that it is kept on. -/
def Module.noted : Module where
  file := "note.mlir"
  span := default
  items := [
    .ofHardware ⟨⟨"Board", default⟩, [⟨"pin", default⟩], default⟩,
    .ofClass {
      name := ⟨"Note", default⟩
      params := [⟨⟨"text", default⟩, .string, default⟩]
      body := [
        ⟨some ⟨"pin", default⟩, .constant (.ref ⟨["Board", "pin"]⟩) .ref, default⟩,
        ⟨none, .field ⟨"text", default⟩ ⟨"text", default⟩ .string, default⟩,
        ⟨none, .field ⟨"pin", default⟩ ⟨"pin", default⟩ .ref, default⟩]
      span := default }]

/-- A text of two lines is shown on one. -/
theorem Registry.describe_noted_lines :
    Registry.build Module.noted (fun _ => "") = .ok (ofModule Module.noted) ∧
    ∃ o, (ofModule Module.noted).instantiate 8 "Note" [.string "buy\nmilk"] = some (.ok o) ∧
      (∀ x ∈ o.shownNames, OneLine x) ∧ (Lines.split o.describe.toList).length = 3 ∧
      Lines.split o.describe.toList =
        ["text: \"buy\\nmilk\"".toList, "pin: #om.ref<<@Board::@pin>>".toList, []] := by
  have hbuild : Registry.build Module.noted (fun _ => "") = .ok (ofModule Module.noted) := rfl
  have hnote : (ofModule Module.noted).instantiate 8 "Note" [.string "buy\nmilk"] =
      some (.ok _) := rfl
  obtain ⟨-, -, hlength, hlines, -⟩ := Registry.describe_lines hbuild hnote
  have hone := hlength.2 (by decide +kernel)
  exact ⟨hbuild, _, hnote, hone, hlength.1 hone, (hlines.1 hone).trans (by decide +kernel)⟩

/-- A class with a field whose name is a quoted symbol with a line feed in it. -/
def Source.brokenName : Source where
  name := "a.mlir"
  text := "om.class @A() \x7b\n  %x = om.constant 1 : i8\n"
    ++ "  om.class.field @\"a\\nb\", %x : i8\n\x7d\n"

theorem eq_ok_of_toOption {ε α : Type} {x : Except ε α} {a : α} (h : x.toOption = some a) :
    x = .ok a := by
  cases x with
  | error e => cases h
  | ok b => rw [Option.some.inj h]

/-- The module is loaded and accepted, and its only field is shown on two lines. -/
theorem Registry.describe_brokenName : ∃ m o, Source.brokenName.load = .ok m ∧
    Registry.build m Source.brokenName.quote = .ok (ofModule m) ∧
    (ofModule m).instantiate defaultMaxDepth "A" [] = some (.ok o) ∧
    o.fields.length = 1 ∧ o.describe = "a\nb: 1\n" ∧
    Lines.split o.describe.toList = [['a'], ['b', ':', ' ', '1'], []] ∧
    (Lines.split o.describe.toList).length ≠ o.fields.length + 1 := by
  have hshown : (Source.brokenName.load.toOption.bind fun m =>
      (Registry.build m Source.brokenName.quote).toOption.bind fun r =>
        ((r.instantiate defaultMaxDepth "A" []).bind Except.toOption).map fun o =>
          (o.fields.length, o.describe)) = some (1, "a\nb: 1\n") := by
    decide +kernel
  obtain ⟨m, hm, hshown⟩ := Option.bind_eq_some_iff.1 hshown
  obtain ⟨r, hr, hshown⟩ := Option.bind_eq_some_iff.1 hshown
  obtain ⟨o, ho, hshown⟩ := Option.map_eq_some_iff.1 hshown
  obtain ⟨res, hres, hok⟩ := Option.bind_eq_some_iff.1 ho
  obtain ⟨hlength, hdescribe⟩ := Prod.mk.inj hshown
  obtain ⟨-, rfl⟩ := Registry.build_eq_ok_iff.1 (eq_ok_of_toOption hr)
  rw [eq_ok_of_toOption hok] at hres
  have hlines : Lines.split o.describe.toList = [['a'], ['b', ':', ' ', '1'], []] := by
    rw [hdescribe]
    decide
  refine ⟨m, o, eq_ok_of_toOption hm, eq_ok_of_toOption hr, hres, hlength, hdescribe, hlines, ?_⟩
  rw [hlines, hlength]
  decide

end ObjectModel
