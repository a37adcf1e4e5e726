/-
**Modules as they are written.**

A module can be written down, one operation on a line.  This module says with which tokens, which
modules can be written at all, and when two modules differ in nothing but the places where they
stand.  The textual form leaves two choices, which make a style: whether there is a wrapper around
the items, and whether whole numbers have the form of the other constants.

Main definitions:

* `Module.unplaced` — a module without its places;
* `Style`, `Module.written` — the tokens of a module;
* `Module.Writable` — a module that can be written, which can be decided;
* `Module.text` — one text with these tokens.

Main results:

* `Module.spellable_written` — the tokens of a module that can be written have a spelling;
* `Module.spells_text` — its text spells them.
-/

import ObjectModel.Module
import ObjectModel.Proofs.Spelling

set_option relaxedAutoImplicit false
set_option autoImplicit false

namespace ObjectModel

/-! ### Modules without their places -/

/-- A name without its place. -/
def Ident.unplaced (x : Ident) : Ident := { x with span := default }

/-- A parameter without its places. -/
def Param.unplaced (p : Param) : Param := { p with name := p.name.unplaced, span := default }

/-- What an operation does, without places. -/
def Action.unplaced : Action → Action
  | constant value ty => constant value ty
  | object target actuals operandTys ty =>
      object target.unplaced (actuals.map Ident.unplaced) operandTys ty
  | listCreate elements elementTy => listCreate (elements.map Ident.unplaced) elementTy
  | tupleCreate elements elementTys => tupleCreate (elements.map Ident.unplaced) elementTys
  | mapCreate entries keyTy valueTy => mapCreate (entries.map Ident.unplaced) keyTy valueTy
  | field name value ty => field name.unplaced value.unplaced ty

/-- An operation without its places. -/
def Operation.unplaced (op : Operation) : Operation where
  result := op.result.map Ident.unplaced
  action := op.action.unplaced
  span := default

/-- A class without its places. -/
def ClassDecl.unplaced (c : ClassDecl) : ClassDecl where
  name := c.name.unplaced
  params := c.params.map Param.unplaced
  body := c.body.map Operation.unplaced
  span := default

/-- A hardware module without its places. -/
def HardwareModule.unplaced (h : HardwareModule) : HardwareModule where
  name := h.name.unplaced
  innerSymbols := h.innerSymbols.map Ident.unplaced
  span := default

/-- An item without its places. -/
def Item.unplaced : Item → Item
  | ofClass c => ofClass c.unplaced
  | ofHardware h => ofHardware h.unplaced
  | ofOperation op => ofOperation op.unplaced

/-- A module without its places. -/
def Module.unplaced (m : Module) : Module where
  file := m.file
  items := m.items.map Item.unplaced
  span := default

/-! ### The tokens of a module -/

/-- What the textual form leaves open. -/
structure Style where
  /-- Whether there is a wrapper around the items. -/
  wrapped : Bool
  /-- Whether whole numbers have the form of the other constants. -/
  named : Bool
  deriving DecidableEq, Inhabited

/-- Several things, with commas between them. -/
def commas (kss : List (List TokenKind)) : List TokenKind := List.intercalate [.comma] kss

@[simp] theorem commas_nil : commas [] = [] := rfl

@[simp] theorem commas_singleton (ks : List TokenKind) : commas [ks] = ks :=
  List.intercalate_singleton

theorem commas_cons_cons (ks ls : List TokenKind) (kss : List (List TokenKind)) :
    commas (ks :: ls :: kss) = ks ++ .comma :: commas (ls :: kss) := by
  rw [commas, List.intercalate_cons_cons, List.append_assoc]
  rfl

theorem commas_map_singleton {α : Type} (w : α → List TokenKind) (a : α) :
    commas ([a].map w) = w a :=
  commas_singleton (w a)

theorem commas_map_cons_cons {α : Type} (w : α → List TokenKind) (a b : α) (as : List α) :
    commas ((a :: b :: as).map w) = w a ++ .comma :: commas ((b :: as).map w) :=
  commas_cons_cons (w a) (w b) (as.map w)

/-- The word for whole numbers of a width. -/
def Ty.widthWord (n : UInt32) : String := "i" ++ toString n.toNat

mutual

/-- The tokens of a type. -/
def Ty.written : Ty → List TokenKind
  | .integer => [.typeName "om.integer"]
  | .bits n => [.word (Ty.widthWord n)]
  | .string => [.typeName "om.string"]
  | .ref => [.typeName "om.ref"]
  | .any => [.typeName "om.any"]
  | .list t => .typeName "om.list" :: .less :: (t.written ++ [.greater])
  | .map k v =>
      .typeName "om.map" :: .less :: (k.written ++ .comma :: (v.written ++ [.greater]))
  | .tuple ts => .word "tuple" :: .less :: (commas (Ty.writtenEach ts) ++ [.greater])
  | .object c => [.typeName "om.class.type", .less, .symbol c, .greater]

/-- The tokens of each type. -/
def Ty.writtenEach : List Ty → List (List TokenKind)
  | [] => []
  | t :: ts => t.written :: Ty.writtenEach ts

end

/-- The tokens of types with commas between them. -/
def Ty.writtenAll (ts : List Ty) : List TokenKind := commas (ts.map Ty.written)

namespace Attribute

/-- The tokens of a path. -/
def segments (names : List String) : List TokenKind :=
  List.intercalate [.doubleColon] (names.map fun name => [.symbol name])

theorem segments_cons_cons (name name' : String) (names : List String) :
    segments (name :: name' :: names) =
      .symbol name :: .doubleColon :: segments (name' :: names) := by
  rw [segments, List.map_cons, List.map_cons, List.intercalate_cons_cons]
  rfl

mutual

/-- The tokens of a constant. -/
def written (s : Style) : Attribute → List TokenKind
  | .integer n =>
      if s.named then [.attrName "om.integer", .less, .integer n, .greater] else [.integer n]
  | .string t => [.string t]
  | .list ty es =>
      .attrName "om.list" :: .less :: (ty.written ++ .comma :: .leftBracket ::
        (commas (elements s ty es) ++ [.rightBracket, .greater]))
  | .map ty es =>
      .attrName "om.map" :: .less :: (ty.written ++ .comma :: .leftBrace ::
        (commas (entries s es) ++ [.rightBrace, .greater]))
  | .ref p =>
      .attrName "om.ref" :: .less :: .less :: (segments p.segments ++ [.greater, .greater])

/-- The tokens of each element of a list, with its type behind it. -/
def elements (s : Style) (ty : Ty) : List Attribute → List (List TokenKind)
  | [] => []
  | a :: as => (written s a ++ .colon :: ty.written) :: elements s ty as

/-- The tokens of each entry of a map. -/
def entries (s : Style) : List (String × Attribute) → List (List TokenKind)
  | [] => []
  | (key, a) :: es => (.string key :: .equals :: written s a) :: entries s es

end

end Attribute

/-- The tokens of operands. -/
def Ident.writtenAll (xs : List Ident) : List TokenKind :=
  commas (xs.map fun x => [.value x.name])

/-- The tokens behind the name of an operation. -/
def Action.written (s : Style) : Action → List TokenKind
  | constant value ty => value.written s ++ .colon :: ty.written
  | object target actuals operandTys ty =>
      .symbol target.name :: .leftParen :: (Ident.writtenAll actuals ++ .rightParen :: .colon ::
        .leftParen :: (Ty.writtenAll operandTys ++ .rightParen :: .arrow :: ty.written))
  | listCreate elements elementTy => Ident.writtenAll elements ++ .colon :: elementTy.written
  | tupleCreate elements elementTys =>
      Ident.writtenAll elements ++ .colon :: Ty.writtenAll elementTys
  | mapCreate entries keyTy valueTy =>
      Ident.writtenAll entries ++ .colon :: (keyTy.written ++ .comma :: valueTy.written)
  | field name value ty =>
      .symbol name.name :: .comma :: .value value.name :: .colon :: ty.written

/-- The tokens before the name of an operation. -/
def Operation.writtenResult : Option Ident → List TokenKind
  | some x => [.value x.name, .equals]
  | none => []

/-- The tokens of an operation, which is a line. -/
def Operation.written (s : Style) (op : Operation) : List TokenKind :=
  Operation.writtenResult op.result ++ .word op.action.name :: (op.action.written s ++ [.newline])

/-- The tokens of a parameter. -/
def Param.written (p : Param) : List TokenKind := .value p.name.name :: .colon :: p.ty.written

/-- The tokens of a class. -/
def ClassDecl.written (s : Style) (c : ClassDecl) : List TokenKind :=
  .word "om.class" :: .symbol c.name.name :: .leftParen ::
    (commas (c.params.map Param.written) ++ .rightParen :: .leftBrace :: .newline ::
      (c.body.flatMap (Operation.written s) ++ [.rightBrace, .newline]))

/-- The line of a symbol inside a hardware module. -/
def Ident.writtenInner (x : Ident) : List TokenKind := [.word "sym", .symbol x.name, .newline]

/-- The tokens of a hardware module. -/
def HardwareModule.written (h : HardwareModule) : List TokenKind :=
  .word "hw.module" :: .symbol h.name.name :: .leftBrace :: .newline ::
    (h.innerSymbols.flatMap Ident.writtenInner ++ [.rightBrace, .newline])

/-- The tokens of an item. -/
def Item.written (s : Style) : Item → List TokenKind
  | ofClass c => c.written s
  | ofHardware h => h.written
  | ofOperation op => op.written s

/-- The tokens of a module. -/
def Module.written (s : Style) (m : Module) : List TokenKind :=
  let items := m.items.flatMap (Item.written s)
  if s.wrapped then .word "module" :: .leftBrace :: .newline :: (items ++ [.rightBrace, .newline])
  else items

/-- One text of a module. -/
def Module.text (s : Style) (m : Module) : String :=
  String.ofList (Token.spellAll (m.written s))

/-! ### Modules that can be written -/

/-- A name of a value has characters, and they are letters, digits and the three signs of names. -/
def Ident.IsName (x : Ident) : Prop :=
  x.name ≠ "" ∧ ∀ c ∈ x.name.toList, Token.isNameChar c = true

/-- A type that can be written: widths are positive. -/
inductive Ty.Writable : Ty → Prop where
  | integer : Writable .integer
  | bits {n : UInt32} (hn : 0 < n) : Writable (.bits n)
  | string : Writable .string
  | ref : Writable .ref
  | any : Writable .any
  | list {t : Ty} (ht : Writable t) : Writable (.list t)
  | map {k v : Ty} (hk : Writable k) (hv : Writable v) : Writable (.map k v)
  | tuple {ts : List Ty} (hts : ∀ t ∈ ts, Writable t) : Writable (.tuple ts)
  | object (c : String) : Writable (.object c)

/-- A constant that can be written: paths have segments. -/
inductive Attribute.Writable : Attribute → Prop where
  | integer (n : Int64) : Writable (.integer n)
  | string (s : String) : Writable (.string s)
  | list {ty : Ty} {es : List Attribute} (hty : ty.Writable) (hes : ∀ a ∈ es, Writable a) :
      Writable (.list ty es)
  | map {ty : Ty} {es : List (String × Attribute)} (hty : ty.Writable)
      (hes : ∀ e ∈ es, Writable e.2) : Writable (.map ty es)
  | ref {p : SymbolPath} (hp : p.segments ≠ []) : Writable (.ref p)

/-- What an operation does can be written: objects and tuples have a type for each operand. -/
inductive Action.Writable : Action → Prop where
  | constant {value : Attribute} {ty : Ty} (hvalue : value.Writable) (hty : ty.Writable) :
      Writable (.constant value ty)
  | object {target : Ident} {actuals : List Ident} {operandTys : List Ty} {ty : Ty}
      (hactuals : ∀ x ∈ actuals, x.IsName) (htys : ∀ t ∈ operandTys, t.Writable)
      (hlen : operandTys.length = actuals.length) (hty : ty.Writable) :
      Writable (.object target actuals operandTys ty)
  | listCreate {elements : List Ident} {elementTy : Ty} (helements : ∀ x ∈ elements, x.IsName)
      (hty : elementTy.Writable) : Writable (.listCreate elements elementTy)
  | tupleCreate {elements : List Ident} {elementTys : List Ty}
      (helements : ∀ x ∈ elements, x.IsName) (htys : ∀ t ∈ elementTys, t.Writable)
      (hlen : elementTys.length = elements.length) : Writable (.tupleCreate elements elementTys)
  | mapCreate {entries : List Ident} {keyTy valueTy : Ty} (hentries : ∀ x ∈ entries, x.IsName)
      (hkey : keyTy.Writable) (hvalue : valueTy.Writable) :
      Writable (.mapCreate entries keyTy valueTy)
  | field {name value : Ident} {ty : Ty} (hvalue : value.IsName) (hty : ty.Writable) :
      Writable (.field name value ty)

/-- An operation can be written: fields, and only fields, define no value. -/
structure Operation.Writable (op : Operation) : Prop where
  result : ∀ x ∈ op.result, x.IsName
  action : op.action.Writable
  isField_iff : op.action.isField = true ↔ op.result = none

/-- A class can be written. -/
structure ClassDecl.Writable (c : ClassDecl) : Prop where
  params : ∀ p ∈ c.params, p.name.IsName ∧ p.ty.Writable
  body : ∀ op ∈ c.body, op.Writable

/-- An item can be written: outside of classes there are no fields. -/
inductive Item.Writable : Item → Prop where
  | ofClass {c : ClassDecl} (hc : c.Writable) : Writable (.ofClass c)
  | ofHardware (h : HardwareModule) : Writable (.ofHardware h)
  | ofOperation {op : Operation} (hop : op.Writable) (hfield : op.action.isField = false) :
      Writable (.ofOperation op)

/-- A module can be written. -/
def Module.Writable (m : Module) : Prop := ∀ item ∈ m.items, item.Writable

/-! ### Whether a module can be written -/

instance (x : Ident) : Decidable x.IsName :=
  decidable_of_iff (x.name ≠ "" ∧ x.name.toList.all Token.isNameChar = true)
    (by rw [List.all_eq_true]; rfl)

mutual

/-- Whether a type can be written. -/
def Ty.decideWritable : (t : Ty) → Decidable t.Writable
  | .integer => isTrue .integer
  | .bits n => decidable_of_iff (0 < n) ⟨.bits, fun | .bits hn => hn⟩
  | .string => isTrue .string
  | .ref => isTrue .ref
  | .any => isTrue .any
  | .list t =>
      have := Ty.decideWritable t
      decidable_of_iff t.Writable ⟨.list, fun | .list ht => ht⟩
  | .map k v =>
      have := Ty.decideWritable k
      have := Ty.decideWritable v
      decidable_of_iff (k.Writable ∧ v.Writable)
        ⟨fun h => .map h.1 h.2, fun | .map hk hv => ⟨hk, hv⟩⟩
  | .tuple ts =>
      have := Ty.decideWritableEach ts
      decidable_of_iff (∀ t ∈ ts, t.Writable) ⟨.tuple, fun | .tuple hts => hts⟩
  | .object c => isTrue (.object c)

/-- Whether each of several types can be written. -/
def Ty.decideWritableEach : (ts : List Ty) → Decidable (∀ t ∈ ts, t.Writable)
  | [] => isTrue (by simp)
  | t :: ts =>
      have := Ty.decideWritable t
      have := Ty.decideWritableEach ts
      decidable_of_iff (t.Writable ∧ ∀ u ∈ ts, u.Writable) List.forall_mem_cons.symm

end

instance : DecidablePred Ty.Writable := Ty.decideWritable

namespace Attribute

mutual

/-- Whether a constant can be written. -/
def decideWritable : (a : Attribute) → Decidable a.Writable
  | .integer n => isTrue (.integer n)
  | .string s => isTrue (.string s)
  | .list ty es =>
      have := decideWritableElements es
      decidable_of_iff (ty.Writable ∧ ∀ a ∈ es, a.Writable)
        ⟨fun h => .list h.1 h.2, fun | .list hty hes => ⟨hty, hes⟩⟩
  | .map ty es =>
      have := decideWritableEntries es
      decidable_of_iff (ty.Writable ∧ ∀ e ∈ es, e.2.Writable)
        ⟨fun h => .map h.1 h.2, fun | .map hty hes => ⟨hty, hes⟩⟩
  | .ref p => decidable_of_iff (p.segments ≠ []) ⟨.ref, fun | .ref hp => hp⟩

/-- Whether each element of a list can be written. -/
def decideWritableElements : (es : List Attribute) → Decidable (∀ a ∈ es, a.Writable)
  | [] => isTrue (by simp)
  | a :: es =>
      have := decideWritable a
      have := decideWritableElements es
      decidable_of_iff (a.Writable ∧ ∀ b ∈ es, b.Writable) List.forall_mem_cons.symm

/-- Whether each value of a map can be written. -/
def decideWritableEntries :
    (es : List (String × Attribute)) → Decidable (∀ e ∈ es, e.2.Writable)
  | [] => isTrue (by simp)
  | (key, a) :: es =>
      have := decideWritable a
      have := decideWritableEntries es
      decidable_of_iff (a.Writable ∧ ∀ e ∈ es, e.2.Writable)
        (by rw [List.forall_mem_cons])

end

instance : DecidablePred Attribute.Writable := decideWritable

end Attribute

instance : DecidablePred Action.Writable
  | .constant value ty =>
      decidable_of_iff (value.Writable ∧ ty.Writable)
        ⟨fun h => .constant h.1 h.2, fun | .constant hvalue hty => ⟨hvalue, hty⟩⟩
  | .object _ actuals operandTys ty =>
      decidable_of_iff ((∀ x ∈ actuals, x.IsName) ∧ (∀ t ∈ operandTys, t.Writable) ∧
          operandTys.length = actuals.length ∧ ty.Writable)
        ⟨fun h => .object h.1 h.2.1 h.2.2.1 h.2.2.2,
          fun | .object hactuals htys hlen hty => ⟨hactuals, htys, hlen, hty⟩⟩
  | .listCreate elements elementTy =>
      decidable_of_iff ((∀ x ∈ elements, x.IsName) ∧ elementTy.Writable)
        ⟨fun h => .listCreate h.1 h.2, fun | .listCreate helements hty => ⟨helements, hty⟩⟩
  | .tupleCreate elements elementTys =>
      decidable_of_iff ((∀ x ∈ elements, x.IsName) ∧ (∀ t ∈ elementTys, t.Writable) ∧
          elementTys.length = elements.length)
        ⟨fun h => .tupleCreate h.1 h.2.1 h.2.2,
          fun | .tupleCreate helements htys hlen => ⟨helements, htys, hlen⟩⟩
  | .mapCreate entries keyTy valueTy =>
      decidable_of_iff ((∀ x ∈ entries, x.IsName) ∧ keyTy.Writable ∧ valueTy.Writable)
        ⟨fun h => .mapCreate h.1 h.2.1 h.2.2,
          fun | .mapCreate hentries hkey hvalue => ⟨hentries, hkey, hvalue⟩⟩
  | .field _ value ty =>
      decidable_of_iff (value.IsName ∧ ty.Writable)
        ⟨fun h => .field h.1 h.2, fun | .field hvalue hty => ⟨hvalue, hty⟩⟩

instance : DecidablePred Operation.Writable := fun op =>
  decidable_of_iff ((∀ x ∈ op.result, x.IsName) ∧ op.action.Writable ∧
      (op.action.isField = true ↔ op.result = none))
    ⟨fun h => ⟨h.1, h.2.1, h.2.2⟩, fun h => ⟨h.result, h.action, h.isField_iff⟩⟩

instance : DecidablePred ClassDecl.Writable := fun c =>
  decidable_of_iff ((∀ p ∈ c.params, p.name.IsName ∧ p.ty.Writable) ∧ ∀ op ∈ c.body, op.Writable)
    ⟨fun h => ⟨h.1, h.2⟩, fun h => ⟨h.params, h.body⟩⟩

instance : DecidablePred Item.Writable
  | .ofClass c => decidable_of_iff c.Writable ⟨.ofClass, fun | .ofClass hc => hc⟩
  | .ofHardware h => isTrue (.ofHardware h)
  | .ofOperation op =>
      decidable_of_iff (op.Writable ∧ op.action.isField = false)
        ⟨fun h => .ofOperation h.1 h.2, fun | .ofOperation hop hfield => ⟨hop, hfield⟩⟩

instance : DecidablePred Module.Writable := fun m =>
  inferInstanceAs (Decidable (∀ item ∈ m.items, item.Writable))

/-! ### Spellings -/

theorem Ty.writtenEach_eq (ts : List Ty) : Ty.writtenEach ts = ts.map Ty.written := by
  induction ts with
  | nil => rfl
  | cons t ts ih => rw [Ty.writtenEach, ih, List.map_cons]

theorem Attribute.elements_eq (s : Style) (ty : Ty) (as : List Attribute) :
    Attribute.elements s ty as = as.map fun a => a.written s ++ .colon :: ty.written := by
  induction as with
  | nil => rfl
  | cons a as ih => rw [Attribute.elements, ih, List.map_cons]

theorem Attribute.entries_eq (s : Style) (es : List (String × Attribute)) :
    Attribute.entries s es = es.map fun e => .string e.1 :: .equals :: e.2.written s := by
  induction es with
  | nil => rfl
  | cons e es ih => rw [Attribute.entries, ih, List.map_cons]

theorem all_intercalate {α : Type} {p : α → Bool} {sep : List α} {xss : List (List α)}
    (hsep : sep.all p = true) (h : ∀ xs ∈ xss, xs.all p = true) :
    (List.intercalate sep xss).all p = true := by
  induction xss with
  | nil => rfl
  | cons xs xss ih =>
      have htail := ih fun ys hys => h ys (List.mem_cons_of_mem _ hys)
      cases xss with
      | nil =>
          rw [List.intercalate_singleton]
          exact h xs List.mem_cons_self
      | cons ys yss =>
          rw [List.intercalate_cons_cons, List.all_append, List.all_append, hsep, htail,
            h xs List.mem_cons_self]
          rfl

/-- All tokens of a list can be written. -/
def Spellable (ks : List TokenKind) : Prop := ks.all TokenKind.spellable = true

@[simp] theorem spellable_nil : Spellable [] := rfl

@[simp] theorem spellable_cons {k : TokenKind} {ks : List TokenKind} :
    Spellable (k :: ks) ↔ k.spellable = true ∧ Spellable ks := by
  rw [Spellable, List.all_cons, Bool.and_eq_true]
  rfl

@[simp] theorem spellable_append {ks ls : List TokenKind} :
    Spellable (ks ++ ls) ↔ Spellable ks ∧ Spellable ls := by
  rw [Spellable, List.all_append, Bool.and_eq_true]
  rfl

theorem spellable_commas {kss : List (List TokenKind)} (h : ∀ ks ∈ kss, Spellable ks) :
    Spellable (commas kss) :=
  all_intercalate rfl h

theorem spellable_flatMap {α : Type} {f : α → List TokenKind} {as : List α}
    (h : ∀ a ∈ as, Spellable (f a)) : Spellable (as.flatMap f) := by
  induction as with
  | nil => exact spellable_nil
  | cons a as ih =>
      rw [List.flatMap_cons, spellable_append]
      exact ⟨h a List.mem_cons_self, ih fun b hb => h b (List.mem_cons_of_mem _ hb)⟩

theorem Ident.IsName.spellable {x : Ident} (h : x.IsName) :
    (TokenKind.value x.name).spellable = true := by
  rw [TokenKind.spellable, Bool.and_eq_true, bne_iff_ne, List.all_eq_true]
  exact h

/-- The word for a width is a letter and digits. -/
theorem Ty.toList_widthWord (n : UInt32) :
    (Ty.widthWord n).toList = 'i' :: Nat.toDigits 10 n.toNat := by
  have hdigits : (toString n.toNat).toList = Nat.toDigits 10 n.toNat := by
    change (Nat.repr n.toNat).toList = _
    rw [Nat.repr_eq_ofList_toDigits, String.toList_ofList]
  rw [Ty.widthWord, String.toList_append, hdigits]
  rfl

theorem Ty.spellable_widthWord (n : UInt32) :
    (TokenKind.word (Ty.widthWord n)).spellable = true := by
  have hdigits : (Nat.toDigits 10 n.toNat).all Token.isNameChar = true :=
    List.all_eq_true.2 fun c hc => by
      have hc : c.isDigit = true := List.all_eq_true.1 (Decimal.all_isDigit_toDigits _) c hc
      simp [Token.isNameChar, Char.isAlphanum, hc]
  rw [TokenKind.spellable, Ty.toList_widthWord]
  exact hdigits

mutual

theorem Ty.spellable_written : ∀ {t : Ty}, t.Writable → Spellable t.written
  | .integer, _ | .string, _ | .ref, _ | .any, _ | .object _, _ => rfl
  | .bits n, _ => by simp [Ty.written, Ty.spellable_widthWord]
  | .list t, .list ht => by simp +decide [Ty.written, Ty.spellable_written ht]
  | .map k v, .map hk hv => by
      simp +decide [Ty.written, Ty.spellable_written hk, Ty.spellable_written hv]
  | .tuple ts, .tuple hts => by
      simp +decide [Ty.written, spellable_commas (Ty.spellable_writtenEach hts)]

theorem Ty.spellable_writtenEach :
    ∀ {ts : List Ty}, (∀ t ∈ ts, t.Writable) → ∀ ks ∈ Ty.writtenEach ts, Spellable ks
  | [], _ => by simp [Ty.writtenEach]
  | t :: ts, h => by
      rw [Ty.writtenEach, List.forall_mem_cons]
      exact ⟨Ty.spellable_written (h t List.mem_cons_self),
        Ty.spellable_writtenEach fun u hu => h u (List.mem_cons_of_mem _ hu)⟩

end

theorem Ty.spellable_writtenAll {ts : List Ty} (h : ∀ t ∈ ts, t.Writable) :
    Spellable (Ty.writtenAll ts) :=
  spellable_commas fun _ hks => by
    obtain ⟨t, ht, rfl⟩ := List.mem_map.1 hks
    exact Ty.spellable_written (h t ht)

theorem Attribute.spellable_segments (names : List String) :
    Spellable (Attribute.segments names) :=
  all_intercalate rfl fun _ hks => by
    obtain ⟨name, -, rfl⟩ := List.mem_map.1 hks
    rfl

mutual

theorem Attribute.spellable_written (s : Style) :
    ∀ {a : Attribute}, a.Writable → Spellable (a.written s)
  | .integer n, _ => by
      rw [Attribute.written]
      split <;> rfl
  | .string _, _ => rfl
  | .list ty es, .list hty hes => by
      simp +decide [Attribute.written, Ty.spellable_written hty,
        spellable_commas (Attribute.spellable_elements s hty hes)]
  | .map ty es, .map hty hes => by
      simp +decide [Attribute.written, Ty.spellable_written hty,
        spellable_commas (Attribute.spellable_entries s hes)]
  | .ref p, _ => by simp +decide [Attribute.written, Attribute.spellable_segments]

theorem Attribute.spellable_elements (s : Style) {ty : Ty} (hty : ty.Writable) :
    ∀ {as : List Attribute}, (∀ a ∈ as, a.Writable) →
      ∀ ks ∈ Attribute.elements s ty as, Spellable ks
  | [], _ => by simp [Attribute.elements]
  | a :: as, h => by
      rw [Attribute.elements, List.forall_mem_cons]
      refine ⟨?_, Attribute.spellable_elements s hty fun b hb => h b (List.mem_cons_of_mem _ hb)⟩
      simp +decide [Attribute.spellable_written s (h a List.mem_cons_self),
        Ty.spellable_written hty]

theorem Attribute.spellable_entries (s : Style) :
    ∀ {es : List (String × Attribute)}, (∀ e ∈ es, e.2.Writable) →
      ∀ ks ∈ Attribute.entries s es, Spellable ks
  | [], _ => by simp [Attribute.entries]
  | (key, a) :: es, h => by
      rw [Attribute.entries, List.forall_mem_cons]
      refine ⟨?_, Attribute.spellable_entries s fun e he => h e (List.mem_cons_of_mem _ he)⟩
      simp +decide [Attribute.spellable_written s (h (key, a) List.mem_cons_self)]

end

theorem Ident.spellable_writtenAll {xs : List Ident} (h : ∀ x ∈ xs, x.IsName) :
    Spellable (Ident.writtenAll xs) :=
  spellable_commas fun _ hks => by
    obtain ⟨x, hx, rfl⟩ := List.mem_map.1 hks
    simp [(h x hx).spellable]

theorem Action.spellable_written (s : Style) {a : Action} (h : a.Writable) :
    Spellable (a.written s) := by
  cases h with
  | constant hvalue hty =>
      simp +decide [Action.written, Attribute.spellable_written s hvalue,
        Ty.spellable_written hty]
  | object hactuals htys hlen hty =>
      simp +decide [Action.written, Ident.spellable_writtenAll hactuals,
        Ty.spellable_writtenAll htys, Ty.spellable_written hty]
  | listCreate helements hty =>
      simp +decide [Action.written, Ident.spellable_writtenAll helements,
        Ty.spellable_written hty]
  | tupleCreate helements htys hlen =>
      simp +decide [Action.written, Ident.spellable_writtenAll helements,
        Ty.spellable_writtenAll htys]
  | mapCreate hentries hkey hvalue =>
      simp +decide [Action.written, Ident.spellable_writtenAll hentries,
        Ty.spellable_written hkey, Ty.spellable_written hvalue]
  | field hvalue hty =>
      simp +decide [Action.written, hvalue.spellable, Ty.spellable_written hty]

theorem Operation.spellable_written (s : Style) {op : Operation} (h : op.Writable) :
    Spellable (op.written s) := by
  have hname : (TokenKind.word op.action.name).spellable = true := by
    cases op.action <;> (rw [Action.name]; decide)
  have hresult : Spellable (Operation.writtenResult op.result) := by
    cases hr : op.result with
    | none => exact spellable_nil
    | some x => simp +decide [Operation.writtenResult, (h.result x hr).spellable]
  simp +decide [Operation.written, hresult, hname, Action.spellable_written s h.action]

theorem ClassDecl.spellable_written (s : Style) {c : ClassDecl} (h : c.Writable) :
    Spellable (c.written s) := by
  have hparams : Spellable (commas (c.params.map Param.written)) :=
    spellable_commas fun _ hks => by
      obtain ⟨p, hp, rfl⟩ := List.mem_map.1 hks
      simp +decide [Param.written, (h.params p hp).1.spellable,
        Ty.spellable_written (h.params p hp).2]
  have hbody : Spellable (c.body.flatMap (Operation.written s)) :=
    spellable_flatMap fun op hop => Operation.spellable_written s (h.body op hop)
  simp +decide [ClassDecl.written, hparams, hbody]

theorem HardwareModule.spellable_written (h : HardwareModule) : Spellable h.written := by
  have hinner : Spellable (h.innerSymbols.flatMap Ident.writtenInner) :=
    spellable_flatMap fun x _ => by simp +decide [Ident.writtenInner]
  simp +decide [HardwareModule.written, hinner]

/-- The tokens of a module that can be written have a spelling. -/
theorem Module.spellable_written (s : Style) {m : Module} (h : m.Writable) :
    Spellable (m.written s) := by
  have hitems : Spellable (m.items.flatMap (Item.written s)) :=
    spellable_flatMap fun item hitem => by
      cases h item hitem with
      | ofClass hc => exact ClassDecl.spellable_written s hc
      | ofHardware h => exact h.spellable_written
      | ofOperation hop _ => exact Operation.spellable_written s hop
  rw [Module.written]
  split
  · simp +decide [hitems]
  · exact hitems

/-- The text of a module spells its tokens. -/
theorem Module.spells_text (s : Style) (m : Module) :
    Token.Spells (m.written s) (m.text s).toList := by
  rw [Module.text, String.toList_ofList]
  exact Token.spells_spellAll _

example :
    Module.text ⟨false, false⟩ ⟨"", [.ofOperation
      ⟨some ⟨"x", default⟩, .constant (.map .string [("a\n", .integer (-1))]) .any, default⟩],
        default⟩ =
      " %x = om.constant #om.map < !om.string , \x7b \"a\\n\" = -1 \x7d > : !om.any\n" := rfl

end ObjectModel
