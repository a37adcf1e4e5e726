/-
**The grammar of operations.**

An operation is a line of tokens.  Which lines are operations, and which operation a line is, is
said here by rules that derive lines, one rule for each form, and nothing is said about reading
them.  Where a list stands in a line, its items have exactly one comma between neighbours, and
there is none before the first or behind the last.

Main definitions:

* `Commas`, `CommaList` — lists of items with commas between them;
* `Ty.Derives`, `Attribute.Derives` — the types and the constants;
* `Action.Derives`, `Operation.Derives` — the operations, for any way to write operands;
* `OperandList`, `HangingList` — operands in a list, and operands with one more comma behind them;
* `Tight` — a line without a comma right before a colon or a closing parenthesis.

Main results:

* `tight_of_operation` — **every line of the grammar is tight**.
-/

import Mathlib.Data.List.Chain
import ObjectModel.Module
import ObjectModel.Text.Decimal
import ObjectModel.Token

set_option relaxedAutoImplicit false
set_option autoImplicit false

namespace ObjectModel

/-! ### Lists -/

/-- Items, at least one, with exactly one comma between neighbours. -/
inductive Commas {α : Type} (item : List Token → α → Prop) : List Token → List α → Prop where
  | one {ts : List Token} {a : α} (h : item ts a) : Commas item ts [a]
  | cons {ts us : List Token} {a : α} {as : List α} {s : Span} (h : item ts a)
      (hrest : Commas item us as) : Commas item (ts ++ ⟨.comma, s⟩ :: us) (a :: as)

/-- Items with exactly one comma between neighbours, or none at all. -/
inductive CommaList {α : Type} (item : List Token → α → Prop) : List Token → List α → Prop where
  | nil : CommaList item [] []
  | some {ts : List Token} {as : List α} (h : Commas item ts as) : CommaList item ts as

/-! ### Types -/

/-- The tokens of a type. -/
inductive Ty.Derives : List Token → Ty → Prop where
  | integer {s : Span} : Derives [⟨.typeName "om.integer", s⟩] .integer
  | string {s : Span} : Derives [⟨.typeName "om.string", s⟩] .string
  | ref {s : Span} : Derives [⟨.typeName "om.ref", s⟩] .ref
  | any {s : Span} : Derives [⟨.typeName "om.any", s⟩] .any
  /-- The letter `i` and a width, which is a positive word of 32 bits. -/
  | bits {s : Span} {digits : List Char} {width : Nat} (hdigits : digits ≠ [])
      (hall : ∀ d ∈ digits, d.isDigit = true) (hwidth : Decimal.ofDigits digits = width)
      (hpos : 0 < width) (hlt : width < UInt32.size) :
      Derives [⟨.word (String.ofList ('i' :: digits)), s⟩] (.bits (.ofNat width))
  | list {s s₁ s₂ : Span} {ts : List Token} {element : Ty} (h : Derives ts element) :
      Derives (⟨.typeName "om.list", s⟩ :: ⟨.less, s₁⟩ :: (ts ++ [⟨.greater, s₂⟩]))
        (.list element)
  | map {s s₁ s₂ s₃ : Span} {ks vs : List Token} {key value : Ty} (hkey : Derives ks key)
      (hvalue : Derives vs value) :
      Derives (⟨.typeName "om.map", s⟩ :: ⟨.less, s₁⟩ ::
        (ks ++ ⟨.comma, s₂⟩ :: (vs ++ [⟨.greater, s₃⟩]))) (.map key value)
  | object {s s₁ s₂ s₃ : Span} {name : String} :
      Derives [⟨.typeName "om.class.type", s⟩, ⟨.less, s₁⟩, ⟨.symbol name, s₂⟩, ⟨.greater, s₃⟩]
        (.object name)
  | tuple {s s₁ s₂ : Span} {ts : List Token} {elements : List Ty}
      (h : CommaList Derives ts elements) :
      Derives (⟨.word "tuple", s⟩ :: ⟨.less, s₁⟩ :: (ts ++ [⟨.greater, s₂⟩])) (.tuple elements)

/-! ### Constants -/

/-- Something with a type behind it, or without one. -/
inductive Annotated {α : Type} (item : List Token → α → Prop) : List Token → α → Prop where
  | bare {ts : List Token} {a : α} (h : item ts a) : Annotated item ts a
  | typed {ts us : List Token} {a : α} {s : Span} {ty : Ty} (h : item ts a)
      (hty : ty.Derives us) : Annotated item (ts ++ ⟨.colon, s⟩ :: us) a

/-- A key, which is a word or a text, and the value behind it. -/
inductive Keyed {α : Type} (item : List Token → α → Prop) :
    List Token → String × α → Prop where
  | word {s s₁ : Span} {key : String} {ts : List Token} {a : α} (h : item ts a) :
      Keyed item (⟨.word key, s⟩ :: ⟨.equals, s₁⟩ :: ts) (key, a)
  | text {s s₁ : Span} {key : String} {ts : List Token} {a : α} (h : item ts a) :
      Keyed item (⟨.string key, s⟩ :: ⟨.equals, s₁⟩ :: ts) (key, a)

/-- Names of symbols, at least one, with double colons between them. -/
inductive SymbolPath.Derives : List Token → List String → Prop where
  | one {s : Span} {name : String} : Derives [⟨.symbol name, s⟩] [name]
  | cons {s s₁ : Span} {name : String} {ts : List Token} {names : List String}
      (h : Derives ts names) :
      Derives (⟨.symbol name, s⟩ :: ⟨.doubleColon, s₁⟩ :: ts) (name :: names)

/-- The tokens of a constant. -/
inductive Attribute.Derives : List Token → Attribute → Prop where
  | integer {s : Span} {n : Int64} : Derives [⟨.integer n, s⟩] (.integer n)
  | integerForm {s s₁ s₂ s₃ : Span} {n : Int64} :
      Derives [⟨.attrName "om.integer", s⟩, ⟨.less, s₁⟩, ⟨.integer n, s₂⟩, ⟨.greater, s₃⟩]
        (.integer n)
  | string {s : Span} {text : String} : Derives [⟨.string text, s⟩] (.string text)
  | list {s s₁ s₂ s₃ s₄ s₅ : Span} {tys ts : List Token} {elementTy : Ty}
      {elements : List Attribute} (hty : elementTy.Derives tys)
      (h : CommaList (Annotated Derives) ts elements) :
      Derives (⟨.attrName "om.list", s⟩ :: ⟨.less, s₁⟩ :: (tys ++ ⟨.comma, s₂⟩ ::
        ⟨.leftBracket, s₃⟩ :: (ts ++ [⟨.rightBracket, s₄⟩, ⟨.greater, s₅⟩])))
        (.list elementTy elements)
  | map {s s₁ s₂ s₃ s₄ s₅ : Span} {tys ts : List Token} {valueTy : Ty}
      {entries : List (String × Attribute)} (hty : valueTy.Derives tys)
      (h : CommaList (Keyed (Annotated Derives)) ts entries) :
      Derives (⟨.attrName "om.map", s⟩ :: ⟨.less, s₁⟩ :: (tys ++ ⟨.comma, s₂⟩ ::
        ⟨.leftBrace, s₃⟩ :: (ts ++ [⟨.rightBrace, s₄⟩, ⟨.greater, s₅⟩])))
        (.map valueTy entries)
  | ref {s s₁ s₂ s₃ s₄ : Span} {ts : List Token} {segments : List String}
      (h : SymbolPath.Derives ts segments) :
      Derives (⟨.attrName "om.ref", s⟩ :: ⟨.less, s₁⟩ :: ⟨.less, s₂⟩ ::
        (ts ++ [⟨.greater, s₃⟩, ⟨.greater, s₄⟩])) (.ref ⟨segments⟩)

/-! ### Operations -/

/-- The token of the name of a value. -/
def Ident.valueToken (x : Ident) : Token := ⟨.value x.name, x.span⟩

/-- The token of the name of a symbol. -/
def Ident.symbolToken (x : Ident) : Token := ⟨.symbol x.name, x.span⟩

/-- Operands in a list. -/
abbrev OperandList : List Token → List Ident → Prop :=
  CommaList fun ts x => ts = [x.valueToken]

/-- Operands, at least one, with one more comma behind the last of them. -/
def HangingList (ts : List Token) (xs : List Ident) : Prop :=
  ∃ us s, ts = us ++ [⟨.comma, s⟩] ∧ Commas (fun ts x => ts = [x.valueToken]) us xs

/-- What stands behind the name of an operation that defines a value. -/
inductive Action.Derives (operands : List Token → List Ident → Prop) :
    List Token → Action → Prop where
  | constant {s : Span} {vs ts : List Token} {value : Attribute} {ty : Ty}
      (hvalue : value.Derives vs) (hty : ty.Derives ts) :
      Derives operands (vs ++ ⟨.colon, s⟩ :: ts) (.constant value ty)
  | object {s s₁ s₂ s₃ s₄ s₅ : Span} {target : Ident} {xs us ts : List Token}
      {actuals : List Ident} {operandTys : List Ty} {ty : Ty} (hactuals : operands xs actuals)
      (htys : CommaList Ty.Derives us operandTys) (hty : ty.Derives ts) :
      Derives operands (target.symbolToken :: ⟨.leftParen, s⟩ :: (xs ++ ⟨.rightParen, s₁⟩ ::
        ⟨.colon, s₂⟩ :: ⟨.leftParen, s₃⟩ :: (us ++ ⟨.rightParen, s₄⟩ :: ⟨.arrow, s₅⟩ :: ts)))
        (.object target actuals operandTys ty)
  | listCreate {s : Span} {xs ts : List Token} {elements : List Ident} {elementTy : Ty}
      (helements : operands xs elements) (hty : elementTy.Derives ts) :
      Derives operands (xs ++ ⟨.colon, s⟩ :: ts) (.listCreate elements elementTy)
  | tupleCreate {s : Span} {xs ts : List Token} {elements : List Ident} {elementTys : List Ty}
      (helements : operands xs elements) (htys : CommaList Ty.Derives ts elementTys) :
      Derives operands (xs ++ ⟨.colon, s⟩ :: ts) (.tupleCreate elements elementTys)
  | mapCreate {s s₁ : Span} {xs ts us : List Token} {entries : List Ident} {keyTy valueTy : Ty}
      (hentries : operands xs entries) (hkey : keyTy.Derives ts) (hvalue : valueTy.Derives us) :
      Derives operands (xs ++ ⟨.colon, s⟩ :: (ts ++ ⟨.comma, s₁⟩ :: us))
        (.mapCreate entries keyTy valueTy)

/-- The span from the first to the last of several tokens. -/
def lineSpan : List Token → Span
  | [] => .point .origin
  | t :: ts => t.span.merge (ts.getLastD t).span

/-- The tokens of an operation, and where it stands. -/
inductive Operation.Derives (operands : List Token → List Ident → Prop) :
    List Token → Operation → Prop where
  | value {line ts : List Token} {s s₁ : Span} {x : Ident} {a : Action}
      (h : a.Derives operands ts)
      (hline : line = x.valueToken :: ⟨.equals, s⟩ :: ⟨.word a.name, s₁⟩ :: ts) :
      Derives operands line ⟨some x, a, lineSpan line⟩
  | field {line ts : List Token} {s s₁ s₂ : Span} {name value : Ident} {ty : Ty}
      (h : ty.Derives ts)
      (hline : line = ⟨.word "om.class.field", s⟩ :: name.symbolToken :: ⟨.comma, s₁⟩ ::
        value.valueToken :: ⟨.colon, s₂⟩ :: ts) :
      Derives operands line ⟨none, .field name value ty, lineSpan line⟩

/-! ### Commas in a line -/

/-- No comma stands right before a colon or a closing parenthesis. -/
def Tight (line : List Token) : Prop :=
  line.IsChain fun t u => t.kind = .comma → u.kind ≠ .colon ∧ u.kind ≠ .rightParen

/-- The tokens can stand before any others that are tight. -/
def Snug (ts : List Token) : Prop := ∀ us, Tight us → Tight (ts ++ us)

namespace Snug

variable {ts us : List Token}

theorem nil : Snug [] := fun _ h => h

theorem append (h : Snug ts) (h' : Snug us) : Snug (ts ++ us) := by
  intro vs hvs
  rw [List.append_assoc]
  exact h _ (h' _ hvs)

theorem cons {t : Token} (h : Snug ts) (ht : t.kind ≠ .comma) : Snug (t :: ts) :=
  fun us hus => (h us hus).cons fun _ _ hcomma => absurd hcomma ht

theorem greater (s : Span) : Snug [⟨.greater, s⟩] := nil.cons nofun

theorem tight (h : Snug ts) : Tight ts := by
  have htight := h [] .nil
  rwa [List.append_nil] at htight

end Snug

/-- The tokens can stand behind a comma too. -/
structure Listable (ts : List Token) : Prop where
  snug : Snug ts
  starts : ∃ t us, ts = t :: us ∧ t.kind ≠ .colon ∧ t.kind ≠ .rightParen

namespace Listable

variable {ts us : List Token}

theorem comma (h : Listable ts) (s : Span) : Snug (⟨.comma, s⟩ :: ts) := by
  intro us hus
  obtain ⟨t, ts', rfl, ht⟩ := h.starts
  exact .cons_cons (fun _ => ht) (h.snug us hus)

theorem cons {t : Token} (h : Snug ts) (hcomma : t.kind ≠ .comma) (hcolon : t.kind ≠ .colon)
    (hparen : t.kind ≠ .rightParen) : Listable (t :: ts) :=
  ⟨h.cons hcomma, t, ts, rfl, hcolon, hparen⟩

theorem append (h : Listable ts) (h' : Snug us) : Listable (ts ++ us) := by
  obtain ⟨hsnug, t, ts', rfl, ht⟩ := h
  exact ⟨hsnug.append h', t, ts' ++ us, rfl, ht⟩

end Listable

-- The rules for types and for constants go through the lists they contain, and so do the proofs.

mutual

theorem listable_of_ty {ts : List Token} {t : Ty} : t.Derives ts → Listable ts
  | .integer | .string | .ref | .any | .bits .. => .cons .nil nofun nofun nofun
  | .list h =>
      .cons (.cons ((listable_of_ty h).snug.append (.greater _)) nofun) nofun nofun nofun
  | .map hkey hvalue => by
      refine .cons (.cons ((listable_of_ty hkey).snug.append ?_) nofun) nofun nofun nofun
      exact ((listable_of_ty hvalue).append (.greater _)).comma _
  | .object => .cons (.cons (.cons (.greater _) nofun) nofun) nofun nofun nofun
  | .tuple h => .cons (.cons ((snug_of_tys h).append (.greater _)) nofun) nofun nofun nofun

theorem snug_of_tys {ts : List Token} {tys : List Ty} :
    CommaList (fun ts t => Ty.Derives ts t) ts tys → Snug ts
  | .nil => .nil
  | .some h => (listable_of_tys h).snug

theorem listable_of_tys {ts : List Token} {tys : List Ty} :
    Commas (fun ts t => Ty.Derives ts t) ts tys → Listable ts
  | .one h => listable_of_ty h
  | .cons h hrest => (listable_of_ty h).append ((listable_of_tys hrest).comma _)

end

theorem snug_of_symbolPath {ts : List Token} {names : List String}
    (h : SymbolPath.Derives ts names) : Snug ts := by
  induction h with
  | one => exact .cons .nil nofun
  | cons _ ih => exact .cons (.cons ih nofun) nofun

mutual

theorem listable_of_constant {ts : List Token} {a : Attribute} : a.Derives ts → Listable ts
  | .integer | .string => .cons .nil nofun nofun nofun
  | .integerForm => .cons (.cons (.cons (.greater _) nofun) nofun) nofun nofun nofun
  | .list hty h => by
      refine .cons (.cons ((listable_of_ty hty).snug.append ?_) nofun) nofun nofun nofun
      refine Listable.comma ?_ _
      exact .cons ((snug_of_elements h).append (.cons (.greater _) nofun)) nofun nofun nofun
  | .map hty h => by
      refine .cons (.cons ((listable_of_ty hty).snug.append ?_) nofun) nofun nofun nofun
      refine Listable.comma ?_ _
      exact .cons ((snug_of_entries h).append (.cons (.greater _) nofun)) nofun nofun nofun
  | .ref h => by
      refine .cons (.cons (.cons ?_ nofun) nofun) nofun nofun nofun
      exact (snug_of_symbolPath h).append (.cons (.greater _) nofun)

theorem listable_of_annotated {ts : List Token} {a : Attribute} :
    Annotated (fun ts a => Attribute.Derives ts a) ts a → Listable ts
  | .bare h => listable_of_constant h
  | .typed h hty => (listable_of_constant h).append ((listable_of_ty hty).snug.cons nofun)

theorem snug_of_elements {ts : List Token} {as : List Attribute} :
    CommaList (Annotated fun ts a => Attribute.Derives ts a) ts as → Snug ts
  | .nil => .nil
  | .some h => (listable_of_elements h).snug

theorem listable_of_elements {ts : List Token} {as : List Attribute} :
    Commas (Annotated fun ts a => Attribute.Derives ts a) ts as → Listable ts
  | .one h => listable_of_annotated h
  | .cons h hrest => (listable_of_annotated h).append ((listable_of_elements hrest).comma _)

theorem listable_of_entry {ts : List Token} {entry : String × Attribute} :
    Keyed (Annotated fun ts a => Attribute.Derives ts a) ts entry → Listable ts
  | .word h | .text h => .cons ((listable_of_annotated h).snug.cons nofun) nofun nofun nofun

theorem snug_of_entries {ts : List Token} {entries : List (String × Attribute)} :
    CommaList (Keyed (Annotated fun ts a => Attribute.Derives ts a)) ts entries → Snug ts
  | .nil => .nil
  | .some h => (listable_of_entries h).snug

theorem listable_of_entries {ts : List Token} {entries : List (String × Attribute)} :
    Commas (Keyed (Annotated fun ts a => Attribute.Derives ts a)) ts entries → Listable ts
  | .one h => listable_of_entry h
  | .cons h hrest => (listable_of_entry h).append ((listable_of_entries hrest).comma _)

end

theorem snug_of_operands {ts : List Token} {xs : List Ident} (h : OperandList ts xs) : Snug ts := by
  have hvalue : ∀ x : Ident, Listable [x.valueToken] := fun _ => .cons .nil nofun nofun nofun
  cases h with
  | nil => exact .nil
  | some h =>
      refine Listable.snug ?_
      induction h with
      | @one ts x h => exact h ▸ hvalue x
      | @cons ts us x xs s h _ ih => exact h ▸ (hvalue x).append (ih.comma s)

theorem snug_of_action {ts : List Token} {a : Action} (h : a.Derives OperandList ts) :
    Snug ts := by
  cases h with
  | constant hvalue hty =>
      exact (listable_of_constant hvalue).snug.append ((listable_of_ty hty).snug.cons nofun)
  | object hactuals htys hty =>
      refine .cons (.cons ((snug_of_operands hactuals).append ?_) nofun) nofun
      refine .cons (.cons (.cons ((snug_of_tys htys).append ?_) nofun) nofun) nofun
      exact .cons (.cons (listable_of_ty hty).snug nofun) nofun
  | listCreate helements hty =>
      exact (snug_of_operands helements).append ((listable_of_ty hty).snug.cons nofun)
  | tupleCreate helements htys =>
      exact (snug_of_operands helements).append ((snug_of_tys htys).cons nofun)
  | mapCreate hentries hkey hvalue =>
      refine (snug_of_operands hentries).append (.cons ?_ nofun)
      exact (listable_of_ty hkey).snug.append ((listable_of_ty hvalue).comma _)

/-- **A line of the grammar is tight**, since every comma of it has an item behind it. -/
theorem tight_of_operation {line : List Token} {op : Operation}
    (h : op.Derives OperandList line) : Tight line := by
  cases h with
  | value h hline =>
      subst hline
      exact Snug.tight (.cons (.cons (.cons (snug_of_action h) nofun) nofun) nofun)
  | field h hline =>
      subst hline
      refine Snug.tight (.cons (.cons (Listable.comma ?_ _) nofun) nofun)
      exact .cons ((listable_of_ty h).snug.cons nofun) nofun nofun nofun

end ObjectModel
