/-
**Names, symbol paths and constants.**

Main definitions:

* `Ident` — a name with the span where it was read;
* `SymbolPath`, `SymbolPath.text` — a path of symbol names;
* `Attribute` — the constant that an operation writes down.
-/

import ObjectModel.Span
import ObjectModel.Ty

set_option relaxedAutoImplicit false
set_option autoImplicit false

namespace ObjectModel

/-- A name where it was read, without the sign before it. -/
structure Ident where
  /-- The name. -/
  name : String
  /-- Where it stands. -/
  span : Span
  deriving DecidableEq, Inhabited

/-- A path of symbol names, the outermost first. -/
structure SymbolPath where
  /-- The names. -/
  segments : List String
  deriving DecidableEq, Inhabited

/-- A path as it is written. -/
def SymbolPath.text (p : SymbolPath) : String :=
  "<" ++ "::".intercalate (p.segments.map ("@" ++ ·)) ++ ">"

/-- A constant.  Elements and entries keep the order of the text. -/
inductive Attribute where
  /-- A whole number. -/
  | integer (n : Int64)
  /-- A text. -/
  | string (s : String)
  /-- A list with the type of its elements. -/
  | list (elementTy : Ty) (elements : List Attribute)
  /-- A map with the type of its values.  Keys are written as texts, whatever they become. -/
  | map (valueTy : Ty) (entries : List (String × Attribute))
  /-- A reference to a declared symbol. -/
  | ref (path : SymbolPath)
  deriving Inhabited

end ObjectModel
