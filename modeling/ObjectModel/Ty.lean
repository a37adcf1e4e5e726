/-
**Types of the object model.**

Main definitions:

* `Ty` — a type as it is written behind a value;
* `Ty.text` — how it is written;
* `Ty.decEq` — types are compared by their structure.
-/

set_option relaxedAutoImplicit false
set_option autoImplicit false

namespace ObjectModel

/-- The type of a value. -/
inductive Ty where
  /-- Whole numbers. -/
  | integer
  /-- Whole numbers of a stated width.  The width is written down and never enforced. -/
  | bits (width : UInt32)
  /-- Texts. -/
  | string
  /-- References to a declared symbol. -/
  | ref
  /-- All values. -/
  | any
  /-- Lists of elements of one type. -/
  | list (element : Ty)
  /-- Maps from keys of one type to values of another. -/
  | map (key value : Ty)
  /-- Tuples with one type for each element. -/
  | tuple (elements : List Ty)
  /-- Objects of the class of a name. -/
  | object (className : String)
  deriving Inhabited

namespace Ty

/-! ### Equality -/

mutual

/-- Whether two types are the same. -/
def same : Ty → Ty → Bool
  | integer, integer => true
  | bits m, bits n => m == n
  | string, string => true
  | ref, ref => true
  | any, any => true
  | list t, list u => same t u
  | map k v, map k' v' => same k k' && same v v'
  | tuple ts, tuple us => sameAll ts us
  | object c, object d => c == d
  | _, _ => false

/-- Whether two lists of types are the same. -/
def sameAll : List Ty → List Ty → Bool
  | [], [] => true
  | t :: ts, u :: us => same t u && sameAll ts us
  | _, _ => false

end

mutual

theorem same_self : ∀ t : Ty, same t t = true
  | integer | string | ref | any => rfl
  | bits n => by simp [same]
  | list t => by simp [same, same_self t]
  | map k v => by simp [same, same_self k, same_self v]
  | tuple ts => by simp [same, sameAll_self ts]
  | object c => by simp [same]

theorem sameAll_self : ∀ ts : List Ty, sameAll ts ts = true
  | [] => rfl
  | t :: ts => by simp [sameAll, same_self t, sameAll_self ts]

end

mutual

theorem eq_of_same : ∀ {t u : Ty}, same t u = true → t = u
  | integer, u, h => by cases u <;> simp_all [same]
  | bits n, u, h => by cases u <;> simp_all [same]
  | string, u, h => by cases u <;> simp_all [same]
  | ref, u, h => by cases u <;> simp_all [same]
  | any, u, h => by cases u <;> simp_all [same]
  | list t, u, h => by
      cases u with
      | list u =>
          have h : same t u = true := by simpa [same] using h
          rw [eq_of_same h]
      | _ => simp [same] at h
  | map k v, u, h => by
      cases u with
      | map k' v' =>
          have h : same k k' = true ∧ same v v' = true := by simpa [same] using h
          rw [eq_of_same h.1, eq_of_same h.2]
      | _ => simp [same] at h
  | tuple ts, u, h => by
      cases u with
      | tuple us =>
          have h : sameAll ts us = true := by simpa [same] using h
          rw [eq_of_sameAll h]
      | _ => simp [same] at h
  | object c, u, h => by cases u <;> simp_all [same]

theorem eq_of_sameAll : ∀ {ts us : List Ty}, sameAll ts us = true → ts = us
  | [], us, h => by cases us <;> simp_all [sameAll]
  | t :: ts, us, h => by
      cases us with
      | nil => simp [sameAll] at h
      | cons u us =>
          have h : same t u = true ∧ sameAll ts us = true := by simpa [sameAll] using h
          rw [eq_of_same h.1, eq_of_sameAll h.2]

end

theorem same_iff {t u : Ty} : same t u = true ↔ t = u :=
  ⟨eq_of_same, fun h => h ▸ same_self t⟩

instance decEq : DecidableEq Ty := fun _ _ => decidable_of_iff _ same_iff

/-! ### Text -/

/-- Whether the values of the type are whole numbers. -/
def isInteger : Ty → Bool
  | integer | bits _ => true
  | _ => false

mutual

/-- A type as it is written. -/
def text : Ty → String
  | integer => "!om.integer"
  | bits n => s!"i{n.toNat}"
  | string => "!om.string"
  | ref => "!om.ref"
  | any => "!om.any"
  | list t => "!om.list<" ++ t.text ++ ">"
  | map k v => "!om.map<" ++ k.text ++ ", " ++ v.text ++ ">"
  | tuple ts => "tuple<" ++ ", ".intercalate (texts ts) ++ ">"
  | object c => "!om.class.type<@" ++ c ++ ">"

/-- Each type as it is written. -/
def texts : List Ty → List String
  | [] => []
  | t :: ts => t.text :: texts ts

end

end Ty

end ObjectModel
