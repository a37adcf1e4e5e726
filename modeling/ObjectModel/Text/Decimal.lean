/-
**Decimal numbers.**

A number is written with the digits from zero to nine, as many as one likes, and may carry a sign.
Reading is exact; whether the number fits a word is asked afterwards.

Main definitions:

* `Decimal.ofDigits`, `Decimal.natural?` — the value of a run of digits;
* `Decimal.signed?` — the same with an optional sign;
* `Decimal.int64?`, `Decimal.count?` — a text as a signed word, and as a count.

Main results:

* `Decimal.ofDigits_append_singleton` — the last digit counts ones;
* `Decimal.int64?_eq_some_iff` — which texts are signed words.
-/

set_option relaxedAutoImplicit false
set_option autoImplicit false

namespace ObjectModel

namespace Decimal

/-- The value of a digit. -/
def digitValue (c : Char) : Nat := c.toNat - '0'.toNat

/-- The value of a run of digits, the most significant first. -/
def ofDigits (cs : List Char) : Nat := cs.foldl (fun n c => 10 * n + digitValue c) 0

@[simp] theorem ofDigits_nil : ofDigits [] = 0 := rfl

theorem ofDigits_append_singleton (cs : List Char) (c : Char) :
    ofDigits (cs ++ [c]) = 10 * ofDigits cs + digitValue c := by
  simp [ofDigits]

/-- The value of a text of digits, of which there must be one. -/
def natural? (cs : List Char) : Option Nat :=
  if cs ≠ [] ∧ cs.all Char.isDigit then some (ofDigits cs) else none

/-- The value of digits behind an optional sign. -/
def signed? : List Char → Option Int
  | '-' :: cs => (natural? cs).map fun n => -Int.ofNat n
  | '+' :: cs => (natural? cs).map Int.ofNat
  | cs => (natural? cs).map Int.ofNat

/-- A whole number as a signed word of 64 bits, if it fits. -/
def toInt64? (n : Int) : Option Int64 :=
  if h : Int64.minValue.toInt ≤ n ∧ n ≤ Int64.maxValue.toInt then
    some (Int64.ofIntLE n h.1 h.2)
  else none

/-- A text as a signed word of 64 bits. -/
def int64? (s : String) : Option Int64 := (signed? s.toList).bind toInt64?

theorem toInt_of_toInt64? {n : Int} {w : Int64} (h : toInt64? n = some w) : w.toInt = n := by
  unfold toInt64? at h
  split at h
  · next hn =>
      cases h
      exact Int64.toInt_ofIntLE
  · cases h

theorem toInt64?_toInt (w : Int64) : toInt64? w.toInt = some w := by
  rw [toInt64?, dif_pos ⟨w.minValue_le_toInt, w.toInt_le⟩, Int64.ofIntLE_toInt]

/-- A text is a signed word exactly when it is digits, with or without a sign, of that value. -/
theorem int64?_eq_some_iff {s : String} {w : Int64} :
    int64? s = some w ↔ signed? s.toList = some w.toInt := by
  unfold int64?
  constructor
  · intro h
    obtain ⟨n, hn, hw⟩ := Option.bind_eq_some_iff.1 h
    rw [hn, toInt_of_toInt64? hw]
  · intro h
    rw [h]
    exact toInt64?_toInt w

/-- A text as a count below `2 ^ 64`.  A plus sign may stand before it, a minus sign may not. -/
def count? (s : String) : Option Nat :=
  let digits := match s.toList with
    | '+' :: cs => cs
    | cs => cs
  (natural? digits).filter (· < UInt64.size)

end Decimal

end ObjectModel
