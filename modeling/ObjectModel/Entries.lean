/-
**Entries in the order of their first writing.**

A list of keys with their values is written like a table: a new key goes to the end, and a key
that is there keeps its place and takes the new value.

Main definitions:

* `Entries.insert` — writing one entry;
* `Entries.ofList` — writing a list of entries, one after the other.

Main results:

* `Entries.keys_insert` — the keys after a write;
* `Entries.nodup_keys_insert`, `Entries.nodup_keys_ofList` — no key is written down twice;
* `Entries.lookup_insert` — what is found after a write;
* `Entries.keys_ofList` — the keys of a table are those that were written, in the order of their
  first writing;
* `Entries.lookup_ofList` — each key is bound to the value that was written last.
-/

set_option relaxedAutoImplicit false
set_option autoImplicit false

namespace ObjectModel

namespace Entries

variable {κ α : Type}

/-- The keys, in order. -/
def keys (es : List (κ × α)) : List κ := es.map Prod.fst

@[simp] theorem keys_nil : keys ([] : List (κ × α)) = [] := rfl

@[simp] theorem keys_cons (e : κ × α) (es : List (κ × α)) : keys (e :: es) = e.1 :: keys es := rfl

variable [DecidableEq κ]

/-- Writes one entry. -/
def insert (k : κ) (v : α) : List (κ × α) → List (κ × α)
  | [] => [(k, v)]
  | (k', v') :: es => if k' = k then (k, v) :: es else (k', v') :: insert k v es

@[simp] theorem insert_nil (k : κ) (v : α) : insert k v [] = [(k, v)] := rfl

theorem keys_insert (k : κ) (v : α) (es : List (κ × α)) :
    keys (insert k v es) = if k ∈ keys es then keys es else keys es ++ [k] := by
  induction es with
  | nil => simp
  | cons e es ih =>
      obtain ⟨k', v'⟩ := e
      by_cases h : k' = k
      · subst h; simp [insert]
      · simp only [insert, if_neg h, keys_cons, ih, List.mem_cons, Ne.symm h, false_or]
        split <;> simp

theorem nodup_keys_insert {es : List (κ × α)} (h : (keys es).Nodup) (k : κ) (v : α) :
    (keys (insert k v es)).Nodup := by
  rw [keys_insert]
  split
  · exact h
  · next hk =>
      refine List.nodup_append.2 ⟨h, by simp, ?_⟩
      intro a ha b hb hab
      simp only [List.mem_singleton] at hb
      exact hk (hb ▸ hab ▸ ha)

theorem lookup_insert (k k' : κ) (v : α) (es : List (κ × α)) :
    (insert k v es).lookup k' = if k' = k then some v else es.lookup k' := by
  induction es with
  | nil => by_cases h : k' = k <;> simp [List.lookup_cons, h, beq_eq_false_iff_ne.2]
  | cons e es ih =>
      obtain ⟨j, w⟩ := e
      by_cases hj : j = k
      · subst hj
        by_cases h : k' = j <;> simp [insert, List.lookup_cons, h, beq_eq_false_iff_ne.2]
      · by_cases h : k' = j
        · subst h
          simp [insert, hj]
        · simp [insert, hj, List.lookup_cons, beq_eq_false_iff_ne.2 h, ih]

/-- Writes a list of entries into an empty table. -/
def ofList (es : List (κ × α)) : List (κ × α) := es.foldl (fun t e => insert e.1 e.2 t) []

theorem nodup_keys_foldl_insert (es t : List (κ × α)) (h : (keys t).Nodup) :
    (keys (es.foldl (fun t e => insert e.1 e.2 t) t)).Nodup := by
  induction es generalizing t with
  | nil => exact h
  | cons e es ih => exact ih _ (nodup_keys_insert h e.1 e.2)

theorem nodup_keys_ofList (es : List (κ × α)) : (keys (ofList es)).Nodup :=
  nodup_keys_foldl_insert es [] (by simp)

/-- Writing adds the keys that are not there yet, each where it comes first. -/
theorem keys_foldl_insert (es t : List (κ × α)) :
    keys (es.foldl (fun t e => insert e.1 e.2 t) t) =
      keys t ++ ((keys es).removeAll (keys t)).eraseDups := by
  induction es generalizing t with
  | nil => simp [List.removeAll]
  | cons e es ih =>
      rw [List.foldl_cons, ih, keys_insert]
      by_cases he : e.1 ∈ keys t
      · simp [he, List.removeAll]
      · have hlater : (keys es).removeAll (keys t ++ [e.1]) =
            ((keys es).removeAll (keys t)).filter fun k => !k == e.1 := by
          simp only [List.removeAll, List.filter_filter]
          refine List.filter_congr fun k _ => ?_
          by_cases hk : k = e.1 <;> simp [hk]
        have hfirst : (keys (e :: es)).removeAll (keys t) =
            e.1 :: (keys es).removeAll (keys t) := by
          simp [List.removeAll, he]
        rw [if_neg he, hlater, hfirst, List.eraseDups_cons, List.append_assoc]
        rfl

/-- The keys of a table are those that were written, in the order of their first writing. -/
theorem keys_ofList (es : List (κ × α)) : keys (ofList es) = (keys es).eraseDups := by
  rw [ofList, keys_foldl_insert, keys_nil, List.nil_append, List.removeAll,
    List.filter_eq_self.2 (by simp)]

theorem lookup_foldl_insert (es t : List (κ × α)) (k : κ) :
    (es.foldl (fun t e => insert e.1 e.2 t) t).lookup k = (es.reverse ++ t).lookup k := by
  induction es generalizing t with
  | nil => rfl
  | cons e es ih =>
      obtain ⟨k', v⟩ := e
      rw [List.foldl_cons, ih, List.reverse_cons, List.append_assoc, List.lookup_append,
        List.lookup_append, lookup_insert]
      by_cases hk : k = k'
      · simp [hk]
      · simp [hk, List.lookup_cons, beq_eq_false_iff_ne.2 hk]

/-- A key is bound to the value that was written last. -/
theorem lookup_ofList (es : List (κ × α)) (k : κ) :
    (ofList es).lookup k = es.reverse.lookup k := by
  rw [ofList, lookup_foldl_insert, List.append_nil]

end Entries

end ObjectModel
