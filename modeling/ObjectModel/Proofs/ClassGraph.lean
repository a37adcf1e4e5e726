/-
**Walking through the class graph.**

The walk visits the classes of a graph depth first.  It keeps the path on which it stands and the
classes it is done with, and it reports an object whose class is on the path.  Two facts carry
the proof: the path is a chain of objects, so every report tells a cycle; and the class of an
object that is not reported is done with before the class that makes it, so the objects that are
not reported make no cycle.

Which object is reported cannot be read off the report: two objects may be reported in the same
words at the same span.  So the walk is followed together with a list that says of each report
which object closes which cycle.

Main definitions:

* `Making`, `ObjectGraph` — an object of a body, and what the bodies of the classes make;
* `ObjectGraph.Edge`, `ObjectGraph.KeptEdge` — the classes that make each other, and those that
  still do so when some objects are taken away;
* `Closing`, `ObjectGraph.Closes` — an object that closes a cycle, and what is reported of it;
* `ClassGraph.Path` — the paths on which a walk can stand;
* `ObjectGraph.Settled` — classes in an order in which all objects that are not reported lead
  further back;
* `ClassGraph.Sound` — the invariant of the walk.

Main results:

* `ClassGraph.visit_sound`, `ClassGraph.walk_sound` — a visit and the whole walk keep the invariant;
* `ClassGraph.exists_closings` — every report tells a cycle, and the objects that are not reported
  make none;
* `ClassGraph.cycleProblems_eq_nil_iff` — nothing is reported exactly when there is no cycle;
* `Module.cycles_reported` — **what is reported of the cycles of a module**.
-/

import Mathlib.Data.List.Chain
import Mathlib.Data.List.Nodup
import Mathlib.Data.List.Perm.Subperm
import Mathlib.Logic.Relation
import ObjectModel.Module.Check

set_option relaxedAutoImplicit false
set_option autoImplicit false

namespace ObjectModel

open Relation

/-! ### Objects and classes -/

/-- An object that the body of a class makes. -/
structure Making where
  /-- The name of the class. -/
  maker : String
  /-- How many objects the body makes before it. -/
  index : Nat
  deriving DecidableEq

/-- What the bodies of classes make. -/
structure ObjectGraph where
  /-- For the name of a class, the classes of the objects that its body makes, in the order of the
  text. -/
  objects? : String → Option (List Ident)

namespace ObjectGraph

variable (G : ObjectGraph)

/-- The object `o` is one of the class `t`, which exists. -/
def Makes (o : Making) (t : Ident) : Prop :=
  (∃ ts, G.objects? o.maker = some ts ∧ ts[o.index]? = some t) ∧
    (G.objects? t.name).isSome = true

/-- The class `x` makes an object of the class `y`. -/
def Edge (x y : String) : Prop := ∃ i t, G.Makes ⟨x, i⟩ t ∧ t.name = y

/-- The class `x` makes an object of the class `y` that is none of the objects `os`. -/
def KeptEdge (os : List Making) (x y : String) : Prop :=
  ∃ i t, G.Makes ⟨x, i⟩ t ∧ t.name = y ∧ ⟨x, i⟩ ∉ os

end ObjectGraph

/-- An object that closes a cycle. -/
structure Closing where
  /-- The object. -/
  object : Making
  /-- The class of which it is made. -/
  target : Ident
  /-- The classes of the cycle, from the class of the object to the class that makes it. -/
  cycle : List String

/-- What is reported of an object that closes a cycle. -/
def Closing.problem (k : Closing) : Problem where
  code := .cyclicClass
  message := "class @" ++ k.target.name ++ " instantiates itself: "
    ++ " -> ".intercalate ((k.cycle ++ [k.target.name]).map ("@" ++ ·))
  span := k.target.span

/-- The object closes the cycle: it is made at the end of a chain of different classes, each of
which makes an object of the next, and it is an object of the class with which the chain begins. -/
structure ObjectGraph.Closes (G : ObjectGraph) (k : Closing) : Prop where
  /-- The object is there, and its class exists. -/
  object : G.Makes k.object k.target
  /-- The classes of the cycle are different. -/
  nodup : k.cycle.Nodup
  /-- The cycle begins with the class of the object. -/
  head : k.cycle.head? = some k.target.name
  /-- It ends with the class that makes the object. -/
  last : k.cycle.getLast? = some k.object.maker
  /-- Each class makes an object of the next. -/
  chain : k.cycle.IsChain G.Edge

namespace ObjectGraph

variable {G : ObjectGraph}

theorem keptEdge_nil : G.KeptEdge [] = G.Edge := by
  funext x y
  simp [KeptEdge, Edge]

/-- A chain leads from its first class to its last. -/
theorem reflTransGen_of_isChain {x y : String} {cycle : List String} (h : cycle.IsChain G.Edge)
    (hhead : cycle.head? = some x) (hlast : cycle.getLast? = some y) :
    ReflTransGen G.Edge x y := by
  induction cycle generalizing x with
  | nil => cases hhead
  | cons z cycle ih =>
      obtain rfl : z = x := Option.some.inj hhead
      cases cycle with
      | nil =>
          obtain rfl : z = y := Option.some.inj hlast
          exact .refl
      | cons z' cycle =>
          obtain ⟨hedge, hchain⟩ := List.isChain_cons_cons.1 h
          rw [List.getLast?_cons_cons] at hlast
          exact .head hedge (ih hchain rfl hlast)

/-- An object that closes a cycle leads from a class back to it. -/
theorem Closes.transGen {k : Closing} (h : G.Closes k) :
    TransGen G.Edge k.target.name k.target.name :=
  .tail' (reflTransGen_of_isChain h.chain h.head h.last)
    ⟨k.object.index, k.target, h.object, rfl⟩

/-! ### Settled classes -/

/-- Classes, the latest first, such that every object of a class that is not among `os` is of a
class further back. -/
def Settled (G : ObjectGraph) (os : List Making) : List String → Prop
  | [] => True
  | x :: older => x ∉ older ∧ (∀ y, G.KeptEdge os x y → y ∈ older) ∧ G.Settled os older

/-- Taking away more objects settles no less. -/
theorem Settled.mono {os os' : List Making} (h : os ⊆ os') :
    ∀ {done : List String}, G.Settled os done → G.Settled os' done
  | [], _ => trivial
  | _ :: _, ⟨hx, hall, hs⟩ => by
      refine ⟨hx, ?_, hs.mono h⟩
      rintro y ⟨i, t, hmakes, hy, hnot⟩
      exact hall y ⟨i, t, hmakes, hy, fun hmem => hnot (h hmem)⟩

/-- In a settled order the kept objects of a class that is done with are done with before. -/
theorem Settled.idxOf_lt {os : List Making} {x y : String} :
    ∀ {done : List String}, G.Settled os done → x ∈ done → G.KeptEdge os x y →
      y ∈ done ∧ done.idxOf x < done.idxOf y
  | [], _, hx, _ => absurd hx (by simp)
  | z :: older, ⟨hz, hall, hs⟩, hx, he => by
      by_cases hxz : x = z
      · subst hxz
        have hy : y ∈ older := hall y he
        have hne : x ≠ y := fun h => hz (h ▸ hy)
        refine ⟨List.mem_cons_of_mem _ hy, ?_⟩
        rw [List.idxOf_cons_self, List.idxOf_cons_ne _ hne]
        exact Nat.succ_pos _
      · have hx' : x ∈ older := (List.mem_cons.1 hx).resolve_left hxz
        obtain ⟨hy, hlt⟩ := hs.idxOf_lt hx' he
        have hne : z ≠ y := fun h => hz (h ▸ hy)
        refine ⟨List.mem_cons_of_mem _ hy, ?_⟩
        rw [List.idxOf_cons_ne _ (Ne.symm hxz), List.idxOf_cons_ne _ hne]
        exact Nat.succ_lt_succ hlt

/-- The kept objects of settled classes make no cycle. -/
theorem Settled.not_transGen {os : List Making} {done : List String} (h : G.Settled os done)
    {x : String} (hx : x ∈ done) : ¬TransGen (G.KeptEdge os) x x := by
  intro hcycle
  have hlt : ∀ {y : String}, TransGen (G.KeptEdge os) x y →
      y ∈ done ∧ done.idxOf x < done.idxOf y := by
    intro y hy
    induction hy with
    | single he => exact h.idxOf_lt hx he
    | tail _ he ih =>
        obtain ⟨hz, hlt⟩ := h.idxOf_lt ih.1 he
        exact ⟨hz, ih.2.trans hlt⟩
  exact Nat.lt_irrefl _ (hlt hcycle).2

end ObjectGraph

namespace ClassGraph

/-! ### Paths and reports -/

/-- What the classes of the graph make. -/
def objects (g : ClassGraph) : ObjectGraph := ⟨fun x => g.lookup x⟩

/-- The objects that the body of a class makes. -/
def targets (g : ClassGraph) (x : String) : List Ident := (g.lookup x).getD []

/-- Whether there is a class of a name. -/
def Declares (g : ClassGraph) (x : String) : Prop := x ∈ g.map Prod.fst

theorem isSome_lookup_iff {g : ClassGraph} {x : String} :
    (g.lookup x).isSome = true ↔ g.Declares x := by
  rw [List.lookup_isSome_iff, Declares, List.mem_map]
  simp only [beq_iff_eq]
  exact exists_congr fun p => and_congr_right fun _ => eq_comm

theorem makes_iff {g : ClassGraph} {o : Making} {t : Ident} :
    g.objects.Makes o t ↔ (g.targets o.maker)[o.index]? = some t ∧ g.Declares t.name := by
  refine and_congr ?_ isSome_lookup_iff
  change (∃ ts, g.lookup o.maker = some ts ∧ _) ↔ ((g.lookup o.maker).getD [])[o.index]? = some t
  cases g.lookup o.maker <;> simp

/-- Different classes, the innermost first, each of which is made by the class behind it. -/
structure Path (g : ClassGraph) (path : List String) : Prop where
  /-- No class stands on the path twice. -/
  nodup : path.Nodup
  /-- All classes of the path exist. -/
  declares : ∀ x ∈ path, g.Declares x
  /-- Each class is made by the next. -/
  chain : path.IsChain fun y x => g.objects.Edge x y

/-- A path has no more classes than the graph. -/
theorem Path.length_le {g : ClassGraph} {path : List String} (h : g.Path path) :
    path.length ≤ g.length := by
  have hsub : path ⊆ g.map Prod.fst := h.declares
  simpa using (h.nodup.subperm hsub).length_le

theorem Path.singleton {g : ClassGraph} {x : String} (h : g.Declares x) : g.Path [x] where
  nodup := List.nodup_singleton x
  declares := by simpa using h
  chain := List.isChain_singleton x

/-- A path goes on with a class that is not on it. -/
theorem Path.cons {g : ClassGraph} {x : String} {path : List String} {i : Nat} {t : Ident}
    (h : g.Path (x :: path)) (ht : t.name ∉ x :: path) (hmakes : g.objects.Makes ⟨x, i⟩ t) :
    g.Path (t.name :: x :: path) where
  nodup := List.nodup_cons.2 ⟨ht, h.nodup⟩
  declares := by
    intro z hz
    rcases List.mem_cons.1 hz with rfl | hz
    · exact (makes_iff.1 hmakes).2
    · exact h.declares z hz
  chain := List.isChain_cons_cons.2 ⟨⟨i, t, hmakes, rfl⟩, h.chain⟩

theorem head?_dropWhile_bne {x : String} {xs : List String} (h : x ∈ xs) :
    (xs.dropWhile (· != x)).head? = some x := by
  induction xs with
  | nil => cases h
  | cons y ys ih =>
      by_cases hy : y = x
      · rw [List.dropWhile_cons_of_neg (by simp [hy]), hy]
        rfl
      · rw [List.dropWhile_cons_of_pos (by simp [hy])]
        exact ih ((List.mem_cons.1 h).resolve_left (Ne.symm hy))

/-- The cycle that the object `i` of the innermost class of a path closes, if it is of the class
`t` on the path. -/
def closing (x : String) (rest : List String) (i : Nat) (t : Ident) : Closing where
  object := ⟨x, i⟩
  target := t
  cycle := (x :: rest).reverse.dropWhile (· != t.name)

/-- An object of a class on the path closes a cycle. -/
theorem Path.closes {g : ClassGraph} {x : String} {rest : List String} {i : Nat} {t : Ident}
    (h : g.Path (x :: rest)) (ht : (g.targets x)[i]? = some t) (hmem : t.name ∈ x :: rest) :
    g.objects.Closes (closing x rest i t) := by
  have hsuffix : (closing x rest i t).cycle <:+ (x :: rest).reverse := List.dropWhile_suffix _
  have hhead : (closing x rest i t).cycle.head? = some t.name := 
    head?_dropWhile_bne (List.mem_reverse.2 hmem)
  refine ⟨makes_iff.2 ⟨ht, h.declares _ hmem⟩, ?_, hhead, ?_, ?_⟩
  · exact (List.nodup_reverse.2 h.nodup).sublist hsuffix.sublist
  · obtain ⟨before, hbefore⟩ := hsuffix
    have hne : (closing x rest i t).cycle ≠ [] := fun hnil => by simp [hnil] at hhead
    rw [← List.getLast?_append_of_ne_nil before hne, hbefore, List.getLast?_reverse]
    rfl
  · exact (List.isChain_reverse.2 h.chain).suffix hsuffix

/-! ### The invariant -/

/-- What holds of a walk while it stands on a path, when `ks` are the cycles it has reported. -/
structure Sound (g : ClassGraph) (path : List String) (w : Walk) (ks : List Closing) : Prop where
  /-- The classes of the path are not done with. -/
  fresh : ∀ x ∈ path, x ∉ w.done
  /-- The classes that are done with are settled. -/
  settled : g.objects.Settled (ks.map Closing.object) w.done
  /-- The cycles are cycles. -/
  closes : ∀ k ∈ ks, g.objects.Closes k
  /-- They are what is reported. -/
  problems : w.problems = ks.map Closing.problem

/-- What a walk has found it keeps. -/
structure Extends (w : Walk) (ks : List Closing) (w' : Walk) (ks' : List Closing) : Prop where
  /-- Classes stay done with. -/
  done : w.done ⊆ w'.done
  /-- Cycles stay reported. -/
  closings : ks ⊆ ks'

theorem Extends.refl (w : Walk) (ks : List Closing) : Extends w ks w ks :=
  ⟨List.Subset.refl _, List.Subset.refl _⟩

theorem Extends.trans {w w' w'' : Walk} {ks ks' ks'' : List Closing} (h : Extends w ks w' ks')
    (h' : Extends w' ks' w'' ks'') : Extends w ks w'' ks'' :=
  ⟨List.Subset.trans h.done h'.done, List.Subset.trans h.closings h'.closings⟩

/-- The object `i` of the class `x`, one of the class `t`, is dealt with: its class is done with, or
it is reported. -/
def Handled (g : ClassGraph) (x : String) (w : Walk) (ks : List Closing) (i : Nat) (t : Ident) :
    Prop :=
  g.Declares t.name → t.name ∈ w.done ∨ ⟨x, i⟩ ∈ ks.map Closing.object

theorem Handled.mono {g : ClassGraph} {x : String} {w w' : Walk} {ks ks' : List Closing} {i : Nat}
    {t : Ident} (h : g.Handled x w ks i t) (hw : Extends w ks w' ks') :
    g.Handled x w' ks' i t := fun hd =>
  (h hd).imp (fun ht => hw.done ht) fun hk => List.map_subset _ hw.closings hk

/-! ### The walk -/

/-- What a visit of the path `path` does with an object of its innermost class. -/
def visitTarget (g : ClassGraph) (n : Nat) (path : List String) (w : Walk) (t : Ident) : Walk :=
  if t.name ∈ path then { w with problems := w.problems ++ [cyclicClass path t] }
  else if t.name ∈ w.done then w
  else if (g.lookup t.name).isSome then g.visit n path t.name w
  else w

theorem visit_succ (g : ClassGraph) (n : Nat) (path : List String) (name : String) (w : Walk) :
    g.visit (n + 1) path name w =
      let w' := (g.targets name).foldl (g.visitTarget n (name :: path)) w
      { w' with done := name :: w'.done } := rfl

/-- Telling a cycle that closes at the innermost class keeps the invariant. -/
theorem Sound.report {g : ClassGraph} {x : String} {rest : List String} {w : Walk}
    {ks : List Closing} {i : Nat} {t : Ident} (hs : g.Sound (x :: rest) w ks)
    (hpath : g.Path (x :: rest)) (ht : (g.targets x)[i]? = some t) (hmem : t.name ∈ x :: rest) :
    g.Sound (x :: rest) { w with problems := w.problems ++ [cyclicClass (x :: rest) t] }
      (ks ++ [closing x rest i t]) where
  fresh := hs.fresh
  settled := hs.settled.mono (List.map_subset _ (List.subset_append_left _ _))
  closes := by
    intro k hk
    rcases List.mem_append.1 hk with hk | hk
    · exact hs.closes k hk
    · obtain rfl := List.mem_singleton.1 hk
      exact hpath.closes ht hmem
  problems := by
    rw [List.map_append, ← hs.problems]
    rfl

/-- A class all of whose objects are dealt with is done with. -/
theorem Sound.finish {g : ClassGraph} {x : String} {path : List String} {w : Walk}
    {ks : List Closing} (hs : g.Sound (x :: path) w ks) (hpath : (x :: path).Nodup)
    (hall : ∀ i t, (g.targets x)[i]? = some t → g.Handled x w ks i t) :
    g.Sound path { w with done := x :: w.done } ks where
  fresh := by
    intro y hy hmem
    rcases List.mem_cons.1 hmem with rfl | hmem
    · exact (List.nodup_cons.1 hpath).1 hy
    · exact hs.fresh y (List.mem_cons_of_mem _ hy) hmem
  settled := by
    refine ⟨hs.fresh x (by simp), ?_, hs.settled⟩
    rintro y ⟨i, t, hmakes, rfl, hnot⟩
    obtain ⟨ht, hd⟩ := makes_iff.1 hmakes
    exact (hall i t ht hd).resolve_right hnot
  closes := hs.closes
  problems := hs.problems

/-- What a step does for one object it does, one after the other, for the objects from the `i`-th
on. -/
theorem foldl_sound {g : ClassGraph} {x : String} {path : List String}
    {step : Walk → Ident → Walk} {ts : List Ident} (i : Nat)
    (hstep : ∀ j t, ts[j]? = some t → ∀ w ks, g.Sound path w ks →
      ∃ ks', g.Sound path (step w t) ks' ∧ Extends w ks (step w t) ks' ∧
        g.Handled x (step w t) ks' (i + j) t)
    {w : Walk} {ks : List Closing} (hw : g.Sound path w ks) :
    ∃ ks', g.Sound path (ts.foldl step w) ks' ∧ Extends w ks (ts.foldl step w) ks' ∧
      ∀ j t, ts[j]? = some t → g.Handled x (ts.foldl step w) ks' (i + j) t := by
  induction ts generalizing w ks i with
  | nil => exact ⟨ks, hw, .refl w ks, by simp⟩
  | cons t ts ih =>
      obtain ⟨ks₁, hs₁, he₁, hh₁⟩ := hstep 0 t rfl w ks hw
      have hrest : ∀ j u, ts[j]? = some u → ∀ w ks, g.Sound path w ks →
          ∃ ks', g.Sound path (step w u) ks' ∧ Extends w ks (step w u) ks' ∧
            g.Handled x (step w u) ks' (i + 1 + j) u := by
        intro j u hu w ks hw
        rw [Nat.add_assoc, Nat.add_comm 1]
        exact hstep (j + 1) u hu w ks hw
      obtain ⟨ks₂, hs₂, he₂, hh₂⟩ := ih (i + 1) hrest hs₁
      refine ⟨ks₂, hs₂, he₁.trans he₂, fun j u hu => ?_⟩
      cases j with
      | zero =>
          obtain rfl : t = u := Option.some.inj hu
          exact hh₁.mono he₂
      | succ j =>
          rw [Nat.add_comm j, ← Nat.add_assoc]
          exact hh₂ j u hu

/-- A visit keeps the invariant and is done with its class.  The number of classes that are not on
the path bounds how deep it goes. -/
theorem visit_sound {g : ClassGraph} (n : Nat) :
    ∀ {path : List String} {x : String} {w : Walk} {ks : List Closing},
      g.length < n + path.length → g.Path (x :: path) → g.Sound (x :: path) w ks →
      ∃ ks', g.Sound path (g.visit n path x w) ks' ∧ Extends w ks (g.visit n path x w) ks' ∧
        x ∈ (g.visit n path x w).done := by
  induction n with
  | zero =>
      intro path x w ks hn hpath _
      -- a path has no more classes than the graph, so the bound is never met
      have hle := hpath.length_le
      rw [List.length_cons] at hle
      omega
  | succ n ih =>
      intro path x w ks hn hpath hw
      have hstep : ∀ i t, (g.targets x)[i]? = some t → ∀ w ks, g.Sound (x :: path) w ks →
          ∃ ks', g.Sound (x :: path) (g.visitTarget n (x :: path) w t) ks' ∧
            Extends w ks (g.visitTarget n (x :: path) w t) ks' ∧
            g.Handled x (g.visitTarget n (x :: path) w t) ks' (0 + i) t := by
        intro i t ht w ks hw
        rw [Nat.zero_add]
        unfold visitTarget
        split_ifs with hmem hdone hdecl
        · refine ⟨_, hw.report hpath ht hmem,
            ⟨List.Subset.refl _, List.subset_append_left _ _⟩, fun _ => .inr ?_⟩
          exact List.mem_map.2 ⟨closing x path i t, by simp, rfl⟩
        · exact ⟨ks, hw, .refl w ks, fun _ => .inl hdone⟩
        · have hmakes : g.objects.Makes ⟨x, i⟩ t := makes_iff.2 ⟨ht, isSome_lookup_iff.1 hdecl⟩
          -- only here the walk goes deeper, and the path with it
          have hfresh : ∀ y ∈ t.name :: x :: path, y ∉ w.done := by
            intro y hy
            rcases List.mem_cons.1 hy with rfl | hy
            · exact hdone
            · exact hw.fresh y hy
          have hlen : g.length < n + (x :: path).length := by
            rw [List.length_cons]
            omega
          obtain ⟨ks', hs, he, hx⟩ := ih hlen (hpath.cons hmem hmakes)
            ⟨hfresh, hw.settled, hw.closes, hw.problems⟩
          exact ⟨ks', hs, he, fun _ => .inl hx⟩
        · exact ⟨ks, hw, .refl w ks, fun hd => absurd (isSome_lookup_iff.2 hd) hdecl⟩
      obtain ⟨ks', hs, he, hall⟩ := foldl_sound 0 hstep hw
      rw [visit_succ]
      refine ⟨ks', hs.finish hpath.nodup fun i t ht => ?_, ⟨?_, he.closings⟩, List.mem_cons_self⟩
      · simpa using hall i t ht
      · exact List.Subset.trans he.done (List.subset_cons_self _ _)

/-- The whole walk keeps the invariant and is done with all classes. -/
theorem walk_sound (g : ClassGraph) :
    ∃ ks, g.Sound [] g.walk ks ∧ ∀ x, g.Declares x → x ∈ g.walk.done := by
  have hall : ∀ (es : List (String × List Ident)), es ⊆ g → ∀ w ks, g.Sound [] w ks →
      let w' := es.foldl
        (fun w e => if e.1 ∈ w.done then w else g.visit (g.length + 1) [] e.1 w) w
      ∃ ks', g.Sound [] w' ks' ∧ Extends w ks w' ks' ∧ ∀ e ∈ es, e.1 ∈ w'.done := by
    intro es
    induction es with
    | nil => exact fun _ w ks hw => ⟨ks, hw, .refl w ks, by simp⟩
    | cons e es ih =>
        intro hsub w ks hw
        have hdecl : g.Declares e.1 := List.mem_map_of_mem (hsub (by simp))
        have hone : let w' := if e.1 ∈ w.done then w else g.visit (g.length + 1) [] e.1 w
            ∃ ks', g.Sound [] w' ks' ∧ Extends w ks w' ks' ∧ e.1 ∈ w'.done := by
          by_cases hd : e.1 ∈ w.done
          · rw [if_pos hd]
            exact ⟨ks, hw, .refl w ks, hd⟩
          · rw [if_neg hd]
            exact visit_sound (g.length + 1) (by simp) (.singleton hdecl)
              ⟨by simpa using hd, hw.settled, hw.closes, hw.problems⟩
        obtain ⟨ks₁, hs₁, he₁, hmem⟩ := hone
        obtain ⟨ks₂, hs₂, he₂, hall⟩ :=
          ih (fun e' he' => hsub (List.mem_cons_of_mem _ he')) _ _ hs₁
        refine ⟨ks₂, hs₂, he₁.trans he₂, ?_⟩
        intro e' hmem'
        rcases List.mem_cons.1 hmem' with rfl | hmem'
        · exact he₂.done hmem
        · exact hall e' hmem'
  obtain ⟨ks, hs, -, hdone⟩ :=
    hall g (List.Subset.refl _) {} [] ⟨by simp, trivial, by simp, rfl⟩
  refine ⟨ks, hs, ?_⟩
  intro x hx
  obtain ⟨e, he, rfl⟩ := List.mem_map.1 hx
  exact hdone e he

/-- Every report tells a cycle, and without the objects that are reported there is none. -/
theorem exists_closings (g : ClassGraph) : ∃ ks : List Closing,
    g.cycleProblems = ks.map Closing.problem ∧ (∀ k ∈ ks, g.objects.Closes k) ∧
      ∀ x, ¬TransGen (g.objects.KeptEdge (ks.map Closing.object)) x x := by
  obtain ⟨ks, hs, hdone⟩ := g.walk_sound
  refine ⟨ks, hs.problems, hs.closes, fun x hcycle => ?_⟩
  -- the cycle comes back to `x`, which is therefore a declared class
  have hdecl : ∀ y, g.objects.KeptEdge (ks.map Closing.object) y x → g.Declares x := by
    rintro y ⟨i, t, hmakes, rfl, -⟩
    exact (makes_iff.1 hmakes).2
  have hx : g.Declares x := by
    cases hcycle with
    | single he => exact hdecl _ he
    | tail _ he => exact hdecl _ he
  exact hs.settled.not_transGen (hdone x hx) hcycle

/-- Nothing is reported exactly when the objects make no cycle. -/
theorem cycleProblems_eq_nil_iff (g : ClassGraph) :
    g.cycleProblems = [] ↔ ∀ x, ¬TransGen g.objects.Edge x x := by
  obtain ⟨ks, hproblems, hcloses, hkept⟩ := g.exists_closings
  rw [hproblems, List.map_eq_nil_iff]
  constructor
  · rintro rfl
    rwa [List.map_nil, ObjectGraph.keptEdge_nil] at hkept
  · intro h
    refine List.eq_nil_iff_forall_not_mem.2 fun k hk => ?_
    exact h _ (hcloses k hk).transGen

/-- Of several classes with one name the first stands in the graph. -/
theorem lookup_ofClasses (cs : List ClassDecl) (x : String) :
    (ofClasses cs).lookup x =
      (cs.find? fun c => c.name.name == x).map ClassDecl.targets := by
  have hfold : ∀ (cs : List ClassDecl) (g : ClassGraph), (cs.foldl
      (fun g c => if (g.lookup c.name.name).isSome then g else g ++ [(c.name.name, c.targets)])
      g).lookup x =
        (g.lookup x).or ((cs.find? fun c => c.name.name == x).map ClassDecl.targets) := by
    intro cs
    induction cs with
    | nil => intro g; simp
    | cons c cs ih =>
        intro g
        rw [List.foldl_cons, ih, List.find?_cons]
        by_cases hx : c.name.name = x
        · subst hx
          cases hg : g.lookup c.name.name with
          | some ts => simp [hg]
          | none => simp [hg, List.lookup_append]
        · have hne : (x == c.name.name) = false := beq_eq_false_iff_ne.2 (Ne.symm hx)
          have hne' : (c.name.name == x) = false := beq_eq_false_iff_ne.2 hx
          rw [hne']
          split
          · rfl
          · rw [List.lookup_append, List.lookup_cons, hne]
            simp
  simpa [ofClasses] using hfold cs []

end ClassGraph

/-! ### The cycles of a module -/

namespace Module

/-- What the classes of a module make.  Of several classes with one name, the first counts. -/
def objectGraph (m : Module) : ObjectGraph where
  objects? x := (m.classes.find? fun c => c.name.name == x).map ClassDecl.targets

theorem objects_ofClasses (m : Module) : (ClassGraph.ofClasses m.classes).objects = m.objectGraph :=
  congrArg ObjectGraph.mk (funext (ClassGraph.lookup_ofClasses m.classes))

/-- **The reports of cycles are genuine, and they are enough.**  Each of them tells a cycle of
different classes that make each other, in words and at the span of the object that closes it;
without the objects that are reported there is no cycle left; and so there is a report exactly when
there is a cycle. -/
theorem cycles_reported (m : Module) :
    ∃ ks : List Closing, m.cycleProblems = ks.map Closing.problem ∧
      (∀ k ∈ ks, m.objectGraph.Closes k) ∧
      (∀ x, ¬TransGen (m.objectGraph.KeptEdge (ks.map Closing.object)) x x) ∧
      (m.cycleProblems ≠ [] ↔ ∃ x, TransGen m.objectGraph.Edge x x) := by
  obtain ⟨ks, hproblems, hcloses, hkept⟩ := (ClassGraph.ofClasses m.classes).exists_closings
  have hnil := (ClassGraph.ofClasses m.classes).cycleProblems_eq_nil_iff
  rw [m.objects_ofClasses] at hcloses hkept hnil
  refine ⟨ks, hproblems, hcloses, hkept, ?_⟩
  rw [Module.cycleProblems, Ne, hnil, not_forall_not]

/-- Two classes that make objects of each other, one of them twice. -/
def mirrors : Module where
  file := "mirrors.mlir"
  span := default
  items :=
    let object (value target : String) : Operation :=
      ⟨some ⟨value, default⟩, .object ⟨target, default⟩ [] [] (.object target), default⟩
    [.ofClass ⟨⟨"Left", default⟩, [], [object "r" "Right"], default⟩,
      .ofClass ⟨⟨"Right", default⟩, [], [object "l" "Left", object "l2" "Left"], default⟩]

/-- Both objects of the second class close a cycle, and the two reports say the same. -/
theorem cycles_reported_mirrors : ∃ p : Problem, mirrors.cycleProblems = [p, p] ∧
    p.message = "class @Left instantiates itself: @Left -> @Right -> @Left" ∧
    ∃ k, k.problem = p ∧ mirrors.objectGraph.Closes k := by
  obtain ⟨ks, hproblems, hcloses, -, -⟩ := mirrors.cycles_reported
  have htwice : ∃ p : Problem, mirrors.cycleProblems = [p, p] ∧
      p.message = "class @Left instantiates itself: @Left -> @Right -> @Left" :=
    ⟨_, rfl, by decide +kernel⟩
  obtain ⟨p, hp, hmessage⟩ := htwice
  obtain ⟨k, hk, hkp⟩ := List.mem_map.1 (hproblems ▸ hp ▸ List.mem_cons_self : p ∈ ks.map _)
  exact ⟨p, hp, hmessage, k, hkp, hcloses k hk⟩

end Module

end ObjectModel
