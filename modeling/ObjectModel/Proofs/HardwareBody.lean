/-
**The bodies of hardware modules.**

Nothing of a hardware module is understood but its name and the symbols that its body announces.
The body is skipped up to the brace that closes it, and which one that is says the balance of the
braces: a body in which each brace is closed, and none before it is opened, is skipped as a whole;
one in which a brace stays open is skipped up to the end of the text, where its own brace is missed.

Main definitions:

* `HardwareModule.opened`, `HardwareModule.closed` — how many braces are opened and closed;
* `HardwareModule.Open`, `HardwareModule.Balanced` — bodies without the brace that closes them;
* `HardwareModule.symbolBehind` — the symbol that two neighbours announce;
* `HardwareModule.header` — the first words, up to the brace that opens the body.

Main results:

* `HardwareModule.splitBody_within` — how far a body is skipped, from any depth on;
* `HardwareModule.announcedIn_eq` — symbols are announced by neighbours, wherever they stand;
* `Reading.hardware_of_header` — behind its first words a hardware module is its body;
* `Noting.run_item_hardware` — **a hardware module is skipped up to the brace that closes it**.
-/

import Mathlib.Data.List.Infix
import ObjectModel.Proofs.Locality

set_option relaxedAutoImplicit false
set_option autoImplicit false

namespace ObjectModel

namespace HardwareModule

/-! ### Braces -/

/-- How many braces are opened. -/
def opened (ts : List Token) : Nat := ts.countP fun t => t.kind = .leftBrace

/-- How many braces are closed. -/
def closed (ts : List Token) : Nat := ts.countP fun t => t.kind = .rightBrace

/-- The tokens of a body that is open at `depth` braces besides the first: the text does not end
there, and nowhere are more braces closed than are open. -/
structure Within (depth : Nat) (ts : List Token) : Prop where
  text : ∀ t ∈ ts, t.kind ≠ .eof
  below : ∀ us, us <+: ts → closed us ≤ opened us + depth

/-- The tokens of a body up to some point before the brace that closes it. -/
abbrev Open (ts : List Token) : Prop := Within 0 ts

/-- The tokens of a body up to the brace that closes it. -/
structure Balanced (ts : List Token) : Prop extends Within 0 ts where
  all : closed ts = opened ts

variable {depth : Nat} {t : Token} {ts : List Token}

@[simp] theorem opened_cons (t : Token) (ts : List Token) :
    opened (t :: ts) = opened ts + if t.kind = .leftBrace then 1 else 0 := by
  simp [opened, List.countP_cons]

@[simp] theorem closed_cons (t : Token) (ts : List Token) :
    closed (t :: ts) = closed ts + if t.kind = .rightBrace then 1 else 0 := by
  simp [closed, List.countP_cons]

/-- Behind the first token of a body, as many braces are open as that token leaves open. -/
theorem Within.tail {depth' : Nat} (h : Within depth (t :: ts))
    (hdepth : depth + opened [t] = depth' + closed [t]) : Within depth' ts where
  text := fun u hu => h.text u (List.mem_cons_of_mem t hu)
  below := by
    intro us hus
    have hbelow := h.below (t :: us) (List.cons_prefix_cons.2 ⟨rfl, hus⟩)
    rw [opened_cons, closed_cons] at hbelow hdepth
    simp only [opened, closed, List.countP_nil] at hbelow hdepth ⊢
    omega

/-- A token of a body is skipped. -/
theorem exists_splitBody_cons (h : Within depth (t :: ts)) :
    ∃ depth', depth + opened [t] = depth' + closed [t] ∧
      ∀ rest, splitBody depth (t :: rest) = (splitBody depth' rest).map (t :: ·) id := by
  have htext := h.text t List.mem_cons_self
  by_cases hopen : t.kind = .leftBrace
  · refine ⟨depth + 1, by simp [opened, closed, hopen], fun rest => ?_⟩
    conv_lhs => unfold splitBody
    rw [hopen]
  · by_cases hclose : t.kind = .rightBrace
    · have hbelow := h.below [t] ⟨ts, rfl⟩
      simp only [closed_cons, opened_cons, if_pos hclose, if_neg hopen] at hbelow
      obtain ⟨depth', rfl⟩ : ∃ depth', depth = depth' + 1 := ⟨depth - 1, by
        simp only [opened, closed, List.countP_nil] at hbelow
        omega⟩
      refine ⟨depth', by simp [opened, closed, hclose], fun rest => ?_⟩
      conv_lhs => unfold splitBody
      rw [hclose]
    · refine ⟨depth, by simp [opened, closed, hopen, hclose], fun rest => ?_⟩
      conv_lhs => unfold splitBody
      split <;> first | contradiction | rfl

/-- **A body is skipped as far as it is open**, and from there on with the braces that are open
then. -/
theorem splitBody_within (h : Within depth ts) (rest : List Token) :
    splitBody depth (ts ++ rest) =
      (splitBody (depth + opened ts - closed ts) rest).map (ts ++ ·) id := by
  induction ts generalizing depth with
  | nil => rfl
  | cons t ts ih =>
      obtain ⟨depth', hdepth, hskip⟩ := exists_splitBody_cons h
      have hrest : depth' + opened ts - closed ts =
          depth + opened (t :: ts) - closed (t :: ts) := by
        rw [opened_cons, closed_cons] at hdepth ⊢
        simp only [opened, closed, List.countP_nil] at hdepth ⊢
        omega
      rw [List.cons_append, hskip, ih (h.tail hdepth), hrest, Prod.map_map]
      rfl

/-- A body with balanced braces is skipped as a whole when the brace that closes it follows. -/
theorem splitBody_balanced (h : Balanced ts) (ht : t.kind = .rightBrace) (rest : List Token) :
    splitBody 0 (ts ++ t :: rest) = (ts, t :: rest) := by
  have hstop : splitBody 0 (t :: rest) = ([], t :: rest) := by
    unfold splitBody
    rw [ht]
  rw [splitBody_within h.toWithin, h.all, Nat.zero_add, Nat.sub_self, hstop]
  simp

/-- A body that is still open where the text ends is skipped up to there. -/
theorem splitBody_open (h : Open ts) (ht : t.kind = .eof) (rest : List Token) :
    splitBody 0 (ts ++ t :: rest) = (ts, t :: rest) := by
  have hstop (depth : Nat) : splitBody depth (t :: rest) = ([], t :: rest) := by
    unfold splitBody
    rw [ht]
  rw [splitBody_within h, hstop]
  simp

/-! ### Announced symbols -/

/-- The symbol that two neighbours announce: the word `sym` with a symbol right behind it. -/
def symbolBehind (t u : Token) : Option Ident :=
  match t.kind, u.kind with
  | .word "sym", .symbol name => some ⟨name, u.span⟩
  | _, _ => none

/-- The symbols that neighbours announce, in the order they stand. -/
def neighbourSymbols (ts : List Token) : List Ident :=
  (ts.zip ts.tail).filterMap fun pair => symbolBehind pair.1 pair.2

/-- What a token announces in front of another one. -/
theorem announced?_cons (t u : Token) (ts : List Token) :
    announced? t (u :: ts) = symbolBehind t u := by
  obtain ⟨k, s⟩ := u
  unfold announced? symbolBehind
  split
  · next ht =>
      rw [ht]
      cases k <;> rfl
  · next ht =>
      split
      · next hword _ => exact absurd hword ht
      · rfl

/-- **Symbols are announced by neighbours**, whatever stands around them. -/
theorem announcedIn_eq (ts : List Token) : announcedIn ts = neighbourSymbols ts := by
  induction ts with
  | nil => rfl
  | cons t ts ih =>
      rw [announcedIn, ih]
      cases ts with
      | nil =>
          unfold announced?
          split <;> rfl
      | cons u ts =>
          have hzip : neighbourSymbols (t :: u :: ts) =
              (symbolBehind t u).toList ++ neighbourSymbols (u :: ts) := by
            cases h : symbolBehind t u <;> simp [neighbourSymbols, h]
          rw [announced?_cons, hzip]

/-! ### Hardware modules -/

/-- The first words of a hardware module: its name, the signature, and the brace that opens the
body. -/
def header (start : Span) (name : Ident) (signature : List Token) (brace : Span) : List Token :=
  ⟨.word "hw.module", start⟩ :: name.symbolToken :: (signature ++ [⟨.leftBrace, brace⟩])

end HardwareModule

namespace Cursor

variable {c : Cursor} {p : TokenKind → Bool} {t : Token} {ts rest : List Token}

/-- Tokens of suitable kinds are taken up to the first one that is not. -/
theorem skipWhile_eq_skip (hts : ∀ u ∈ ts, p u.kind = true) (ht : p t.kind = false)
    (h : c.ahead = ts ++ t :: rest) : c.skipWhile p = c.skip ts.length := by
  have hstop : (t :: rest).takeWhile (fun u => p u.kind) = [] ∧
      (t :: rest).dropWhile (fun u => p u.kind) = t :: rest := by simp [ht]
  rw [skipWhile, h, List.takeWhile_append_of_pos hts, List.dropWhile_append_of_pos hts, hstop.1,
    hstop.2, List.append_nil, advanceTo_eq_skip h]

/-- Behind a token that is ahead. -/
theorem skip_succ_eq (h : c.ahead = ts ++ t :: rest) :
    c.skip (ts.length + 1) = ⟨rest, c.final, t.span⟩ := by
  have hall : c.ahead = (ts ++ [t]) ++ rest := by simp [h]
  have hlen : ts.length + 1 = (ts ++ [t]).length := by simp
  rw [hlen, ← advanceTo_eq_skip hall, advanceTo]
  simp

end Cursor

namespace Reading

open HardwareModule

/-- The tokens of a signature, among which the body is not opened and the line does not end. -/
def Signature (ts : List Token) : Prop :=
  ∀ t ∈ ts, t.kind ≠ .leftBrace ∧ t.kind ≠ .newline ∧ t.kind ≠ .eof

variable {c : Cursor} {start brace : Span} {name : Ident} {signature body rest : List Token}

/-- **Behind its first words a hardware module is its body**, whatever the signature is. -/
theorem hardware_of_header (hsignature : Signature signature)
    (hc : c.ahead = header start name signature brace ++ rest) :
    hardware c = (do
      let innerSymbols ← hardwareBody
      let span ← closeBody start ("hw.module @" ++ name.name)
      return ⟨name, innerSymbols, span⟩ : Reading HardwareModule) ⟨rest, c.final, brace⟩ := by
  obtain ⟨ahead, final, last⟩ := c
  obtain rfl : ahead = _ := hc
  -- where reading stands behind the name, in front of the signature
  obtain ⟨named, hnamed⟩ : ∃ c : Cursor,
    c = ⟨signature ++ [⟨.leftBrace, brace⟩] ++ rest, final, name.span⟩ := ⟨_, rfl⟩
  have hahead : named.ahead = signature ++ ⟨.leftBrace, brace⟩ :: rest := by simp [hnamed]
  have hskip : named.skipWhile (fun k => k != .leftBrace && k != .newline && k != .eof) =
      named.skip signature.length :=
    Cursor.skipWhile_eq_skip (fun t ht => by simpa [and_assoc] using hsignature t ht) rfl hahead
  have hkind : (named.skip signature.length).kind = .leftBrace := by
    rw [Cursor.kind, Cursor.token, Cursor.ahead_skip, hahead, List.drop_left]
    rfl
  have hopen : advance (named.skip signature.length) = .ok () ⟨rest, final, brace⟩ := by
    have hnext := Cursor.skip_succ_eq hahead
    rw [Cursor.skip_add, hnamed] at hnext
    rw [hnamed, ← hnext]
    rfl
  have hrun : hardware ⟨header start name signature brace ++ rest, final, last⟩ = (do
      modify (·.skipWhile fun k => k != .leftBrace && k != .newline && k != .eof)
      if (← kind) = .leftBrace then advance
      else
        fail .unexpectedToken ("expected '\x7b' to open the body of hw.module @" ++ name.name)
      let innerSymbols ← hardwareBody
      let span ← closeBody start ("hw.module @" ++ name.name)
      return ⟨name, innerSymbols, span⟩ : Reading HardwareModule) named := by
    rw [hnamed]
    rfl
  have hmodify : (modify (·.skipWhile fun k => k != .leftBrace && k != .newline && k != .eof) :
      Reading Unit) named = .ok () (named.skip signature.length) := by
    rw [← hskip]
    rfl
  rw [hrun, bind_of_ok hmodify, kind_bind_run]
  dsimp only
  rw [hkind, if_pos rfl, bind_of_ok hopen]

/-- A body is skipped as it is split off, and its symbols are kept. -/
theorem hardwareBody_of_splitBody (h : splitBody 0 c.ahead = (body, rest)) :
    hardwareBody c = .ok (neighbourSymbols body) (c.advanceTo body rest) := by
  change (set (c.advanceTo (splitBody 0 c.ahead).1 (splitBody 0 c.ahead).2) >>= fun _ =>
    pure (announcedIn (splitBody 0 c.ahead).1) : Reading (List Ident)) c = _
  rw [h, announcedIn_eq]
  rfl

theorem closeBody_cons (start close : Span) (what : String) (final : Token) (last : Span) :
    closeBody start what ⟨⟨.rightBrace, close⟩ :: rest, final, last⟩ =
      (do lineEnd; return start.merge close : Reading Span) ⟨rest, final, close⟩ := rfl

end Reading

namespace Noting

open HardwareModule

variable {p : Progress} {start brace : Span} {name : Ident} {signature body rest : List Token}

/-- A hardware module is an item that begins with its first word. -/
theorem run_item_of_hardware (hword : p.cursor.kind = .word "hw.module") :
    item.run.run p =
      (return .ofHardware (← attempt Reading.hardware) : Noting Item).run.run p := by
  have hkind : (attempt Reading.kind).run.run p = (some p.cursor.kind, p) := rfl
  unfold item
  rw [run_bind_of_some hkind, hword]
  rfl

/-- **A hardware module is skipped up to the brace that closes it.**  When the braces of its body
are balanced, its words, the body and the brace behind it are taken, and the line ends that follow;
nothing is wrong with it, and its symbols are those that neighbours in the body announce.  When the
text ends while its body is open, this is the one problem that is noted, and there is no item. -/
theorem run_item_hardware (hsignature : Reading.Signature signature)
    (hahead : p.cursor.ahead = header start name signature brace ++ (body ++ rest)) :
    (Balanced body → ∀ close s rest', rest = ⟨.rightBrace, close⟩ :: ⟨.newline, s⟩ :: rest' →
      item.run.run p =
        (some (.ofHardware ⟨name, neighbourSymbols body, start.merge close⟩),
          { p with cursor := (p.cursor.skip (signature.length + body.length + 4)).skipNewlines })) ∧
    (Open body → ∀ s rest', rest = ⟨.eof, s⟩ :: rest' →
      ∃ c, c.ahead = rest ∧ item.run.run p =
        (none, ⟨c, p.problems ++ [{ code := .unclosedDelimiter
                                    message := "unclosed body of hw.module @" ++ name.name
                                    span := s }]⟩)) := by
  have hword : p.cursor.kind = .word "hw.module" := by
    rw [Cursor.kind, Cursor.token, hahead]
    rfl
  have hread := Reading.hardware_of_header hsignature hahead
  rw [run_item_of_hardware hword]
  constructor
  · rintro hbody close s rest' rfl
    have hskip : p.cursor.skip (signature.length + body.length + 4) =
        ⟨⟨.newline, s⟩ :: rest', p.cursor.final, close⟩ := by
      rw [← List.append_assoc] at hahead
      have hlen : (header start name signature brace ++ body).length + 1 =
          signature.length + body.length + 4 := by
        simp [header]
        omega
      rw [← hlen, Cursor.skip_succ_eq hahead]
    rw [Reading.bind_of_ok (Reading.hardwareBody_of_splitBody (splitBody_balanced hbody rfl _))]
      at hread
    have hdone : Reading.hardware p.cursor = .ok ⟨name, neighbourSymbols body, start.merge close⟩
        (p.cursor.skip (signature.length + body.length + 4)).skipNewlines := by
      rw [hread, hskip]
      rfl
    rw [run_bind_of_some (run_attempt_of_ok hdone)]
    rfl
  · rintro hbody s rest' rfl
    rw [Reading.bind_of_ok (Reading.hardwareBody_of_splitBody (splitBody_open hbody rfl _))]
      at hread
    exact ⟨_, rfl, run_bind_of_none (run_attempt_of_error hread)⟩

/-- A body with braces in it, and with symbols that are announced inside and outside of them. -/
def nestedBody : List Token :=
  [⟨.word "sym", default⟩, ⟨.symbol "a", default⟩, ⟨.leftBrace, default⟩, ⟨.word "sym", default⟩,
    ⟨.word "sym", default⟩, ⟨.symbol "b", default⟩, ⟨.rightBrace, default⟩, ⟨.newline, default⟩,
    ⟨.symbol "c", default⟩]

/-- A hardware module with a body, and reading in front of it. -/
def beforeHardware (body rest : List Token) : Progress where
  cursor := .ofTokens
    (header default ⟨"M", default⟩ [⟨.leftParen, default⟩] default ++ (body ++ rest))

/-- The body is skipped as a whole, and where its braces are cut off it is not closed. -/
theorem run_item_nestedBody :
    (∃ p, item.run.run (beforeHardware nestedBody
        [⟨.rightBrace, default⟩, ⟨.newline, default⟩, ⟨.newline, default⟩, ⟨.eof, default⟩]) =
          (some (.ofHardware ⟨⟨"M", default⟩, [⟨"a", default⟩, ⟨"b", default⟩], default⟩), p) ∧
        p.problems = [] ∧ p.cursor.ahead = [⟨.eof, default⟩]) ∧
    ∃ p, item.run.run (beforeHardware (nestedBody.take 6) [⟨.eof, default⟩]) = (none, p) ∧
      p.problems = [{ code := .unclosedDelimiter, message := "unclosed body of hw.module @M",
                      span := default }] := by
  have hprefixes : ∀ us ∈ nestedBody.inits, closed us ≤ opened us + 0 := by decide
  have hbody : Balanced nestedBody :=
    ⟨⟨by decide, fun us hus => hprefixes us ((List.mem_inits us _).2 hus)⟩, by decide⟩
  have hopen : Open (nestedBody.take 6) :=
    ⟨by decide, fun us hus => hbody.below us (hus.trans (List.take_prefix 6 _))⟩
  have hsignature : Reading.Signature [⟨.leftParen, default⟩] := by
    unfold Reading.Signature
    decide
  have hclosed := (run_item_hardware (p := beforeHardware nestedBody _) hsignature rfl).1
    hbody default default [⟨.newline, default⟩, ⟨.eof, default⟩] rfl
  obtain ⟨c, -, hunclosed⟩ := (run_item_hardware (p := beforeHardware (nestedBody.take 6) _)
    hsignature rfl).2 hopen default [] rfl
  exact ⟨⟨_, hclosed, rfl, rfl⟩, ⟨_, hunclosed, rfl⟩⟩

end Noting

end ObjectModel
