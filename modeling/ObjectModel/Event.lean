/-
**The journal of evaluation.**

Evaluation writes down what it does, in the order in which it does it.  Some entries are meant for
a log, and have a level, a message and named fields.

Main definitions:

* `Event` — an entry of the journal;
* `Event.record?` — the line that the log has for it.
-/

import ObjectModel.Value.Text

set_option relaxedAutoImplicit false
set_option autoImplicit false

namespace ObjectModel

/-- Something that evaluation does. -/
inductive Event where
  /-- The classes of a module were registered. -/
  | built (file : String) (classes hardware values : Nat)
  /-- An object is made while `depth` others are being made around it. -/
  | instantiating (className : String) (actuals depth : Nat)
  /-- The value of a field is asked for. -/
  | evaluating (className field : String)
  /-- An operation is carried out for the value `name` of the frame `frame`. -/
  | computing (frame : Nat) (name : String)
  /-- A reference was found to name a symbol. -/
  | resolved (path : SymbolPath)
  /-- A key of a map comes again. -/
  | duplicateKey (key : Key) (loc : Location)
  deriving DecidableEq, Inhabited

/-- How important a line of the log is. -/
inductive Level where
  | trace
  | debug
  | warn
  deriving DecidableEq, Inhabited

/-- The word for a level. -/
def Level.text : Level → String
  | trace => "TRACE"
  | debug => "DEBUG"
  | warn => "WARN"

/-- A line of the log. -/
structure LogRecord where
  /-- How important it is. -/
  level : Level
  /-- What it says. -/
  message : String
  /-- The fields with their names. -/
  fields : List (String × String)
  deriving DecidableEq, Inhabited

/-- The line that the log has for an event. -/
def Event.record? : Event → Option LogRecord
  | built file classes hardware values =>
      some ⟨.debug, "built class registry",
        [("file", file), ("classes", toString classes), ("hw_modules", toString hardware),
          ("module_values", toString values)]⟩
  | instantiating className actuals depth =>
      some ⟨.debug, "instantiating object",
        [("class", className), ("actuals", toString actuals), ("depth", toString depth)]⟩
  | evaluating className field =>
      some ⟨.trace, "evaluating field", [("class", className), ("field", field)]⟩
  | computing .. => none
  | resolved path => some ⟨.trace, "resolved symbol reference", [("path", path.text)]⟩
  | duplicateKey key loc =>
      some ⟨.warn, "duplicate key in map construction; keeping the last value",
        [("key", key.text), ("location", loc.text)]⟩

end ObjectModel
