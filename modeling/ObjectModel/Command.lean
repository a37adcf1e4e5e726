/-
**The commands.**

There are three commands: to check a module, to list its classes, and to make an object of one of
them.

Main definitions:

* `Command` — a command;
* `FileError`, `FileError.text` — why a file could not be read, as the system says it;
* `Outcome` — an exit code and two texts;
* `Command.run` — what a command answers about a source;
* `Command.answer` — what it answers when its file may be unreadable.
-/

import ObjectModel.Diagnostic.Json
import ObjectModel.Module.Reading
import ObjectModel.Registry.Instantiate

set_option relaxedAutoImplicit false
set_option autoImplicit false

namespace ObjectModel

/-- A command. -/
inductive Command where
  /-- Shows the report of a module. -/
  | check (file : String)
  /-- Lists the classes of a module. -/
  | classes (file : String)
  /-- Makes an object and shows it. -/
  | instantiate (file className : String) (args : List String) (json : Bool) (maxDepth : Nat)
  deriving DecidableEq, Inhabited

/-- The file of a command. -/
def Command.file : Command → String
  | check file => file
  | classes file => file
  | instantiate file .. => file

/-! ### Files that cannot be read -/

/-- Why a file could not be read. -/
inductive FileError where
  /-- A name of the path leads nowhere. -/
  | noSuchFile
  /-- The file may not be read. -/
  | noPermission
  /-- The path goes on behind a file. -/
  | notDirectory
  /-- The path ends at a directory. -/
  | isDirectory
  /-- A name of the path, or the path itself, is longer than the system allows. -/
  | nameTooLong
  /-- The file does not hold a text. -/
  | notText
  /-- Anything else, in the words of the system. -/
  | other (message : String)
  deriving DecidableEq, Inhabited

/-- An error in the words of the system, with the number it has there. -/
def FileError.text : FileError → String
  | noSuchFile => "No such file or directory (os error 2)"
  | noPermission => "Permission denied (os error 13)"
  | notDirectory => "Not a directory (os error 20)"
  | isDirectory => "Is a directory (os error 21)"
  | nameTooLong => "File name too long (os error 36)"
  | notText => "stream did not contain valid UTF-8"
  | other message => message

/-! ### Answers -/

/-- What a command leaves behind. -/
structure Outcome where
  /-- The exit code. -/
  exitCode : Nat
  /-- What is written to standard output. -/
  stdout : String := ""
  /-- What is written to standard error. -/
  stderr : String := ""
  deriving DecidableEq, Inhabited

namespace Outcome

/-- A command that did what it was asked for. -/
def success (stdout : String) : Outcome := { exitCode := 0, stdout }

/-- A command that could not do what it was asked for. -/
def failure (text : String) : Outcome := { exitCode := 1, stderr := text ++ "\n" }

/-- A command whose file could not be read. -/
def unreadable (file : String) (e : FileError) : Outcome :=
  failure ("error: failed to read file '" ++ file ++ "': " ++ e.text)

end Outcome

/-- A module, read and checked. -/
def Source.registry (s : Source) : Except Report Registry := do
  Registry.build (← s.load) s.quote

/-- The classes of a registry: a line for each header, and below it a line for each field. -/
def Registry.describe (r : Registry) : String :=
  String.join (r.classes.map fun c =>
    c.signature ++ "\n"
      ++ String.join (c.fields.map fun f => "  " ++ f.name.name ++ ": " ++ f.ty.text ++ "\n"))

/-- The fields of an object, each on a line. -/
def Object.describe (o : Object) : String :=
  String.join (o.fields.map fun (name, v) => name ++ ": " ++ v.text ++ "\n")

/-- The value that an argument stands for: a whole number if it is one, and a text otherwise. -/
def Value.ofArg (arg : String) : Value :=
  match Decimal.int64? arg with
  | some n => .integer n
  | none => .string arg

/-- What a command answers about the source in its file.  There is no answer if making the object
does not end. -/
def Command.run (command : Command) (s : Source) : Option Outcome :=
  match command with
  | check _ =>
      let report := match s.registry with
        | .ok _ => Report.empty
        | .error report => report
      some
        { exitCode := if report.hasErrors then 1 else 0
          stdout := report.toJson.pretty ++ "\n" }
  | classes _ =>
      match s.registry with
      | .ok r => some (.success r.describe)
      | .error report => some (.failure report.text)
  | instantiate _ className args json maxDepth =>
      match s.registry with
      | .error report => some (.failure report.text)
      | .ok r =>
          (r.instantiate maxDepth className (args.map Value.ofArg)).map fun
            | .error f => .failure f.text
            | .ok o => .success (if json then o.toJson.pretty ++ "\n" else o.describe)

/-- What a command answers when reading its file has given `text`. -/
def Command.answer (command : Command) (text : Except FileError String) : Option Outcome :=
  match text with
  | .ok text => command.run ⟨command.file, text⟩
  | .error e => some (.unreadable command.file e)

end ObjectModel
