/-
**The command line.**

What stands here is the thin layer around the commands: it turns a list of arguments into a
command, has the file of the command read and hands its text to `Command.answer`.  Which arguments
are options, and which are numbers, are the documented rules of the argument parser that the tool
is built on.  `CommandLine.read` stands for that parser, and no theorem rests on it.

Main definitions:

* `CommandLine.read`, `Command.ofArgs?` — the command that a list of arguments stands for;
* `Command.usage` — how commands are written;
* `CommandLine.perform` — the whole program, over any way of reading files;
* `FileTree.Place.perform` — the same with the files of a tree.
-/

import ObjectModel.Command
import ObjectModel.FileTree

set_option relaxedAutoImplicit false
set_option autoImplicit false

namespace ObjectModel

/-! ### Arguments -/

namespace CommandLine

/-- Whether the characters behind a minus sign look like a number: digits, one point that is not
in front, and one exponent that is neither in front nor empty and behind which no point stands. -/
def isNumber (cs : List Char) : Bool :=
  let mantissa := cs.takeWhile fun c => c != 'e' && c != 'E'
  let exponent := cs.dropWhile fun c => c != 'e' && c != 'E'
  let fraction := mantissa.dropWhile Char.isDigit
  (match fraction with
    | [] => true
    | '.' :: rest => rest.all Char.isDigit && mantissa.head? != some '.'
    | _ => false)
  && match exponent with
    | [] => true
    | [_] => false
    | _ :: rest => rest.all Char.isDigit && !mantissa.isEmpty

/-- What an argument looks like. -/
inductive Shape where
  /-- The two minus signs behind which there are no options. -/
  | separator
  /-- A long option, with the text behind its equals sign. -/
  | long (name : String) (value : Option String)
  /-- A negative number. -/
  | negative
  /-- A short option. -/
  | short
  /-- Anything else. -/
  | plain
  deriving DecidableEq, Inhabited

/-- What an argument looks like. -/
def shape (arg : String) : Shape :=
  match arg.toList with
  | ['-', '-'] => .separator
  | '-' :: '-' :: cs =>
      let name := String.ofList (cs.takeWhile (· != '='))
      match cs.dropWhile (· != '=') with
      | _ :: value => .long name (some (String.ofList value))
      | [] => .long name none
  | ['-'] => .plain
  | '-' :: cs => if isNumber cs then .negative else .short
  | _ => .plain

/-- What has been read of the arguments. -/
structure Arguments where
  /-- The arguments that are no options, in order. -/
  positional : List String := []
  /-- Whether the object is asked for as JSON. -/
  json : Bool := false
  /-- The number asked for as the greatest depth. -/
  maxDepth : Option Nat := none
  deriving DecidableEq, Inhabited

/-- Reads the arguments of a command behind those in `done`.  Options are known only if `options`
is set, and then a negative number may stand behind the second argument. -/
def read (options : Bool) (done : Arguments) : List String → Option Arguments
  | [] => some done
  | arg :: args =>
      let withDepth (value : String) : Option Arguments :=
        if done.maxDepth.isSome then none
        else (Decimal.count? value).map fun n => { done with maxDepth := some n }
      match shape arg with
      | .separator => some { done with positional := done.positional ++ args }
      | .long "json" none =>
          if options && !done.json then read options { done with json := true } args else none
      | .long "max-depth" (some value) => do
          if options then read options (← withDepth value) args else none
      | .long "max-depth" none =>
          match args with
          | value :: args => do
              if options then read options (← withDepth value) args else none
          | [] => none
      | .negative =>
          if options && 2 ≤ done.positional.length then
            read options { done with positional := done.positional ++ [arg] } args
          else none
      | .plain => read options { done with positional := done.positional ++ [arg] } args
      | _ => none

end CommandLine

/-- The command of a list of arguments, if it is one.  The name of a file is never empty. -/
def Command.ofArgs? : List String → Option Command
  | "check" :: args => do
      match (← CommandLine.read false {} args).positional with
      | [file] => if file.isEmpty then none else some (.check file)
      | _ => none
  | "classes" :: args => do
      match (← CommandLine.read false {} args).positional with
      | [file] => if file.isEmpty then none else some (.classes file)
      | _ => none
  | "instantiate" :: args => do
      let read ← CommandLine.read true {} args
      match read.positional with
      | file :: className :: actuals =>
          if file.isEmpty then none
          else
            some (.instantiate file className actuals read.json
              (read.maxDepth.getD Registry.defaultMaxDepth))
      | _ => none
  | _ => none

/-- How the commands are written. -/
def Command.usage : String :=
  "usage: check FILE\n"
    ++ "       classes FILE\n"
    ++ "       instantiate [--json] [--max-depth N] FILE CLASS [ARGS]...\n"

/-! ### The program -/

/-- What is left behind when the arguments are no command. -/
def CommandLine.refusal : Outcome := { exitCode := 2, stderr := Command.usage }

/-- Carries out the command that the arguments stand for.  Files are read by `readText`. -/
def CommandLine.perform {m : Type → Type} [Monad m]
    (readText : String → m (Except FileError String)) (args : List String) : m (Option Outcome) :=
  match Command.ofArgs? args with
  | none => return some refusal
  | some command => return command.answer (← readText command.file)

/-- Carries out the command that the arguments stand for, with the files of a tree. -/
def FileTree.Place.perform (p : Place) (args : List String) : Option Outcome :=
  CommandLine.perform (m := Id) p.read args

end ObjectModel
