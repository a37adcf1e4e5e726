/-
**The program.**

Main definitions:

* `readText` — the text of a file;
* `main` — carries out the command that its arguments stand for, and writes the answer.
-/

import ObjectModel.CommandLine

set_option relaxedAutoImplicit false
set_option autoImplicit false

namespace ObjectModel

/-- Why a file could not be read.  The number of an error comes with either sign, so numbers below
zero, which stand above all others here, are turned round. -/
def FileError.ofSystem (e : IO.Error) : FileError :=
  let magnitude (code : UInt32) : UInt32 := if code.toInt32 < 0 then -code else code
  match e with
  | .noFileOrDirectory .. => .noSuchFile
  | .permissionDenied .. => .noPermission
  | .inappropriateType _ code _ => if magnitude code = 20 then .notDirectory else .isDirectory
  | .invalidArgument _ code _ =>
      if magnitude code = 36 then .nameTooLong else .other (toString e)
  | _ => .other (toString e)

/-- The text of a file. -/
def readText (file : String) : IO (Except FileError String) := do
  try
    match String.fromUTF8? (← IO.FS.readBinFile file) with
    | some text => return .ok text
    | none => return .error .notText
  catch e => return .error (.ofSystem e)

end ObjectModel

open ObjectModel

/-- Carries out the command that the arguments stand for, and writes the answer.  A run that would
not end is given the exit code of a program that ran out of its stack. -/
def main (args : List String) : IO UInt32 := do
  match ← CommandLine.perform readText args with
  | none => return 134
  | some o =>
      IO.print o.stdout
      IO.eprint o.stderr
      return o.exitCode.toUInt32
