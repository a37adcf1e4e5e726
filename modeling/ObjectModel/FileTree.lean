/-
**Trees of files, and reading a file by its path.**

A tree stands for the files of a machine.  It belongs to the outer layer: what a command answers
hangs on nothing but the text that is read, or the error.

A path is a list of names with slashes between them.  Reading follows it from directory to
directory, and the first name that leads nowhere says why there is nothing to read.

Main definitions:

* `FileTree` — a file, or a directory of named files and directories;
* `FileTree.Place`, `FileTree.Place.enter` — where one stands in a tree, and one step of a path;
* `FileTree.Place.read` — the text of the file at a path.
-/

import ObjectModel.Command
import ObjectModel.Entries

set_option relaxedAutoImplicit false
set_option autoImplicit false

namespace ObjectModel

/-! ### Trees -/

/-- A file with its text, or a directory. -/
inductive FileTree where
  /-- A file. -/
  | file (text : String)
  /-- A directory. -/
  | directory (entries : List (String × FileTree))
  deriving Inhabited

namespace FileTree

/-- What a directory contains.  A file contains nothing. -/
def entries : FileTree → List (String × FileTree)
  | file _ => []
  | directory es => es

/-- Writes a file under a list of names, and the directories on the way where they are missing. -/
def write (text : String) : List String → FileTree → FileTree
  | [], _ => file text
  | name :: names, t =>
      let child := (t.entries.lookup name).getD (directory [])
      directory (Entries.insert name (child.write text names) t.entries)

/-! ### Paths -/

/-- How many bytes a name may have. -/
def maxName : Nat := 255

/-- How many bytes a path may have. -/
def maxPath : Nat := 4095

/-- A file or directory of a tree, and the directories above it, the nearest first. -/
structure Place where
  /-- The file or directory. -/
  here : FileTree
  /-- The directories above. -/
  above : List FileTree := []
  deriving Inhabited

namespace Place

/-- The top of the tree. -/
def root (p : Place) : Place := ⟨p.above.getLast?.getD p.here, []⟩

/-- One step of a path.  Every step begins in a directory, also the step of an empty name, which
like a single point leads nowhere else.  Two points lead up, and at the top stay there. -/
def enter (p : Place) (name : String) : Except FileError Place :=
  match p.here with
  | file _ => .error .notDirectory
  | directory es =>
      if name = "" ∨ name = "." then .ok p
      else if name = ".." then
        match p.above with
        | [] => .ok p
        | d :: ds => .ok ⟨d, ds⟩
      else if maxName < name.utf8ByteSize then .error .nameTooLong
      else
        match es.lookup name with
        | some t => .ok ⟨t, p.here :: p.above⟩
        | none => .error .noSuchFile

/-- The file or directory at a path.  A path that begins with a slash is followed from the top. -/
def follow (p : Place) (path : String) : Except FileError Place :=
  if path = "" then .error .noSuchFile
  else if maxPath < path.utf8ByteSize then .error .nameTooLong
  else (path.splitOn "/").foldlM enter (if path.startsWith "/" then p.root else p)

/-- The text of the file at a path. -/
def read (p : Place) (path : String) : Except FileError String := do
  match (← p.follow path).here with
  | file text => .ok text
  | directory _ => .error .isDirectory

end Place

end FileTree

end ObjectModel
