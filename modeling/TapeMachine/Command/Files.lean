import TapeMachine.Text.Quoted

/-!
# Files

Paths, and files that are held in memory. A path is the list of its names from the root on.

* `Path.resolve` follows a text from a directory;
* `FileTree.read` reads a file, or says why that is not possible (`ReadFault`).
-/

namespace TapeMachine

/-! ## §1 Paths -/

/-- The names from the root on. -/
abbrev Path := List String

namespace Path

/-- The path in print. -/
def text (p : Path) : String := "/" ++ "/".intercalate p

/-- A text that names a path from the root. -/
def isAbsolute (text : String) : Bool := "/".toList.isPrefixOf text.toList

/-- The directory reached by one name: the same for none or a dot, the one above for two. -/
def enter (p : Path) (name : String) : Path :=
  if name = "" || name = "." then p
  else if name = ".." then p.dropLast
  else p ++ [name]

/-- The path that a text names, seen from a directory. -/
def resolve (directory : Path) (text : String) : Path :=
  let start := if isAbsolute text then [] else directory
  (text.splitOn "/").foldl enter start

end Path

/-! ## §2 Reading -/

/-- Why a file cannot be read. -/
inductive ReadFault where
  | notFound
  | notADirectory
  | isADirectory
  | nameTooLong
  /-- Another reason, with its number and its words. -/
  | other (number : Nat) (words : String)
  deriving DecidableEq, Repr

/-- The fault in words, with the path that was tried. -/
def ReadFault.message (f : ReadFault) (path : String) : String :=
  let (number, words) := match f with
    | .notFound => (2, "No such file or directory")
    | .notADirectory => (20, "Not a directory")
    | .isADirectory => (21, "Is a directory")
    | .nameTooLong => (36, "File name too long")
    | .other number words => (number, words)
  s!"[Errno {number}] {words}: {Text.quoted path}"

/-- Files with their bytes. A directory is there when something is in it or it is listed. -/
structure FileTree where
  files : List (Path × List Nat)
  directories : List Path := []

namespace FileTree

/-- The longest name a file may have, in bytes. -/
def longestName : Nat := 255

/-- The longest path that can be followed, in bytes. -/
def longestPath : Nat := 4095

/-- Whether a path is that of a directory. -/
def isDirectory (t : FileTree) (p : Path) : Bool :=
  p.isEmpty || t.directories.any (p.isPrefixOf ·) ||
    t.files.any fun file => p.isPrefixOf file.1 && p != file.1

/-- Follows a path from a directory on, name by name. -/
def readFrom (t : FileTree) (directory : Path) : List String → Except ReadFault (List Nat)
  | [] => .error .isADirectory
  | name :: rest =>
    let here := directory ++ [name]
    if longestName < name.utf8ByteSize then .error .nameTooLong
    else if t.isDirectory here then readFrom t here rest
    else
      match t.files.lookup here, rest with
      | some bytes, [] => .ok bytes
      | some _, _ :: _ => .error .notADirectory
      | none, _ => .error .notFound

/-- The bytes of a file. -/
def read (t : FileTree) (p : Path) : Except ReadFault (List Nat) :=
  if longestPath < p.text.utf8ByteSize then .error .nameTooLong else t.readFrom [] p

end FileTree

end TapeMachine
