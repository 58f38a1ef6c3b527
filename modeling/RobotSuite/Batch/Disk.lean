/-
# Files

A disk holds files and directories below one working directory.  A path is followed from
there name by name; `.` stays where it is and `..` goes up.  Nothing is known of what lies
outside the working directory.
-/

import RobotSuite.Text.Units

namespace RobotSuite

/-- Why a file cannot be read. -/
inductive ReadFault where
  /-- There is no such file. -/
  | missing
  /-- The path goes through something that is no directory. -/
  | notDirectory
  /-- The path leads to a directory. -/
  | directory
  /-- The path, or a name on it, is too long. -/
  | nameTooLong
  /-- The system gives another reason. -/
  | other (reason : String)
deriving Repr, DecidableEq, Inhabited

/-- Why a file at some path cannot be read, in words. -/
def ReadFault.message (path : String) : ReadFault → String
  | missing => s!"ENOENT: no such file or directory, open '{path}'"
  | notDirectory => s!"ENOTDIR: not a directory, open '{path}'"
  | directory => "EISDIR: illegal operation on a directory, read"
  | nameTooLong => s!"ENAMETOOLONG: name too long, open '{path}'"
  | other reason => reason

/-- Where a file or directory lies: the names on the way there from the working directory,
the last one first. -/
abbrev Route := List String

namespace Route

/-- The way to the root of the file system. -/
def root : Route := ["/"]

/-- Whether a way ends at or above the working directory. -/
def isAbove (p : Route) : Bool := p.all (· = "..") || p = root

/-- The way with one name more. -/
def child (p : Route) (name : String) : Route :=
  if name = "" || name = "." then p
  else if name = ".." then
    if p = root then p else if p.all (· = "..") then ".." :: p else p.tail
  else name :: p

/-- The way to a name below the working directory, with slashes between its parts. -/
def ofName (name : String) : Route := (Text.pieces '/' name).foldl child []

end Route

/-- The files and directories below a working directory. -/
structure Disk where
  /-- The files with their texts, in order. -/
  files : List (Route × String)
  /-- Directories, in addition to those in which files lie. -/
  directories : List Route
deriving Repr, DecidableEq, Inhabited

namespace Disk

/-- The text of the file at the end of a way. -/
def text? (d : Disk) (p : Route) : Option String := d.files.lookup p

/-- Whether a way ends at a directory: one that was made, one in which something lies, or
one above the working directory. -/
def isDirectory (d : Disk) (p : Route) : Bool :=
  p.isAbove || d.directories.any p.isSuffixOf ||
    d.files.any fun f => p.isSuffixOf f.1 && p ≠ f.1

/-- The most bytes that a name has. -/
def maxNameBytes : Nat := 255

/-- The most bytes that a path has. -/
def maxPathBytes : Nat := 4095

/-- Follow names from the end of a way. -/
def follow (d : Disk) : Route → List String → Except ReadFault Route
  | p, [] => pure p
  | p, name :: rest =>
    if d.isDirectory p then
      if maxNameBytes < name.utf8ByteSize then throw .nameTooLong
      else d.follow (p.child name) rest
    else if (d.text? p).isSome then throw .notDirectory
    else throw .missing

/-- The way that a path describes. -/
def locate (d : Disk) (path : String) : Except ReadFault Route :=
  if path = "" then throw .missing
  else if maxPathBytes < path.utf8ByteSize then throw .nameTooLong
  else
    let start := if path.toList.head? = some '/' then Route.root else []
    d.follow start (Text.pieces '/' path)

/-- The text of the file at a path. -/
def read (d : Disk) (path : String) : Except ReadFault String := do
  let p ← d.locate path
  if d.isDirectory p then throw .directory
  match d.text? p with
  | some text => pure text
  | none => throw .missing

/-- Give the file at a path another text.  Without such a file nothing happens. -/
def write (d : Disk) (path text : String) : Disk :=
  match d.locate path with
  | .ok p => { d with files := d.files.map fun f => if f.1 = p then (p, text) else f }
  | .error _ => d

/-- The name of a file below the working directory. -/
def nameOf (p : Route) : String := "/".intercalate p.reverse

/-- The files with their names, in order. -/
def namedFiles (d : Disk) : List (String × String) :=
  d.files.map fun f => (nameOf f.1, f.2)

/-- A disk with some entries.  A name with a slash at its end is a directory. -/
def ofEntries (entries : List (String × String)) : Disk :=
  let isFolder (e : String × String) : Bool := e.1.toList.getLast? = some '/'
  { files := (entries.filter fun e => !isFolder e).map fun e => (Route.ofName e.1, e.2)
    directories := (entries.filter isFolder).map fun e => Route.ofName e.1 }

end Disk

end RobotSuite
