/-
BuildRelay.FileSystem.Tree — directories and files below one root.

A path is walked piece by piece. Every piece, also an empty one or a dot, is looked up in a
directory, so nothing lies below a file; a path that is too long leads nowhere, whatever it would
come down to. The bytes of a file are its text if they are valid UTF-8.
-/
import BuildRelay.Data.OrderedMap
import BuildRelay.FileSystem.Basic
import BuildRelay.Path.Basic

namespace BuildRelay

/-- Directories and files by the names that lead to them from the root. -/
structure DirTree where
  /-- The directories, apart from the root. -/
  dirs : List (List Path.Segment)
  files : OrderedMap (List Path.Segment) ByteArray

namespace DirTree

/-- The root alone. -/
def empty : DirTree := ⟨[], ∅⟩

/-- The names that a path leads through, taken without asking whether they are there. -/
def place (path : String) : List Path.Segment :=
  Path.Location.walk [] (Path.splitSlashes path.toList)

/-- The places that a walk along the pieces comes through, one for each piece. -/
def visited (start : List Path.Segment) : List Path.Segment → List (List Path.Segment)
  | [] => []
  | piece :: rest =>
    let next := Path.Location.enter start piece
    next :: visited next rest

/-- Creates every directory that a path leads through, also those that it leaves again. -/
def addDir (t : DirTree) (path : String) : DirTree :=
  { t with dirs := t.dirs ++ visited [] (Path.splitSlashes path.toList) }

/-- Writes a file. -/
def addFile (t : DirTree) (path : String) (content : ByteArray) : DirTree :=
  { t with files := t.files.insert (place path) content }

/-- Whether the names lead to a directory. -/
def isDir (t : DirTree) (here : List Path.Segment) : Bool := here.isEmpty || t.dirs.contains here

/-- One step from a place that is there, if it is a directory and the step leads somewhere. -/
def step (t : DirTree) (here : List Path.Segment) (piece : Path.Segment) :
    Option (List Path.Segment) :=
  let next := Path.Location.enter here piece
  if t.isDir here && (t.isDir next || t.files.contains next) then some next else none

/-- The number of bytes that the longest path has. -/
def maxPathBytes : Nat := 4095

/-- Whether a text can be a path at all: it is not empty, not too long, and holds no NUL. -/
def isPath (path : String) : Bool :=
  !path.isEmpty && path.utf8ByteSize ≤ maxPathBytes && !path.toList.contains '\x00'

/-- The place that a path leads to. -/
def find? (t : DirTree) (path : String) : Option (List Path.Segment) :=
  if isPath path then (Path.splitSlashes path.toList).foldlM t.step [] else none

/-- The tree as a file system. -/
def toFileSystem (t : DirTree) (caseSensitive : Bool) : FileSystem where
  fileExists path := (t.find? path).any t.files.contains
  directoryExists path := (t.find? path).any t.isDir
  textAt path := ((t.find? path).bind t.files.get?).bind String.fromUTF8?
  caseSensitive

end DirTree

end BuildRelay
