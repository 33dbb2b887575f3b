/-
BuildRelay.Path.Basic — path texts and their one canonical shape.

Paths are compared as plain strings, so every path that enters the catalog is first brought into
one shape: forward slashes, absolute, no empty, `.` or `..` segment. A `Location` is that shape as
data (a root and the segments below it); `resolve` reads any text into it and writes it out again.

The functions on texts keep the names that clients call them by (`resolve`, `relative`), except that
`slashed` is `normalize`, `isRooted` is `is_absolute` and `parent` is `parent_dir`.
-/

namespace BuildRelay.Path

/-- One name between two slashes. -/
abbrev Segment := List Char

/-! ## Reading texts -/

/-- Every backslash read as a slash. -/
def slashedChars (s : List Char) : List Char := s.map fun c => if c = '\\' then '/' else c

/-- Every backslash read as a slash (`normalize`). -/
def slashed (path : String) : String := String.ofList (slashedChars path.toList)

/-- The pieces between the slashes, empty ones included. -/
def splitSlashes : List Char → List Segment
  | [] => [[]]
  | c :: rest =>
    if c = '/' then [] :: splitSlashes rest
    else
      match splitSlashes rest with
      | [] => [[c]]
      | s :: more => (c :: s) :: more

/-- The segments joined by single slashes. -/
def joinSlashes (segments : List Segment) : List Char := ['/'].intercalate segments

/-- An ASCII letter. -/
def isDriveLetter (c : Char) : Bool := c.isAlpha

/-- A leading drive such as `c:`, with what follows it. -/
def splitDrive : List Char → Option (Char × List Char)
  | c :: ':' :: rest => if isDriveLetter c then some (c, rest) else none
  | _ => none

/-- A path is rooted when it starts with a slash or a drive. -/
def isRootedChars (s : List Char) : Bool := s.head? = some '/' || (splitDrive s).isSome

/-- A path is rooted when it starts with a slash or a drive (`is_absolute`). -/
def isRooted (path : String) : Bool := isRootedChars path.toList

/-! ## Locations -/

/-- A place below a root: the slash, or a drive. -/
structure Location where
  /-- The drive letter, if the root is not the plain slash. -/
  drive : Option Char
  /-- The names below the root, outermost first. -/
  segments : List Segment
  deriving DecidableEq, Repr

namespace Location

/-- One step along a path: empty and `.` pieces stay, `..` goes up but never above the root. -/
def enter (here : List Segment) (piece : Segment) : List Segment :=
  if piece = [] ∨ piece = ['.'] then here
  else if piece = ['.', '.'] then here.dropLast
  else here ++ [piece]

/-- Walks along the pieces, one after the other. -/
def walk (start : List Segment) (pieces : List Segment) : List Segment := pieces.foldl enter start

/-- The place that a rooted, slashed text names; written out again, it is what `collapse` gives. -/
def ofChars (s : List Char) : Location :=
  match splitDrive s with
  | some (d, rest) => ⟨some d, walk [] (splitSlashes rest)⟩
  | none => ⟨none, walk [] (splitSlashes s)⟩

/-- The text of the root. -/
def rootChars (l : Location) : List Char :=
  match l.drive with
  | some d => [d, ':', '/']
  | none => ['/']

/-- The canonical text of a place. -/
def toChars (l : Location) : List Char := l.rootChars ++ joinSlashes l.segments

end Location

/-- The canonical text of `path`, taken from the directory `base` unless it is rooted itself. -/
def resolveChars (base path : List Char) : List Char :=
  let p := slashedChars path
  (Location.ofChars (if isRootedChars p then p else base ++ '/' :: p)).toChars

/-- The canonical text of `path`, taken from the directory `base` unless it is rooted itself. -/
def resolve (base path : String) : String := String.ofList (resolveChars base.toList path.toList)

/-! ## Parents and differences -/

/-- The text without its trailing slashes. -/
def trimTrailing (s : List Char) : List Char := (s.reverse.dropWhile (· = '/')).reverse

/-- The directory part of a path: all before its last slash, trailing slashes apart. The parent of
a name below the root is `/`, and that of a bare name is `.`. -/
def parentChars (s : List Char) : List Char :=
  match (trimTrailing s).reverse with
  | [] => if s.head? = some '/' then ['/'] else ['.']
  | c :: front =>
    match (c :: front).dropWhile (· ≠ '/') with
    | [] => ['.']
    | _ :: above => if above = [] then ['/'] else above.reverse

/-- The directory part of a path: all before its last slash, trailing slashes apart. The parent of
a name below the root is `/`, and that of a bare name is `.`. -/
def parent (path : String) : String := String.ofList (parentChars path.toList)

/-- The names of a path, empty pieces left out. -/
def names (s : List Char) : List Segment := (splitSlashes s).filter (· ≠ [])

/-- From the names of one directory to those of another place: up out of what is not shared, then
down. -/
def detour : List Segment → List Segment → List Segment
  | f :: fs, t :: ts =>
    if f = t then detour fs ts
    else List.replicate (fs.length + 1) ['.', '.'] ++ t :: ts
  | fs, ts => List.replicate fs.length ['.', '.'] ++ ts

/-- The way from the directory `start` to `target`, both canonical. -/
def relative (start target : String) : String :=
  String.ofList (joinSlashes (detour (names start.toList) (names target.toList)))

end BuildRelay.Path
