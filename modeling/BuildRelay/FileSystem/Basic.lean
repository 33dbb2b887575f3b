/-
BuildRelay.FileSystem.Basic — the questions that building asks of a file system.
-/

namespace BuildRelay

/-- A file system, as far as it is asked (`System`). -/
structure FileSystem where
  fileExists : String → Bool
  directoryExists : String → Bool
  textAt : String → Option String
  /-- Whether case counts in file names. -/
  caseSensitive : Bool

end BuildRelay
