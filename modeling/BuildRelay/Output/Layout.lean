/-
BuildRelay.Output.Layout — naming outputs as the compiler lays them out.

A source keeps its place below the root directory: that part of its path is put below the output
directory, with the extension of the output in place of its own. Without an output directory the
outputs stand beside the source.
-/
import BuildRelay.Options
import BuildRelay.Output.Names
import BuildRelay.Path.Basic
import BuildRelay.Text.Slice

namespace BuildRelay

/-! ## Extensions -/

/-- The extensions of compiled sources. -/
inductive SourceExt where
  | mts
  | cts
  | tsx
  | ts
  deriving DecidableEq, Repr

namespace SourceExt

/-- The text of the extension. -/
def chars : SourceExt → List Char
  | mts => ".mts".toList
  | cts => ".cts".toList
  | tsx => ".tsx".toList
  | ts => ".ts".toList

/-- The extension of the typings. -/
def typings : SourceExt → List Char
  | mts => ".d.mts".toList
  | cts => ".d.cts".toList
  | tsx | ts => ".d.ts".toList

/-- The extension of the script; JSX that is preserved keeps an extension of its own. -/
def script (keepJsx : Bool) : SourceExt → List Char
  | mts => ".mjs".toList
  | cts => ".cjs".toList
  | tsx => if keepJsx then ".jsx".toList else ".js".toList
  | ts => ".js".toList

/-- The extension of a path. -/
def ofPath? (path : List Char) : Option SourceExt :=
  [mts, cts, tsx, ts].find? fun e => e.chars.isSuffixOf path

end SourceExt

/-- Whether a path is that of typings, for which nothing is emitted. -/
def isTypingsPath (path : List Char) : Bool :=
  [SourceExt.ts, .mts, .cts].any fun e => e.typings.isSuffixOf path

/-! ## Places below a directory -/

/-- Whether two characters are the same, up to the case of ASCII letters if asked. -/
def sameChar (ignoreCase : Bool) (a b : Char) : Bool :=
  if ignoreCase then a.toLower = b.toLower else a = b

/-- Whether two texts are the same, up to the case of ASCII letters if asked. -/
def sameText (ignoreCase : Bool) (a b : List Char) : Bool := a.isEqv b (sameChar ignoreCase)

/-- What is left of a text after the slash that it starts with. -/
def afterSlash? : List Char → Option (List Char)
  | '/' :: rest => some rest
  | _ => none

/-- What is left of a path after a directory and a slash. The front of the path that takes as many
bytes as the directory is compared with it; a path that cannot be cut there does not begin with the
directory (`strip_dir_prefix`). -/
def stripDir (path dir : List Char) (ignoreCase : Bool) :
    Except Text.BadBound (Option (List Char)) :=
  let dir := Path.trimTrailing dir
  match Text.sliceTo? path (Text.byteSize dir) with
  | none => .ok none
  | some head =>
    if sameText ignoreCase head dir then
      (Text.sliceFrom path (Text.byteSize dir)).map afterSlash?
    else .ok none

theorem stripDir_of_cut? {path dir head rest : List Char} {ignoreCase : Bool}
    (h : Text.cut? path (Text.byteSize (Path.trimTrailing dir)) = some (head, rest)) :
    stripDir path dir ignoreCase =
      .ok (if sameText ignoreCase head (Path.trimTrailing dir) then afterSlash? rest else none) := by
  simp only [stripDir, Text.sliceTo?, Text.sliceFrom, h, Option.map_some]
  split <;> rfl

theorem stripDir_of_not_cut {path dir : List Char} {ignoreCase : Bool}
    (h : Text.cut? path (Text.byteSize (Path.trimTrailing dir)) = none) :
    stripDir path dir ignoreCase = .ok none := by
  simp only [stripDir, Text.sliceTo?, h, Option.map_none]

/-- The rest of a path is taken only where the front of the path has been taken. -/
theorem exists_stripDir_eq_ok (path dir : List Char) (ignoreCase : Bool) :
    ∃ below, stripDir path dir ignoreCase = .ok below := by
  cases hcut : Text.cut? path (Text.byteSize (Path.trimTrailing dir)) with
  | none => exact ⟨_, stripDir_of_not_cut hcut⟩
  | some parts => exact ⟨_, stripDir_of_cut? hcut⟩

/-- The part of a path below a directory; `none` for a path that is not below it, also if only the
name of the directory begins its path. -/
def belowDir? (path dir : List Char) (ignoreCase : Bool) : Option (List Char) :=
  match h : stripDir path dir ignoreCase with
  | .ok below => below
  | .error _ => absurd (exists_stripDir_eq_ok path dir ignoreCase) (by simp [h])

theorem stripDir_eq_ok (path dir : List Char) (ignoreCase : Bool) :
    stripDir path dir ignoreCase = .ok (belowDir? path dir ignoreCase) := by
  obtain ⟨below, hbelow⟩ := exists_stripDir_eq_ok path dir ignoreCase
  unfold belowDir?
  split
  · assumption
  · rename_i hfault
    cases hfault.symm.trans hbelow

/-! ## The layout -/

/-- The layout of outputs around a project directory (`ConfiguredOutputNamer`). -/
structure OutputLayout where
  /-- The directory that relative directories in the options are taken from. -/
  baseDir : String
  deriving DecidableEq, Repr

namespace OutputLayout

/-- The layout around a directory; a directory text without root is taken from the slash. -/
def ofDir (dir : String) : OutputLayout := ⟨Path.resolve "/" dir⟩

/-- A directory that the options name. -/
def optionDir? (l : OutputLayout) (options : Options) (name : String) : Option (List Char) :=
  (options.text? name).map fun dir => (Path.resolve l.baseDir dir).toList

/-- The place of a source below the root directory, or else below the project directory; a source
outside of both keeps its whole path. -/
def placeOf (l : OutputLayout) (rootDir : Option (List Char)) (path : List Char)
    (ignoreCase : Bool) : List Char :=
  ((rootDir.bind fun root => belowDir? path root ignoreCase).or
    (belowDir? path l.baseDir.toList ignoreCase)).getD (path.dropWhile (· = '/'))

/-- The path of a source moved into an output directory, if there is one. -/
def rebase (path place : List Char) : Option (List Char) → List Char
  | some dir => Path.trimTrailing dir ++ '/' :: place
  | none => path

/-- Puts another extension in the place of the last one. -/
def withExt (path : List Char) (old : SourceExt) (new : List Char) : List Char :=
  path.take (path.length - old.chars.length) ++ new

/-- The outputs of a source (`output_file_names`). -/
def names (l : OutputLayout) : OutputNaming := fun options fileName ignoreCase =>
  let path := Path.slashedChars fileName.toList
  match SourceExt.ofPath? path with
  | none => .none
  | some ext =>
    if isTypingsPath path then .none
    else
      let place := l.placeOf (l.optionDir? options "rootDir") path ignoreCase
      let outDir := l.optionDir? options "outDir"
      let keepJsx := (options.text? "jsx").any fun mode =>
        mode.toList.map Char.toLower = "preserve".toList
      let script := withExt (rebase path place outDir) ext (ext.script keepJsx)
      let typingsDir := (l.optionDir? options "declarationDir").or outDir
      { script := some (String.ofList script)
        typings :=
          if options.declaration then
            some (String.ofList (withExt (rebase path place typingsDir) ext ext.typings))
          else none
        sourceMap :=
          if options.sourceMap then some (String.ofList (script ++ ".map".toList)) else none }

end OutputLayout

end BuildRelay
