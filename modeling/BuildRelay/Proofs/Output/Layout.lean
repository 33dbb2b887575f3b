/-
BuildRelay.Proofs.Output.Layout — where the outputs of a source come to lie.

A source is cut into a stem and its extension, and so is its place below the root directory. Every
output is then the stem of the place under some directory, with a tail of its own: which directory
and which tail depend on the kind of the output (`path?_names`).

* `SourceExt.ofPath?_eq_some_iff` — a source has one extension.
* `IsSource` — the paths that outputs are named for.
* `belowDir?_eq` — below a directory, texts and names tell the same.
* `OutputLayout.placeOf_eq` — the place of a source, told by its names.
* `OutputLayout.path?_names` — the outputs of a source, kind by kind.
-/
import BuildRelay.Proofs.Output.Boundary

namespace BuildRelay

/-! ## Extensions -/

namespace SourceExt

/-- No extension ends another one. -/
theorem eq_of_suffix {e e' : SourceExt} {s : List Char} (h : e.chars <:+ s)
    (h' : e'.chars <:+ s) : e = e' := by
  have hcompare := List.suffix_or_suffix_of_suffix h h'
  revert hcompare
  cases e <;> cases e' <;> decide

theorem suffix_of_ofPath? {e : SourceExt} {s : List Char} (h : ofPath? s = some e) :
    e.chars <:+ s := by
  unfold ofPath? at h
  simpa using List.find?_some h

theorem ofPath?_eq_some_iff {e : SourceExt} {s : List Char} :
    ofPath? s = some e ↔ e.chars <:+ s := by
  refine ⟨suffix_of_ofPath?, fun h => ?_⟩
  have hfound : (ofPath? s).isSome = true := by
    rw [ofPath?, List.find?_isSome]
    exact ⟨e, by cases e <;> decide, List.isSuffixOf_iff_suffix.mpr h⟩
  obtain ⟨e', he'⟩ := Option.isSome_iff_exists.mp hfound
  rw [he', eq_of_suffix h (suffix_of_ofPath? he')]

theorem slash_not_mem_chars (e : SourceExt) : '/' ∉ e.chars := by
  cases e <;> decide

theorem slash_not_mem_typings (e : SourceExt) : '/' ∉ e.typings := by
  cases e <;> decide

/-- A name with the extension of typings is too long for dots alone. -/
theorem isName_append_typings {stem : Path.Segment} (hstem : '/' ∉ stem) (e : SourceExt) :
    Path.Location.IsName (stem ++ e.typings) := by
  have hlong : 2 < (stem ++ e.typings).length := by
    have htypings : 2 < e.typings.length := by cases e <;> decide
    rw [List.length_append]
    omega
  refine ⟨?_, ?_, ?_, by simp [hstem, e.slash_not_mem_typings]⟩ <;>
  · intro h
    rw [h] at hlong
    simp at hlong

end SourceExt

theorem isTypingsPath_iff {s : List Char} :
    isTypingsPath s = true ↔ ∃ e : SourceExt, e.typings <:+ s := by
  simp only [isTypingsPath, List.any_eq_true, List.isSuffixOf_iff_suffix]
  constructor
  · rintro ⟨e, -, he⟩
    exact ⟨e, he⟩
  · rintro ⟨e, he⟩
    cases e with
    | tsx => exact ⟨.ts, by decide, he⟩
    | mts | cts | ts => exact ⟨_, by decide, he⟩

/-- A path that outputs are named for: a canonical path with the extension of a source, but not
with that of typings. -/
structure IsSource (path : String) : Prop where
  canonical : Path.IsCanonical path
  ext : ∃ e : SourceExt, e.chars <:+ path.toList
  not_typings : ∀ e : SourceExt, ¬ e.typings <:+ path.toList

theorem isSource_iff {path : String} : IsSource path ↔
    Path.IsCanonical path ∧ (SourceExt.ofPath? path.toList).isSome = true ∧
      isTypingsPath path.toList = false := by
  rw [Option.isSome_iff_exists, Bool.eq_false_iff, Ne, isTypingsPath_iff, not_exists]
  simp only [SourceExt.ofPath?_eq_some_iff]
  exact ⟨fun h => ⟨h.canonical, h.ext, h.not_typings⟩, fun h => ⟨h.1, h.2.1, h.2.2⟩⟩

instance : DecidablePred IsSource := fun _ => decidable_of_iff _ isSource_iff.symm

/-! ## Texts below a directory -/

/-- A path lies below a directory if the text of the directory and a slash begin it. -/
theorem belowDir?_exact_iff {path dir rest : List Char} :
    belowDir? path dir false = some rest ↔ path = Path.trimTrailing dir ++ '/' :: rest := by
  have hkey : caseKey false = id := rfl
  simp [belowDir?_eq_some_iff, hkey]

/-- Below a directory, texts and names tell the same. -/
theorem belowDir?_eq {dir path : String} (hdir : Path.IsCanonical dir)
    (hpath : Path.IsCanonical path) (hne : (Path.locate path).segments ≠ []) :
    belowDir? path.toList dir.toList false =
      ((Path.locate dir).below? (Path.locate path)).map Path.joinSlashes := by
  have hd := Path.locate_canonical dir
  have hp := Path.locate_canonical path
  apply Option.ext
  intro rest
  rw [belowDir?_exact_iff, ← hdir.toChars_locate, ← hpath.toChars_locate,
    hd.trimTrailing_toChars, Path.Location.toChars_of_ne_nil hne,
    Path.Location.joinSlashes_pieces_eq_append_iff hd hp, Option.map_eq_some_iff]

/-! ## The place of a source -/

namespace IsSource

variable {path : String}

theorem exists_stem (h : IsSource path) :
    ∃ stem, ∃ e : SourceExt, path.toList = stem ++ e.chars := by
  obtain ⟨e, stem, hstem⟩ := h.ext
  exact ⟨stem, e, hstem.symm⟩

/-- A source is no root, since its text does not end with a slash. -/
theorem segments_ne_nil (h : IsSource path) : (Path.locate path).segments ≠ [] := by
  intro hnil
  obtain ⟨stem, e, hstem⟩ := h.exists_stem
  rw [← h.canonical.toChars_locate, Path.Location.toChars_eq, hnil] at hstem
  have hlast := congrArg List.getLast? hstem
  cases e <;> simp [Path.joinSlashes, SourceExt.chars] at hlast

theorem toList_eq (h : IsSource path) :
    path.toList = Path.joinSlashes (Path.locate path).pieces := by
  rw [← h.canonical.toChars_locate, Path.Location.toChars_of_ne_nil h.segments_ne_nil]

theorem names_eq (h : IsSource path) :
    Path.names path.toList = (Path.locate path).pieces.filter (· ≠ []) := by
  rw [← (Path.locate_canonical path).names_toChars, h.canonical.toChars_locate]

end IsSource

namespace OutputLayout

/-- The root directory that the options name, if they name one. -/
def root? (l : OutputLayout) (options : Options) : Option String :=
  options.rootDir.map (Path.resolve l.baseDir)

/-- The names of the place of a source: those below the root directory, or else below the project
directory, or else all. -/
def placeNames (l : OutputLayout) (options : Options) (path : String) : List Path.Segment :=
  (((l.root? options).bind fun root => (Path.locate root).below? (Path.locate path)).or
    ((Path.locate l.baseDir).below? (Path.locate path))).getD (Path.names path.toList)

variable {l : OutputLayout} {options : Options} {path : String}

theorem optionDir?_rootDir : l.optionDir? options "rootDir" = (l.root? options).map String.toList := by
  simp [optionDir?, root?, Options.rootDir, Function.comp_def]

theorem isCanonical_baseDir (dir : String) : Path.IsCanonical (ofDir dir).baseDir :=
  Path.isCanonical_resolve (by decide) dir

theorem isCanonical_root? (hbase : Path.IsCanonical l.baseDir) {root : String}
    (hroot : l.root? options = some root) : Path.IsCanonical root := by
  obtain ⟨dir, -, rfl⟩ := Option.map_eq_some_iff.mp hroot
  exact hbase.resolved dir

theorem placeOf_eq (hbase : Path.IsCanonical l.baseDir) (hpath : IsSource path) :
    l.placeOf (l.optionDir? options "rootDir") path.toList false =
      Path.joinSlashes (l.placeNames options path) := by
  have hbelow : ∀ {dir}, Path.IsCanonical dir → belowDir? path.toList dir.toList false =
      ((Path.locate dir).below? (Path.locate path)).map Path.joinSlashes :=
    fun hdir => belowDir?_eq hdir hpath.canonical hpath.segments_ne_nil
  have hall : path.toList.dropWhile (· = '/') = Path.joinSlashes (Path.names path.toList) := by
    rw [hpath.names_eq, hpath.toList_eq,
      (Path.locate_canonical path).dropWhile_joinSlashes_pieces hpath.segments_ne_nil]
  unfold placeOf placeNames
  rw [optionDir?_rootDir, hbelow hbase, hall]
  cases hroot : l.root? options with
  | none => cases (Path.locate l.baseDir).below? (Path.locate path) <;> rfl
  | some root =>
    simp only [Option.map_some, Option.bind_some]
    rw [hbelow (isCanonical_root? hbase hroot)]
    cases (Path.locate root).below? (Path.locate path) <;>
      cases (Path.locate l.baseDir).below? (Path.locate path) <;> rfl

/-! ## A source cut in front of its extension -/

/-- The names of a place lead down from some directory, or they are all names of the source. -/
theorem placeNames_cases (l : OutputLayout) (options : Options) (path : String) :
    (∃ dir : Path.Location, dir.below? (Path.locate path) = some (l.placeNames options path)) ∨
      l.placeNames options path = Path.names path.toList := by
  unfold placeNames
  cases hroot : (l.root? options).bind fun root => (Path.locate root).below? (Path.locate path) with
  | some names =>
    obtain ⟨root, -, hbelow⟩ := Option.bind_eq_some_iff.mp hroot
    exact .inl ⟨_, hbelow⟩
  | none =>
    cases hbase : (Path.locate l.baseDir).below? (Path.locate path) with
    | some names => exact .inl ⟨_, hbase⟩
    | none => exact .inr rfl

theorem placeNames_suffix (l : OutputLayout) (options : Options) (hpath : IsSource path) :
    l.placeNames options path <:+ (Path.locate path).pieces ∧ l.placeNames options path ≠ [] := by
  rcases l.placeNames_cases options path with ⟨dir, hbelow⟩ | hall
  · exact Path.Location.suffix_of_below? hbelow
  · rw [hall, hpath.names_eq]
    exact (Path.locate_canonical path).suffix_filter_pieces hpath.segments_ne_nil

theorem isName_of_mem_placeNames (l : OutputLayout) (options : Options) (hpath : IsSource path) :
    ∀ s ∈ l.placeNames options path, Path.Location.IsName s := by
  intro s hs
  rcases l.placeNames_cases options path with ⟨dir, hbelow⟩ | hall
  · obtain ⟨hdown, -⟩ := Path.Location.below?_eq_some_iff.mp hbelow
    refine (Path.locate_canonical path).names s ?_
    rw [hdown, Path.Location.segments_down]
    exact List.mem_append_right _ hs
  · rw [hall, hpath.names_eq] at hs
    obtain ⟨hmem, hne⟩ := List.mem_filter.mp hs
    exact (Path.locate_canonical path).isName_of_mem_pieces hmem (by simpa using hne)

/-- The last name of a source ends with the extension, also as the last name of its place. -/
theorem exists_cut (l : OutputLayout) (options : Options) (hpath : IsSource path) :
    ∃ lead front stem, ∃ e : SourceExt,
      (Path.locate path).pieces = lead ++ (front ++ [stem ++ e.chars]) ∧
      l.placeNames options path = front ++ [stem ++ e.chars] := by
  obtain ⟨⟨lead, hlead⟩, hne⟩ := l.placeNames_suffix options hpath
  obtain ⟨front, last, hlast⟩ := (List.eq_nil_or_concat _).resolve_left hne
  rw [List.concat_eq_append] at hlast
  obtain ⟨e, he⟩ := hpath.ext
  rw [hpath.toList_eq, ← hlead, hlast, ← List.append_assoc] at he
  obtain ⟨stem, rfl⟩ := Path.suffix_of_suffix_joinSlashes e.slash_not_mem_chars he
  exact ⟨lead, front, stem, e, by rw [← hlead, hlast], hlast⟩

/-! ## The outputs, kind by kind -/

theorem withExt_append (s : List Char) (e : SourceExt) (new : List Char) :
    withExt (s ++ e.chars) e new = s ++ new := by
  simp [withExt]

theorem rebase_append (path place tail : List Char) (dir : Option (List Char)) :
    rebase (path ++ tail) (place ++ tail) dir = rebase path place dir ++ tail := by
  cases dir <;> simp [rebase]

/-- The directory that outputs of a kind are put into, if there is one. -/
def home? (l : OutputLayout) (options : Options) : OutputKind → Option (List Char)
  | .script | .sourceMap => l.optionDir? options "outDir"
  | .typings => (l.optionDir? options "declarationDir").or (l.optionDir? options "outDir")

end OutputLayout

/-- What an output of a kind has in the place of the extension of its source. -/
def SourceExt.tail (keepJsx : Bool) (e : SourceExt) : OutputKind → List Char
  | .script => e.script keepJsx
  | .typings => e.typings
  | .sourceMap => e.script keepJsx ++ ".map".toList

/-- Whether JSX is preserved, in whatever case the mode is spelled. -/
def Options.keepsJsx (o : Options) : Bool :=
  (o.text? "jsx").any fun mode => mode.toList.map Char.toLower = "preserve".toList

/-- Whether outputs of a kind are emitted. -/
def Options.emits (o : Options) : OutputKind → Bool
  | .script => true
  | .typings => o.declaration
  | .sourceMap => o.sourceMap

/-- The output of one kind. -/
def OutputNames.path? (n : OutputNames) : OutputKind → Option String
  | .script => n.script
  | .typings => n.typings
  | .sourceMap => n.sourceMap

/-- The outputs of a source are those that its options ask for. Each is the source, moved into the
directory for its kind if there is one, with a tail for its kind in place of the extension. -/
theorem OutputLayout.path?_names {l : OutputLayout} {options : Options} {path : String}
    (hbase : Path.IsCanonical l.baseDir) (hpath : IsSource path)
    {lead front : List Path.Segment} {stem : Path.Segment} {e : SourceExt}
    (hpieces : (Path.locate path).pieces = lead ++ (front ++ [stem ++ e.chars]))
    (hplace : l.placeNames options path = front ++ [stem ++ e.chars]) (k : OutputKind) :
    (l.names options path false).path? k =
      if options.emits k then
        some (String.ofList (rebase (Path.joinSlashes (lead ++ (front ++ [stem])))
          (Path.joinSlashes (front ++ [stem])) (l.home? options k) ++ e.tail options.keepsJsx k))
      else none := by
  have htext : path.toList = Path.joinSlashes (lead ++ (front ++ [stem])) ++ e.chars := by
    rw [hpath.toList_eq, hpieces, ← List.append_assoc, Path.joinSlashes_concat_append,
      List.append_assoc]
  have hplaceText : l.placeOf (l.optionDir? options "rootDir") path.toList false =
      Path.joinSlashes (front ++ [stem]) ++ e.chars := by
    rw [placeOf_eq hbase hpath, hplace, Path.joinSlashes_concat_append]
  have hslashed : Path.slashedChars path.toList = path.toList := by
    obtain ⟨-, -, -, hback⟩ := hpath.canonical
    exact Path.slashedChars_of_not_mem hback
  obtain ⟨-, -, htypings⟩ := isSource_iff.mp hpath
  have hext : SourceExt.ofPath? path.toList = some e :=
    SourceExt.ofPath?_eq_some_iff.mpr ⟨_, htext.symm⟩
  have hmoved : ∀ dir new, withExt (rebase path.toList
      (l.placeOf (l.optionDir? options "rootDir") path.toList false) dir) e new =
      rebase (Path.joinSlashes (lead ++ (front ++ [stem]))) (Path.joinSlashes (front ++ [stem])) dir
        ++ new := by
    intro dir new
    rw [hplaceText, htext, rebase_append, withExt_append]
  simp only [names, hslashed, hext, htypings, Bool.false_eq_true, if_false, hmoved]
  cases k <;> simp [OutputNames.path?, home?, SourceExt.tail, Options.emits, Options.keepsJsx]

end BuildRelay
