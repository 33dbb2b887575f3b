/-
BuildRelay.Proofs.Path.Shape — every spelling of a path comes down to one shape.

Paths are compared as texts, so it must not matter how a path was spelled: with slashes or
backslashes, with dots and empty pieces, with more `..` than there are directories to leave, with a
drive or without. The same goes for the text that names the working directory. A spelling says two
things, the drive at its start and the pieces after it; what is resolved is the text of a place, and
the place is read off these two.

* `writtenDrive?`, `writtenPieces` — what a spelling says; `writtenDrive?_eq_some_iff`,
  `writtenPieces_eq` and `isRooted_slashed_iff` read it off the characters of the path.
* `collapse` — the names that are left of its pieces.
* `IsTextOf` — the one text of a place.
* `Resolver.resolve_in_canonical_form` — what a resolver answers, whatever it was asked before.
-/
import BuildRelay.Proofs.Path.Below
import BuildRelay.Proofs.Path.Memo

namespace BuildRelay.Path

/-! ## Spellings -/

/-- The drive that a path starts with, if it starts with one. -/
def writtenDrive? (path : String) : Option Char :=
  (splitDrive (slashedChars path.toList)).map Prod.fst

/-- The pieces of a path, cut at slashes and backslashes; a drive at its start is not among them. -/
def writtenPieces (path : String) : List Segment :=
  splitSlashes
    (((splitDrive (slashedChars path.toList)).map Prod.snd).getD (slashedChars path.toList))

/-- Reading backslashes as slashes neither makes a drive nor breaks one. -/
theorem splitDrive_slashedChars_eq_some_iff {s rest : List Char} {d : Char} :
    splitDrive (slashedChars s) = some (d, rest) ↔
      isDriveLetter d = true ∧ ∃ more, s = d :: ':' :: more ∧ rest = slashedChars more := by
  have hkept {c : Char} (hc : c = ':' ∨ isDriveLetter c = true) (x : Char) :
      (if x = '\\' then '/' else x) = c ↔ x = c := by
    by_cases hx : x = '\\'
    · subst hx
      have hslash : '/' ≠ c := by rintro rfl; revert hc; decide
      have hback : '\\' ≠ c := by rintro rfl; revert hc; decide
      simp [hslash, hback]
    · rw [if_neg hx]
  rw [splitDrive_eq_some_iff, and_comm]
  refine and_congr_right fun hd => ?_
  match s with
  | [] => simp [slashedChars]
  | [x] => simp [slashedChars]
  | x :: y :: more =>
    simp only [slashedChars, List.map_cons, List.cons.injEq, hkept (.inr hd), hkept (.inl rfl)]
    constructor
    · intro h
      obtain ⟨rfl, rfl, rfl⟩ := h
      exact ⟨more, ⟨rfl, rfl, rfl⟩, rfl⟩
    · intro h
      obtain ⟨_, ⟨rfl, rfl, rfl⟩, rfl⟩ := h
      exact ⟨rfl, rfl, rfl⟩

/-- A path starts with a drive if an ASCII letter and a colon are its first characters. -/
theorem writtenDrive?_eq_some_iff {path : String} {d : Char} : writtenDrive? path = some d ↔
    ('A' ≤ d ∧ d ≤ 'Z' ∨ 'a' ≤ d ∧ d ≤ 'z') ∧ [d, ':'] <+: path.toList := by
  rw [← isDriveLetter_iff, writtenDrive?, Option.map_eq_some_iff]
  constructor
  · intro h
    obtain ⟨⟨d', rest⟩, hdrive, rfl⟩ := h
    obtain ⟨hd, more, hpath, -⟩ := splitDrive_slashedChars_eq_some_iff.mp hdrive
    exact ⟨hd, more, hpath.symm⟩
  · intro h
    obtain ⟨hd, more, hpath⟩ := h
    exact ⟨(d, slashedChars more),
      splitDrive_slashedChars_eq_some_iff.mpr ⟨hd, more, hpath.symm, rfl⟩, rfl⟩

/-- The pieces of a path are cut from what follows its drive, or from all of it if it has none. -/
theorem writtenPieces_eq (path : String) : writtenPieces path = splitSlashes (slashedChars
    (if (writtenDrive? path).isSome then path.toList.drop 2 else path.toList)) := by
  rw [writtenPieces, writtenDrive?]
  cases hdrive : splitDrive (slashedChars path.toList) with
  | none => rfl
  | some drive =>
    obtain ⟨-, more, hpath, hrest⟩ := splitDrive_slashedChars_eq_some_iff.mp hdrive
    simp [hpath, hrest]

/-- One more piece: `..` takes away the last name that is left, if there is one. -/
def keepPiece (kept : List Segment) (piece : Segment) : List Segment :=
  if piece = ['.', '.'] then kept.dropLast else kept ++ [piece]

/-- The names that are left of some pieces: empty ones and `.` are dropped, and then every `..` takes
away the last name before it that is still left, if there is one. -/
def collapse (pieces : List Segment) : List Segment :=
  (pieces.filter fun p => p ≠ [] ∧ p ≠ ['.']).foldl keepPiece []

/-- The place that a path names by itself, without a directory that it would be taken from. -/
def writtenPlace (path : String) : Location := ⟨writtenDrive? path, collapse (writtenPieces path)⟩

/-! ## The text of a place -/

/-- `path` is the text of the place `l`, as every component writes it: the slash or a drive for its
root and then its names between single slashes. None of them is empty or made of dots that lead
elsewhere, there is no backslash, and the text ends with a slash only if it is that of a root. -/
structure IsTextOf (path : String) (l : Location) : Prop where
  /-- The drive is a letter; no name is empty, `.` or `..`, and none holds a slash. -/
  place : l.Canonical
  text : path.toList = l.toChars
  no_backslash : '\\' ∉ path.toList
  no_trailing_slash : path.toList.getLast? = some '/' → l.segments = []

theorem Location.Canonical.segments_eq_nil {l : Location} (h : l.Canonical)
    (hlast : l.toChars.getLast? = some '/') : l.segments = [] := by
  by_contra hne
  obtain ⟨front, htext⟩ := List.getLast?_eq_some_iff.mp hlast
  -- A text that loses nothing when slashes are trimmed does not end with one.
  have htrim : trimTrailing l.toChars = l.toChars := by
    rw [h.trimTrailing_toChars, toChars_of_ne_nil hne]
  rw [htext, trimTrailing_concat_slash] at htrim
  have hshort := length_trimTrailing_le front
  simp only [htrim, List.length_append, List.length_singleton] at hshort
  omega

/-- Whatever is resolved from a directory without backslashes is the text of a place. -/
theorem isTextOf_resolve {base : String} (hbase : '\\' ∉ base.toList) (path : String) :
    IsTextOf (resolve base path) (Location.ofChars
      (if isRootedChars (slashedChars path.toList) then slashedChars path.toList
        else base.toList ++ '/' :: slashedChars path.toList)) := by
  obtain ⟨-, -, -, hback⟩ := isCanonical_resolve hbase path
  have htext : (resolve base path).toList = _ := String.toList_ofList
  refine ⟨Location.ofChars_canonical _, htext, hback, fun hlast => ?_⟩
  rw [htext] at hlast
  exact (Location.ofChars_canonical _).segments_eq_nil hlast

theorem IsTextOf.isCanonical {path : String} {l : Location} (h : IsTextOf path l) :
    IsCanonical path := ⟨l, h.place, h.text, h.no_backslash⟩

/-! ## From spellings to places -/

namespace Location

/-- Whether empty pieces and `.` are dropped on the way or before makes no difference. -/
theorem walk_eq_foldl (start pieces : List Segment) :
    walk start pieces = (pieces.filter fun p => p ≠ [] ∧ p ≠ ['.']).foldl keepPiece start := by
  induction pieces generalizing start with
  | nil => rfl
  | cons piece pieces ih =>
    show walk (enter start piece) pieces = _
    rw [ih, List.filter_cons]
    by_cases hstay : piece = [] ∨ piece = ['.']
    · have hskip : ¬(piece ≠ [] ∧ piece ≠ ['.']) := fun h => hstay.elim h.1 h.2
      simp [enter, hstay, hskip]
    · have hkeep : piece ≠ [] ∧ piece ≠ ['.'] := not_or.mp hstay
      simp [enter, hkeep, keepPiece]

theorem walk_eq_collapse (pieces : List Segment) : walk [] pieces = collapse pieces :=
  walk_eq_foldl [] pieces

theorem walk_collapse (pieces more : List Segment) :
    walk (collapse pieces) more = collapse (pieces ++ more) := by
  rw [← walk_eq_collapse, ← walk_eq_collapse, walk_append]

end Location

theorem ofChars_slashedChars (path : String) :
    Location.ofChars (slashedChars path.toList) = writtenPlace path := by
  rw [Location.ofChars, writtenPlace, writtenDrive?, writtenPieces]
  cases splitDrive (slashedChars path.toList) with
  | none => exact congrArg _ (Location.walk_eq_collapse _)
  | some d => exact congrArg _ (Location.walk_eq_collapse _)

/-- A path without a root has no drive, and all of it is pieces. -/
theorem written_of_not_rooted {path : String}
    (h : isRootedChars (slashedChars path.toList) = false) :
    writtenDrive? path = none ∧ writtenPieces path = splitSlashes (slashedChars path.toList) := by
  simp only [isRootedChars, Bool.or_eq_false_iff, Option.isSome_eq_false_iff,
    Option.isNone_iff_eq_none] at h
  simp [writtenDrive?, writtenPieces, h.2]

theorem isRooted_slashed (path : String) :
    isRooted (slashed path) = isRootedChars (slashedChars path.toList) := by
  rw [isRooted, slashed, String.toList_ofList]

/-- A path has a root if it starts with a slash of either kind or with a drive. -/
theorem isRooted_slashed_iff {path : String} : isRooted (slashed path) = true ↔
    path.toList.head? = some '/' ∨ path.toList.head? = some '\\' ∨
      ∃ d, ('A' ≤ d ∧ d ≤ 'Z' ∨ 'a' ≤ d ∧ d ≤ 'z') ∧ [d, ':'] <+: path.toList := by
  have hslash : (slashedChars path.toList).head? = some '/' ↔
      path.toList.head? = some '/' ∨ path.toList.head? = some '\\' := by
    cases path.toList with
    | nil => simp [slashedChars]
    | cons c rest => by_cases hc : c = '\\' <;> simp [slashedChars, hc]
  have hdrive : (splitDrive (slashedChars path.toList)).isSome = true ↔
      ∃ d, writtenDrive? path = some d := by
    rw [← Option.isSome_iff_exists, writtenDrive?, Option.isSome_map]
  simp only [← writtenDrive?_eq_some_iff]
  rw [isRooted_slashed, isRootedChars, Bool.or_eq_true, decide_eq_true_eq, hslash, hdrive, or_assoc]

/-- Taken from the slash, a path names the place that it names by itself. -/
theorem isTextOf_resolve_empty (path : String) :
    IsTextOf (resolve "" path) (writtenPlace path) := by
  have htext := isTextOf_resolve (show '\\' ∉ "".toList by decide) path
  cases hroot : isRootedChars (slashedChars path.toList) with
  | true => rwa [hroot, if_pos rfl, ofChars_slashedChars] at htext
  | false =>
    obtain ⟨hdrive, hpieces⟩ := written_of_not_rooted hroot
    have hplace : Location.ofChars ([] ++ '/' :: slashedChars path.toList) = writtenPlace path := by
      rw [Location.ofChars_append_cons, writtenPlace, hdrive, hpieces, ← Location.walk_eq_collapse]
      rfl
    rwa [hroot, if_neg Bool.false_ne_true, String.toList_empty, hplace] at htext

/-- What a path comes to when it is taken from a place that has been spelled, too. -/
theorem isTextOf_resolve_written {base dir : String} (hbase : IsTextOf base (writtenPlace dir))
    (path : String) : IsTextOf (resolve base path) (if isRooted (slashed path) then writtenPlace path
      else ⟨writtenDrive? dir, collapse (writtenPieces dir ++ writtenPieces path)⟩) := by
  have htext := isTextOf_resolve hbase.no_backslash path
  rw [isRooted_slashed]
  cases hroot : isRootedChars (slashedChars path.toList) with
  | true => rwa [hroot, if_pos rfl, ofChars_slashedChars] at htext
  | false =>
    obtain ⟨-, hpieces⟩ := written_of_not_rooted hroot
    rw [hroot, if_neg Bool.false_ne_true, Location.ofChars_append_cons, hbase.text,
      Location.ofChars_toChars hbase.place, ← hpieces] at htext
    rw [if_neg Bool.false_ne_true, ← Location.walk_collapse]
    exact htext

namespace Resolver

/-- Whatever text names the working directory, whatever was asked before and however a path is spelled,
what a resolver answers is the text of a place. The place has the drive and the pieces of the path, if
the path has a root; else it has the drive of the working directory, and the pieces of the path come
after those of the working directory. Either way the names are what is left once the pieces have been
collapsed, so `..` never leaves the root. The working directory itself has such a text, and neither it
nor the answer is changed by being resolved again, from wherever that is done. -/
theorem resolve_in_canonical_form (dir : String) (asked : List String) (path : String) :
    let r : Resolver := ((inDir dir).resolveAll asked).2
    let answer := (r.resolve path).1
    IsTextOf r.cwd (writtenPlace dir) ∧
    IsTextOf answer (if isRooted (slashed path) then writtenPlace path
      else ⟨writtenDrive? dir, collapse (writtenPieces dir ++ writtenPieces path)⟩) ∧
    (∀ base, Path.resolve base r.cwd = r.cwd) ∧ ∀ base, Path.resolve base answer = answer := by
  intro r answer
  obtain ⟨hfaithful, hcwd⟩ := (inDir_faithful dir).resolveAll asked
  have hdir : IsTextOf r.cwd (writtenPlace dir) := by
    rw [hcwd]
    exact isTextOf_resolve_empty dir
  have hanswer : answer = Path.resolve r.cwd path := hfaithful.answer path
  have htext := isTextOf_resolve_written hdir path
  rw [← hanswer] at htext
  exact ⟨hdir, htext, hdir.isCanonical.resolve_eq, htext.isCanonical.resolve_eq⟩

/-- A working directory without a root, more `..` than there are directories, and a name that looks
like a drive but stands below the root. -/
example :
    let r := inDir "work\\.\\c:x"
    r.cwd = "/work/c:x" ∧ (r.resolve "..//../..\\a/./b/").1 = "/a/b" ∧
      (r.resolve "c:x").1 = "c:/x" := by
  decide

end Resolver

end BuildRelay.Path
