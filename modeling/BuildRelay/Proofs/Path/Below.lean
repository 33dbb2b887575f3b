/-
BuildRelay.Proofs.Path.Below — what lies below a directory, told by names and told by texts.

A place lies below another one if its names begin with those of the other. The texts do not show
it as plainly: the text of a root ends with a slash and that of any other directory does not, and
`/src` begins the text of `/srcs/a.ts`. Cut into pieces, the drive or the empty text before the
first slash among them, both are lists of names again.

* `IsCanonical`, `isCanonical_iff` — the texts of places, and that they are what resolving leaves
  alone.
* `Location.below?` — the names of a place below a directory.
* `Location.joinSlashes_pieces_eq_append_iff` — a canonical text can be cut only between names.
* `relative_down` — the way from a directory to what lies below it.
-/
import BuildRelay.Proofs.Path.Canonical
import Mathlib.Data.List.Induction

namespace BuildRelay.Path

/-! ## Texts made of pieces -/

theorem joinSlashes_splitSlashes (s : List Char) : joinSlashes (splitSlashes s) = s := by
  rw [splitSlashes_eq_splitOn]
  exact List.intercalate_splitOn '/'

theorem splitSlashes_ne_nil (s : List Char) : splitSlashes s ≠ [] := by
  rw [splitSlashes_eq_splitOn, List.splitOn_eq_splitOnP]
  exact List.splitOnP_ne_nil _ _

theorem joinSlashes_cons (s : Segment) {more : List Segment} (h : more ≠ []) :
    joinSlashes (s :: more) = s ++ '/' :: joinSlashes more := by
  simp [joinSlashes, List.intercalate_cons_of_ne_nil h]

theorem joinSlashes_append {front back : List Segment} (hfront : front ≠ []) (hback : back ≠ []) :
    joinSlashes (front ++ back) = joinSlashes front ++ '/' :: joinSlashes back := by
  induction front with
  | nil => exact absurd rfl hfront
  | cons s front ih =>
    by_cases hone : front = []
    · subst hone
      simp [joinSlashes, List.intercalate_cons_of_ne_nil hback]
    · rw [List.cons_append, joinSlashes_cons s (by simp [hone]), ih hone,
        joinSlashes_cons s hone, List.append_assoc, List.cons_append]

/-- What is put behind a text is put behind its last name. -/
theorem joinSlashes_concat_append (front : List Segment) (s tail : Segment) :
    joinSlashes (front ++ [s ++ tail]) = joinSlashes (front ++ [s]) ++ tail := by
  by_cases hfront : front = []
  · simp [hfront, joinSlashes]
  · rw [joinSlashes_append hfront (by simp), joinSlashes_append hfront (by simp)]
    simp [joinSlashes]

theorem suffix_of_suffix_append_cons {tail front s : List Char} (htail : '/' ∉ tail)
    (h : tail <:+ front ++ '/' :: s) : tail <:+ s := by
  rcases List.suffix_or_suffix_of_suffix h (List.suffix_append front ('/' :: s)) with h' | h'
  · rcases List.suffix_cons_iff.mp h' with rfl | h'
    · simp at htail
    · exact h'
  · exact absurd (h'.subset (List.mem_cons_self ..)) htail

/-- The end of a text, up to its last slash, is the end of its last name. -/
theorem suffix_of_suffix_joinSlashes {front : List Segment} {s tail : Segment}
    (htail : '/' ∉ tail) (h : tail <:+ joinSlashes (front ++ [s])) : tail <:+ s := by
  by_cases hfront : front = []
  · simpa [hfront, joinSlashes] using h
  · rw [joinSlashes_append hfront (by simp)] at h
    simpa [joinSlashes] using suffix_of_suffix_append_cons htail h

/-- The slashes at the start of a text end where its first name begins. -/
theorem dropWhile_joinSlashes {names : List Segment} (h : ∀ s ∈ names, s ≠ [] ∧ '/' ∉ s) :
    (joinSlashes names).dropWhile (· = '/') = joinSlashes names := by
  cases names with
  | nil => rfl
  | cons s more =>
    obtain ⟨hne, hslash⟩ := h s (by simp)
    obtain ⟨c, s, rfl⟩ := List.exists_cons_of_ne_nil hne
    have hc : c ≠ '/' := by
      rintro rfl
      simp at hslash
    by_cases hone : more = []
    · simp [hone, joinSlashes, hc]
    · simp [joinSlashes_cons _ hone, hc]

theorem trimTrailing_concat_slash (s : List Char) :
    trimTrailing (s ++ ['/']) = trimTrailing s := by
  simp [trimTrailing]

theorem trimTrailing_concat (s : List Char) {c : Char} (hc : c ≠ '/') :
    trimTrailing (s ++ [c]) = s ++ [c] := by
  simp [trimTrailing, hc]

/-- What is trimmed off a text are slashes. -/
theorem exists_trimTrailing_append (s : List Char) :
    ∃ slashes, s = trimTrailing s ++ List.replicate slashes '/' := by
  induction s using List.reverseRecOn with
  | nil => exact ⟨0, rfl⟩
  | append_singleton s c ih =>
    by_cases hc : c = '/'
    · obtain ⟨slashes, hs⟩ := ih
      refine ⟨slashes + 1, ?_⟩
      rw [hc, trimTrailing_concat_slash, List.replicate_succ', ← List.append_assoc, ← hs]
    · exact ⟨0, by rw [trimTrailing_concat s hc, List.replicate_zero, List.append_nil]⟩

/-- No slash is left at the end of a trimmed text. -/
theorem getLast?_trimTrailing_ne (s : List Char) : (trimTrailing s).getLast? ≠ some '/' := by
  induction s using List.reverseRecOn with
  | nil => simp [trimTrailing]
  | append_singleton s c ih =>
    by_cases hc : c = '/'
    · rwa [hc, trimTrailing_concat_slash]
    · simpa [trimTrailing_concat s hc] using hc

theorem names_joinSlashes {pieces : List Segment} (h : ∀ p ∈ pieces, '/' ∉ p)
    (hne : pieces ≠ []) : names (joinSlashes pieces) = pieces.filter (· ≠ []) := by
  rw [names, splitSlashes_joinSlashes h hne]

namespace Location

/-! ## Places and their pieces -/

/-- What stands before the first slash: the drive, or nothing. -/
def driveChars (l : Location) : Segment :=
  match l.drive with
  | some d => [d, ':']
  | none => []

/-- The pieces of the text of a place, between the slashes. -/
def pieces (l : Location) : List Segment := l.driveChars :: l.segments

/-- The place that some names lead to from here. -/
def down (l : Location) (more : List Segment) : Location :=
  { l with segments := l.segments ++ more }

@[simp] theorem pieces_down (l : Location) (more : List Segment) :
    (l.down more).pieces = l.pieces ++ more := rfl

@[simp] theorem segments_down (l : Location) (more : List Segment) :
    (l.down more).segments = l.segments ++ more := rfl

theorem pieces_ne_nil (l : Location) : l.pieces ≠ [] := List.cons_ne_nil _ _

theorem eq_of_pieces {l l' : Location} (h : l.pieces = l'.pieces) : l = l' := by
  obtain ⟨drive, segments⟩ := l
  obtain ⟨drive', segments'⟩ := l'
  obtain ⟨hdrive, hsegments⟩ := List.cons.inj h
  cases drive <;> cases drive' <;> simp_all [driveChars]

theorem toChars_eq (l : Location) : l.toChars = l.driveChars ++ '/' :: joinSlashes l.segments := by
  obtain ⟨drive, segments⟩ := l
  cases drive <;> rfl

theorem toChars_of_ne_nil {l : Location} (h : l.segments ≠ []) :
    l.toChars = joinSlashes l.pieces := by
  rw [toChars_eq, pieces, joinSlashes_cons _ h]

namespace Canonical

variable {l : Location}

theorem down (h : l.Canonical) {more : List Segment} (hmore : ∀ s ∈ more, IsName s) :
    (l.down more).Canonical where
  drive := h.drive
  names := fun s hs => (List.mem_append.mp hs).elim (h.names s) (hmore s)

theorem slash_not_mem_driveChars (h : l.Canonical) : '/' ∉ l.driveChars := by
  unfold driveChars
  split
  · rename_i d hd
    have hletter := h.drive d hd
    have hne : '/' ≠ d := by
      rintro rfl
      cases hletter
    simp [hne]
  · exact List.not_mem_nil

theorem slash_not_mem (h : l.Canonical) : ∀ p ∈ l.pieces, '/' ∉ p := by
  intro p hp
  rcases List.mem_cons.mp hp with rfl | hp
  · exact h.slash_not_mem_driveChars
  · exact (h.names p hp).2.2.2

/-- A drive, too, is a name like any other. -/
theorem isName_of_mem_pieces (h : l.Canonical) {p : Segment} (hp : p ∈ l.pieces) (hne : p ≠ []) :
    IsName p := by
  rcases List.mem_cons.mp hp with rfl | hp
  · have hslash := h.slash_not_mem_driveChars
    unfold driveChars at hne hslash ⊢
    split
    · rename_i d hd
      rw [hd] at hslash
      exact ⟨by simp, by simp, by simp, hslash⟩
    · rename_i hd
      rw [hd] at hne
      exact absurd rfl hne
  · exact h.names p hp

theorem splitSlashes_joinSlashes_pieces (h : l.Canonical) :
    splitSlashes (joinSlashes l.pieces) = l.pieces :=
  splitSlashes_joinSlashes h.slash_not_mem l.pieces_ne_nil

/-- The text of a place without the slash that ends the text of a root. -/
theorem trimTrailing_toChars (h : l.Canonical) : trimTrailing l.toChars = joinSlashes l.pieces := by
  rcases List.eq_nil_or_concat l.segments with hnil | ⟨front, s, hs⟩
  · have hdrive : trimTrailing l.driveChars = l.driveChars := by
      unfold driveChars
      split
      · exact trimTrailing_concat [_] (by decide)
      · rfl
    rw [toChars_eq, pieces, hnil]
    exact (trimTrailing_concat_slash _).trans (hdrive.trans List.intercalate_singleton.symm)
  · -- The text ends with the last character of a name, and no name holds a slash.
    rw [List.concat_eq_append] at hs
    obtain ⟨hne, -, -, hslash⟩ := h.names s (by simp [hs])
    obtain ⟨start, c, hconcat⟩ := (List.eq_nil_or_concat s).resolve_left hne
    rw [List.concat_eq_append] at hconcat
    subst hconcat
    have hc : c ≠ '/' := by
      rintro rfl
      exact hslash (by simp)
    have htext : joinSlashes l.pieces =
        (joinSlashes (l.driveChars :: front) ++ '/' :: start) ++ [c] := by
      rw [pieces, hs, ← List.cons_append, joinSlashes_append (by simp) (by simp)]
      simp [joinSlashes]
    rw [toChars_of_ne_nil (by simp [hs]), htext, trimTrailing_concat _ hc]

/-- The names of a canonical text, the drive among them. -/
theorem names_toChars (h : l.Canonical) : Path.names l.toChars = l.pieces.filter (· ≠ []) := by
  by_cases hnil : l.segments = []
  · rw [Path.names, toChars_eq, splitSlashes_append_cons,
      splitSlashes_of_not_mem h.slash_not_mem_driveChars, pieces, hnil]
    by_cases hd : l.driveChars = [] <;> simp [joinSlashes, splitSlashes, hd]
  · rw [toChars_of_ne_nil hnil, names_joinSlashes h.slash_not_mem l.pieces_ne_nil]

/-- Only the piece before the first slash can be empty. -/
theorem filter_pieces (h : l.Canonical) : l.pieces.filter (· ≠ []) =
    if l.driveChars = [] then l.segments else l.pieces := by
  have hkept : l.segments.filter (· ≠ []) = l.segments :=
    List.filter_eq_self.mpr fun s hs => by simpa using (h.names s hs).1
  rw [pieces, List.filter_cons, hkept]
  by_cases hd : l.driveChars = [] <;> simp [hd]

/-- All names of a place, the drive among them, are its last pieces. -/
theorem suffix_filter_pieces (h : l.Canonical) (hne : l.segments ≠ []) :
    l.pieces.filter (· ≠ []) <:+ l.pieces ∧ l.pieces.filter (· ≠ []) ≠ [] := by
  rw [h.filter_pieces]
  split
  · exact ⟨List.suffix_cons .., hne⟩
  · exact ⟨List.suffix_refl _, l.pieces_ne_nil⟩

/-- The text of all names is that of the place without the slash at its start. -/
theorem dropWhile_joinSlashes_pieces (h : l.Canonical) (hne : l.segments ≠ []) :
    (joinSlashes l.pieces).dropWhile (· = '/') = joinSlashes (l.pieces.filter (· ≠ [])) := by
  have hnames : ∀ s ∈ l.pieces.filter (· ≠ []), s ≠ [] ∧ '/' ∉ s := by
    intro s hs
    obtain ⟨hmem, hs⟩ := List.mem_filter.mp hs
    exact ⟨by simpa using hs, h.slash_not_mem s hmem⟩
  rw [← dropWhile_joinSlashes hnames, h.filter_pieces]
  split
  · rename_i hd
    have htext : joinSlashes l.pieces = '/' :: joinSlashes l.segments := by
      rw [pieces, joinSlashes_cons _ hne, hd, List.nil_append]
    rw [htext, List.dropWhile_cons_of_pos (by simp)]
  · rfl

end Canonical

/-! ## Below a directory -/

/-- The names that lead from a directory to a place, if it lies at or below the directory. -/
def within? (dir l : Location) : Option (List Segment) :=
  if dir.drive = l.drive ∧ dir.segments <+: l.segments then
    some (l.segments.drop dir.segments.length)
  else none

/-- The names that lead from a directory to a place, if it lies below the directory. -/
def below? (dir l : Location) : Option (List Segment) := (dir.within? l).filter (· ≠ [])

theorem within?_eq_some_iff {dir l : Location} {more : List Segment} :
    dir.within? l = some more ↔ l = dir.down more := by
  obtain ⟨drive, segments⟩ := dir
  obtain ⟨drive', segments'⟩ := l
  simp only [within?, down, Option.ite_none_right_eq_some, Option.some.injEq, mk.injEq]
  constructor
  · rintro ⟨⟨rfl, more', rfl⟩, rfl⟩
    simp
  · rintro ⟨rfl, rfl⟩
    simp

theorem below?_eq_some_iff {dir l : Location} {more : List Segment} :
    dir.below? l = some more ↔ l = dir.down more ∧ more ≠ [] := by
  simp [below?, Option.filter_eq_some_iff, within?_eq_some_iff]

/-- The names below a directory are the last pieces of a place. -/
theorem suffix_of_below? {dir l : Location} {more : List Segment} (h : dir.below? l = some more) :
    more <:+ l.pieces ∧ more ≠ [] := by
  obtain ⟨rfl, hne⟩ := below?_eq_some_iff.mp h
  exact ⟨List.suffix_append dir.pieces more, hne⟩

/-- The text of a place can be cut after that of a directory only if it lies below, and then what
follows are the names from there. -/
theorem joinSlashes_pieces_eq_append_iff {dir l : Location} (hdir : dir.Canonical)
    (hl : l.Canonical) {rest : List Char} :
    joinSlashes l.pieces = joinSlashes dir.pieces ++ '/' :: rest ↔
      ∃ more, dir.below? l = some more ∧ joinSlashes more = rest := by
  simp only [below?_eq_some_iff]
  constructor
  · intro htext
    have hpieces := congrArg splitSlashes htext
    rw [splitSlashes_append_cons, hdir.splitSlashes_joinSlashes_pieces,
      hl.splitSlashes_joinSlashes_pieces] at hpieces
    exact ⟨splitSlashes rest, ⟨eq_of_pieces hpieces, splitSlashes_ne_nil rest⟩,
      joinSlashes_splitSlashes rest⟩
  · rintro ⟨more, ⟨rfl, hne⟩, rfl⟩
    rw [pieces_down, joinSlashes_append dir.pieces_ne_nil hne]

end Location

/-! ## Canonical texts -/

/-- A canonical path: the text of a place, without backslashes. -/
def IsCanonical (path : String) : Prop :=
  ∃ l : Location, l.Canonical ∧ path.toList = l.toChars ∧ '\\' ∉ path.toList

theorem mem_joinSlashes_of_mem {pieces : List Segment} {p : Segment} {c : Char}
    (hp : p ∈ pieces) (hc : c ∈ p) : c ∈ joinSlashes pieces := by
  induction pieces with
  | nil => cases hp
  | cons first more ih =>
    by_cases hone : more = []
    · subst hone
      cases List.mem_singleton.mp hp
      simpa [joinSlashes] using hc
    · rw [joinSlashes_cons first hone, List.mem_append, List.mem_cons]
      rcases List.mem_cons.mp hp with rfl | hp
      · exact .inl hc
      · exact .inr (.inr (ih hp))

theorem of_mem_joinSlashes {pieces : List Segment} {c : Char} (h : c ∈ joinSlashes pieces) :
    c = '/' ∨ ∃ p ∈ pieces, c ∈ p := by
  induction pieces with
  | nil => cases h
  | cons first more ih =>
    by_cases hone : more = []
    · subst hone
      exact .inr ⟨first, by simp, by simpa [joinSlashes] using h⟩
    · rw [joinSlashes_cons first hone, List.mem_append, List.mem_cons] at h
      rcases h with hfirst | rfl | hmore
      · exact .inr ⟨first, by simp, hfirst⟩
      · exact .inl rfl
      · rcases ih hmore with rfl | ⟨p, hp, hc⟩
        · exact .inl rfl
        · exact .inr ⟨p, by simp [hp], hc⟩

theorem mem_of_mem_splitSlashes {s : List Char} {piece : Segment} {c : Char}
    (hpiece : piece ∈ splitSlashes s) (hc : c ∈ piece) : c ∈ s := by
  rw [← joinSlashes_splitSlashes s]
  exact mem_joinSlashes_of_mem hpiece hc

namespace Location

/-- Writing a place out again brings in no character but slashes. -/
theorem mem_of_mem_toChars_ofChars {s : List Char} {c : Char} (h : c ∈ (ofChars s).toChars) :
    c = '/' ∨ c ∈ s := by
  have hwalk : ∀ rest : List Char, c ∈ joinSlashes (walk [] (splitSlashes rest)) →
      c = '/' ∨ c ∈ rest := by
    intro rest hc
    rcases of_mem_joinSlashes hc with rfl | ⟨p, hp, hcp⟩
    · exact .inl rfl
    · rcases mem_walk hp with hnil | ⟨hmem, -⟩
      · cases hnil
      · exact .inr (mem_of_mem_splitSlashes hmem hcp)
  rw [toChars_eq, List.mem_append, List.mem_cons] at h
  cases hdrive : splitDrive s with
  | some d =>
    obtain ⟨d, rest⟩ := d
    rw [show ofChars s = ⟨some d, walk [] (splitSlashes rest)⟩ by rw [ofChars, hdrive]] at h
    rw [(splitDrive_eq_some_iff.mp hdrive).1]
    rcases h with hd | rfl | hrest
    · have hd : c = d ∨ c = ':' := by simpa [driveChars] using hd
      exact .inr (by rcases hd with rfl | rfl <;> simp)
    · exact .inl rfl
    · exact (hwalk rest hrest).imp_right fun hc => by simp [hc]
  | none =>
    rw [show ofChars s = ⟨none, walk [] (splitSlashes s)⟩ by rw [ofChars, hdrive]] at h
    rcases h with hd | rfl | hs
    · cases hd
    · exact .inl rfl
    · exact hwalk s hs

theorem isRootedChars_toChars {l : Location} (h : l.Canonical) :
    isRootedChars l.toChars = true := by
  obtain ⟨drive, segments⟩ := l
  cases drive with
  | none => rfl
  | some d =>
    have hletter : isDriveLetter d = true := h.drive d rfl
    simp [isRootedChars, toChars, rootChars, splitDrive, hletter]

end Location

/-- The place that a canonical path names. -/
def locate (path : String) : Location := Location.ofChars path.toList

theorem locate_canonical (path : String) : (locate path).Canonical := Location.ofChars_canonical _

theorem IsCanonical.toChars_locate {path : String} (h : IsCanonical path) :
    (locate path).toChars = path.toList := by
  obtain ⟨l, hl, hpath, -⟩ := h
  rw [locate, hpath, Location.ofChars_toChars hl]

/-- Resolving leaves a canonical path alone, wherever it is resolved from. -/
theorem IsCanonical.resolve_eq {path : String} (h : IsCanonical path) (base : String) :
    resolve base path = path := by
  obtain ⟨l, hl, hpath, hback⟩ := h
  rw [resolve, resolveChars, slashedChars_of_not_mem hback, hpath,
    Location.isRootedChars_toChars hl, if_pos rfl, Location.ofChars_toChars hl, ← hpath,
    String.ofList_toList]

/-- What is resolved from a directory without backslashes is canonical. -/
theorem isCanonical_resolve {base : String} (hbase : '\\' ∉ base.toList) (path : String) :
    IsCanonical (resolve base path) := by
  refine ⟨_, Location.ofChars_canonical _, String.toList_ofList, ?_⟩
  rw [resolve, String.toList_ofList]
  intro h
  have hpath := backslash_not_mem_slashedChars path.toList
  rcases Location.mem_of_mem_toChars_ofChars h with hslash | hmem
  · cases hslash
  · split at hmem
    · exact hpath hmem
    · simp [hbase, hpath] at hmem

theorem IsCanonical.resolved {base : String} (hbase : IsCanonical base) (path : String) :
    IsCanonical (resolve base path) := by
  obtain ⟨-, -, -, hback⟩ := hbase
  exact isCanonical_resolve hback path

/-- The canonical paths are those that resolving leaves alone. -/
theorem isCanonical_iff {path : String} : IsCanonical path ↔ resolve "" path = path :=
  ⟨fun h => h.resolve_eq "", fun h => h ▸ isCanonical_resolve (by decide) path⟩

instance : DecidablePred IsCanonical := fun _ => decidable_of_iff _ isCanonical_iff.symm

/-! ## The way down -/

theorem detour_append (shared more : List Segment) : detour shared (shared ++ more) = more := by
  induction shared with
  | nil => simp [detour]
  | cons s shared ih => simp [detour, ih]

/-- From a directory to what lies below it, one goes down only. -/
theorem relative_down {dir : String} (hdir : IsCanonical dir) {more : List Segment}
    (hmore : ∀ s ∈ more, Location.IsName s) :
    relative dir (String.ofList (joinSlashes ((locate dir).pieces ++ more))) =
      String.ofList (joinSlashes more) := by
  have hplace := locate_canonical dir
  have hslash : ∀ p ∈ (locate dir).pieces ++ more, '/' ∉ p := by
    intro p hp
    rcases List.mem_append.mp hp with hp | hp
    · exact hplace.slash_not_mem p hp
    · exact (hmore p hp).2.2.2
  have hnames : more.filter (· ≠ []) = more :=
    List.filter_eq_self.mpr fun s hs => by simpa using (hmore s hs).1
  rw [relative, String.toList_ofList, ← hdir.toChars_locate, hplace.names_toChars,
    names_joinSlashes hslash (by simp [Location.pieces_ne_nil]), List.filter_append, hnames,
    detour_append]

end BuildRelay.Path
