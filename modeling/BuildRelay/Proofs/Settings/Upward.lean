/-
BuildRelay.Proofs.Settings.Upward — where a search for a config file goes, and that it ends.

A search asks in a directory and goes on in its parent, until a parent is the directory itself or a
bare `.`. Parents are cut out of texts, and the texts do not stay canonical on the way: that of the
root of a drive comes out without its slash, `c:` for `c:/`. The place that a text names does stay the
right one, and a file is asked for by place.

* `Location.Climb`, `Location.upward_climb` — from a place up to its root.
* `Location.Canonical.map_ofChars_ancestorsChars` — the places on the way, told by the texts.
* `findConfig_eq`, `Search.bounded_eq` — a search round by round, and how many rounds it takes.
* `Search.found_through`, `Search.probed_through` — the first candidate that is there.
* `findConfig_climbs` — all of a search.
-/
import BuildRelay.Proofs.Path.Parents
import BuildRelay.Settings.Search
import Mathlib.Data.List.Chain
import Mathlib.Data.List.Infix
import Mathlib.Data.List.Nodup
import Mathlib.Data.List.TakeWhile

namespace BuildRelay

namespace Path

namespace Location

/-! ## From a place to its root -/

/-- A place and the directories above it, up to the root. -/
def upward (l : Location) : List Location :=
  l.segments.inits.reverse.map fun names => { l with segments := names }

/-- `places` lead from `l` up to its root: each is the directory of the one before, and none comes
twice. -/
structure Climb (l : Location) (places : List Location) : Prop where
  start : places.head? = some l
  up : places.IsChain fun here above => here.segments ≠ [] ∧ above = here.up
  root : ∃ r, places.getLast? = some r ∧ r.segments = []
  once : places.Nodup

theorem upward_of_root {l : Location} (h : l.segments = []) : l.upward = [l] := by
  obtain ⟨drive, segments⟩ := l
  cases h
  rfl

theorem upward_of_ne_nil {l : Location} (h : l.segments ≠ []) : l.upward = l :: l.up.upward := by
  obtain ⟨drive, segments⟩ := l
  obtain ⟨front, s, rfl⟩ := (List.eq_nil_or_concat segments).resolve_left h
  simp [upward, up, List.inits_append]

theorem length_segments_of_mem_upward {l p : Location} (h : p ∈ l.upward) :
    p.segments.length ≤ l.segments.length := by
  obtain ⟨names, hnames, rfl⟩ := List.mem_map.mp h
  exact ((List.mem_inits _ _).mp (List.mem_reverse.mp hnames)).length_le

theorem length_segments_up_lt {l : Location} (h : l.segments ≠ []) :
    l.up.segments.length < l.segments.length := by
  have hpos := List.length_pos_iff.mpr h
  rw [up, List.length_dropLast]
  omega

/-- Induction from a root down: what holds of the roots, and of a place if it holds of the directory
of the place. -/
theorem up_induction {P : Location → Prop} (root : ∀ l, l.segments = [] → P l)
    (down : ∀ l, l.segments ≠ [] → P l.up → P l) (l : Location) : P l := by
  induction hn : l.segments.length using Nat.strongRecOn generalizing l with
  | ind n ih =>
    subst hn
    by_cases h : l.segments = []
    · exact root l h
    · exact down l h (ih _ (length_segments_up_lt h) l.up rfl)

theorem upward_climb (l : Location) : Climb l l.upward := by
  induction l using up_induction with
  | root l h =>
    rw [upward_of_root h]
    exact ⟨rfl, List.isChain_singleton l, ⟨l, rfl, h⟩, List.nodup_singleton l⟩
  | down l h ih =>
    obtain ⟨hstart, hup, ⟨r, hlast, hr⟩, honce⟩ := ih
    rw [upward_of_ne_nil h]
    refine ⟨rfl, ?_, ⟨r, ?_, hr⟩, List.nodup_cons.mpr ⟨?_, honce⟩⟩
    · refine hup.cons fun above habove => ⟨h, ?_⟩
      rw [hstart] at habove
      exact (Option.some.inj habove).symm
    · rw [List.getLast?_cons, hlast, Option.getD_some]
    · intro hmem
      exact absurd (length_segments_of_mem_upward hmem) (Nat.not_le_of_lt (length_segments_up_lt h))

end Location

/-! ## From text to text -/

/-- A path without a root of its own is taken from a place, however the text of the place ends. -/
theorem resolveChars_congr {base base' : List Char}
    (h : Location.ofChars base = Location.ofChars base') (path : List Char) :
    resolveChars base path = resolveChars base' path := by
  simp only [resolveChars]
  split
  · rfl
  · rw [Location.ofChars_append_cons, Location.ofChars_append_cons, h]

namespace Location

variable {l : Location}

theorem Canonical.ofChars_bareChars (h : l.Canonical) : ofChars l.bareChars = l := by
  by_cases hroot : l.segments = []
  · obtain ⟨rfl, hs⟩ | ⟨d, rfl, hs⟩ := root_cases hroot (.inr rfl)
    · rw [hs]
      rfl
    · have hletter := h.drive d rfl
      rcases hs with hs | hs <;> rw [hs, ofChars, splitDrive, if_pos hletter] <;> rfl
  · rw [bareChars_of_ne_nil hroot, ofChars_toChars h]

/-- Going up does not stop below a root. -/
theorem Canonical.goes_up (h : l.Canonical) (hne : l.segments ≠ []) :
    ¬(parentChars l.toChars = l.toChars ∨ parentChars l.toChars = ['.']) := by
  rw [h.parentChars_toChars hne]
  rintro (hsame | hdot)
  · have hplace := congrArg ofChars hsame
    rw [h.up.ofChars_bareChars, ofChars_toChars h] at hplace
    have hshort := length_segments_up_lt hne
    rw [hplace] at hshort
    exact Nat.lt_irrefl _ hshort
  · by_cases hroot : l.up.segments = []
    · obtain ⟨-, hs⟩ | ⟨d, -, hs | hs⟩ := root_cases hroot (.inr rfl) <;> simp [hdot] at hs
    · rw [bareChars_of_ne_nil hroot, toChars_eq] at hdot
      have hslash : '/' ∈ ['.'] := hdot ▸ List.mem_append_right _ List.mem_cons_self
      simp at hslash

/-- A root is where going up stops. -/
theorem Canonical.stops_at_root (h : l.Canonical) (hroot : l.segments = []) {s : List Char}
    (hs : s = l.toChars ∨ s = l.bareChars) : parentChars s = s ∨ parentChars s = ['.'] := by
  obtain ⟨-, rfl⟩ | ⟨d, rfl, hs⟩ := root_cases hroot hs
  · exact .inl rfl
  · exact .inr (parentChars_of_drive (h.drive d rfl) hs)

/-- Going up from the text of a place leads past the places above it, each once. -/
theorem Canonical.map_ofChars_ancestorsChars (h : l.Canonical) {s : List Char}
    (hs : s = l.toChars ∨ s = l.bareChars) : (ancestorsChars s).map ofChars = l.upward := by
  have hplace : ofChars s = l := by
    rcases hs with rfl | rfl
    · exact ofChars_toChars h
    · exact h.ofChars_bareChars
  induction l using up_induction generalizing s with
  | root l hroot =>
    rw [ancestorsChars, dif_pos (h.stops_at_root hroot hs), upward_of_root hroot, List.map_singleton,
      hplace]
  | down l hne ih =>
    obtain rfl : s = l.toChars := by simpa [bareChars_of_ne_nil hne] using hs
    rw [ancestorsChars, dif_neg (h.goes_up hne), List.map_cons, hplace, h.parentChars_toChars hne,
      ih h.up (.inr rfl) h.up.ofChars_bareChars, upward_of_ne_nil hne]

end Location

theorem ancestors_eq (dir : String) : ancestors dir =
    if parent dir = dir ∨ parent dir = "." then [dir] else dir :: ancestors (parent dir) := by
  have hself : parent dir = dir ↔ parentChars dir.toList = dir.toList := by
    rw [← String.toList_inj, parent, String.toList_ofList]
  have hdot : parent dir = "." ↔ parentChars dir.toList = ['.'] := by
    rw [← String.toList_inj, parent, String.toList_ofList]
    rfl
  rw [ancestors, ancestorsChars]
  by_cases hstop : parentChars dir.toList = dir.toList ∨ parentChars dir.toList = ['.']
  · rw [dif_pos hstop, if_pos (by rwa [hself, hdot]), List.map_singleton, String.ofList_toList]
  · rw [dif_neg hstop, if_neg (by rwa [hself, hdot]), List.map_cons, String.ofList_toList, ancestors,
      parent, String.toList_ofList]

theorem length_ancestors_le (dir : String) : (ancestors dir).length ≤ dir.length + 1 := by
  have hchars : ∀ s : List Char, (ancestorsChars s).length ≤ s.length + 1 := by
    intro s
    induction s using ancestorsChars.induct with
    | case1 s hstop => simp [ancestorsChars, hstop]
    | case2 s hup ih =>
      have hlt := length_parentChars_lt (not_or.mp hup).1 (not_or.mp hup).2
      rw [ancestorsChars, dif_neg hup, List.length_cons]
      omega
  rw [ancestors, List.length_map, ← String.length_toList]
  exact hchars dir.toList

end Path

/-! ## Round by round -/

/-- The name that is looked for; an empty one stands for the usual one. -/
def configName (name : String) : String := if name.isEmpty then defaultConfigName else name

namespace Search

/-- A search that has only so many rounds. In a round it asks for the file in a directory; if it is
not there, the next round is about the parent, unless the parent is the directory itself or a bare
`.`. A search that is not through after its last round has no result. -/
def bounded (fileExists : String → Bool) (name : String) : Nat → String → Option Search
  | 0, _ => none
  | rounds + 1, dir =>
    let asked := Path.resolve dir (configName name)
    if fileExists asked then some ⟨[asked], some asked⟩
    else if Path.parent dir = dir ∨ Path.parent dir = "." then some ⟨[asked], none⟩
    else
      (bounded fileExists name rounds (Path.parent dir)).map fun s => ⟨asked :: s.probed, s.found⟩

/-! ## Candidates in order -/

variable (fileExists : String → Bool) (paths : List String)

theorem found_through : (through fileExists paths).found = paths.find? fileExists := by
  induction paths with
  | nil => rfl
  | cons path rest ih =>
    rw [through]
    cases hpath : fileExists path with
    | true => rw [if_pos rfl, List.find?_cons_of_pos hpath]
    | false => rw [if_neg Bool.false_ne_true, List.find?_cons_of_neg (by simp [hpath]), ih]

theorem probed_through : (through fileExists paths).probed =
    paths.takeWhile (fun path => !fileExists path) ++ (paths.find? fileExists).toList := by
  induction paths with
  | nil => rfl
  | cons path rest ih =>
    rw [through]
    cases hpath : fileExists path with
    | true => simp [hpath]
    | false => simp [hpath, ih]

theorem length_probed_le : (through fileExists paths).probed.length ≤ paths.length := by
  induction paths with
  | nil => exact Nat.le_refl 0
  | cons path rest ih =>
    rw [through]
    split
    · simp
    · exact Nat.succ_le_succ ih

end Search

theorem configCandidates_eq_map (dir name : String) : configCandidates dir name =
    (Path.ancestors dir).map fun d => Path.resolve d (configName name) := rfl

/-- A search asks where it starts, and then it is a search from the parent, unless it is through. -/
theorem findConfig_eq (dir name : String) (fileExists : String → Bool) :
    findConfig dir name fileExists =
      let asked := Path.resolve dir (configName name)
      if fileExists asked then ⟨[asked], some asked⟩
      else if Path.parent dir = dir ∨ Path.parent dir = "." then ⟨[asked], none⟩
      else
        let s := findConfig (Path.parent dir) name fileExists
        ⟨asked :: s.probed, s.found⟩ := by
  rw [findConfig, configCandidates_eq_map, Path.ancestors_eq]
  by_cases hstop : Path.parent dir = dir ∨ Path.parent dir = "."
  · simp only [if_pos hstop, List.map_cons, List.map_nil, Search.through]
  · simp only [if_neg hstop, List.map_cons, Search.through]
    rfl

/-- A search takes as many rounds as it asks for paths. -/
theorem Search.bounded_eq (fileExists : String → Bool) (name : String) (rounds : Nat)
    (dir : String) : bounded fileExists name rounds dir =
      let search := findConfig dir name fileExists
      if search.probed.length ≤ rounds then some search else none := by
  induction rounds generalizing dir with
  | zero =>
    have hasks : (findConfig dir name fileExists).probed.length ≠ 0 := by
      rw [findConfig_eq]
      simp only
      split
      · simp
      · split <;> simp
    simp [bounded, hasks]
  | succ rounds ih =>
    simp only [bounded, ih]
    rw [findConfig_eq dir]
    simp only
    split
    · simp
    · split
      · simp
      · by_cases hrounds : (findConfig (Path.parent dir) name fileExists).probed.length ≤ rounds <;>
          simp [hrounds]

/-- From a canonical directory the file is asked for in the places above it, each named by its own
canonical text. -/
theorem configCandidates_eq_upward {dir : String} (hdir : Path.IsCanonical dir) (name : String) :
    configCandidates dir name = (Path.locate dir).upward.map fun place =>
      Path.resolve (String.ofList place.toChars) (configName name) := by
  have hplaces : (Path.ancestorsChars dir.toList).map Path.Location.ofChars =
      (Path.locate dir).upward := by
    rw [← hdir.toChars_locate]
    exact (Path.locate_canonical dir).map_ofChars_ancestorsChars (.inl rfl)
  rw [configCandidates_eq_map, Path.ancestors, ← hplaces, List.map_map, List.map_map]
  refine List.map_congr_left fun text _ => ?_
  have hsame : Path.Location.ofChars text =
      Path.Location.ofChars (Path.Location.ofChars text).toChars :=
    (Path.Location.ofChars_toChars (Path.Location.ofChars_canonical text)).symm
  simp only [Function.comp_apply, Path.resolve, String.toList_ofList]
  rw [Path.resolveChars_congr hsame]

/-- A search for a config file ends, wherever it starts, whatever it looks for and whatever is there:
it takes as many rounds as it asks for paths, and no more than its directory has characters, and one.

From a canonical directory it asks for the file in that directory, in the directory of that, and so on
up to the root, whether that is the slash or a drive; in this order and in each of them once. It stops
at the first that is there, and this is what it finds. It finds nothing exactly if none is there. An
empty name stands for the usual one. -/
theorem findConfig_climbs (dir name : String) (fileExists : String → Bool) :
    let search := findConfig dir name fileExists
    let places := (Path.locate dir).upward
    let files := places.map fun place =>
      Path.resolve (String.ofList place.toChars) (configName name)
    (∀ rounds, Search.bounded fileExists name rounds dir =
      if search.probed.length ≤ rounds then some search else none) ∧
    search.probed.length ≤ dir.length + 1 ∧
    (Path.IsCanonical dir →
      String.ofList (Path.locate dir).toChars = dir ∧ (Path.locate dir).Climb places ∧
      search.found = files.find? fileExists ∧
      search.probed = files.takeWhile (fun file => !fileExists file) ++ search.found.toList ∧
      (search.found = none ↔ ∀ file ∈ files, fileExists file = false)) ∧
    findConfig dir "" fileExists = findConfig dir "tsconfig.json" fileExists := by
  intro search places files
  refine ⟨?ends, ?bound, ?climbs, ?usual⟩
  case ends => exact fun rounds => Search.bounded_eq fileExists name rounds dir
  case bound =>
    have hasked : search.probed.length ≤ (configCandidates dir name).length :=
      Search.length_probed_le fileExists _
    rw [configCandidates_eq_map, List.length_map] at hasked
    exact hasked.trans (Path.length_ancestors_le dir)
  case climbs =>
    intro hdir
    have hfiles : search = Search.through fileExists files :=
      congrArg (Search.through fileExists) (configCandidates_eq_upward hdir name)
    have hfound : search.found = files.find? fileExists := by
      rw [hfiles, Search.found_through]
    have htext : String.ofList (Path.locate dir).toChars = dir := by
      rw [hdir.toChars_locate, String.ofList_toList]
    refine ⟨htext, (Path.locate dir).upward_climb, hfound, ?_, ?_⟩
    · rw [hfound, hfiles, Search.probed_through]
    · rw [hfound, List.find?_eq_none]
      simp
  case usual => rfl

/-- Up to the root of a drive, with the usual name: the file lies right below the root. -/
theorem findConfig_climbs_to_drive :
    Path.IsCanonical "c:/repo/pkg" ∧
    (findConfig "c:/repo/pkg" "" (· = "c:/tsconfig.json")).probed =
      ["c:/repo/pkg/tsconfig.json", "c:/repo/tsconfig.json", "c:/tsconfig.json"] ∧
    (findConfig "c:/repo/pkg" "" (· = "c:/tsconfig.json")).found = some "c:/tsconfig.json" := by
  have hdir : Path.IsCanonical "c:/repo/pkg" := by decide
  obtain ⟨-, -, hclimbs, -⟩ := findConfig_climbs "c:/repo/pkg" "" (· = "c:/tsconfig.json")
  obtain ⟨-, -, hfound, hprobed, -⟩ := hclimbs hdir
  exact ⟨hdir, by rw [hprobed, hfound]; decide, by rw [hfound]; decide⟩

end BuildRelay
