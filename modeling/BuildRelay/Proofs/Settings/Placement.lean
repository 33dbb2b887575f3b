/-
BuildRelay.Proofs.Settings.Placement — where the settings of a project come to lie.

A key of the settings is cut at its last slash, its directory is resolved, and the file is looked
for from there upward. The driver knows the project by another path, resolved whole. Both meet in
the same text, however the key is spelled.

* `splitKey_cases` — a key, cut at its last slash.
* `resolve_splitKey` — the two ways to resolve a key meet.
* `landing_of_exists` — a key whose file is there comes to lie at that file.
* `Placement.get?_ofProjects` — all projects placed, with the last one wherever several meet.
-/
import BuildRelay.Proofs.Path.Canonical
import BuildRelay.Proofs.Path.Memo
import Mathlib.Data.List.TakeWhile

namespace BuildRelay

namespace Path

/-! ## The last name of a path -/

/-- What follows the last slash of a path, backslashes read as slashes. -/
def lastPiece (path : String) : Segment :=
  ((splitSlashes (slashedChars path.toList)).getLast?).getD []

/-- Whether the last piece of a path names a file: there is one, and it does not start with a
drive. -/
def NamesFile (path : String) : Prop := lastPiece path ≠ [] ∧ splitDrive (lastPiece path) = none

instance (path : String) : Decidable (NamesFile path) := inferInstanceAs (Decidable (_ ∧ _))

end Path

/-! ## Cutting a key -/

open BuildRelay.Path

theorem lastPiece_of_not_mem {path : String} (h : '/' ∉ slashedChars path.toList) :
    lastPiece path = slashedChars path.toList := by
  rw [lastPiece, splitSlashes_of_not_mem h]
  rfl

theorem lastPiece_of_append_cons {path : String} {front name : List Char}
    (hpath : slashedChars path.toList = front ++ '/' :: name) (hname : '/' ∉ name) :
    lastPiece path = name := by
  rw [lastPiece, hpath, splitSlashes_append_cons, splitSlashes_of_not_mem hname,
    List.getLast?_concat]
  rfl

theorem slash_not_mem_lastPiece (path : String) : '/' ∉ lastPiece path := by
  rw [lastPiece]
  cases hlast : (splitSlashes (slashedChars path.toList)).getLast? with
  | none => exact List.not_mem_nil
  | some piece => exact not_mem_of_mem_splitSlashes (List.mem_of_getLast? hlast)

/-- A key is a bare name, or a name right below the root, or it has a directory. -/
theorem splitKey_cases (key : String) :
    (slashedChars key.toList = lastPiece key ∧
      splitKey key = (".", String.ofList (lastPiece key))) ∨
    (slashedChars key.toList = '/' :: lastPiece key ∧
      splitKey key = ("/", String.ofList (lastPiece key))) ∨
    ∃ front, front ≠ [] ∧ slashedChars key.toList = front ++ '/' :: lastPiece key ∧
      splitKey key = (String.ofList front, String.ofList (lastPiece key)) := by
  have hback : (slashed key).toList.reverse = (slashedChars key.toList).reverse := by
    rw [slashed, String.toList_ofList]
  let name := ((slashedChars key.toList).reverse.takeWhile fun c => c ≠ '/').reverse
  have hname : '/' ∉ name := by
    intro hmem
    simpa using List.mem_takeWhile_imp (List.mem_reverse.mp hmem)
  -- The rest of the reversed text is empty, or it starts with the last slash.
  have hsplit : slashedChars key.toList =
      ((slashedChars key.toList).reverse.dropWhile fun c => c ≠ '/').reverse ++ name := by
    rw [← List.reverse_append, List.takeWhile_append_dropWhile, List.reverse_reverse]
  cases hdrop : (slashedChars key.toList).reverse.dropWhile fun c => c ≠ '/' with
  | nil =>
    rw [hdrop, List.reverse_nil, List.nil_append] at hsplit
    have hlast : lastPiece key = name := by
      rw [lastPiece_of_not_mem (hsplit ▸ hname), hsplit]
    rw [hlast]
    refine .inl ⟨hsplit, ?_⟩
    simp only [splitKey, hback, hdrop]
    rfl
  | cons c above =>
    have hslash : c = '/' := by
      have hne : ((slashedChars key.toList).reverse.dropWhile fun c => c ≠ '/') ≠ [] := by
        rw [hdrop]
        exact List.cons_ne_nil c above
      have hhead := List.head_dropWhile_not _ hne
      simpa only [hdrop, List.head_cons, decide_eq_false_iff_not, not_not] using hhead
    subst hslash
    rw [hdrop, List.reverse_cons, List.append_assoc, List.singleton_append] at hsplit
    rw [lastPiece_of_append_cons hsplit hname]
    cases above with
    | nil =>
      refine .inr (.inl ⟨hsplit, ?_⟩)
      simp only [splitKey, hback, hdrop]
      rfl
    | cons d above =>
      refine .inr (.inr ⟨(d :: above).reverse, by simp, hsplit, ?_⟩)
      simp only [splitKey, hback, hdrop]
      rfl

theorem snd_splitKey (key : String) : (splitKey key).2 = String.ofList (lastPiece key) := by
  rcases splitKey_cases key with ⟨-, hsplit⟩ | ⟨-, hsplit⟩ | ⟨_, -, -, hsplit⟩ <;> rw [hsplit]

theorem mem_slashedChars_of_mem_lastPiece {key : String} {c : Char} (hc : c ∈ lastPiece key) :
    c ∈ slashedChars key.toList := by
  rcases splitKey_cases key with ⟨hkey, -⟩ | ⟨hkey, -⟩ | ⟨front, -, hkey, -⟩ <;> rw [hkey]
  · exact hc
  · exact List.mem_cons_of_mem _ hc
  · exact List.mem_append_right _ (List.mem_cons_of_mem _ hc)

/-- A name without a drive is no rooted path. -/
theorem isRootedChars_lastPiece {key : String} (h : NamesFile key) :
    isRootedChars (slashedChars (lastPiece key)) = false := by
  have hslashed : slashedChars (lastPiece key) = lastPiece key :=
    slashedChars_of_not_mem fun hc =>
      backslash_not_mem_slashedChars _ (mem_slashedChars_of_mem_lastPiece hc)
  rw [hslashed, isRootedChars, h.2, Option.isSome_none, Bool.or_false, decide_eq_false_iff_not]
  intro hhead
  exact slash_not_mem_lastPiece key (List.mem_of_head? hhead)

/-- A key resolved in two steps, first its directory and then its name, comes to what it comes to
when it is resolved whole. -/
theorem resolve_splitKey (cwd : String) {key : String} (h : NamesFile key) :
    Path.resolve (Path.resolve cwd (splitKey key).1) (splitKey key).2 = Path.resolve cwd key := by
  have hname := isRootedChars_lastPiece h
  simp only [Path.resolve, String.toList_ofList]
  rw [← resolveChars_slashedChars cwd.toList key.toList]
  rcases splitKey_cases key with
      ⟨hkey, hsplit⟩ | ⟨hkey, hsplit⟩ | ⟨front, hfront, hkey, hsplit⟩ <;>
    simp only [hsplit, hkey, String.toList_ofList]
  · exact congrArg String.ofList (resolveChars_dot cwd.toList hname)
  · exact congrArg String.ofList (resolveChars_slash cwd.toList hname)
  · exact congrArg String.ofList (resolveChars_append_cons cwd.toList hfront hname)

/-! ## The search -/

theorem ancestors_eq_cons (dir : String) : ∃ above, ancestors dir = dir :: above := by
  rw [ancestors, ancestorsChars]
  split
  · exact ⟨[], by simp⟩
  · exact ⟨_, by rw [List.map_cons, String.ofList_toList]⟩

/-- A file that is there is found where the search starts. -/
theorem found_of_fileExists {fileExists : String → Bool} {dir name : String} (hname : name ≠ "")
    (h : fileExists (Path.resolve dir name) = true) :
    (findConfig dir name fileExists).found = some (Path.resolve dir name) := by
  obtain ⟨above, habove⟩ := ancestors_eq_cons dir
  have hempty : name.isEmpty = false := by simpa using hname
  rw [findConfig, configCandidates, habove, List.map_cons, hempty, Search.through,
    if_neg Bool.false_ne_true, if_pos h]

/-! ## Placed projects -/

section Landing

variable (fileExists : String → Bool) (cwd : String)

/-- The file that a key leads to, looked for from the directory of the key upward. -/
def configOf? (key : String) : Option String :=
  (findConfig (Path.resolve cwd (splitKey key).1) (splitKey key).2 fileExists).found

/-- Where a key of the settings comes to lie: at the file that it leads to, or where it was. -/
def landing (key : String) : String := (configOf? fileExists cwd key).getD key

/-- The last of the bags whose keys come to lie at a path. -/
def lastLanding? (projects : OrderedMap String Options) (path : String) : Option Options :=
  ((projects.entries.filter fun e => landing fileExists cwd e.1 = path).getLast?).map Prod.snd

variable {fileExists cwd}

/-- A key whose file is there leads to just that file. -/
theorem landing_of_exists {key : String} (hname : NamesFile key)
    (h : fileExists (Path.resolve cwd key) = true) :
    landing fileExists cwd key = Path.resolve cwd key := by
  have hne : (splitKey key).2 ≠ "" := by
    rw [snd_splitKey]
    intro hempty
    exact hname.1 (by simpa using congrArg String.toList hempty)
  rw [← resolve_splitKey cwd hname] at h ⊢
  rw [landing, configOf?, found_of_fileExists hne h, Option.getD_some]

variable (fileExists cwd) in
/-- Where a key of the settings comes to lie, some bag does. -/
theorem exists_lastLanding? {projects : OrderedMap String Options} {key : String}
    (h : projects.contains key = true) :
    ∃ bag, lastLanding? fileExists cwd projects (landing fileExists cwd key) = some bag := by
  obtain ⟨bag, hbag⟩ := OrderedMap.contains_iff.mp h
  have hmem : (key, bag) ∈ projects.entries.filter fun e =>
      landing fileExists cwd e.1 = landing fileExists cwd key :=
    List.mem_filter.mpr ⟨OrderedMap.mem_entries_of_get? hbag, decide_eq_true rfl⟩
  obtain ⟨last, hlast⟩ := Option.ne_none_iff_exists'.mp
    fun hnone => List.ne_nil_of_mem hmem (List.getLast?_eq_none_iff.mp hnone)
  exact ⟨last.2, by rw [lastLanding?, hlast, Option.map_some]⟩

end Landing

namespace Placement

variable (fileExists : String → Bool) {p : Placement}

theorem paths_add (key : String) (bag : Options) :
    (p.add fileExists key bag).paths = (p.paths.resolve (splitKey key).1).2 := by
  simp only [add]

theorem projects_add (h : p.paths.Faithful) (key : String) (bag : Options) :
    (p.add fileExists key bag).projects =
      p.projects.insert (landing fileExists p.paths.cwd key) bag := by
  simp only [add, landing, configOf?, h.answer]

theorem foldl_add (h : p.paths.Faithful) (l : List (String × Options)) :
    let q := l.foldl (fun p e => p.add fileExists e.1 e.2) p
    q.paths.Faithful ∧ q.paths.cwd = p.paths.cwd ∧
      q.projects = p.projects.insertAll
        (l.map fun e => (landing fileExists p.paths.cwd e.1, e.2)) := by
  induction l generalizing p with
  | nil => exact ⟨h, rfl, rfl⟩
  | cons e l ih =>
    have hadd : (p.add fileExists e.1 e.2).paths.Faithful := by
      rw [paths_add]
      exact h.resolve _
    obtain ⟨hfaithful, hcwd, hprojects⟩ := ih hadd
    rw [projects_add fileExists h, paths_add, Resolver.cwd_resolve] at hprojects
    rw [paths_add, Resolver.cwd_resolve] at hcwd
    exact ⟨hfaithful, hcwd, hprojects⟩

/-- Under every path lie the options of the last project that came there. -/
theorem get?_ofProjects {paths : Path.Resolver} (h : paths.Faithful)
    (projects : OrderedMap String Options) (path : String) :
    (ofProjects fileExists paths projects).projects.get? path =
      lastLanding? fileExists paths.cwd projects path := by
  obtain ⟨-, -, hprojects⟩ := foldl_add fileExists (p := ⟨∅, paths, []⟩) h projects.entries
  rw [ofProjects, hprojects, OrderedMap.get?_insertAll, OrderedMap.get?_empty, Option.or_none,
    List.filter_map, List.getLast?_map, Option.map_map]
  rfl

end Placement

namespace Settings

/-- Placing settings keeps the resolver faithful. -/
theorem place_paths (s : Settings) {paths : Path.Resolver} (h : paths.Faithful)
    (fileExists : String → Bool) :
    (s.place paths fileExists).2.1.Faithful ∧ (s.place paths fileExists).2.1.cwd = paths.cwd := by
  obtain ⟨hfaithful, hcwd, -⟩ :=
    Placement.foldl_add fileExists (p := ⟨∅, paths, []⟩) h s.projects.entries
  cases hroots : s.roots.isEmpty with
  | true =>
    simp only [place, hroots, if_true]
    exact ⟨hfaithful, hcwd⟩
  | false =>
    simp only [place, hroots, Bool.false_eq_true, if_false]
    obtain ⟨hfaithful', hcwd'⟩ := hfaithful.resolveAll s.roots
    exact ⟨hfaithful', hcwd'.trans hcwd⟩

end Settings

end BuildRelay
