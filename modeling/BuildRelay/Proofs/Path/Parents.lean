/-
BuildRelay.Proofs.Path.Parents — the directory of a path, cut out of its text.

There are two ways up from a path. To resolve `..` from it takes the last name off its place, and at a
root there is none to take; what comes out is canonical like everything that is resolved. To ask for
its parent cuts its text before the last slash. The cut keeps the slash of a name right below the
root, because there would be nothing left otherwise, but it knows nothing of drives: it takes the
slash that belongs to the root of a drive for one that ends a directory, and it takes the root of a
drive for a bare name. Everywhere else the two ways lead to the same text.

* `Location.bareChars` — the text that the cut leaves.
* `Location.Canonical.parentChars_toChars`, `parentChars_of_drive` — the cut below a root, and at the
  root of a drive.
* `Location.Canonical.parentChars_eq_up` — where it leaves the text of the place above.
* `parent_eq_resolve_up_iff` — the two ways compared, at every canonical path.
-/
import BuildRelay.Proofs.Path.Below
import Mathlib.Data.List.TakeWhile
import Mathlib.Tactic.ByContra

namespace BuildRelay.Path

/-! ## Cutting a text -/

/-- A parent is what comes before the last slash, trailing slashes apart. -/
theorem parentChars_of_trimTrailing {s above name : List Char}
    (h : trimTrailing s = above ++ '/' :: name) (hname : '/' ∉ name) :
    parentChars s = if above = [] then ['/'] else above := by
  have hdrop : (trimTrailing s).reverse.dropWhile (fun c => decide (c ≠ '/')) =
      '/' :: above.reverse := by
    have hkept : ∀ c ∈ name.reverse, decide (c ≠ '/') = true := by
      intro c hc
      refine decide_eq_true ?_
      rintro rfl
      exact hname (List.mem_reverse.mp hc)
    rw [h, List.reverse_append, List.reverse_cons, List.append_assoc, List.singleton_append,
      List.dropWhile_append_of_pos hkept, List.dropWhile_cons_of_neg (by simp)]
  rw [parentChars]
  split
  · rename_i hnil
    rw [hnil] at hdrop
    cases hdrop
  · rename_i c front hrev
    rw [hrev] at hdrop
    simp only [hdrop, List.reverse_eq_nil_iff, List.reverse_reverse]

theorem parentChars_of_not_mem {s : List Char} (hne : trimTrailing s ≠ [])
    (h : '/' ∉ trimTrailing s) : parentChars s = ['.'] := by
  have hdrop : (trimTrailing s).reverse.dropWhile (fun c => decide (c ≠ '/')) = [] := by
    rw [List.dropWhile_eq_nil_iff]
    intro c hc
    refine decide_eq_true ?_
    rintro rfl
    exact h (List.mem_reverse.mp hc)
  rw [parentChars]
  split
  · rename_i hnil
    exact absurd (List.reverse_eq_nil_iff.mp hnil) hne
  · rename_i c front hrev
    rw [hrev] at hdrop
    simp only [hdrop]

/-- The root of a drive, with its slash or without, is cut like a bare name. -/
theorem parentChars_of_drive {d : Char} {s : List Char} (hd : isDriveLetter d = true)
    (hs : s = [d, ':', '/'] ∨ s = [d, ':']) : parentChars s = ['.'] := by
  have hroot : Location.Canonical ⟨some d, []⟩ := ⟨by rintro _ ⟨⟩; exact hd, nofun⟩
  have hslash : '/' ∉ [d, ':'] := hroot.slash_not_mem_driveChars
  have hcolon : trimTrailing [d, ':'] = [d, ':'] := trimTrailing_concat [d] (by decide)
  have htrim : trimTrailing s = [d, ':'] := by
    rcases hs with rfl | rfl
    · exact (trimTrailing_concat_slash [d, ':']).trans hcolon
    · exact hcolon
  exact parentChars_of_not_mem (by simp [htrim]) (htrim ▸ hslash)

/-! ## Cutting the text of a place -/

namespace Location

variable {l : Location}

/-- The directory of a place. -/
def up (l : Location) : Location := { l with segments := l.segments.dropLast }

theorem Canonical.up (h : l.Canonical) : l.up.Canonical where
  drive := h.drive
  names := fun s hs => h.names s (List.dropLast_subset _ hs)

/-- The text of a place as the parent of a text: without the slash that ends the text of a drive. -/
def bareChars (l : Location) : List Char :=
  if joinSlashes l.pieces = [] then ['/'] else joinSlashes l.pieces

theorem bareChars_of_ne_nil (h : l.segments ≠ []) : l.bareChars = l.toChars := by
  have hne : joinSlashes l.pieces ≠ [] := by simp [pieces, joinSlashes_cons _ h]
  rw [bareChars, if_neg hne, toChars_of_ne_nil h]

/-- The text of a root is the slash, or a drive with a slash or without. -/
theorem root_cases {s : List Char} (h : l.segments = []) (hs : s = l.toChars ∨ s = l.bareChars) :
    l = ⟨none, []⟩ ∧ s = ['/'] ∨ ∃ d, l = ⟨some d, []⟩ ∧ (s = [d, ':', '/'] ∨ s = [d, ':']) := by
  obtain ⟨drive, segments⟩ := l
  cases h
  cases drive with
  | none => exact .inl ⟨rfl, hs.elim id id⟩
  | some d => exact .inr ⟨d, rfl, hs⟩

theorem Canonical.parentChars_toChars (h : l.Canonical) (hne : l.segments ≠ []) :
    parentChars l.toChars = l.up.bareChars := by
  have htrim := h.trimTrailing_toChars
  have hnames := h.names
  obtain ⟨drive, segments⟩ := l
  obtain ⟨front, s, rfl⟩ := (List.eq_nil_or_concat segments).resolve_left hne
  have hup : (⟨drive, front.concat s⟩ : Location).up = ⟨drive, front⟩ := by simp [Location.up]
  have hpieces : (⟨drive, front.concat s⟩ : Location).pieces =
      (⟨drive, front⟩ : Location).pieces ++ [s] := by simp [pieces, driveChars]
  have hs : '/' ∉ s := (hnames s (by simp)).2.2.2
  rw [hpieces, joinSlashes_append (pieces_ne_nil _) (by simp)] at htrim
  rw [parentChars_of_trimTrailing htrim (by simpa [joinSlashes] using hs), hup, bareChars]

/-- Below the slash, and below a directory of a drive, the cut leaves the text of the place above. -/
theorem Canonical.parentChars_eq_up (h : l.Canonical)
    (hplain : l.drive = none ∨ 2 ≤ l.segments.length) : parentChars l.toChars = l.up.toChars := by
  by_cases hroot : l.segments = []
  · obtain ⟨rfl, hs⟩ | ⟨d, rfl, -⟩ := root_cases hroot (.inl rfl)
    · rfl
    · simp at hplain
  · rw [h.parentChars_toChars hroot]
    by_cases hup : l.up.segments = []
    · -- Only the slash is short enough to be the place above.
      have hshort : l.segments.length - 1 = 0 := by
        simpa [Location.up] using congrArg List.length hup
      have hdrive : l.up.drive = none := hplain.resolve_right (by omega)
      obtain ⟨hslash, -⟩ | ⟨d, hd, -⟩ := root_cases hup (.inl rfl)
      · rw [hslash]
        rfl
      · simp [hd] at hdrive
    · rw [bareChars_of_ne_nil hup]

/-- At the root of a drive and right below it no slash is left. -/
theorem Canonical.parentChars_of_short (h : l.Canonical) {d : Char} (hd : l.drive = some d)
    (hshort : l.segments.length ≤ 1) :
    parentChars l.toChars = if l.segments = [] then ['.'] else [d, ':'] := by
  obtain ⟨drive, segments⟩ := l
  cases hd
  split
  · rename_i hroot
    cases hroot
    exact parentChars_of_drive (h.drive d rfl) (.inl rfl)
  · rename_i hne
    have hup : (⟨some d, segments⟩ : Location).up = ⟨some d, []⟩ := by
      simp only [Location.up, mk.injEq, true_and]
      exact List.eq_nil_of_length_eq_zero (by simp only [List.length_dropLast] at hshort ⊢; omega)
    rw [h.parentChars_toChars hne, hup]
    rfl

/-- From a canonical text, `..` leads to the text of the place above; a root has none. -/
theorem Canonical.resolveChars_up (h : l.Canonical) :
    resolveChars l.toChars ['.', '.'] = l.up.toChars :=
  resolveChars_toChars h rfl

end Location

/-! ## The two ways up -/

theorem IsCanonical.slash_mem {path : String} (h : IsCanonical path) : '/' ∈ path.toList := by
  rw [← h.toChars_locate, Location.toChars_eq]
  exact List.mem_append_right _ List.mem_cons_self

theorem IsCanonical.parent_eq {path : String} (h : IsCanonical path) :
    parent path = String.ofList (parentChars (locate path).toChars) := by
  rw [parent, h.toChars_locate]

theorem IsCanonical.resolve_up {path : String} (h : IsCanonical path) :
    resolve path ".." = String.ofList (locate path).up.toChars := by
  rw [resolve, ← h.toChars_locate]
  exact congrArg String.ofList (locate_canonical path).resolveChars_up

/-- The parent of a canonical path is what `..` leads to from there, and is canonical, exactly if the
path starts with the slash or has two names on its drive. What `..` leads to always is canonical, and
it is the text of the place with one name less, or of the root again. The parent of a name right
below the root of a drive is the drive without its slash, and the parent of that root is a bare dot;
neither is the text of a place. -/
theorem parent_eq_resolve_up_iff {path : String} (h : IsCanonical path) :
    let place := locate path
    (parent path = resolve path ".." ↔ place.drive = none ∨ 2 ≤ place.segments.length) ∧
    (IsCanonical (parent path) ↔ place.drive = none ∨ 2 ≤ place.segments.length) ∧
    IsCanonical (resolve path "..") ∧ resolve path ".." = String.ofList place.up.toChars ∧
    ∀ d, place.drive = some d → place.segments.length ≤ 1 →
      parent path = if place.segments = [] then "." else String.ofList [d, ':'] := by
  intro place
  have hplace : place.Canonical := locate_canonical path
  have hup : IsCanonical (resolve path "..") := h.resolved ".."
  have hshort : ∀ d, place.drive = some d → place.segments.length ≤ 1 →
      parent path = if place.segments = [] then "." else String.ofList [d, ':'] := by
    intro d hd hlength
    rw [h.parent_eq, hplace.parentChars_of_short hd hlength]
    split <;> rfl
  have hagree : place.drive = none ∨ 2 ≤ place.segments.length →
      parent path = resolve path ".." := by
    intro hplain
    rw [h.parent_eq, h.resolve_up, hplace.parentChars_eq_up hplain]
  have hcanonical : IsCanonical (parent path) →
      place.drive = none ∨ 2 ≤ place.segments.length := by
    intro hparent
    by_contra hnot
    obtain ⟨hdrive, hlength⟩ := not_or.mp hnot
    obtain ⟨d, hd⟩ := Option.ne_none_iff_exists'.mp hdrive
    -- What is left has no slash, and every place has one in its text.
    have hslash := hparent.slash_mem
    have hletter := hplace.slash_not_mem_driveChars
    rw [Location.driveChars, hd] at hletter
    rw [hshort d hd (by omega)] at hslash
    split at hslash
    · simp at hslash
    · rw [String.toList_ofList] at hslash
      exact hletter hslash
  refine ⟨⟨fun hsame => hcanonical (hsame ▸ hup), hagree⟩,
    ⟨hcanonical, fun hplain => hagree hplain ▸ hup⟩, hup, h.resolve_up, hshort⟩

/-- Two names below the root of a drive, and one right below the slash that looks like a drive. -/
theorem parent_eq_resolve_up_on_drive :
    IsCanonical "c:/lib/a.ts" ∧ parent "c:/lib/a.ts" = resolve "c:/lib/a.ts" ".." ∧
      IsCanonical "/c:" ∧ parent "/c:" = resolve "/c:" ".." := by
  have hdrive : IsCanonical "c:/lib/a.ts" := by decide
  have hslash : IsCanonical "/c:" := by decide
  exact ⟨hdrive, (parent_eq_resolve_up_iff hdrive).1.mpr (by decide),
    hslash, (parent_eq_resolve_up_iff hslash).1.mpr (by decide)⟩

/-- A file right below the root of a drive, and the root itself: the way up is lost. -/
theorem parent_of_file_on_drive :
    IsCanonical "c:/a.ts" ∧
    ¬(IsCanonical (parent "c:/a.ts") ∧ parent "c:/a.ts" = resolve "c:/a.ts" "..") ∧
    parent "c:/a.ts" = "c:" ∧ resolve "c:/a.ts" ".." = "c:/" ∧
    IsCanonical "c:/" ∧ parent "c:/" = "." ∧ resolve "c:/" ".." = "c:/" := by
  decide

end BuildRelay.Path
