/-
BuildRelay.Settings.Search — looking for a config file from a directory upward.

`Path.ancestors` lists a directory and the directories above it. A search asks for the config file
in each of them, from the inside out, and stops at the first that is there.
-/
import BuildRelay.Path.Basic

namespace BuildRelay

namespace Path

/-! ## Directories above a directory -/

theorem length_trimTrailing_le (s : List Char) : (trimTrailing s).length ≤ s.length := by
  have h := (List.dropWhile_sublist (fun c => decide (c = '/')) (l := s.reverse)).length_le
  simpa [trimTrailing] using h

/-- A text of two characters or more is longer than its parent. -/
theorem length_parentChars_lt_of_two_le {s : List Char} (h : 2 ≤ s.length) :
    (parentChars s).length < s.length := by
  have htrim := length_trimTrailing_le s
  unfold parentChars
  split
  · split <;> simp <;> omega
  · rename_i c front hrev
    have hlen : (c :: front).length ≤ s.length := by rw [← hrev]; simpa using htrim
    split
    · simp; omega
    · rename_i d above hdrop
      have hd := (List.dropWhile_sublist (fun x => decide (x ≠ '/')) (l := c :: front)).length_le
      rw [hdrop] at hd
      split
      · simp; omega
      · simp only [List.length_cons, List.length_reverse] at *; omega

/-- Going up makes a path shorter, until it is the root or a bare name. -/
theorem length_parentChars_lt {s : List Char} (hself : parentChars s ≠ s)
    (hbare : parentChars s ≠ ['.']) : (parentChars s).length < s.length := by
  match s with
  | [] => exact absurd (by simp [parentChars, trimTrailing]) hbare
  | [x] =>
    by_cases hx : x = '/'
    · subst hx; exact absurd (by simp [parentChars, trimTrailing]) hself
    · exact absurd (by simp [parentChars, trimTrailing, hx]) hbare
  | x :: y :: rest => exact length_parentChars_lt_of_two_le (by simp)

/-- A directory and those above it, up to the root; a directory without a root has only itself and
what its own text names. -/
def ancestorsChars (dir : List Char) : List (List Char) :=
  if _up : parentChars dir = dir ∨ parentChars dir = ['.'] then [dir]
  else dir :: ancestorsChars (parentChars dir)
termination_by dir.length
decreasing_by
  rw [not_or] at _up
  exact length_parentChars_lt _up.1 _up.2

/-- A directory and those above it, up to the root; a directory without a root has only itself and
what its own text names. -/
def ancestors (dir : String) : List String := (ancestorsChars dir.toList).map String.ofList

end Path

/-! ## The search -/

/-- What a search for a config file came to. -/
structure Search where
  /-- The paths that were asked for, in order. -/
  probed : List String
  /-- The first of them that is there. -/
  found : Option String
  deriving DecidableEq, Repr

namespace Search

/-- Asks for candidates in order, until one is there. -/
def through (fileExists : String → Bool) : List String → Search
  | [] => ⟨[], none⟩
  | path :: rest =>
    if fileExists path then ⟨[path], some path⟩
    else
      let s := through fileExists rest
      ⟨path :: s.probed, s.found⟩

end Search

/-- The config file that is meant where none is named. -/
def defaultConfigName : String := "tsconfig.json"

/-- Where a config file may lie, seen from a directory: there and in each directory above. -/
def configCandidates (dir name : String) : List String :=
  (Path.ancestors dir).map fun d =>
    Path.resolve d (if name.isEmpty then defaultConfigName else name)

/-- Looks for a config file from a directory upward (`find_config_file`). -/
def findConfig (dir name : String) (fileExists : String → Bool) : Search :=
  .through fileExists (configCandidates dir name)

end BuildRelay
