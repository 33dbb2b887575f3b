/-
BuildRelay.Proofs.Path.Steps — a path that is resolved part by part.

Whoever resolves a directory and then a name in it hands on a canonical text only: how the directory
was spelled is forgotten, and its dots are gone before the name is read. Nothing is lost by that. The
joined text would be read from the left, too, and what a `..` of the name takes away is the last name
that the directory has left, whichever way it is written.

Two side conditions cannot be dropped. An empty first part puts the slash that joins the parts at the
start, where it reads as the root; and a name with a root forgets the directory, while in the middle
of a text its root is a piece like any other.

* `foldl_resolveChars`, `resolve_intercalate` — parts resolved one after the other, and joined.
* `resolve_resolve` — a directory and a name.
-/
import BuildRelay.Proofs.Path.Shape

namespace BuildRelay.Path

/-- To go on from part to part is to resolve the text in which slashes join them. -/
theorem foldl_resolveChars (base : List Char) {first : List Char} (hfirst : first ≠ [])
    {parts : List (List Char)} (hparts : ∀ p ∈ parts, isRootedChars (slashedChars p) = false) :
    parts.foldl resolveChars (resolveChars base first) =
      resolveChars base (joinSlashes (first :: parts)) := by
  -- The text joined so far takes the place of the first part.
  induction parts generalizing first with
  | nil => rw [List.foldl_nil, joinSlashes, List.intercalate_singleton]
  | cons p parts ih =>
    have hjoin : joinSlashes ((first ++ '/' :: p) :: parts) = joinSlashes (first :: p :: parts) := by
      by_cases hlast : parts = []
      · simp [hlast, joinSlashes]
      · rw [joinSlashes_cons _ hlast, joinSlashes_cons _ (List.cons_ne_nil p parts),
          joinSlashes_cons _ hlast, List.append_assoc, List.cons_append]
    rw [List.foldl_cons, resolveChars_append_cons base hfirst (hparts p List.mem_cons_self),
      ih (by simp) fun q hq => hparts q (List.mem_cons_of_mem p hq), hjoin]

theorem toList_resolve (base path : String) :
    (resolve base path).toList = resolveChars base.toList path.toList := String.toList_ofList

theorem toList_foldl_resolve (base : String) (parts : List String) :
    (parts.foldl resolve base).toList = (parts.map String.toList).foldl resolveChars base.toList := by
  rw [List.foldl_map]
  exact (List.foldl_hom String.toList fun base path => (toList_resolve base path).symm).symm

theorem resolve_intercalate (base : String) {first : String} (hfirst : first ≠ "")
    {parts : List String} (hparts : ∀ p ∈ parts, isRooted (slashed p) = false) :
    parts.foldl resolve (resolve base first) = resolve base ("/".intercalate (first :: parts)) := by
  have hne : first.toList ≠ [] := by simpa using hfirst
  have hrooted : ∀ p ∈ parts.map String.toList, isRootedChars (slashedChars p) = false := by
    intro p hp
    obtain ⟨part, hpart, rfl⟩ := List.mem_map.mp hp
    rw [← isRooted_slashed, hparts part hpart]
  apply String.toList_injective
  rw [toList_foldl_resolve, toList_resolve, foldl_resolveChars base.toList hne hrooted,
    toList_resolve, String.toList_intercalate]
  rfl

/-- A directory resolved, and then a name from there, come to what they come to when they are joined
and resolved at once. Neither part has to be canonical: both may have dots, empty pieces and either
kind of separator, and the directory may have a root of its own. -/
theorem resolve_resolve (base : String) {dir name : String} (hdir : dir ≠ "")
    (hname : isRooted (slashed name) = false) :
    resolve (resolve base dir) name = resolve base (dir ++ "/" ++ name) := by
  have hjoin : "/".intercalate [dir, name] = dir ++ "/" ++ name := rfl
  have hparts : ∀ p ∈ [name], isRooted (slashed p) = false := by simpa using hname
  rw [← hjoin, ← resolve_intercalate base hdir hparts]
  rfl

/-- A directory on a drive with more `..` than it has names, and a name that goes up again. -/
theorem resolve_resolve_on_drive :
    "c:x\\..\\../.\\lib//" ≠ "" ∧ isRooted (slashed "..\\\\./b.ts") = false ∧
      resolve (resolve "/w/a" "c:x\\..\\../.\\lib//") "..\\\\./b.ts" =
        resolve "/w/a" ("c:x\\..\\../.\\lib//" ++ "/" ++ "..\\\\./b.ts") := by
  have hdir : "c:x\\..\\../.\\lib//" ≠ "" := by decide
  have hname : isRooted (slashed "..\\\\./b.ts") = false := by decide
  exact ⟨hdir, hname, resolve_resolve "/w/a" hdir hname⟩

/-- An empty directory is no part of a path, and a name with a root starts anew. -/
example :
    resolve (resolve "/w" "") "a" = "/w/a" ∧ resolve "/w" ("" ++ "/" ++ "a") = "/a" ∧
      resolve (resolve "/w" "lib") "c:a" = "c:/a" ∧ resolve "/w" ("lib" ++ "/" ++ "c:a") = "/w/lib/c:a" := by
  decide

end BuildRelay.Path
