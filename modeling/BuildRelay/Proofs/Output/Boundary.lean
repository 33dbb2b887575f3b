/-
BuildRelay.Proofs.Output.Boundary — a path lies below a directory only if a name of it ends there.

The path is cut by the size of the directory before the two are compared. That bound may lie
anywhere in the path: behind its end, inside a character, or in the middle of a name that only
begins like the directory. In the first two places the path cannot be cut, and the third one shows in
what stands behind the cut. Nothing is missed either: the case of an ASCII letter does not change
how many bytes it takes, so that every spelling of the directory ends at the bound.

* `byteSize_eq_of_spelled` — spellings of one text take as many bytes.
* `belowDir?_of_spelled` — a path that begins with a spelling of the directory.
* `belowDir?_eq_some_iff` — what is left of a path after a directory.
* `stripDir_at_boundary` — the slices that are taken, and what comes of them.
-/
import BuildRelay.Output.Layout
import BuildRelay.Proofs.Path.Below

namespace BuildRelay

variable {ignoreCase : Bool}

/-! ## Spellings -/

/-- What counts of a character: not the case of an ASCII letter, if that is to be ignored. -/
def caseKey (ignoreCase : Bool) (c : Char) : Char := if ignoreCase then c.toLower else c

theorem sameChar_iff {a b : Char} :
    sameChar ignoreCase a b = true ↔ caseKey ignoreCase a = caseKey ignoreCase b := by
  cases ignoreCase <;> simp [sameChar, caseKey]

theorem sameText_iff {a b : List Char} :
    sameText ignoreCase a b = true ↔ a.map (caseKey ignoreCase) = b.map (caseKey ignoreCase) := by
  unfold sameText
  induction a generalizing b with
  | nil => cases b <;> simp [List.isEqv]
  | cons c a ih => cases b <;> simp [List.isEqv, sameChar_iff, ih]

/-- A letter that has another case is ASCII in both cases. -/
theorem utf8Size_toLower (c : Char) : c.toLower.utf8Size = c.utf8Size := by
  by_cases hupper : c.val ≥ 'A'.val ∧ c.val ≤ 'Z'.val
  · have hascii : ∀ d : Char, d.val.toNat ≤ 127 → d.utf8Size = 1 :=
      fun d hd => Char.utf8Size_eq_one_iff.mpr (UInt32.le_iff_toNat_le.mpr hd)
    have hbound : c.val.toNat ≤ 90 := UInt32.le_iff_toNat_le.mp hupper.2
    have hlower : c.toLower.val = c.val + 32 := congrArg Char.val (dif_pos hupper)
    have hsum : c.toLower.val.toNat = (c.val.toNat + 32) % 2 ^ 32 := by
      rw [hlower]
      exact UInt32.toNat_add ..
    rw [hascii c (by omega), hascii c.toLower (by omega)]
  · exact congrArg Char.utf8Size (dif_neg hupper)

theorem utf8Size_caseKey (c : Char) : (caseKey ignoreCase c).utf8Size = c.utf8Size := by
  cases ignoreCase with
  | false => rfl
  | true => exact utf8Size_toLower c

theorem byteSize_map_caseKey (s : List Char) :
    Text.byteSize (s.map (caseKey ignoreCase)) = Text.byteSize s := by
  induction s with
  | nil => rfl
  | cons c s ih => rw [List.map_cons, Text.byteSize_cons, Text.byteSize_cons, utf8Size_caseKey, ih]

theorem byteSize_eq_of_spelled {a b : List Char}
    (h : a.map (caseKey ignoreCase) = b.map (caseKey ignoreCase)) :
    Text.byteSize a = Text.byteSize b := by
  rw [← byteSize_map_caseKey a, h, byteSize_map_caseKey]

/-! ## What is left after a directory -/

theorem afterSlash?_eq_some_iff {s rest : List Char} :
    afterSlash? s = some rest ↔ s = '/' :: rest := by
  unfold afterSlash?
  split <;> simp_all

theorem afterSlash?_eq_none_iff {s : List Char} :
    afterSlash? s = none ↔ s.head? ≠ some '/' := by
  unfold afterSlash?
  split
  · simp
  · rename_i hother
    cases s with
    | nil => simp
    | cons c rest =>
      have hc : c ≠ '/' := fun hslash => hother rest (by rw [hslash])
      simpa using hc

variable {path dir : List Char}

theorem belowDir?_of_not_cut
    (h : Text.cut? path (Text.byteSize (Path.trimTrailing dir)) = none) :
    belowDir? path dir ignoreCase = none :=
  Except.ok.inj ((stripDir_eq_ok path dir ignoreCase).symm.trans (stripDir_of_not_cut h))

theorem belowDir?_of_cut? {head rest : List Char}
    (h : Text.cut? path (Text.byteSize (Path.trimTrailing dir)) = some (head, rest)) :
    belowDir? path dir ignoreCase =
      if sameText ignoreCase head (Path.trimTrailing dir) then afterSlash? rest else none :=
  Except.ok.inj ((stripDir_eq_ok path dir ignoreCase).symm.trans (stripDir_of_cut? h))

theorem belowDir?_of_spelled {head rest : List Char}
    (h : head.map (caseKey ignoreCase) = (Path.trimTrailing dir).map (caseKey ignoreCase)) :
    belowDir? (head ++ rest) dir ignoreCase = afterSlash? rest := by
  have hcut : Text.cut? (head ++ rest) (Text.byteSize (Path.trimTrailing dir)) = some (head, rest) :=
    Text.cut?_eq_some_iff.mpr ⟨rfl, byteSize_eq_of_spelled h⟩
  rw [belowDir?_of_cut? hcut, if_pos (sameText_iff.mpr h)]

theorem belowDir?_eq_some_iff {rest : List Char} :
    belowDir? path dir ignoreCase = some rest ↔ ∃ head, path = head ++ '/' :: rest ∧
      head.map (caseKey ignoreCase) = (Path.trimTrailing dir).map (caseKey ignoreCase) := by
  constructor
  · intro hbelow
    cases hcut : Text.cut? path (Text.byteSize (Path.trimTrailing dir)) with
    | none =>
      rw [belowDir?_of_not_cut hcut] at hbelow
      cases hbelow
    | some parts =>
      obtain ⟨head, tail⟩ := parts
      rw [belowDir?_of_cut? hcut] at hbelow
      obtain ⟨hsame, htail⟩ := Option.ite_none_right_eq_some.mp hbelow
      obtain ⟨rfl, -⟩ := Text.cut?_eq_some_iff.mp hcut
      exact ⟨head, by rw [afterSlash?_eq_some_iff.mp htail], sameText_iff.mp hsame⟩
  · rintro ⟨head, rfl, hhead⟩
    rw [belowDir?_of_spelled hhead, afterSlash?_eq_some_iff]

/-- What is left of a path after a directory is what stands behind the slash that follows it. The
trailing slashes of the directory do not count, and neither does its case if that is to be ignored.
Where something else follows, as for another directory whose name begins alike, nothing is left, and
neither if the size of the directory is no valid position in the path. In no case is there a fault:
the rest of the path is not taken out of range. -/
theorem stripDir_at_boundary (path dir : String) (ignoreCase : Bool) :
    ∃ (bare : String) (slashes : Nat) (below : Option (List Char)),
      (dir.toList = bare.toList ++ List.replicate slashes '/' ∧
        bare.toList.getLast? ≠ some '/') ∧
      stripDir path.toList dir.toList ignoreCase = .ok below ∧
      (∀ rest, below = some rest ↔ ∃ head, path.toList = head ++ '/' :: rest ∧
        head.map (caseKey ignoreCase) = bare.toList.map (caseKey ignoreCase)) ∧
      (∀ head rest, path.toList = head ++ rest →
        head.map (caseKey ignoreCase) = bare.toList.map (caseKey ignoreCase) →
        rest.head? ≠ some '/' → below = none) ∧
      (¬ String.Pos.Raw.IsValid path ⟨bare.utf8ByteSize⟩ → below = none) := by
  obtain ⟨slashes, hslashes⟩ := Path.exists_trimTrailing_append dir.toList
  refine ⟨String.ofList (Path.trimTrailing dir.toList), slashes, _, ?_,
    stripDir_eq_ok path.toList dir.toList ignoreCase, ?_, ?_, ?_⟩
  · rw [String.toList_ofList]
    exact ⟨hslashes, Path.getLast?_trimTrailing_ne _⟩
  · intro rest
    rw [String.toList_ofList, belowDir?_eq_some_iff]
  · intro head rest hpath hhead hrest
    rw [String.toList_ofList] at hhead
    rw [hpath, belowDir?_of_spelled hhead]
    exact afterSlash?_eq_none_iff.mpr hrest
  · intro hinvalid
    rw [← Text.byteSize_eq, ← Text.isSome_cut?_iff, Option.not_isSome_iff_eq_none] at hinvalid
    exact belowDir?_of_not_cut hinvalid

/-- The bound falls into a character, where the rest of the path could not be taken. -/
example : stripDir "/é/a".toList "/e/".toList true = .ok none ∧
    Text.sliceFrom "/é/a".toList (Text.byteSize "/e".toList) = .error ⟨2⟩ := by decide

end BuildRelay
