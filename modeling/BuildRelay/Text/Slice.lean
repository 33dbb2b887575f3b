/-
BuildRelay.Text.Slice — parts of a text, bounded by bytes.

The bound of a slice counts the bytes of the text in UTF-8. A text can be cut between two of its
characters only: not inside of one that takes several bytes, and not behind the end. Whoever is not
sure of a bound asks for the slice and may be told that there is none (`sliceTo?`); whoever relies on
a bound takes the slice, which is a fault if the text cannot be cut there (`sliceFrom`).
-/

namespace BuildRelay.Text

/-- How many bytes a text takes in UTF-8. -/
def byteSize : List Char → Nat
  | [] => 0
  | c :: s => c.utf8Size + byteSize s

@[simp] theorem byteSize_nil : byteSize [] = 0 := rfl

@[simp] theorem byteSize_cons (c : Char) (s : List Char) :
    byteSize (c :: s) = c.utf8Size + byteSize s := rfl

theorem byteSize_eq (s : List Char) : byteSize s = (String.ofList s).utf8ByteSize := by
  induction s with
  | nil => rfl
  | cons c s ih =>
    rw [byteSize_cons, ih, String.ofList_cons, String.utf8ByteSize_append,
      String.utf8ByteSize_singleton]

/-- The two parts of a text around a bound, if it can be cut there. -/
def cut? : (s : List Char) → (bound : Nat) → Option (List Char × List Char)
  | s, 0 => some ([], s)
  | [], _ + 1 => none
  | c :: s, bound + 1 =>
    if c.utf8Size ≤ bound + 1 then
      (cut? s (bound + 1 - c.utf8Size)).map fun (head, rest) => (c :: head, rest)
    else none

/-- A text is cut where its first part takes as many bytes as the bound says. -/
theorem cut?_eq_some_iff {s head rest : List Char} {bound : Nat} :
    cut? s bound = some (head, rest) ↔ s = head ++ rest ∧ byteSize head = bound := by
  -- In each case the first part is empty, or it starts with the first character of the text.
  fun_induction cut? s bound generalizing head rest with
  | case1 s =>
    cases head with
    | nil => simp
    | cons c head =>
      have hc := c.utf8Size_pos
      simp [Nat.ne_of_gt hc]
  | case2 bound => cases head <;> simp
  | case3 c s bound hfits ih =>
    cases head with
    | nil => simp
    | cons d head =>
      simp only [Option.map_eq_some_iff, Prod.exists, Prod.mk.injEq, List.cons.injEq, ih,
        List.cons_append, byteSize_cons]
      constructor
      · rintro ⟨head', rest', ⟨hs, hsize⟩, ⟨rfl, rfl⟩, rfl⟩
        exact ⟨⟨rfl, hs⟩, by omega⟩
      · rintro ⟨⟨rfl, hs⟩, hsize⟩
        exact ⟨head, rest, ⟨hs, by omega⟩, ⟨rfl, rfl⟩, rfl⟩
  | case4 c s bound hlong =>
    cases head with
    | nil => simp
    | cons d head =>
      simp only [reduceCtorEq, List.cons_append, List.cons.injEq, byteSize_cons, false_iff]
      rintro ⟨⟨rfl, -⟩, hsize⟩
      omega

/-- A text can be cut at the valid positions of its encoding. -/
theorem isSome_cut?_iff {s : String} {bound : Nat} :
    (cut? s.toList bound).isSome = true ↔ String.Pos.Raw.IsValid s ⟨bound⟩ := by
  rw [String.Pos.Raw.isValid_iff_exists_append, Option.isSome_iff_exists]
  constructor
  · rintro ⟨⟨head, rest⟩, hcut⟩
    obtain ⟨hs, rfl⟩ := cut?_eq_some_iff.mp hcut
    refine ⟨String.ofList head, String.ofList rest, ?_, ?_⟩
    · rw [← String.ofList_append, ← hs, String.ofList_toList]
    · rw [byteSize_eq, String.rawEndPos]
  · rintro ⟨head, rest, rfl, hbound⟩
    refine ⟨(head.toList, rest.toList), cut?_eq_some_iff.mpr ⟨String.toList_append, ?_⟩⟩
    rw [byteSize_eq, String.ofList_toList]
    exact (String.Pos.Raw.mk.inj hbound).symm

/-- A bound that a text cannot be cut at. -/
structure BadBound where
  bound : Nat
  deriving DecidableEq, Repr

/-- The part of a text in front of a bound, if the text can be cut there. -/
def sliceTo? (s : List Char) (bound : Nat) : Option (List Char) := (cut? s bound).map Prod.fst

/-- The part of a text behind a bound, at which it has to be possible to cut the text. -/
def sliceFrom (s : List Char) (bound : Nat) : Except BadBound (List Char) :=
  match cut? s bound with
  | some (_, rest) => .ok rest
  | none => .error ⟨bound⟩

end BuildRelay.Text
