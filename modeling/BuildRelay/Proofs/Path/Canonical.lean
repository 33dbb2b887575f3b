/-
BuildRelay.Proofs.Path.Canonical — the canonical text of a place, read again.

Resolving a path writes a place out, and whoever is handed that text may resolve further from it. So
what matters is that a canonical text names the place it was written for (`ofChars_toChars`), and
that walking on from a text is walking on from its place (`ofChars_append_cons`). Together they
let a path be cut at any slash and resolved in two steps (`resolveChars_append_cons`).
-/
import BuildRelay.Path.Basic

namespace BuildRelay.Path

/-! ## Pieces between slashes -/

theorem splitSlashes_eq_splitOn (s : List Char) : splitSlashes s = s.splitOn '/' := by
  rw [List.splitOn_eq_splitOnP]
  induction s with
  | nil => rfl
  | cons c rest ih =>
    rw [List.splitOnP_cons_eq_if_modifyHead, splitSlashes, ih]
    by_cases hc : c = '/'
    · rw [if_pos hc, if_pos (beq_iff_eq.mpr hc)]
    · rw [if_neg hc, if_neg fun h => hc (beq_iff_eq.mp h)]
      cases hrest : rest.splitOnP fun x => x == '/' with
      | nil => exact absurd hrest (List.splitOnP_ne_nil _ _)
      | cons piece more => rfl

/-- A slash ends a piece, whatever comes before and after it. -/
theorem splitSlashes_append_cons (a b : List Char) :
    splitSlashes (a ++ '/' :: b) = splitSlashes a ++ splitSlashes b := by
  simp only [splitSlashes_eq_splitOn, List.splitOn_eq_splitOnP]
  exact List.splitOnP_append_cons a b rfl

theorem splitSlashes_of_not_mem {s : List Char} (h : '/' ∉ s) : splitSlashes s = [s] := by
  rw [splitSlashes_eq_splitOn, List.splitOn_eq_splitOnP]
  refine List.splitOnP_eq_singleton fun c hc => beq_eq_false_iff_ne.mpr ?_
  rintro rfl
  exact h hc

theorem splitSlashes_joinSlashes {segments : List Segment} (h : ∀ s ∈ segments, '/' ∉ s)
    (hne : segments ≠ []) : splitSlashes (joinSlashes segments) = segments := by
  rw [splitSlashes_eq_splitOn]
  exact List.splitOn_intercalate '/' h hne

theorem not_mem_of_mem_splitSlashes {s : List Char} {piece : Segment}
    (h : piece ∈ splitSlashes s) : '/' ∉ piece := by
  induction s generalizing piece with
  | nil =>
    cases List.mem_singleton.mp h
    exact List.not_mem_nil
  | cons c rest ih =>
    rw [splitSlashes] at h
    split at h
    · rcases List.mem_cons.mp h with rfl | hrest
      · exact List.not_mem_nil
      · exact ih hrest
    · rename_i hc
      split at h
      · cases List.mem_singleton.mp h
        simpa using Ne.symm hc
      · rename_i first more hsplit
        rw [hsplit] at ih
        rcases List.mem_cons.mp h with rfl | hmore
        · rw [List.mem_cons, not_or]
          exact ⟨Ne.symm hc, ih (List.mem_cons_self ..)⟩
        · exact ih (List.mem_cons_of_mem _ hmore)

/-! ## Slashes -/

theorem slashedChars_append_cons (a b : List Char) :
    slashedChars (a ++ '/' :: b) = slashedChars a ++ '/' :: slashedChars b := by
  rw [slashedChars, List.map_append, List.map_cons]
  rfl

theorem backslash_not_mem_slashedChars (s : List Char) : '\\' ∉ slashedChars s := by
  intro h
  obtain ⟨c, -, hc⟩ := List.mem_map.mp h
  split at hc
  · cases hc
  · exact absurd hc ‹_›

theorem slashedChars_of_not_mem {s : List Char} (h : '\\' ∉ s) : slashedChars s = s := by
  refine (List.map_congr_left fun c hc => if_neg ?_).trans (List.map_id s)
  rintro rfl
  exact h hc

/-! ## Drives and roots -/

/-- The letters of drives are those of ASCII. -/
theorem isDriveLetter_iff {c : Char} :
    isDriveLetter c = true ↔ 'A' ≤ c ∧ c ≤ 'Z' ∨ 'a' ≤ c ∧ c ≤ 'z' := by
  show (decide ('A' ≤ c ∧ c ≤ 'Z') || decide ('a' ≤ c) && decide (c ≤ 'z')) = true ↔ _
  simp only [Bool.or_eq_true, Bool.and_eq_true, decide_eq_true_eq]

/-- A drive is a letter with a colon right after it, at the very start. -/
theorem splitDrive_eq_some_iff {s rest : List Char} {d : Char} :
    splitDrive s = some (d, rest) ↔ s = d :: ':' :: rest ∧ isDriveLetter d = true := by
  constructor
  · intro h
    unfold splitDrive at h
    split at h
    · split at h
      · cases h
        exact ⟨rfl, ‹_›⟩
      · cases h
    · cases h
  · intro h
    obtain ⟨rfl, hd⟩ := h
    rw [splitDrive, if_pos hd]

/-- A drive is read off the first two characters, so what follows a slash does not matter. -/
theorem splitDrive_append_cons (a b : List Char) :
    splitDrive (a ++ '/' :: b) = (splitDrive a).map fun d => (d.1, d.2 ++ '/' :: b) := by
  match a with
  | [] =>
    cases b with
    | nil => rfl
    | cons c b => by_cases hc : c = ':' <;> simp [splitDrive, hc, isDriveLetter]
  | [c] => simp [splitDrive]
  | c :: d :: rest =>
    by_cases hd : d = ':'
    · subst hd
      by_cases hc : isDriveLetter c = true <;> simp [splitDrive, hc]
    · simp [splitDrive, hd]

theorem isRootedChars_append_cons {a : List Char} (ha : a ≠ []) (b : List Char) :
    isRootedChars (a ++ '/' :: b) = isRootedChars a := by
  obtain ⟨c, rest, rfl⟩ := List.exists_cons_of_ne_nil ha
  rw [isRootedChars, isRootedChars, splitDrive_append_cons, Option.isSome_map]
  rfl

/-! ## Places -/

namespace Location

/-- A name as it stands in a canonical path. -/
def IsName (s : Segment) : Prop := s ≠ [] ∧ s ≠ ['.'] ∧ s ≠ ['.', '.'] ∧ '/' ∉ s

theorem walk_append (start : List Segment) (pieces more : List Segment) :
    walk start (pieces ++ more) = walk (walk start pieces) more := List.foldl_append

theorem mem_walk {start pieces : List Segment} {s : Segment} (h : s ∈ walk start pieces) :
    s ∈ start ∨ s ∈ pieces ∧ s ≠ [] ∧ s ≠ ['.'] ∧ s ≠ ['.', '.'] := by
  induction pieces generalizing start with
  | nil => exact .inl h
  | cons piece pieces ih =>
    rcases ih h with hstart | ⟨hmem, hname⟩
    · rw [enter] at hstart
      split at hstart
      · exact .inl hstart
      · rename_i hstay
        split at hstart
        · exact .inl (List.dropLast_subset _ hstart)
        · rename_i hup
          rw [not_or] at hstay
          rcases List.mem_append.mp hstart with hold | hnew
          · exact .inl hold
          · cases List.mem_singleton.mp hnew
            exact .inr ⟨List.mem_cons_self .., hstay.1, hstay.2, hup⟩
    · exact .inr ⟨List.mem_cons_of_mem _ hmem, hname⟩

/-- Names are walked one by one and never left out. -/
theorem walk_names (start : List Segment) {names : List Segment} (h : ∀ s ∈ names, IsName s) :
    walk start names = start ++ names := by
  induction names generalizing start with
  | nil => exact (List.append_nil start).symm
  | cons s names ih =>
    obtain ⟨hne, hdot, hup, -⟩ := h s (List.mem_cons_self ..)
    have henter : enter start s = start ++ [s] := by simp [enter, hne, hdot, hup]
    show walk (enter start s) names = start ++ s :: names
    rw [henter, ih _ fun t ht => h t (List.mem_cons_of_mem _ ht), List.append_assoc,
      List.singleton_append]

/-- A place as `ofChars` makes them. -/
structure Canonical (l : Location) : Prop where
  drive : ∀ d, l.drive = some d → isDriveLetter d = true
  names : ∀ s ∈ l.segments, IsName s

theorem walk_splitSlashes_names (s : List Char) : ∀ t ∈ walk [] (splitSlashes s), IsName t := by
  intro t ht
  rcases mem_walk ht with hnil | ⟨hmem, hne, hdot, hup⟩
  · cases hnil
  · exact ⟨hne, hdot, hup, not_mem_of_mem_splitSlashes hmem⟩

theorem ofChars_canonical (s : List Char) : (ofChars s).Canonical := by
  rw [ofChars]
  split
  · rename_i d rest hdrive
    refine ⟨?_, walk_splitSlashes_names rest⟩
    rintro d' ⟨⟩
    exact (splitDrive_eq_some_iff.mp hdrive).2
  · exact ⟨nofun, walk_splitSlashes_names s⟩

/-- Walking on from a text is walking on from its place. -/
theorem ofChars_append_cons (a b : List Char) :
    ofChars (a ++ '/' :: b) =
      ⟨(ofChars a).drive, walk (ofChars a).segments (splitSlashes b)⟩ := by
  rw [ofChars, ofChars, splitDrive_append_cons]
  cases splitDrive a with
  | none => simp only [Option.map_none, splitSlashes_append_cons, walk_append]
  | some d => simp only [Option.map_some, splitSlashes_append_cons, walk_append]

/-- An empty text is one empty piece, and an empty piece leads nowhere. -/
theorem walk_splitSlashes_joinSlashes (start : List Segment) {pieces : List Segment}
    (h : ∀ p ∈ pieces, '/' ∉ p) :
    walk start (splitSlashes (joinSlashes pieces)) = walk start pieces := by
  by_cases hne : pieces = []
  · subst hne
    rfl
  · rw [splitSlashes_joinSlashes h hne]

/-- A canonical text names the place that it was written for. -/
theorem ofChars_toChars {l : Location} (h : l.Canonical) : ofChars l.toChars = l := by
  obtain ⟨drive, segments⟩ := l
  have hwalk : walk [] (splitSlashes (joinSlashes segments)) = segments := by
    rw [walk_splitSlashes_joinSlashes [] fun s hs => (h.names s hs).2.2.2]
    exact walk_names [] h.names
  cases drive with
  | none =>
    have hroot : toChars ⟨none, segments⟩ = [] ++ '/' :: joinSlashes segments := rfl
    rw [hroot, ofChars_append_cons]
    exact congrArg _ hwalk
  | some d =>
    have hletter : isDriveLetter d = true := h.drive d rfl
    have hroot : toChars ⟨some d, segments⟩ = [d, ':'] ++ '/' :: joinSlashes segments := rfl
    have hdrive : ofChars [d, ':'] = ⟨some d, []⟩ := by
      rw [ofChars, splitDrive, if_pos hletter]
      rfl
    rw [hroot, ofChars_append_cons, hdrive]
    exact congrArg _ hwalk

end Location

/-! ## Resolution in two steps -/

section Resolve

open Location

variable (base : List Char) {name : List Char}

/-- It makes no difference whether backslashes have been read as slashes before. -/
theorem resolveChars_slashedChars (path : List Char) :
    resolveChars base (slashedChars path) = resolveChars base path := by
  rw [resolveChars, resolveChars, slashedChars_of_not_mem (backslash_not_mem_slashedChars path)]

/-- What a path without a root comes to when it is taken from a canonical text. -/
theorem resolveChars_toChars {l : Location} (hl : l.Canonical)
    (hname : isRootedChars (slashedChars name) = false) :
    resolveChars l.toChars name =
      toChars ⟨l.drive, walk l.segments (splitSlashes (slashedChars name))⟩ := by
  rw [resolveChars, hname, if_neg Bool.false_ne_true, ofChars_append_cons, ofChars_toChars hl]

/-- A path may be cut at any slash and resolved in two steps. -/
theorem resolveChars_append_cons {front : List Char} (hfront : front ≠ [])
    (hname : isRootedChars (slashedChars name) = false) :
    resolveChars (resolveChars base front) name = resolveChars base (front ++ '/' :: name) := by
  have hslashed : slashedChars front ≠ [] := by simpa [slashedChars] using hfront
  show resolveChars (toChars _) name = toChars _
  rw [resolveChars_toChars (ofChars_canonical _) hname, ← ofChars_append_cons,
    slashedChars_append_cons, isRootedChars_append_cons hslashed]
  split
  · rfl
  · rw [List.append_assoc, List.cons_append]

/-- The directory of a bare name is the one that it is taken from. -/
theorem resolveChars_dot (hname : isRootedChars (slashedChars name) = false) :
    resolveChars (resolveChars base ['.']) name = resolveChars base name := by
  have hdot : ofChars (base ++ '/' :: ['.']) = ofChars base := by
    rw [ofChars_append_cons]
    rfl
  show resolveChars (toChars (ofChars (base ++ '/' :: ['.']))) name = _
  rw [hdot, resolveChars_toChars (ofChars_canonical base) hname, resolveChars, hname,
    if_neg Bool.false_ne_true, ofChars_append_cons]

/-- The directory of a name right below the root is the root. -/
theorem resolveChars_slash (hname : isRootedChars (slashedChars name) = false) :
    resolveChars (resolveChars base ['/']) name = resolveChars base ('/' :: name) := by
  have hroot : Canonical ⟨none, []⟩ := ⟨nofun, nofun⟩
  show resolveChars (toChars ⟨none, []⟩) name = toChars (ofChars ([] ++ '/' :: slashedChars name))
  rw [resolveChars_toChars hroot hname, ofChars_append_cons]
  rfl

end Resolve

end BuildRelay.Path
