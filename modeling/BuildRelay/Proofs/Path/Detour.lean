/-
BuildRelay.Proofs.Path.Detour — the way from one place to another, gone.

`relative` leads up out of what two places do not share, and down again. It is a text, so whoever
goes it reads it as any other path. Three things could go wrong then: the way may be empty, a name
on it may look like a root, and `..` could climb out of the drive. None of them does between two
places on one root, as long as no name starts like a drive; a name `c:` right below the starting
point would be taken for the drive.

* `exists_detour` — up out of what is not shared, then down.
* `Location.walk_detour` — the way from some names to others leads there.
* `resolve_relative` — the way from a directory, resolved from there.
* `relative_leads_to_target` — the way as a text, and where it leads.
-/
import BuildRelay.Proofs.Path.Below
import Mathlib.Data.List.Induction

namespace BuildRelay.Path

/-! ## The way, name by name -/

/-- The way leads up out of what is not shared, and down again. What is shared is as much as can be:
names are compared whole, and the first ones that differ end it. -/
theorem exists_detour (fs ts : List Segment) : ∃ shared up down,
    fs = shared ++ up ∧ ts = shared ++ down ∧
      (∀ common, common <+: fs → common <+: ts → common <+: shared) ∧
      detour fs ts = List.replicate up.length ['.', '.'] ++ down := by
  induction fs generalizing ts with
  | nil => exact ⟨[], [], ts, rfl, rfl, fun _ h _ => h, by simp [detour]⟩
  | cons f fs ih =>
    cases ts with
    | nil => exact ⟨[], f :: fs, [], rfl, rfl, fun _ _ h => h, by simp [detour]⟩
    | cons t ts =>
      by_cases hft : f = t
      · subst hft
        obtain ⟨shared, up, down, hfs, hts, hmost, hway⟩ := ih ts
        refine ⟨f :: shared, up, down, by rw [hfs, List.cons_append],
          by rw [hts, List.cons_append], fun common h h' => ?_, by rw [detour, if_pos rfl, hway]⟩
        cases common with
        | nil => exact List.nil_prefix
        | cons s common =>
          obtain ⟨hs, hfirst⟩ := List.cons_prefix_cons.mp h
          obtain ⟨-, hsecond⟩ := List.cons_prefix_cons.mp h'
          exact List.cons_prefix_cons.mpr ⟨hs, hmost common hfirst hsecond⟩
      · refine ⟨[], f :: fs, t :: ts, rfl, rfl, fun common h h' => ?_, by simp [detour, hft]⟩
        cases common with
        | nil => exact List.nil_prefix
        | cons s common =>
          exact absurd ((List.cons_prefix_cons.mp h).1.symm.trans (List.cons_prefix_cons.mp h').1) hft

/-- What is on the way leads up, or is a name of the target. -/
theorem mem_detour {fs ts : List Segment} {s : Segment} (h : s ∈ detour fs ts) :
    s = ['.', '.'] ∨ s ∈ ts := by
  obtain ⟨shared, up, down, -, rfl, -, hway⟩ := exists_detour fs ts
  rw [hway] at h
  rcases List.mem_append.mp h with hup | hdown
  · exact .inl (List.eq_of_mem_replicate hup)
  · exact .inr (List.mem_append_right _ hdown)

/-- One goes up only to what does not lie below. -/
theorem up_mem_detour_iff {fs ts : List Segment} (hts : ['.', '.'] ∉ ts) :
    ['.', '.'] ∈ detour fs ts ↔ ¬fs <+: ts := by
  obtain ⟨shared, up, down, hfs, rfl, hmost, hway⟩ := exists_detour fs ts
  rw [hway]
  constructor
  · intro hmem hbelow
    have hlength := (hmost fs List.prefix_rfl hbelow).length_le
    have hup : up.length = 0 := by
      rw [hfs, List.length_append] at hlength
      omega
    rw [hup, List.replicate_zero, List.nil_append] at hmem
    exact hts (List.mem_append_right _ hmem)
  · intro hbelow
    have hup : up.length ≠ 0 := by
      intro hup
      rw [List.length_eq_zero_iff.mp hup, List.append_nil] at hfs
      exact hbelow (hfs ▸ List.prefix_append shared down)
    exact List.mem_append_left _ (List.mem_replicate.mpr ⟨hup, rfl⟩)

namespace Location

theorem walk_up (start up : List Segment) :
    walk (start ++ up) (List.replicate up.length ['.', '.']) = start := by
  induction up using List.reverseRecOn with
  | nil => exact List.append_nil start
  | append_singleton up s ih =>
    have hstep : enter (start ++ (up ++ [s])) ['.', '.'] = start ++ up := by
      rw [enter, if_neg (by decide), if_pos rfl, ← List.append_assoc, List.dropLast_concat]
    rw [List.length_append, List.length_singleton, List.replicate_succ, walk, List.foldl_cons,
      hstep]
    exact ih

/-- The way from some names to others leads there. -/
theorem walk_detour (fs : List Segment) {ts : List Segment} (h : ∀ s ∈ ts, IsName s) :
    walk fs (detour fs ts) = ts := by
  obtain ⟨shared, up, down, rfl, rfl, -, hway⟩ := exists_detour fs ts
  rw [hway, walk_append, walk_up]
  exact walk_names shared fun s hs => h s (List.mem_append_right _ hs)

/-- No name of the place starts like a drive; the drive that is its root does not count. -/
def PlainNames (l : Location) : Prop := ∀ s ∈ l.segments, splitDrive s = none

instance (l : Location) : Decidable l.PlainNames :=
  inferInstanceAs (Decidable (∀ s ∈ l.segments, splitDrive s = none))

/-- On one root the drive is shared, if there is one. -/
theorem detour_names {l l' : Location} (h : l.Canonical) (h' : l'.Canonical)
    (hdrive : l.drive = l'.drive) :
    detour (Path.names l.toChars) (Path.names l'.toChars) = detour l.segments l'.segments := by
  have hchars : l.driveChars = l'.driveChars := by rw [driveChars, driveChars, hdrive]
  rw [h.names_toChars, h'.names_toChars, h.filter_pieces, h'.filter_pieces, hchars]
  split
  · rfl
  · rw [pieces, pieces, hchars, detour, if_pos rfl]

end Location

/-! ## The way as a text -/

/-- Pieces are no root if the first one is not empty and does not start like a drive. -/
theorem isRootedChars_joinSlashes {pieces : List Segment}
    (h : ∀ p ∈ pieces, p ≠ [] ∧ '/' ∉ p ∧ splitDrive p = none) :
    isRootedChars (joinSlashes pieces) = false := by
  cases pieces with
  | nil => rfl
  | cons p more =>
    obtain ⟨hne, hslash, hdrive⟩ := h p List.mem_cons_self
    have hfirst : isRootedChars p = false := by
      obtain ⟨c, rest, rfl⟩ := List.exists_cons_of_ne_nil hne
      have hc : c ≠ '/' := fun hc => hslash (hc ▸ List.mem_cons_self)
      simp [isRootedChars, hdrive, hc]
    by_cases hmore : more = []
    · subst hmore
      simpa [joinSlashes] using hfirst
    · rw [joinSlashes_cons p hmore, isRootedChars_append_cons hne, hfirst]

theorem toList_relative {start target : String} (hstart : IsCanonical start)
    (htarget : IsCanonical target) (hroot : (locate start).drive = (locate target).drive) :
    (relative start target).toList =
      joinSlashes (detour (locate start).segments (locate target).segments) := by
  rw [relative, String.toList_ofList, ← hstart.toChars_locate, ← htarget.toChars_locate,
    Location.detour_names (locate_canonical start) (locate_canonical target) hroot]

/-- A name of a canonical path holds no backslash. -/
theorem IsCanonical.backslash_not_mem {path : String} (h : IsCanonical path) {s : Segment}
    (hs : s ∈ (locate path).segments) : '\\' ∉ s := by
  intro hback
  have htext := h.toChars_locate
  obtain ⟨-, -, -, hnone⟩ := h
  refine hnone ?_
  rw [← htext, Location.toChars_eq]
  exact List.mem_append_right _ (List.mem_cons_of_mem _ (mem_joinSlashes_of_mem hs hback))

/-- The way from a directory to a path, resolved from that directory, is that path: both are
canonical and on one root, and no name of the path starts like a drive. -/
theorem resolve_relative {start target : String} (hstart : IsCanonical start)
    (htarget : IsCanonical target) (hroot : (locate start).drive = (locate target).drive)
    (hplain : (locate target).PlainNames) : resolve start (relative start target) = target := by
  have hplace := locate_canonical start
  have hnames := (locate_canonical target).names
  generalize hway : detour (locate start).segments (locate target).segments = way
  have hpiece : ∀ p ∈ way, p ≠ [] ∧ '/' ∉ p ∧ splitDrive p = none := by
    intro p hp
    rw [← hway] at hp
    rcases mem_detour hp with rfl | hmem
    · exact ⟨by decide, by decide, rfl⟩
    · exact ⟨(hnames p hmem).1, (hnames p hmem).2.2.2, hplain p hmem⟩
  have hslashed : slashedChars (joinSlashes way) = joinSlashes way := by
    refine slashedChars_of_not_mem fun hback => ?_
    rcases of_mem_joinSlashes hback with hslash | ⟨p, hp, hc⟩
    · cases hslash
    · rw [← hway] at hp
      rcases mem_detour hp with rfl | hmem
      · exact absurd hc (by decide)
      · exact htarget.backslash_not_mem hmem hc
  have hrooted : isRootedChars (slashedChars (joinSlashes way)) = false := by
    rw [hslashed, isRootedChars_joinSlashes hpiece]
  have hwalk : Location.walk (locate start).segments (splitSlashes (joinSlashes way)) =
      (locate target).segments := by
    rw [Location.walk_splitSlashes_joinSlashes _ fun p hp => (hpiece p hp).2.1, ← hway]
    exact Location.walk_detour _ hnames
  rw [resolve, toList_relative hstart htarget hroot, hway, ← hstart.toChars_locate,
    resolveChars_toChars hplace hrooted, hslashed, hwalk, hroot, htarget.toChars_locate,
    String.ofList_toList]

/-- The pieces of a text are those it was joined from; an empty text has an empty one instead of none. -/
theorem mem_splitSlashes_joinSlashes {pieces : List Segment} (h : ∀ p ∈ pieces, '/' ∉ p)
    {s : Segment} (hs : s ≠ []) : s ∈ splitSlashes (joinSlashes pieces) ↔ s ∈ pieces := by
  by_cases hnil : pieces = []
  · subst hnil
    simpa [joinSlashes, splitSlashes] using hs
  · rw [splitSlashes_joinSlashes h hnil]

/-- The way from one place to another on the same root. Take the names that the two paths share from
the root on, as many as can be. The way goes up once for each name of the start that is left, and then
down along the names of the target that are left; so it goes up at all only if the target does not lie
at or below the start. Whoever goes it from the start comes to the target, unless a name of the target
looks like a drive. -/
theorem relative_leads_to_target {start target : String} (hstart : IsCanonical start)
    (htarget : IsCanonical target) (hroot : (locate start).drive = (locate target).drive) :
    let fs := (locate start).segments
    let ts := (locate target).segments
    ((locate target).PlainNames → resolve start (relative start target) = target) ∧
    (∃ shared up down, fs = shared ++ up ∧ ts = shared ++ down ∧
      (∀ common, common <+: fs → common <+: ts → common <+: shared) ∧
      (relative start target).toList =
        joinSlashes (List.replicate up.length ['.', '.'] ++ down)) ∧
    (['.', '.'] ∈ splitSlashes (relative start target).toList ↔ ¬fs <+: ts) := by
  intro fs ts
  have htext : (relative start target).toList = joinSlashes (detour fs ts) :=
    toList_relative hstart htarget hroot
  have hnames : ∀ s ∈ ts, Location.IsName s := (locate_canonical target).names
  have hslash : ∀ p ∈ detour fs ts, '/' ∉ p := by
    intro p hp
    rcases mem_detour hp with rfl | hmem
    · decide
    · exact (hnames p hmem).2.2.2
  refine ⟨resolve_relative hstart htarget hroot, ?way, ?up⟩
  case way =>
    obtain ⟨shared, up, down, hfs, hts, hmost, hway⟩ := exists_detour fs ts
    exact ⟨shared, up, down, hfs, hts, hmost, by rw [htext, hway]⟩
  case up =>
    rw [htext, mem_splitSlashes_joinSlashes hslash (by decide)]
    exact up_mem_detour_iff fun hup => (hnames _ hup).2.2.1 rfl

/-- From one output directory to a file in another one, whose name begins with that of the first. -/
theorem relative_leads_to_target_across :
    IsCanonical "c:/p/out/lib" ∧ IsCanonical "c:/p/out/libs/a.js" ∧
    resolve "c:/p/out/lib" (relative "c:/p/out/lib" "c:/p/out/libs/a.js") = "c:/p/out/libs/a.js" ∧
    ['.', '.'] ∈ splitSlashes (relative "c:/p/out/lib" "c:/p/out/libs/a.js").toList := by
  have hstart : IsCanonical "c:/p/out/lib" := by decide
  have htarget : IsCanonical "c:/p/out/libs/a.js" := by decide
  obtain ⟨hthere, -, hup⟩ := relative_leads_to_target hstart htarget (by decide)
  exact ⟨hstart, htarget, hthere (by decide), hup.mpr (by decide)⟩

end BuildRelay.Path
