/-
BuildRelay.Proofs.Catalog.Directories — the directories that hold the paths and keys of a catalog.

A put notes the directory of its path only when it opens a store, and that of its key only when the
key is new to the store. What it leaves out was noted before, because nothing is ever forgotten:
that is the invariant `Located`.

* `Located.hasDirectory_put` — the directories after a put, whatever it found.
* `run_located` — the invariant holds in every session.
* `Located.hasDirectory_run` — the directories after any operations, told by the puts among them.
* `Located.hasDirectory_of_hasFile` — what a file answers for lies in a directory.
* `run_hasDirectory_iff` — the directories of a session, and what lies in them.
-/
import BuildRelay.Proofs.Catalog.Consistency

namespace BuildRelay

namespace Catalog

open BuildRelay.Path (parent)

/-! ## What a put notes -/

theorem hasDirectory_noteDirectory (c : Catalog) (dir x : String) :
    (c.noteDirectory dir).hasDirectory x = true ↔ x = dir ∨ c.hasDirectory x = true := by
  simp [noteDirectory, hasDirectory]

/-- Opening a store notes the directory of its path. -/
theorem hasDirectory_enroll (c : Catalog) (path dir : String) (file : Option File) :
    (c.enroll path file).2.hasDirectory dir = true ↔
      c.hasDirectory dir = true ∨ c.stores.get? path = none ∧ dir = parent path := by
  obtain ⟨s, hs, -, he⟩ | ⟨s, f, hs, -, he⟩ | ⟨o, hs, -, -, he⟩ | ⟨hs, -, he⟩ :=
    c.enroll_cases path file <;> simp [he, hs, hasDirectory, or_comm]

/-- Writing under a key that is new to the store notes the directory of the key. -/
theorem hasDirectory_put (c : Catalog) (path key dir : String) (a : Artifact)
    (file : Option File) :
    (c.put path key a file).2.hasDirectory dir = true ↔
      c.hasDirectory dir = true ∨ (c.stores.get? path = none ∧ dir = parent path) ∨
        c.artifact? path key = none ∧ dir = parent key := by
  rw [← or_assoc, ← c.hasDirectory_enroll path dir file, ← c.artifacts_enroll path key file]
  unfold put
  cases hart : (c.enroll path file).1.artifacts.get? key with
  | some old => simp [hasDirectory, hart]
  | none =>
    simp only [hart, hasDirectory_noteDirectory, true_and]
    rw [or_comm]
    cases a.isImport <;> simp [hasDirectory, claim_eq]

/-! ## The invariant -/

/-- Every path with a store and every key in a store lies in a directory that is known. -/
structure Located (c : Catalog) : Prop where
  path : ∀ path s, c.stores.get? path = some s → c.hasDirectory (parent path) = true
  key : ∀ path key a, c.artifact? path key = some a → c.hasDirectory (parent key) = true

theorem empty_located : Located ∅ where
  path := by intro path s h; cases h
  key := by intro path key a h; cases h

namespace Located

variable {c : Catalog}

/-- After a put the directories of its path and of its key are known, besides those before. -/
theorem hasDirectory_put (h : Located c) (path key dir : String) (a : Artifact)
    (file : Option File) :
    (c.put path key a file).2.hasDirectory dir = true ↔
      c.hasDirectory dir = true ∨ dir = parent path ∨ dir = parent key := by
  rw [Catalog.hasDirectory_put]
  constructor
  · rintro (hold | ⟨-, hdir⟩ | ⟨-, hdir⟩)
    · exact .inl hold
    · exact .inr (.inl hdir)
    · exact .inr (.inr hdir)
  · rintro (hold | rfl | rfl)
    · exact .inl hold
    · cases hs : c.stores.get? path with
      | none => exact .inr (.inl ⟨rfl, rfl⟩)
      | some s => exact .inl (h.path path s hs)
    · cases ha : c.artifact? path key with
      | none => exact .inr (.inr ⟨rfl, rfl⟩)
      | some old => exact .inl (h.key path key old ha)

theorem put (h : Located c) (path key : String) (a : Artifact) (file : Option File) :
    Located (c.put path key a file).2 where
  path := by
    intro x s hs
    rw [h.hasDirectory_put]
    rw [get?_stores_put] at hs
    split at hs
    · rename_i hx
      exact .inr (.inl (by rw [hx]))
    · exact .inl (h.path x s hs)
  key := by
    intro x k b hb
    rw [h.hasDirectory_put]
    by_cases hk : k = key
    · exact .inr (.inr (by rw [hk]))
    · -- Any other key of the store was there before.
      have hold : c.artifact? x k = some b := by
        rw [← hb, artifact?, artifact?, get?_stores_put]
        by_cases hx : x = path
        · simp [hx, Store.put, OrderedMap.get?_insert, hk, artifacts_enroll, artifact?]
        · simp [hx]
      exact .inl (h.key x k b hold)

/-- A text opens no store and brings no key. -/
theorem fill (h : Located c) {key text : String} {c' : Catalog}
    (hfill : c.fill? key text = some c') : Located c' := by
  obtain ⟨o, s, a, b, -, hs, ha, -, rfl⟩ := fill?_cases hfill
  have hart : c.artifact? o.path key = some a := by simp [artifact?, hs, ha]
  refine ⟨fun x s' hs' => ?_, fun x k b' hb' => ?_⟩
  · rw [OrderedMap.get?_insert] at hs'
    split at hs'
    · rename_i hx
      exact h.path x s (hx ▸ hs)
    · exact h.path x s' hs'
  · rw [artifact?_insert_store hs] at hb'
    split at hb'
    · rename_i hwritten
      exact h.key o.path k a (hwritten.2 ▸ hart)
    · exact h.key x k b' hb'

/-- A deletion forgets no directory. -/
theorem deleteFile (h : Located c) (id : FileId) : Located (c.deleteFile id) where
  path := fun path s hs => h.path path s (get?_stores_deleteFile.mp hs).1
  key := by
    intro path key a ha
    obtain ⟨s, hs, ha⟩ := Option.bind_eq_some_iff.mp ha
    exact h.key path key a (Option.bind_eq_some_iff.mpr ⟨s, (get?_stores_deleteFile.mp hs).1, ha⟩)

theorem step (h : Located c) (op : Op) : Located (c.step op) :=
  step_induction h (fun path key a file => h.put path key a file)
    (fun _ _ _ hfill => h.fill hfill) (fun id => h.deleteFile id) op

end Located

theorem run_located (ops : List Op) : Located (run ∅ ops) :=
  run_induction empty_located (fun _ op h => h.step op) ops

/-! ## The puts of a session -/

/-- Whether an operation writes a path or a key that lies in a directory. -/
def Op.WritesIn (dir : String) : Op → Prop
  | .put path key _ _ => dir = parent path ∨ dir = parent key
  | .fill _ _ | .deleteFile _ | .deletePath _ => False

theorem exists_writesIn_iff {ops : List Op} {dir : String} :
    (∃ op ∈ ops, op.WritesIn dir) ↔ ∃ path key a file,
      .put path key a file ∈ ops ∧ (dir = parent path ∨ dir = parent key) := by
  constructor
  · rintro ⟨op, hop, hdir⟩
    cases op with
    | put path key a file => exact ⟨path, key, a, file, hop, hdir⟩
    | fill key text => exact hdir.elim
    | deleteFile id => exact hdir.elim
    | deletePath path => exact hdir.elim
  · rintro ⟨path, key, a, file, hop, hdir⟩
    exact ⟨_, hop, hdir⟩

namespace Located

variable {c : Catalog}

/-- A put brings its two directories, whichever way it goes; nothing else brings or takes any. -/
theorem hasDirectory_step (h : Located c) (op : Op) (dir : String) :
    (c.step op).hasDirectory dir = true ↔ c.hasDirectory dir = true ∨ op.WritesIn dir := by
  cases op with
  | put path key a file => exact h.hasDirectory_put path key dir a file
  | fill key text =>
    rcases c.step_fill key text with hsame | ⟨c', hfill, hstep⟩
    · simp [hsame, Op.WritesIn]
    · obtain ⟨o, s, a, b, -, -, -, -, rfl⟩ := fill?_cases hfill
      simp [hstep, Op.WritesIn, hasDirectory]
  | deleteFile id => simp [Catalog.step, takeFile, Catalog.deleteFile, Op.WritesIn, hasDirectory]
  | deletePath path =>
    rcases c.step_deletePath path with hsame | ⟨id, hdelete⟩
    · simp [hsame, Op.WritesIn]
    · simp [hdelete, Catalog.deleteFile, Op.WritesIn, hasDirectory]

theorem hasDirectory_run (h : Located c) (ops : List Op) (dir : String) :
    (c.run ops).hasDirectory dir = true ↔
      c.hasDirectory dir = true ∨ ∃ op ∈ ops, op.WritesIn dir := by
  induction ops generalizing c with
  | nil => simp [run]
  | cons op ops ih =>
    show ((c.step op).run ops).hasDirectory dir = true ↔ _
    rw [ih (h.step op), h.hasDirectory_step, List.exists_mem_cons_iff, or_assoc]

end Located

/-! ## Files and their directories -/

/-- A file answers for a path that has a store, and for a key that has an owner. -/
theorem hasFile_iff {c : Catalog} {path : String} :
    c.hasFile path = true ↔ c.stores.contains path = true ∨ c.owners.contains path = true := by
  simp [hasFile, fileId?, OrderedMap.contains]

/-- The owner of a key keeps an artifact under it. -/
theorem Consistent.artifact?_of_owner {c : Catalog} (h : Consistent c) {key : String} {o : Owner}
    (ho : c.owners.get? key = some o) : ∃ a, c.artifact? o.path key = some a := by
  obtain ⟨s, hs, -, hkey⟩ := h.owner_held key o ho
  obtain ⟨a, ha⟩ := OrderedMap.contains_iff.mp hkey
  exact ⟨a, Option.bind_eq_some_iff.mpr ⟨s, hs, ha⟩⟩

theorem Located.hasDirectory_of_hasFile {c : Catalog} (h : Located c) (hc : Consistent c)
    {path : String} (hpath : c.hasFile path = true) : c.hasDirectory (parent path) = true := by
  rw [hasFile_iff, OrderedMap.contains_iff, OrderedMap.contains_iff] at hpath
  rcases hpath with ⟨s, hs⟩ | ⟨o, ho⟩
  · exact h.path path s hs
  · obtain ⟨a, ha⟩ := hc.artifact?_of_owner ho
    exact h.key o.path path a ha

/-- The directories of a session are those of the paths and keys of its puts, and nothing else. It
does not matter whether a put opened a store, added an artifact or was merged with an older one, nor
what has been deleted since and written anew. So whatever is there lies in a directory that is known:
every path with a store, every key with an owner and every key of any store. -/
theorem run_hasDirectory_iff (ops : List Op) :
    let c := run ∅ ops
    (∀ dir, c.hasDirectory dir = true ↔ ∃ path key a file,
      .put path key a file ∈ ops ∧ (dir = parent path ∨ dir = parent key)) ∧
    ∀ path, (c.stores.contains path = true ∨ c.owners.contains path = true ∨
        ∃ source, (c.artifact? source path).isSome = true) →
      c.hasDirectory (parent path) = true := by
  intro c
  have h : Located c := run_located ops
  refine ⟨?history, ?present⟩
  case history =>
    intro dir
    have hempty : (∅ : Catalog).hasDirectory dir ≠ true := Bool.false_ne_true
    rw [← exists_writesIn_iff, empty_located.hasDirectory_run, or_iff_right hempty]
  case present =>
    rintro path (hstore | howner | ⟨source, hkept⟩)
    · exact h.hasDirectory_of_hasFile (run_consistent ops) (hasFile_iff.mpr (.inl hstore))
    · exact h.hasDirectory_of_hasFile (run_consistent ops) (hasFile_iff.mpr (.inr howner))
    · obtain ⟨a, ha⟩ := Option.isSome_iff_exists.mp hkept
      exact h.key source path a ha

end Catalog

end BuildRelay
