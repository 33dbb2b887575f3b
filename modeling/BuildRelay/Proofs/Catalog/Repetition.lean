/-
BuildRelay.Proofs.Catalog.Repetition — a report that is made a second time.

A driver reports the same things again and again, pass after pass. The first report may open a
store, borrow an identity, hand a record over, merge an artifact or replace it by one of another
kind, claim a key or take it over; the second one finds all of that done. What it finds is
`Recorded`, and a put of what is recorded is nothing.

* `Artifact.merge_merge` — an artifact that is merged twice.
* `Recorded.put_eq` — a put of what is recorded.
* `recorded_put` — after a put, it is recorded.
* `put_put` — a put that is repeated.
-/
import BuildRelay.Proofs.Catalog.Sessions

namespace BuildRelay

namespace Artifact

theorem merge_self (a : Artifact) : a.merge a = a := by
  cases a with
  | source text => rfl
  | output k text => cases text <;> simp [merge]
  | importLink link => rfl

/-- Merging twice is merging once: an output keeps the text that it has got, and anything else is
what was reported last. -/
theorem merge_merge (old new : Artifact) : (old.merge new).merge new = old.merge new := by
  cases new with
  | source text => cases old <;> rfl
  | importLink link => cases old <;> rfl
  | output k text =>
    cases old with
    | source _ => exact merge_self (output k text)
    | importLink _ => exact merge_self (output k text)
    | output k' text' =>
      by_cases hk : k' = k
      · cases text <;> simp [merge, hk]
      · cases text <;> simp [merge, hk]

end Artifact

/-- What a store keeps once an artifact has been written is not changed by writing it again. -/
theorem Store.written_merge (s : Store) (key : String) (a : Artifact) :
    (s.written key a).merge a = s.written key a := by
  unfold written
  split
  · exact Artifact.merge_merge ..
  · exact Artifact.merge_self a

namespace Catalog

variable {c : Catalog} {path key : String} {a : Artifact} {file : Option File} {s : Store}

/-- All that a put would write is there already: the path has a store, the record of its file is the
given one, and the artifact under the key is not changed by the given one. -/
structure Recorded (c : Catalog) (path key : String) (a : Artifact) (file : Option File)
    (s : Store) : Prop where
  store : c.stores.get? path = some s
  record : ∀ f, file = some f → ∀ g, c.files.get? s.file = some g → f = g
  artifact : ∃ old, s.artifacts.get? key = some old ∧ old.merge a = old

/-- A store whose record is the given one is found, and nothing is written. -/
theorem Recorded.enroll_eq (h : c.Recorded path key a file s) : c.enroll path file = (s, c) := by
  cases file with
  | none => simp [enroll, h.store]
  | some f =>
    have hfiles : (c.files.modify s.file fun _ => f) = c.files :=
      OrderedMap.modify_of_get? (h.record f rfl)
    simp [enroll, h.store, hfiles]

/-- A put of what is recorded answers with the file it is recorded for, and changes nothing. -/
theorem Recorded.put_eq (h : c.Recorded path key a file s) :
    c.put path key a file = (s.file, c) := by
  obtain ⟨old, hold, hmerge⟩ := h.artifact
  have hstore : s.put key old = s :=
    congrArg (Store.mk s.file) (OrderedMap.insert_of_get? hold)
  have hstores : c.stores.insert path s = c.stores := OrderedMap.insert_of_get? h.store
  simp [put, h.enroll_eq, hold, hmerge, hstore, hstores]

/-- Opening a store with a record leaves its file with just that record, if the file is there. -/
theorem record_enroll (c : Catalog) (path : String) {f g : File}
    (hg : (c.enroll path (some f)).2.files.get? (c.enroll path (some f)).1.file = some g) :
    f = g := by
  obtain ⟨s, -, hnone, -⟩ | ⟨s, f', -, hf, he⟩ | ⟨o, -, hnone, -⟩ | ⟨-, -, he⟩ :=
    c.enroll_cases path (some f)
  · cases hnone
  · cases hf
    rw [he, OrderedMap.get?_modify, if_pos rfl] at hg
    obtain ⟨old, -, hrecord⟩ := Option.map_eq_some_iff.mp hg
    exact hrecord
  · cases hnone
  · rw [he, OrderedMap.get?_insert, if_pos rfl] at hg
    exact Option.some.inj hg

/-- A put with a record leaves every file with its old record or with the given one. -/
theorem get?_files_put_some {id : FileId} {f g : File}
    (hg : (c.put path key a (some f)).2.files.get? id = some g) :
    g = f ∨ c.files.get? id = some g := by
  rw [files_put] at hg
  obtain ⟨s, -, hnone, -⟩ | ⟨s, f', -, hf, he⟩ | ⟨o, -, hnone, -⟩ | ⟨-, -, he⟩ :=
    c.enroll_cases path (some f)
  · cases hnone
  · cases hf
    rw [he, OrderedMap.get?_modify] at hg
    split at hg
    · obtain ⟨old, -, hrecord⟩ := Option.map_eq_some_iff.mp hg
      exact .inl hrecord.symm
    · exact .inr hg
  · cases hnone
  · rw [he, OrderedMap.get?_insert] at hg
    split at hg
    · exact .inl (Option.some.inj hg).symm
    · exact .inr hg

/-- A put without a record leaves the records alone if its path has a store. -/
theorem files_put_none_of_store (hs : c.stores.get? path = some s) :
    (c.put path key a none).2.files = c.files := by
  rw [files_put]
  simp [enroll, hs]

/-- After a put, all that it wrote is recorded. -/
theorem recorded_put (c : Catalog) (path key : String) (a : Artifact) (file : Option File) :
    (c.put path key a file).2.Recorded path key a file
      ((c.enroll path file).1.put key ((c.enroll path file).1.written key a)) where
  store := c.get?_stores_put_self path key a file
  record := by
    rintro f rfl g hg
    rw [files_put, Store.file_put] at hg
    exact c.record_enroll path hg
  artifact := by
    refine ⟨(c.enroll path file).1.written key a, ?_, Store.written_merge ..⟩
    rw [Store.put, OrderedMap.get?_insert, if_pos rfl]

/-- A put that is made twice is made once. Whatever the catalog was and whatever the first put had
to do, the second one answers with the same identity, and leaves the records, the next identity,
the stores with their artifacts and texts, the owners, the directories, and the order of all of
them as they were. -/
theorem put_put (c : Catalog) (path key : String) (a : Artifact) (file : Option File) :
    (c.put path key a file).2.put path key a file = c.put path key a file := by
  rw [(c.recorded_put path key a file).put_eq, Store.file_put, ← c.id_put path key a file]

end Catalog

end BuildRelay
