/-
BuildRelay.Proofs.Catalog.Deletion — what a deletion takes, and what it leaves.

A deletion cuts three tables by the file. A file may own several stores and many keys, and the
store of a path and the owner of the key of the same name may belong to different files, so a
path that loses its store can fall to another file.

* `fileId?_deleteFile` — who answers for a path afterwards.
* `Without` — a catalog that lacks one file and is otherwise the same.
* `Consistent.deleteFile_eq_self` — deleting a file that is not there changes nothing.
* `run_delete_without` — deletions by identity and by path, in every session.
-/
import BuildRelay.Proofs.Catalog.Holdings

namespace BuildRelay

namespace Catalog

/-! ## Who answers afterwards -/

theorem fileId?_eq_some_iff {c : Catalog} {path : String} {id : FileId} :
    c.fileId? path = some id ↔
      (∃ s, c.stores.get? path = some s ∧ s.file = id) ∨
        c.stores.get? path = none ∧ ∃ o, c.owners.get? path = some o ∧ o.file = id := by
  simp [fileId?, Option.or_eq_some_iff, Option.map_eq_some_iff]

theorem store_deleteFile_eq_none {c : Catalog} {id : FileId} {path : String} :
    (c.deleteFile id).stores.get? path = none ↔
      ∀ s, c.stores.get? path = some s → s.file = id := by
  simp [lookup_store_deleteFile, Option.filter_eq_none_iff]

/-- After a deletion a path is answered for by the file that answered before, unless that is the
deleted one; then by the owner of the key of that name, unless it is the deleted one as well. -/
theorem fileId?_deleteFile {c : Catalog} {id x : FileId} {path : String} :
    (c.deleteFile id).fileId? path = some x ↔ x ≠ id ∧
      (c.fileId? path = some x ∨
        c.fileId? path = some id ∧ ∃ o, c.owners.get? path = some o ∧ o.file = x) := by
  constructor
  · intro h
    rcases fileId?_eq_some_iff.mp h with ⟨s, hs, rfl⟩ | ⟨hgone, o, ho, rfl⟩
    · obtain ⟨hs, hne⟩ := get?_stores_deleteFile.mp hs
      exact ⟨hne, .inl (fileId?_eq_some_iff.mpr (.inl ⟨s, hs, rfl⟩))⟩
    · obtain ⟨ho, hne⟩ := get?_owners_deleteFile.mp ho
      refine ⟨hne, ?_⟩
      cases hs : c.stores.get? path with
      | none => exact .inl (fileId?_eq_some_iff.mpr (.inr ⟨hs, o, ho, rfl⟩))
      | some s =>
        have hfile : s.file = id := store_deleteFile_eq_none.mp hgone s hs
        exact .inr ⟨fileId?_eq_some_iff.mpr (.inl ⟨s, hs, hfile⟩), o, ho, rfl⟩
  · rintro ⟨hne, hx | ⟨hid, o, ho, rfl⟩⟩
    · rcases fileId?_eq_some_iff.mp hx with ⟨s, hs, rfl⟩ | ⟨hnone, o, ho, rfl⟩
      · exact fileId?_eq_some_iff.mpr (.inl ⟨s, get?_stores_deleteFile.mpr ⟨hs, hne⟩, rfl⟩)
      · have hgone : (c.deleteFile id).stores.get? path = none :=
          store_deleteFile_eq_none.mpr (by simp [hnone])
        exact fileId?_eq_some_iff.mpr
          (.inr ⟨hgone, o, get?_owners_deleteFile.mpr ⟨ho, hne⟩, rfl⟩)
    · have hgone : (c.deleteFile id).stores.get? path = none := by
        rw [store_deleteFile_eq_none]
        intro s hs
        rcases fileId?_eq_some_iff.mp hid with ⟨s', hs', hfile⟩ | ⟨hnone, -⟩
        · rw [hs] at hs'
          cases hs'
          exact hfile
        · rw [hs] at hnone
          cases hnone
      exact fileId?_eq_some_iff.mpr
        (.inr ⟨hgone, o, get?_owners_deleteFile.mpr ⟨ho, hne⟩, rfl⟩)

/-! ## One file less -/

/-- `d` is the catalog `c` without the file `id`: whatever named the file is gone, and everything
else is as it was. -/
structure Without (c d : Catalog) (id : FileId) : Prop where
  record_gone : d.files.contains id = false
  stores_gone : ∀ path s, d.stores.get? path = some s → s.file ≠ id
  owners_gone : ∀ key o, d.owners.get? key = some o → o.file ≠ id
  /-- Any other file has its record, its stores with all their artifacts, and its keys. -/
  others_kept : ∀ x, x ≠ id → d.holdings x = c.holdings x
  /-- What is left stands in the order in which it stood, be it of one file or of several. -/
  files_order : d.files.entries.Sublist c.files.entries
  stores_order : d.stores.entries.Sublist c.stores.entries
  owners_order : d.owners.entries.Sublist c.owners.entries
  directories_kept : d.directories = c.directories
  nextId_kept : d.nextId = c.nextId
  /-- A path that another file answered for still has that file. -/
  answer_kept : ∀ path x, x ≠ id → c.fileId? path = some x → d.fileId? path = some x
  /-- A path that the file answered for falls to the owner of the key of that name, if that is
  another file, and to nobody else. -/
  answer_falls : ∀ path, c.fileId? path = some id → ∀ x, d.fileId? path = some x ↔
    x ≠ id ∧ ∃ o, c.owners.get? path = some o ∧ o.file = x
  /-- A path that nobody answered for is not answered for now. -/
  no_answer_kept : ∀ path, c.fileId? path = none → d.fileId? path = none
  /-- Whoever answers is there, and is not the file. -/
  answer_live : ∀ path x, d.fileId? path = some x → x ≠ id ∧ d.files.contains x = true

namespace Consistent

variable {c : Catalog}

theorem without_deleteFile (h : Consistent c) (id : FileId) : Without c (c.deleteFile id) id where
  record_gone := by
    rw [Bool.eq_false_iff]
    exact fun hid => (contains_files_deleteFile.mp hid).2 rfl
  stores_gone := fun path s hs => (get?_stores_deleteFile.mp hs).2
  owners_gone := fun key o ho => (get?_owners_deleteFile.mp ho).2
  others_kept := fun x hx => by rw [holdings_deleteFile, if_neg hx]
  files_order := List.filter_sublist
  stores_order := List.filter_sublist
  owners_order := List.filter_sublist
  directories_kept := rfl
  nextId_kept := rfl
  answer_kept := fun path x hx hpath => fileId?_deleteFile.mpr ⟨hx, .inl hpath⟩
  answer_falls := by
    intro path hid x
    rw [fileId?_deleteFile]
    refine and_congr_right fun hx => ?_
    simp [hid, Ne.symm hx]
  no_answer_kept := by
    intro path hnone
    rw [Option.eq_none_iff_forall_ne_some]
    intro x hx
    simp [fileId?_deleteFile, hnone] at hx
  answer_live := fun path x hx =>
    ⟨(fileId?_deleteFile.mp hx).1, (h.deleteFile id).live_of_fileId? hx⟩

/-- Nothing names a file that is not there, so its deletion finds nothing to take. -/
theorem deleteFile_eq_self (h : Consistent c) {id : FileId} (hid : c.files.contains id = false) :
    c.deleteFile id = c := by
  have hdead : ∀ x, c.files.contains x = true → x ≠ id := by
    rintro x hx rfl
    rw [hid] at hx
    cases hx
  have hfiles : c.files.erase id = c.files := OrderedMap.filter_eq_self.mpr fun x f hx => by
    simpa using hdead x (OrderedMap.contains_of_get? hx)
  have howners : (c.owners.filter fun _ o => o.file ≠ id) = c.owners :=
    OrderedMap.filter_eq_self.mpr fun key o ho => by simpa using hdead o.file (h.owner_live ho)
  have hstores : (c.stores.filter fun _ s => s.file ≠ id) = c.stores :=
    OrderedMap.filter_eq_self.mpr fun path s hs => by
      simpa using hdead s.file (h.store_live path s hs)
  rw [Catalog.deleteFile, hfiles, howners, hstores]

/-- Deleting a file that is not there hands out nothing and changes nothing. -/
theorem takeFile_of_not_live (h : Consistent c) {id : FileId}
    (hid : c.files.contains id = false) : c.takeFile id = (none, c) := by
  have hrecord : c.files.get? id = none := by simpa [OrderedMap.contains] using hid
  rw [takeFile, hrecord, h.deleteFile_eq_self hid]

end Consistent

/-- A deletion takes one file and nothing else, in every session. It hands out the record of the
file, and leaves the catalog without it; a file that is not there is not missed. Deleting by path
deletes the file that answers for the path, which is always there, or does nothing if none does. -/
theorem run_delete_without (ops : List Op) :
    let c := run ∅ ops
    (∀ id, (c.takeFile id).1 = c.files.get? id ∧ Without c (c.takeFile id).2 id) ∧
    (∀ id, c.files.contains id = false → c.takeFile id = (none, c)) ∧
    (∀ path id, c.fileId? path = some id →
      c.takePath path = c.takeFile id ∧ c.files.contains id = true) ∧
    (∀ path, c.fileId? path = none → c.takePath path = (none, c)) := by
  intro c
  have h : Consistent c := run_consistent ops
  refine ⟨fun id => ⟨rfl, h.without_deleteFile id⟩, fun id hid => h.takeFile_of_not_live hid,
    fun path id hid => ⟨?_, h.live_of_fileId? hid⟩, fun path hnone => ?_⟩
  · rw [takePath, hid]
  · rw [takePath, hnone]

/-- Typings that were read as a file of their own fall to the source that they are emitted for. -/
example :
    let c := run ∅
      [.put "/out/a.d.ts" "/out/a.d.ts" (.source "")
          (some ⟨.readOnly, "/out/a.d.ts", "/tsconfig.json", ∅⟩),
        .put "/a.ts" "/out/a.d.ts" (.output .typings none)
          (some ⟨.compiled, "/a.ts", "/tsconfig.json", ∅⟩)]
    c.fileId? "/out/a.d.ts" = some 0 ∧ (c.takeFile 0).2.fileId? "/out/a.d.ts" = some 1 := by
  decide

end Catalog

end BuildRelay
