/-
BuildRelay.Proofs.Workspace.SharedRecord — whether registering one source touches the record of
another.

A store that is opened without a record belongs to the file that answers for its path, if there is
one, so an output that is itself the importer of something shares the file of the source that
emits it. A record that is registered for either path later replaces that of both.

* `SharesFile`, `Lends` — two paths of one file, and how that comes about.
* `Consistent.file?_put_of_shares`, `Consistent.file?_put_of_not_shares` — a put with a record,
  seen from another path.
* `registerSource_keeps_record_iff` — exactly when the other record survives.
* `registerSource_replaces_record_of_emitter` — a session in which it does not.
-/
import BuildRelay.Proofs.Workspace.Sessions

namespace BuildRelay

namespace Catalog

/-- The stores of two source paths belong to one file. -/
def SharesFile (c : Catalog) (p q : String) : Prop :=
  ∃ s t, c.stores.get? p = some s ∧ c.stores.get? q = some t ∧ s.file = t.file

/-- A path without a store is a key that the file of another path answers for. -/
def Lends (c : Catalog) (p q : String) : Prop :=
  c.stores.get? q = none ∧
    ∃ s o, c.stores.get? p = some s ∧ c.owners.get? q = some o ∧ s.file = o.file

variable {c : Catalog} {p q : String}

theorem SharesFile.symm (h : SharesFile c p q) : SharesFile c q p := by
  obtain ⟨s, t, hs, ht, heq⟩ := h
  exact ⟨t, s, ht, hs, heq.symm⟩

theorem file?_of_store {s : Store} (hs : c.stores.get? p = some s) :
    c.file? p = c.files.get? s.file := by
  simp [file?, fileId?, hs]

/-! ## A put with a record, seen from another path -/

/-- The record of another path after a put: its store stays, so only its file can have changed. -/
theorem file?_put_of_ne {s : Store} (hne : p ≠ q) (hs : c.stores.get? p = some s) (key : String)
    (a : Artifact) (file : Option File) :
    (c.put q key a file).2.file? p = (c.enroll q file).2.files.get? s.file := by
  have hstore : (c.put q key a file).2.stores.get? p = some s := by
    rw [get?_stores_put, if_neg hne, hs]
  rw [file?_of_store hstore, files_put]

theorem Consistent.file?_put_of_shares (h : Consistent c) (hne : p ≠ q)
    (hshares : SharesFile c p q) (key : String) (a : Artifact) (f : File) :
    (c.put q key a (some f)).2.file? p = some f := by
  obtain ⟨s, t, hs, ht, heq⟩ := hshares
  obtain ⟨old, hold⟩ := OrderedMap.contains_iff.mp (h.store_live q t ht)
  rw [file?_put_of_ne hne hs, heq]
  have hfiles : (c.enroll q (some f)).2.files = c.files.modify t.file fun _ => f := by
    simp [enroll, ht]
  rw [hfiles, OrderedMap.get?_modify, if_pos rfl, hold]
  rfl

theorem Consistent.file?_put_of_not_shares (h : Consistent c) (hne : p ≠ q) {s : Store}
    (hs : c.stores.get? p = some s) (hshares : ¬ SharesFile c p q) (key : String) (a : Artifact)
    (f : File) : (c.put q key a (some f)).2.file? p = c.file? p := by
  rw [file?_put_of_ne hne hs, file?_of_store hs]
  obtain ⟨t, -, hnone, -⟩ | ⟨t, f', ht, -, he⟩ | ⟨o, -, hnone, -, -⟩ | ⟨-, -, he⟩ :=
    c.enroll_cases q (some f)
  · cases hnone
  · have hfile : s.file ≠ t.file := fun heq => hshares ⟨s, t, hs, ht, heq⟩
    rw [he, OrderedMap.get?_modify, if_neg hfile]
  · cases hnone
  · -- A new file has an identity that no store has.
    have hfresh : s.file ≠ c.nextId := Nat.ne_of_lt (h.id_lt s.file (h.store_live p s hs))
    rw [he, OrderedMap.get?_insert, if_neg hfresh]

/-! ## How two paths come to share a file -/

/-- A put lets its own path share a file with another only by borrowing it. -/
theorem Consistent.sharesFile_put_self (h : Consistent c) (hne : p ≠ q) {key : String}
    {a : Artifact} {file : Option File} (hshares : SharesFile (c.put q key a file).2 p q) :
    SharesFile c p q ∨ file = none ∧ Lends c p q := by
  obtain ⟨s, t, hs, ht, heq⟩ := hshares
  rw [get?_stores_put, if_neg hne] at hs
  rw [get?_stores_put_self] at ht
  cases ht
  rw [Store.file_put] at heq
  obtain ⟨t, ht, -, he⟩ | ⟨t, f, ht, -, he⟩ | ⟨o, ht, hnone, ho, he⟩ | ⟨-, -, he⟩ :=
    c.enroll_cases q file <;> rw [he] at heq
  · exact .inl ⟨s, t, hs, ht, heq⟩
  · exact .inl ⟨s, t, hs, ht, heq⟩
  · exact .inr ⟨hnone, ht, s, o, hs, ho, heq⟩
  · exact absurd heq (Nat.ne_of_lt (h.id_lt s.file (h.store_live p s hs)))

theorem Consistent.sharesFile_put (h : Consistent c) (hne : p ≠ q) {path key : String}
    {a : Artifact} {file : Option File} (hshares : SharesFile (c.put path key a file).2 p q) :
    SharesFile c p q ∨
      file = none ∧ (path = q ∧ Lends c p q ∨ path = p ∧ Lends c q p) := by
  by_cases hq : path = q
  · subst hq
    rcases h.sharesFile_put_self hne hshares with hold | ⟨hnone, hlends⟩
    · exact .inl hold
    · exact .inr ⟨hnone, .inl ⟨rfl, hlends⟩⟩
  · by_cases hp : path = p
    · subst hp
      rcases h.sharesFile_put_self hne.symm hshares.symm with hold | ⟨hnone, hlends⟩
      · exact .inl hold.symm
      · exact .inr ⟨hnone, .inr ⟨rfl, hlends⟩⟩
    · obtain ⟨s, t, hs, ht, heq⟩ := hshares
      rw [get?_stores_put, if_neg (Ne.symm hp)] at hs
      rw [get?_stores_put, if_neg (Ne.symm hq)] at ht
      exact .inl ⟨s, t, hs, ht, heq⟩

theorem sharesFile_of_deleteFiles (ids : List FileId)
    (hshares : SharesFile (ids.foldl deleteFile c) p q) : SharesFile c p q := by
  induction ids generalizing c with
  | nil => exact hshares
  | cons id ids ih =>
    obtain ⟨s, t, hs, ht, heq⟩ := ih hshares
    exact ⟨s, t, (get?_stores_deleteFile.mp hs).1, (get?_stores_deleteFile.mp ht).1, heq⟩

/-- A text changes the file of no store. -/
theorem sharesFile_of_fill {key text : String} {c' : Catalog}
    (hfill : c.fill? key text = some c') (hshares : SharesFile c' p q) : SharesFile c p q := by
  obtain ⟨o, s, a, b, -, hs, -, -, rfl⟩ := fill?_cases hfill
  have hback : ∀ {x : String} {t : Store}, (c.stores.insert o.path (s.put key b)).get? x = some t →
      ∃ t', c.stores.get? x = some t' ∧ t'.file = t.file := by
    intro x t ht
    rw [OrderedMap.get?_insert] at ht
    split at ht
    · rename_i hx
      cases ht
      exact ⟨s, by rw [hx, hs], rfl⟩
    · exact ⟨t, ht, rfl⟩
  obtain ⟨t, u, ht, hu, heq⟩ := hshares
  obtain ⟨t', ht', hfile⟩ := hback ht
  obtain ⟨u', hu', hfile'⟩ := hback hu
  exact ⟨t', u', ht', hu', hfile.trans (heq.trans hfile'.symm)⟩

end Catalog

namespace Workspace

/-- The path that an operation writes to without a record. -/
def Op.unrecorded? : Op → Option String
  | .importLink path _ _ | .announce path _ _ => some path
  | _ => none

theorem sharesFile_step {w : Workspace} (h : w.catalog.Consistent) {p q : String} (hne : p ≠ q)
    {op : Op} (hshares : (w.step op).catalog.SharesFile p q) :
    w.catalog.SharesFile p q ∨ op.unrecorded? = some q ∧ w.catalog.Lends p q ∨
      op.unrecorded? = some p ∧ w.catalog.Lends q p := by
  rw [catalog_step] at hshares
  -- Only an import and an announcement write without a record.
  have unrecorded : ∀ {path key : String} {a : Artifact},
      (w.catalog.put path key a none).2.SharesFile p q →
      w.catalog.SharesFile p q ∨ some path = some q ∧ w.catalog.Lends p q ∨
        some path = some p ∧ w.catalog.Lends q p := by
    intro path key a hput
    rcases h.sharesFile_put hne hput with hold | ⟨-, ⟨hq, hlends⟩ | ⟨hp, hlends⟩⟩
    · exact .inl hold
    · exact .inr (.inl ⟨congrArg some hq, hlends⟩)
    · exact .inr (.inr ⟨congrArg some hp, hlends⟩)
  cases op with
  | reset project =>
    rw [catalogOps, run_deleteFile] at hshares
    exact .inl (Catalog.sharesFile_of_deleteFiles _ hshares)
  | clear project =>
    rw [catalogOps, run_deleteFile] at hshares
    exact .inl (Catalog.sharesFile_of_deleteFiles _ hshares)
  | source path text file =>
    rcases h.sharesFile_put hne hshares with hold | ⟨hnone, -⟩
    · exact .inl hold
    · cases hnone
  | importLink path specifier link => exact unrecorded hshares
  | announce path key a => exact unrecorded hshares
  | fill key text =>
    cases hfill : w.catalog.fill? key text with
    | none =>
      simp only [catalogOps, Catalog.run, List.foldl, Catalog.step, hfill] at hshares
      exact .inl hshares
    | some c' =>
      simp only [catalogOps, Catalog.run, List.foldl, Catalog.step, hfill] at hshares
      exact .inl (Catalog.sharesFile_of_fill hfill hshares)
  | clearActive | consume path | resetConsumed | resolve path => exact .inl hshares

/-- Registering one source keeps the record of another source path exactly if the two paths do not
share a file, or if that record is registered anew; where they share one, the other path gets the
new record. Two paths come to share a file only by an import or an announcement for a path
without a store that is at the time a key of the other path's file. -/
theorem registerSource_keeps_record_iff (paths : Path.Resolver) (ops : List Op) {p q : String}
    (hne : p ≠ q) (text : String) (file : File)
    (hp : ((ofResolver paths).run ops).catalog.stores.contains p = true) :
    let w := (ofResolver paths).run ops
    let after := (w.registerSource q text file).2.catalog
    (after.file? p = w.catalog.file? p ↔
      (w.catalog.SharesFile p q → w.catalog.file? p = some file)) ∧
    (w.catalog.SharesFile p q → after.file? p = some file) ∧
    (∀ op, (w.step op).catalog.SharesFile p q →
      w.catalog.SharesFile p q ∨ op.unrecorded? = some q ∧ w.catalog.Lends p q ∨
        op.unrecorded? = some p ∧ w.catalog.Lends q p) := by
  intro w after
  have h : w.catalog.Consistent := run_catalog_consistent paths ops
  obtain ⟨s, hs⟩ := OrderedMap.contains_iff.mp hp
  have hafter : after = (w.catalog.put q q (.source text) (some file)).2 :=
    w.catalog_registerSource q text file
  have hshared : w.catalog.SharesFile p q → after.file? p = some file := by
    intro hshares
    rw [hafter]
    exact h.file?_put_of_shares hne hshares q (.source text) file
  refine ⟨?_, hshared, fun op hshares => sharesFile_step h hne hshares⟩
  constructor
  · intro hkept hshares
    rw [← hkept, hshared hshares]
  · intro hsame
    by_cases hshares : w.catalog.SharesFile p q
    · rw [hshared hshares, hsame hshares]
    · rw [hafter]
      exact h.file?_put_of_not_shares hne hs hshares q (.source text) file

/-- A compiled source announces its typings, and an import of the typings is recorded. -/
def typingsImportSession : List Op :=
  [.source "/src/a.ts" "A" ⟨.compiled, "/src/a.ts", "/p/tsconfig.json", ∅⟩,
    .announce "/src/a.ts" "/out/a.d.ts" (.output .typings none),
    .importLink "/out/a.d.ts" "./dep" ⟨"/out/dep.d.ts", ".d.ts", false, none⟩]

/-- The record that another project registers for the typings. -/
def typingsRecord : File := ⟨.readOnly, "/out/a.d.ts", "/q/tsconfig.json", ∅⟩

theorem registerSource_replaces_record_of_emitter :
    let w := (ofResolver ⟨"/work", ∅⟩).run typingsImportSession
    w.catalog.stores.contains "/src/a.ts" = true ∧
    w.catalog.file? "/src/a.ts" = some ⟨.compiled, "/src/a.ts", "/p/tsconfig.json", ∅⟩ ∧
    (w.registerSource "/out/a.d.ts" "D" typingsRecord).2.catalog.file? "/src/a.ts" =
      some typingsRecord := by
  decide

theorem registerSource_keeps_record_of_stranger :
    let w := (ofResolver ⟨"/work", ∅⟩).run typingsImportSession
    "/src/a.ts" ≠ "/lib/b.d.ts" ∧ w.catalog.stores.contains "/src/a.ts" = true ∧
    (w.registerSource "/lib/b.d.ts" "D" typingsRecord).2.catalog.file? "/src/a.ts" =
      w.catalog.file? "/src/a.ts" := by
  refine ⟨by decide, by decide, ?_⟩
  refine (registerSource_keeps_record_iff ⟨"/work", ∅⟩ typingsImportSession (by decide) "D"
    typingsRecord (by decide)).1.mpr ?_
  rintro ⟨s, t, -, ht, -⟩
  have hnone : ((ofResolver ⟨"/work", ∅⟩).run typingsImportSession).catalog.stores.get?
      "/lib/b.d.ts" = none := by decide
  rw [hnone] at ht
  cases ht

end Workspace

end BuildRelay
