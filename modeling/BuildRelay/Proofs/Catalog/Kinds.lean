/-
BuildRelay.Proofs.Catalog.Kinds — of what kind an artifact is, told from what the session wrote.

Imports are meant to stay out of the owners. But whether a put claims its key is decided once, when
the store first holds something under it, while a later put there may replace the artifact by one of
another kind. So an owned key can come to stand for an import: its owner has to record an import
under the very key of an artifact that it keeps already.

* `writes` — what a session wrote for a source path under a key.
* `artifact?_put`, `kind_step`, `kind_run` — an artifact is of the kind that was written last.
* `owner_step`, `exists_write_of_owner` — an owner once wrote something that is no import.
* `run_owned_import_iff` — exactly when an owned key stands for an import.
* `run_import_of_own_output` — a session in which one does.
-/
import BuildRelay.Proofs.Catalog.Consistency
import Mathlib.Data.List.Induction

namespace BuildRelay

namespace Artifact

/-- A later report decides the kind. -/
@[simp] theorem kind_merge (old new : Artifact) : (old.merge new).kind = new.kind := by
  cases old with
  | source t => rfl
  | importLink l => rfl
  | output k t =>
    cases new with
    | source t' => rfl
    | importLink l => rfl
    | output k' t' => by_cases hk : k = k' <;> simp [merge, kind, hk]

/-- A text that arrives changes no kind. -/
theorem kind_of_fill? {a b : Artifact} {text : String} (h : a.fill? text = some b) :
    b.kind = a.kind := by
  cases a with
  | source t => cases h
  | importLink l => cases h
  | output k t =>
    cases h
    rfl

theorem isImport_iff_kind {a : Artifact} : a.isImport = true ↔ a.kind = .importLink := by
  cases a <;> simp [isImport, kind]

theorem isImport_eq_of_kind {a b : Artifact} (h : a.kind = b.kind) : a.isImport = b.isImport := by
  rw [Bool.eq_iff_iff, isImport_iff_kind, isImport_iff_kind, h]

end Artifact

namespace Store

theorem kind_written (s : Store) (key : String) (a : Artifact) :
    (s.written key a).kind = a.kind := by
  unfold written
  split
  · exact Artifact.kind_merge _ _
  · rfl

end Store

namespace Catalog

/-! ## What a session wrote -/

/-- The artifact that an operation writes for a source path under a key. -/
def Op.write? (path key : String) : Op → Option Artifact
  | .put p k a _ => if p = path ∧ k = key then some a else none
  | .fill .. | .deleteFile _ | .deletePath _ => none

/-- What a session wrote for a source path under a key, oldest first. -/
def writes (path key : String) (ops : List Op) : List Artifact :=
  ops.filterMap (Op.write? path key)

theorem writes_concat (path key : String) (ops : List Op) (op : Op) :
    writes path key (ops ++ [op]) = writes path key ops ++ (op.write? path key).toList := by
  rw [writes, List.filterMap_append]
  cases h : op.write? path key <;> simp [writes, h]

theorem run_concat (c : Catalog) (ops : List Op) (op : Op) :
    c.run (ops ++ [op]) = (c.run ops).step op := by
  rw [run, List.foldl_append]
  rfl

/-! ## The kind of an artifact -/

section Step

variable {c : Catalog} {path key : String} {a : Artifact}

/-- A put changes the artifact of its own path under its own key only. -/
theorem artifact?_put (c : Catalog) (p k : String) (b : Artifact) (file : Option File)
    (path key : String) : (c.put p k b file).2.artifact? path key =
      if p = path ∧ k = key then some ((c.enroll p file).1.written k b)
      else c.artifact? path key := by
  rw [artifact?, get?_stores_put]
  by_cases hp : p = path
  · subst hp
    rw [if_pos rfl, Option.bind_some, Store.put, OrderedMap.get?_insert, artifacts_enroll]
    by_cases hk : k = key
    · rw [if_pos hk.symm, if_pos ⟨rfl, hk⟩]
    · rw [if_neg (Ne.symm hk), if_neg fun h => hk h.2]
  · rw [if_neg (Ne.symm hp), if_neg fun h => hp h.1, artifact?]

theorem artifact?_of_deleteFile {id : FileId} (h : (c.deleteFile id).artifact? path key = some a) :
    c.artifact? path key = some a := by
  obtain ⟨s, hs, ha⟩ := Option.bind_eq_some_iff.mp h
  exact Option.bind_eq_some_iff.mpr ⟨s, (get?_stores_deleteFile.mp hs).1, ha⟩

/-- A text arrives at an artifact of the same kind, and leaves every other one as it was. -/
theorem kind_of_fill {k text : String} {c' : Catalog} (hfill : c.fill? k text = some c')
    (h : c'.artifact? path key = some a) :
    ∃ b, c.artifact? path key = some b ∧ b.kind = a.kind := by
  obtain ⟨o, s, b, b', -, hs, hb, hb', rfl⟩ := fill?_cases hfill
  rw [artifact?_insert_store hs] at h
  split at h
  · rename_i hwritten
    obtain ⟨rfl, rfl⟩ := hwritten
    cases h
    exact ⟨b, Option.bind_eq_some_iff.mpr ⟨s, hs, hb⟩, (Artifact.kind_of_fill? hb').symm⟩
  · exact ⟨a, h, rfl⟩

/-- An artifact has its kind from the operation that writes it, or else from before. -/
theorem kind_step {op : Op} (h : (c.step op).artifact? path key = some a) :
    (∃ b, op.write? path key = some b ∧ b.kind = a.kind) ∨
      op.write? path key = none ∧ ∃ b, c.artifact? path key = some b ∧ b.kind = a.kind := by
  cases op with
  | put p k b file =>
    simp only [step] at h
    rw [artifact?_put] at h
    by_cases hwrite : p = path ∧ k = key
    · rw [if_pos hwrite] at h
      cases h
      exact .inl ⟨b, if_pos hwrite, (Store.kind_written _ _ _).symm⟩
    · rw [if_neg hwrite] at h
      exact .inr ⟨if_neg hwrite, a, h, rfl⟩
  | fill k text =>
    rcases c.step_fill k text with hsame | ⟨c', hfill, hstep⟩
    · rw [hsame] at h
      exact .inr ⟨rfl, a, h, rfl⟩
    · rw [hstep] at h
      exact .inr ⟨rfl, kind_of_fill hfill h⟩
  | deleteFile id => exact .inr ⟨rfl, a, artifact?_of_deleteFile h, rfl⟩
  | deletePath p =>
    rcases c.step_deletePath p with hsame | ⟨id, hstep⟩
    · rw [hsame] at h
      exact .inr ⟨rfl, a, h, rfl⟩
    · rw [hstep] at h
      exact .inr ⟨rfl, a, artifact?_of_deleteFile h, rfl⟩

/-- An owner of a key was its owner before, or claims it now with something that is no import. -/
theorem owner_step {op : Op} {o : Owner} (h : (c.step op).owners.get? key = some o) :
    c.owners.get? key = some o ∨ ∃ b, op.write? o.path key = some b ∧ b.isImport = false := by
  cases op with
  | put p k b file =>
    simp only [step] at h
    rw [owners_put] at h
    split at h
    · rename_i hclaims
      rw [OrderedMap.get?_insert] at h
      split at h
      · rename_i hkey
        cases h
        exact .inr ⟨b, if_pos ⟨rfl, hkey.symm⟩, hclaims.1.2⟩
      · exact .inl h
    · exact .inl h
  | fill k text =>
    rcases c.step_fill k text with hsame | ⟨c', hfill, hstep⟩
    · rw [hsame] at h
      exact .inl h
    · obtain ⟨o', s, b, b', -, -, -, -, rfl⟩ := fill?_cases hfill
      rw [hstep] at h
      exact .inl h
  | deleteFile id => exact .inl (get?_owners_deleteFile.mp h).1
  | deletePath p =>
    rcases c.step_deletePath p with hsame | ⟨id, hstep⟩
    · rw [hsame] at h
      exact .inl h
    · rw [hstep] at h
      exact .inl (get?_owners_deleteFile.mp h).1

end Step

/-- An artifact is of the kind that was written last for its path under its key. -/
theorem kind_run {path key : String} (ops : List Op) :
    ∀ {a : Artifact}, (run ∅ ops).artifact? path key = some a →
      ∃ b, (writes path key ops).getLast? = some b ∧ b.kind = a.kind := by
  induction ops using List.reverseRecOn with
  | nil =>
    intro a h
    cases h
  | append_singleton ops op ih =>
    intro a h
    rw [run_concat] at h
    rw [writes_concat]
    rcases kind_step h with ⟨b, hwrite, hkind⟩ | ⟨hnone, b, hb, hkind⟩
    · exact ⟨b, by simp [hwrite], hkind⟩
    · obtain ⟨b', hlast, hkind'⟩ := ih hb
      exact ⟨b', by simpa [hnone] using hlast, hkind'.trans hkind⟩

theorem exists_write_of_owner {key : String} (ops : List Op) :
    ∀ {o : Owner}, (run ∅ ops).owners.get? key = some o →
      ∃ b ∈ writes o.path key ops, b.isImport = false := by
  induction ops using List.reverseRecOn with
  | nil =>
    intro o h
    cases h
  | append_singleton ops op ih =>
    intro o h
    rw [run_concat] at h
    rw [writes_concat]
    rcases owner_step h with hold | ⟨b, hwrite, himport⟩
    · obtain ⟨b, hb, himport⟩ := ih hold
      exact ⟨b, List.mem_append_left _ hb, himport⟩
    · exact ⟨b, List.mem_append_right _ (by simp [hwrite]), himport⟩

/-! ## Owned imports -/

/-- What answers for a key is an import exactly if its owner wrote an import there last. -/
theorem isImport_of_find? {ops : List Op} {key : String} {v : View}
    (h : (run ∅ ops).find? key = some v) :
    v.artifact.isImport = true ↔
      ∃ a, (writes v.path key ops).getLast? = some a ∧ a.isImport = true := by
  obtain ⟨o, -, hview⟩ := find?_eq_some_iff.mp h
  obtain ⟨s, a, f, hs, ha, -, rfl⟩ := view_eq_some_iff.mp hview
  obtain ⟨b, hlast, hkind⟩ := kind_run ops (Option.bind_eq_some_iff.mpr ⟨s, hs, ha⟩)
  rw [← Artifact.isImport_eq_of_kind hkind]
  constructor
  · intro himport
    exact ⟨b, hlast, himport⟩
  · rintro ⟨b', hlast', himport⟩
    rw [hlast] at hlast'
    cases hlast'
    exact himport

/-- When an owned key stands for an import, in every session. What answers for a key is an import
exactly if its owner wrote an import under it last. So the list of imports is empty exactly if no
owner has done so; and since an owner once wrote something else under its key, it is empty in every
session in which no path writes both imports and other artifacts under one key. -/
theorem run_owned_import_iff (ops : List Op) :
    let c := run ∅ ops
    (∀ key v, c.find? key = some v → (v.artifact.isImport = true ↔
      ∃ a, (writes v.path key ops).getLast? = some a ∧ a.isImport = true)) ∧
    (c.ofKind .importLink = [] ↔ ∀ key o, c.owners.get? key = some o →
      ∀ a, (writes o.path key ops).getLast? = some a → a.isImport = false) ∧
    ((∀ path key, ∀ a ∈ writes path key ops, ∀ b ∈ writes path key ops,
      a.isImport = b.isImport) → c.ofKind .importLink = []) := by
  intro c
  have hlist : c.ofKind .importLink = [] ↔ ∀ key o, c.owners.get? key = some o →
      ∀ a, (writes o.path key ops).getLast? = some a → a.isImport = false := by
    rw [List.eq_nil_iff_forall_not_mem]
    constructor
    · intro hempty key o ho a hlast
      obtain ⟨v, hfind, rfl, hpath, -⟩ := (run_consistent ops).find?_of_owner ho
      rw [← hpath] at hlast
      rw [← Bool.not_eq_true]
      intro himport
      have hv := (isImport_of_find? hfind).mpr ⟨a, hlast, himport⟩
      exact hempty v (mem_ofKind_iff.mpr ⟨hfind, Artifact.isImport_iff_kind.mp hv⟩)
    · intro hnone v hv
      obtain ⟨hfind, hkind⟩ := mem_ofKind_iff.mp hv
      obtain ⟨o, ho, hview⟩ := find?_eq_some_iff.mp hfind
      obtain ⟨a, hlast, himport⟩ :=
        (isImport_of_find? hfind).mp (Artifact.isImport_iff_kind.mpr hkind)
      rw [(path_key_of_view hview).1] at hlast
      rw [hnone v.key o ho a hlast] at himport
      cases himport
  refine ⟨fun key v hfind => isImport_of_find? hfind, hlist, ?_⟩
  intro hsame
  refine hlist.mpr ?_
  intro key o ho a hlast
  obtain ⟨b, hb, himport⟩ := exists_write_of_owner ops ho
  rw [hsame o.path key a (List.mem_of_getLast? hlast) b hb, himport]

/-- A compiled source announces its script, and then an import of it under the path of the script
is recorded. -/
def ownOutputImportSession : List Op :=
  [.put "/src/a.ts" "/src/a.ts" (.source "A")
      (some ⟨.compiled, "/src/a.ts", "/p/tsconfig.json", ∅⟩),
    .put "/src/a.ts" "/out/a.js" (.output .script none) none,
    .put "/src/a.ts" "/out/a.js" (.importLink ⟨"/out/a.js", ".js", false, none⟩) none]

theorem run_import_of_own_output :
    let c := run ∅ ownOutputImportSession
    (c.find? "/out/a.js").map (fun v => v.artifact.isImport) = some true ∧
      c.ofKind .importLink ≠ [] := by
  decide

end Catalog

end BuildRelay
