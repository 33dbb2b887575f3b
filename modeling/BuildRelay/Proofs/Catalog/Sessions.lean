/-
BuildRelay.Proofs.Catalog.Sessions — everything that can be done to a catalog, and what one
operation does to each of its tables.

* `Op`, `step`, `run` — the operations, one of them, a list of them.
* `step_induction` — what puts, fills and deletions keep, every step keeps.
* `enroll_cases` — the four ways in which a store is found or opened.
* `files_put`, `stores_put`, `owners_put` — a put, table by table; later proofs read a put
  through these and do not unfold it.
-/
import BuildRelay.Catalog.View

namespace BuildRelay

namespace Store

/-- What a store keeps under a key once an artifact has been written there. -/
def written (s : Store) (key : String) (a : Artifact) : Artifact :=
  match s.artifacts.get? key with
  | some old => old.merge a
  | none => a

@[simp] theorem file_put (s : Store) (key : String) (a : Artifact) :
    (s.put key a).file = s.file := rfl

@[simp] theorem contains_put (s : Store) (key k : String) (a : Artifact) :
    (s.put key a).artifacts.contains k = (decide (k = key) || s.artifacts.contains k) :=
  OrderedMap.contains_insert ..

end Store

namespace Catalog

/-! ## Sessions -/

/-- What can be done to a catalog. -/
inductive Op where
  | put (path key : String) (a : Artifact) (file : Option File)
  /-- The text of an output arrives; one that nobody waits for is dropped. -/
  | fill (key text : String)
  | deleteFile (id : FileId)
  /-- The file that answers for a path is deleted. -/
  | deletePath (path : String)

/-- The catalog after an operation. -/
def step (c : Catalog) : Op → Catalog
  | .put path key a file => (c.put path key a file).2
  | .fill key text => (c.fill? key text).getD c
  | .deleteFile id => (c.takeFile id).2
  | .deletePath path => (c.takePath path).2

/-- The catalog after operations, one after the other. -/
def run (c : Catalog) (ops : List Op) : Catalog := ops.foldl step c

/-- The artifact that a source path keeps under a key. -/
def artifact? (c : Catalog) (path key : String) : Option Artifact :=
  (c.stores.get? path).bind fun s => s.artifacts.get? key

/-- Every effect of a step is that of a put, of a text that found its output, or of a deletion. -/
theorem step_induction {P : Catalog → Prop} {c : Catalog} (same : P c)
    (put : ∀ path key a file, P (c.put path key a file).2)
    (fill : ∀ key text c', c.fill? key text = some c' → P c')
    (delete : ∀ id, P (c.deleteFile id)) (op : Op) : P (c.step op) := by
  cases op with
  | put path key a file => exact put path key a file
  | fill key text =>
    cases h : c.fill? key text with
    | none => simpa [step, h] using same
    | some c' => simpa [step, h] using fill key text c' h
  | deleteFile id => exact delete id
  | deletePath path =>
    cases h : c.fileId? path with
    | none => simpa [step, takePath, h] using same
    | some id => simpa [step, takePath, takeFile, h] using delete id

/-- A text finds an output that waits for it, or changes nothing. -/
theorem step_fill (c : Catalog) (key text : String) :
    c.step (.fill key text) = c ∨ ∃ c', c.fill? key text = some c' ∧ c.step (.fill key text) = c' := by
  rw [step]
  cases c.fill? key text with
  | none => exact .inl rfl
  | some c' => exact .inr ⟨c', rfl, rfl⟩

/-- Deleting by path deletes one file, or changes nothing. -/
theorem step_deletePath (c : Catalog) (path : String) :
    c.step (.deletePath path) = c ∨ ∃ id, c.step (.deletePath path) = c.deleteFile id := by
  rw [step, takePath]
  cases c.fileId? path with
  | none => exact .inl rfl
  | some id => exact .inr ⟨id, rfl⟩

/-- What every step keeps, every session keeps. -/
theorem run_induction {P : Catalog → Prop} {c : Catalog} (start : P c)
    (step : ∀ c op, P c → P (c.step op)) (ops : List Op) : P (c.run ops) :=
  List.foldlRecOn ops Catalog.step start fun c h op _ => step c op h

/-! ## Opening a store -/

/-- A store is there already, and its file takes a given record over; or it is opened, for the
file that answers for the path if there is one and no record is given, else for a new file. -/
theorem enroll_cases (c : Catalog) (path : String) (file : Option File) :
    (∃ s, c.stores.get? path = some s ∧ file = none ∧ c.enroll path file = (s, c)) ∨
    (∃ s f, c.stores.get? path = some s ∧ file = some f ∧
      c.enroll path file = (s, { c with files := c.files.modify s.file fun _ => f })) ∨
    (∃ o, c.stores.get? path = none ∧ file = none ∧ c.owners.get? path = some o ∧
      c.enroll path file = (⟨o.file, ∅⟩,
        { c with
          stores := c.stores.insert path ⟨o.file, ∅⟩
          directories := c.directories.insert (Path.parent path) })) ∨
    (c.stores.get? path = none ∧ (file = none → c.owners.get? path = none) ∧
      c.enroll path file = (⟨c.nextId, ∅⟩,
        { c with
          files := c.files.insert c.nextId (file.getD (.placeholder path))
          nextId := c.nextId + 1
          stores := c.stores.insert path ⟨c.nextId, ∅⟩
          directories := c.directories.insert (Path.parent path) })) := by
  cases hs : c.stores.get? path with
  | some s =>
    cases file with
    | none => exact .inl ⟨s, rfl, rfl, by simp [enroll, hs]⟩
    | some f => exact .inr (.inl ⟨s, f, rfl, rfl, by simp [enroll, hs]⟩)
  | none =>
    cases file with
    | some f =>
      refine .inr (.inr (.inr ⟨rfl, by simp, ?_⟩))
      simp [enroll, hs, addFile, noteDirectory]
    | none =>
      cases ho : c.owners.get? path with
      | some o => exact .inr (.inr (.inl ⟨o, rfl, rfl, rfl, by simp [enroll, hs, ho, noteDirectory]⟩))
      | none =>
        refine .inr (.inr (.inr ⟨rfl, fun _ => rfl, ?_⟩))
        simp [enroll, hs, ho, addFile, noteDirectory]

@[simp] theorem owners_enroll (c : Catalog) (path : String) (file : Option File) :
    (c.enroll path file).2.owners = c.owners := by
  obtain ⟨s, -, -, he⟩ | ⟨s, f, -, -, he⟩ | ⟨o, -, -, -, he⟩ | ⟨-, -, he⟩ :=
    c.enroll_cases path file <;> rw [he]

/-- Opening a store leaves every other store alone. -/
theorem get?_stores_enroll (c : Catalog) (path x : String) (file : Option File) :
    (c.enroll path file).2.stores.get? x =
      if x = path then some (c.enroll path file).1 else c.stores.get? x := by
  obtain ⟨s, hs, -, he⟩ | ⟨s, f, hs, -, he⟩ | ⟨o, -, -, -, he⟩ | ⟨-, -, he⟩ :=
    c.enroll_cases path file <;> rw [he]
  · by_cases hx : x = path <;> simp [hx, hs]
  · by_cases hx : x = path <;> simp [hx, hs]
  · exact OrderedMap.get?_insert ..
  · exact OrderedMap.get?_insert ..

/-- An open store keeps its file and its artifacts. -/
theorem enroll_of_store {c : Catalog} {path : String} {s : Store}
    (hs : c.stores.get? path = some s) (file : Option File) : (c.enroll path file).1 = s := by
  cases file <;> simp [enroll, hs]

/-- A store that has just been opened is empty. -/
theorem artifacts_enroll (c : Catalog) (path key : String) (file : Option File) :
    (c.enroll path file).1.artifacts.get? key = c.artifact? path key := by
  obtain ⟨s, hs, -, he⟩ | ⟨s, f, hs, -, he⟩ | ⟨o, hs, -, -, he⟩ | ⟨hs, -, he⟩ :=
    c.enroll_cases path file <;> simp [he, artifact?, hs]

/-! ## Writing an artifact -/

/-- Whether a put claims its key: the store holds nothing there yet, and the artifact is no
import. -/
def Claims (c : Catalog) (path key : String) (a : Artifact) : Prop :=
  c.artifact? path key = none ∧ a.isImport = false

instance (c : Catalog) (path key : String) (a : Artifact) : Decidable (c.Claims path key a) :=
  inferInstanceAs (Decidable (_ ∧ _))

/-- A claim changes owners only. -/
theorem claim_eq (c : Catalog) (key : String) (o : Owner) :
    c.claim key o = { c with
      owners := if c.isCompiled o.file = true ∨ c.owners.contains key = false then
        c.owners.insert key o else c.owners } := by
  cases hcompiled : c.isCompiled o.file <;> cases hheld : c.owners.contains key <;>
    simp [claim, hcompiled, hheld]

section Put

variable (c : Catalog) (path key : String) (a : Artifact) (file : Option File)

/-- A put is made for the file of its store. -/
theorem id_put : (c.put path key a file).1 = (c.enroll path file).1.file := by
  simp only [put]
  split <;> rfl

theorem files_put : (c.put path key a file).2.files = (c.enroll path file).2.files := by
  simp only [put]
  split
  · rfl
  · simp only [noteDirectory, claim_eq]
    split <;> rfl

theorem nextId_put : (c.put path key a file).2.nextId = (c.enroll path file).2.nextId := by
  simp only [put]
  split
  · rfl
  · simp only [noteDirectory, claim_eq]
    split <;> rfl

theorem stores_put : (c.put path key a file).2.stores =
    (c.enroll path file).2.stores.insert path
      ((c.enroll path file).1.put key ((c.enroll path file).1.written key a)) := by
  simp only [put, Store.written]
  cases (c.enroll path file).1.artifacts.get? key with
  | some old => rfl
  | none =>
    simp only [noteDirectory, claim_eq]
    split <;> rfl

/-- A put changes the store of its own path only. -/
theorem get?_stores_put (x : String) : (c.put path key a file).2.stores.get? x =
    if x = path then some ((c.enroll path file).1.put key ((c.enroll path file).1.written key a))
    else c.stores.get? x := by
  rw [stores_put, OrderedMap.get?_insert, get?_stores_enroll]
  by_cases hx : x = path <;> simp [hx]

theorem get?_stores_put_self : (c.put path key a file).2.stores.get? path =
    some ((c.enroll path file).1.put key ((c.enroll path file).1.written key a)) := by
  rw [get?_stores_put, if_pos rfl]

/-- A put changes the owner of its own key only: it becomes the owner if it claims the key and
the key is free or the file is compiled. -/
theorem owners_put : (c.put path key a file).2.owners =
    if c.Claims path key a ∧
        ((c.enroll path file).2.isCompiled (c.enroll path file).1.file = true ∨
          c.owners.contains key = false) then
      c.owners.insert key ⟨path, (c.enroll path file).1.file⟩
    else c.owners := by
  have hart := c.artifacts_enroll path key file
  simp only [put, Claims, ← hart]
  split
  · rename_i old hold
    simp [hold]
  · rename_i hnone
    cases himp : a.isImport <;> simp [hnone, noteDirectory, claim_eq]

end Put

/-! ## Texts and deletions -/

/-- A catalog in which an open store has been given an artifact keeps every other artifact, also
those of other stores under the same key. -/
theorem artifact?_insert_store {c : Catalog} {path : String} {s : Store}
    (hs : c.stores.get? path = some s) (key : String) (b : Artifact) (p k : String) :
    ({ c with stores := c.stores.insert path (s.put key b) } : Catalog).artifact? p k =
      if p = path ∧ k = key then some b else c.artifact? p k := by
  rw [artifact?, artifact?, OrderedMap.get?_insert]
  by_cases hp : p = path
  · subst hp
    by_cases hk : k = key <;> simp [hs, Store.put, OrderedMap.get?_insert, hk]
  · simp [hp]

/-- A text that arrives goes where the owner of its key keeps the artifact. -/
theorem fill?_cases {c c' : Catalog} {key text : String} (h : c.fill? key text = some c') :
    ∃ o s a b, c.owners.get? key = some o ∧ c.stores.get? o.path = some s ∧
      s.artifacts.get? key = some a ∧ a.fill? text = some b ∧
      c' = { c with stores := c.stores.insert o.path (s.put key b) } := by
  simp only [fill?, bind, Option.bind_eq_some_iff, pure] at h
  obtain ⟨o, ho, s, hs, a, ha, b, hb, hc⟩ := h
  exact ⟨o, s, a, b, ho, hs, ha, hb, (Option.some.inj hc).symm⟩

/-- A text changes no owner and no file, and hands out no identity. -/
theorem tables_step_fill (c : Catalog) (key text : String) :
    (c.step (.fill key text)).owners = c.owners ∧ (c.step (.fill key text)).files = c.files ∧
      (c.step (.fill key text)).nextId = c.nextId := by
  rcases c.step_fill key text with hsame | ⟨c', hfill, hstep⟩
  · rw [hsame]
    exact ⟨rfl, rfl, rfl⟩
  · obtain ⟨o, s, a, b, -, -, -, -, rfl⟩ := fill?_cases hfill
    rw [hstep]
    exact ⟨rfl, rfl, rfl⟩

theorem owners_step_fill (c : Catalog) (key text : String) :
    (c.step (.fill key text)).owners = c.owners := (c.tables_step_fill key text).1

theorem files_step_fill (c : Catalog) (key text : String) :
    (c.step (.fill key text)).files = c.files := (c.tables_step_fill key text).2.1

theorem nextId_step_fill (c : Catalog) (key text : String) :
    (c.step (.fill key text)).nextId = c.nextId := (c.tables_step_fill key text).2.2

theorem lookup_store_deleteFile (c : Catalog) (id : FileId) (path : String) :
    (c.deleteFile id).stores.get? path = (c.stores.get? path).filter fun s => s.file ≠ id :=
  OrderedMap.get?_filter ..

theorem lookup_owner_deleteFile (c : Catalog) (id : FileId) (key : String) :
    (c.deleteFile id).owners.get? key = (c.owners.get? key).filter fun o => o.file ≠ id :=
  OrderedMap.get?_filter ..

theorem get?_stores_deleteFile {c : Catalog} {id : FileId} {path : String} {s : Store} :
    (c.deleteFile id).stores.get? path = some s ↔ c.stores.get? path = some s ∧ s.file ≠ id := by
  simp [lookup_store_deleteFile, Option.filter_eq_some_iff]

theorem get?_owners_deleteFile {c : Catalog} {id : FileId} {key : String} {o : Owner} :
    (c.deleteFile id).owners.get? key = some o ↔ c.owners.get? key = some o ∧ o.file ≠ id := by
  simp [lookup_owner_deleteFile, Option.filter_eq_some_iff]

theorem get?_files_deleteFile (c : Catalog) (id x : FileId) :
    (c.deleteFile id).files.get? x = if x = id then none else c.files.get? x :=
  OrderedMap.get?_erase ..

end Catalog

end BuildRelay
