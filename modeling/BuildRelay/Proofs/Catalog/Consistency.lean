/-
BuildRelay.Proofs.Catalog.Consistency — files, stores and owners of a catalog agree.

The three tables are written apart: a put may open a store, take a record over, merge an artifact
and stop, or claim a key; a deletion cuts each table by itself. `Consistent` is the invariant that
ties them together. Identities in use stay below the next one, so a new file never takes the
identity of a live one; an owner never outlives the store it names.

* `Consistent.put`, `Consistent.fill`, `Consistent.deleteFile` — what each operation keeps.
* `run_consistent` — the invariant holds in every session.
* `run_tables_agree` — what it means for the questions that a catalog answers.
-/
import BuildRelay.Proofs.Catalog.Sessions
import BuildRelay.Proofs.Catalog.Views

namespace BuildRelay

namespace Catalog

/-- Files, stores and owners agree. -/
structure Consistent (c : Catalog) : Prop where
  /-- Every store belongs to a live file. -/
  store_live : ∀ path s, c.stores.get? path = some s → c.files.contains s.file = true
  /-- The owner of a key is a store of the same file that keeps an artifact under the key. -/
  owner_held : ∀ key o, c.owners.get? key = some o →
    ∃ s, c.stores.get? o.path = some s ∧ s.file = o.file ∧ s.artifacts.contains key = true
  /-- Every live file has a store. -/
  file_stored : ∀ id, c.files.contains id = true →
    ∃ path s, c.stores.get? path = some s ∧ s.file = id
  /-- Every identity in use was handed out before. -/
  id_lt : ∀ id, c.files.contains id = true → id < c.nextId

theorem empty_consistent : Consistent ∅ where
  store_live := by intro path s h; cases h
  owner_held := by intro key o h; cases h
  file_stored := by intro id h; cases h
  id_lt := by intro id h; cases h

namespace Consistent

variable {c : Catalog}

theorem owner_live (h : Consistent c) {key : String} {o : Owner}
    (ho : c.owners.get? key = some o) : c.files.contains o.file = true := by
  obtain ⟨s, hs, hfile, -⟩ := h.owner_held key o ho
  rw [← hfile]
  exact h.store_live _ s hs

/-! ### Puts -/

/-- The files after a store has been opened: those before and the file of the store. -/
theorem contains_files_enroll (h : Consistent c) (path : String) (file : Option File)
    (id : FileId) : (c.enroll path file).2.files.contains id = true ↔
      c.files.contains id = true ∨ id = (c.enroll path file).1.file := by
  obtain ⟨s, hs, -, he⟩ | ⟨s, f, hs, -, he⟩ | ⟨o, -, -, ho, he⟩ | ⟨-, -, he⟩ :=
    c.enroll_cases path file <;> rw [he]
  · refine ⟨Or.inl, ?_⟩
    rintro (hid | rfl)
    · exact hid
    · exact h.store_live path s hs
  · rw [OrderedMap.contains_modify]
    refine ⟨Or.inl, ?_⟩
    rintro (hid | rfl)
    · exact hid
    · exact h.store_live path s hs
  · refine ⟨Or.inl, ?_⟩
    rintro (hid | rfl)
    · exact hid
    · exact h.owner_live ho
  · rw [OrderedMap.contains_insert, Bool.or_eq_true, decide_eq_true_eq]
    exact Or.comm

/-- Opening a store uses no identity that was not handed out. -/
theorem id_lt_enroll (h : Consistent c) (path : String) (file : Option File) {id : FileId}
    (hid : (c.enroll path file).2.files.contains id = true) :
    id < (c.enroll path file).2.nextId := by
  obtain ⟨s, -, -, he⟩ | ⟨s, f, -, -, he⟩ | ⟨o, -, -, -, he⟩ | ⟨-, -, he⟩ :=
    c.enroll_cases path file <;> rw [he] at hid ⊢
  · exact h.id_lt id hid
  · rw [OrderedMap.contains_modify] at hid
    exact h.id_lt id hid
  · exact h.id_lt id hid
  · rw [OrderedMap.contains_insert, Bool.or_eq_true, decide_eq_true_eq] at hid
    rcases hid with rfl | hid
    · exact Nat.lt_succ_self _
    · exact Nat.lt_succ_of_lt (h.id_lt id hid)

/-- A store that gets an artifact keeps its file and the keys it had. -/
theorem store_put (c : Catalog) {path : String} {s : Store}
    (hs : c.stores.get? path = some s) (key : String) (a : Artifact) (file : Option File) :
    ∃ s', (c.put path key a file).2.stores.get? path = some s' ∧ s'.file = s.file ∧
      ∀ k, s.artifacts.contains k = true → s'.artifacts.contains k = true := by
  refine ⟨_, get?_stores_put_self .., ?_, ?_⟩
  · rw [Store.file_put, enroll_of_store hs file]
  · intro k hk
    rw [Store.contains_put, enroll_of_store hs file, hk, Bool.or_true]

theorem put (h : Consistent c) (path key : String) (a : Artifact) (file : Option File) :
    Consistent (c.put path key a file).2 where
  store_live := by
    intro x s hs
    rw [files_put, h.contains_files_enroll]
    rw [get?_stores_put] at hs
    split at hs
    · cases hs
      exact .inr rfl
    · exact .inl (h.store_live x s hs)
  owner_held := by
    intro k o ho
    -- An owner is either the store just written or one from before, whose store was kept.
    have old : c.owners.get? k = some o → ∃ s, (c.put path key a file).2.stores.get? o.path = some s ∧
        s.file = o.file ∧ s.artifacts.contains k = true := by
      intro hold
      obtain ⟨s, hs, hfile, hkey⟩ := h.owner_held k o hold
      by_cases hx : o.path = path
      · rw [hx] at hs ⊢
        obtain ⟨s', hs', hfile', hkeys⟩ := store_put c hs key a file
        exact ⟨s', hs', hfile'.trans hfile, hkeys k hkey⟩
      · exact ⟨s, by rw [get?_stores_put, if_neg hx, hs], hfile, hkey⟩
    rw [owners_put] at ho
    split at ho
    · rw [OrderedMap.get?_insert] at ho
      split at ho
      · rename_i hk
        cases ho
        refine ⟨_, get?_stores_put_self .., rfl, ?_⟩
        rw [Store.contains_put, decide_eq_true hk, Bool.true_or]
      · exact old ho
    · exact old ho
  file_stored := by
    intro id hid
    rw [files_put, h.contains_files_enroll] at hid
    rcases hid with hid | rfl
    · obtain ⟨x, s, hs, hfile⟩ := h.file_stored id hid
      by_cases hx : x = path
      · rw [hx] at hs
        obtain ⟨s', hs', hfile', -⟩ := store_put c hs key a file
        exact ⟨path, s', hs', hfile'.trans hfile⟩
      · exact ⟨x, s, by rw [get?_stores_put, if_neg hx, hs], hfile⟩
    · exact ⟨path, _, get?_stores_put_self .., rfl⟩
  id_lt := by
    intro id hid
    rw [files_put] at hid
    rw [nextId_put]
    exact h.id_lt_enroll path file hid

/-! ### Texts and deletions -/

theorem fill (h : Consistent c) {key text : String} {c' : Catalog}
    (hfill : c.fill? key text = some c') : Consistent c' := by
  obtain ⟨o, s, a, b, -, hs, ha, -, rfl⟩ := fill?_cases hfill
  have hstores : ∀ x, (c.stores.insert o.path (s.put key b)).get? x =
      if x = o.path then some (s.put key b) else c.stores.get? x := fun x =>
    OrderedMap.get?_insert ..
  refine ⟨?_, ?_, ?_, h.id_lt⟩
  · intro x s' hs'
    rw [hstores] at hs'
    split at hs'
    · cases hs'
      exact h.store_live o.path s hs
    · exact h.store_live x s' hs'
  · intro k o' ho'
    obtain ⟨s', hs', hfile, hkey⟩ := h.owner_held k o' ho'
    by_cases hx : o'.path = o.path
    · rw [hx, hs] at hs'
      cases hs'
      refine ⟨s.put key b, by rw [hstores, if_pos hx], hfile, ?_⟩
      rw [Store.contains_put, hkey, Bool.or_true]
    · exact ⟨s', by rw [hstores, if_neg hx, hs'], hfile, hkey⟩
  · intro id hid
    obtain ⟨x, s', hs', hfile⟩ := h.file_stored id hid
    by_cases hx : x = o.path
    · rw [hx, hs] at hs'
      cases hs'
      exact ⟨x, s.put key b, by rw [hstores, if_pos hx], hfile⟩
    · exact ⟨x, s', by rw [hstores, if_neg hx, hs'], hfile⟩

theorem contains_files_deleteFile {id x : FileId} :
    (c.deleteFile id).files.contains x = true ↔ c.files.contains x = true ∧ x ≠ id := by
  rw [OrderedMap.contains, get?_files_deleteFile]
  by_cases hx : x = id <;> simp [hx, OrderedMap.contains]

theorem deleteFile (h : Consistent c) (id : FileId) : Consistent (c.deleteFile id) where
  store_live := by
    intro path s hs
    obtain ⟨hs, hne⟩ := get?_stores_deleteFile.mp hs
    exact contains_files_deleteFile.mpr ⟨h.store_live path s hs, hne⟩
  owner_held := by
    intro key o ho
    obtain ⟨ho, hne⟩ := get?_owners_deleteFile.mp ho
    obtain ⟨s, hs, hfile, hkey⟩ := h.owner_held key o ho
    exact ⟨s, get?_stores_deleteFile.mpr ⟨hs, hfile ▸ hne⟩, hfile, hkey⟩
  file_stored := by
    intro x hx
    obtain ⟨hx, hne⟩ := contains_files_deleteFile.mp hx
    obtain ⟨path, s, hs, hfile⟩ := h.file_stored x hx
    exact ⟨path, s, get?_stores_deleteFile.mpr ⟨hs, hfile ▸ hne⟩, hfile⟩
  id_lt := by
    intro x hx
    exact h.id_lt x (contains_files_deleteFile.mp hx).1

theorem step (h : Consistent c) (op : Op) : Consistent (c.step op) :=
  step_induction h (fun path key a file => h.put path key a file)
    (fun _ _ _ hfill => h.fill hfill) (fun id => h.deleteFile id) op

end Consistent

theorem run_consistent (ops : List Op) : Consistent (run ∅ ops) :=
  run_induction empty_consistent (fun _ op h => h.step op) ops

/-! ## What a consistent catalog answers -/

namespace Consistent

variable {c : Catalog}

/-- Whoever asks for an owned key gets an answer, from the owner and its file. -/
theorem find?_of_owner (h : Consistent c) {key : String} {o : Owner}
    (ho : c.owners.get? key = some o) :
    ∃ v, c.find? key = some v ∧ v.key = key ∧ v.path = o.path ∧ v.id = o.file := by
  obtain ⟨s, hs, hfile, hkey⟩ := h.owner_held key o ho
  obtain ⟨a, ha⟩ := OrderedMap.contains_iff.mp hkey
  obtain ⟨f, hf⟩ := OrderedMap.contains_iff.mp (h.store_live _ s hs)
  refine ⟨⟨o.path, key, a, s.file, f⟩, ?_, rfl, rfl, hfile⟩
  exact find?_eq_some_iff.mpr ⟨o, ho, view_eq_some_iff.mpr ⟨s, a, f, hs, ha, hf, rfl⟩⟩

/-- Every artifact can be seen with its file. -/
theorem view_of_artifact? (h : Consistent c) {path key : String} {a : Artifact}
    (ha : c.artifact? path key = some a) :
    ∃ s f, c.stores.get? path = some s ∧ c.files.get? s.file = some f ∧
      c.view path key = some ⟨path, key, a, s.file, f⟩ := by
  obtain ⟨s, hs, hkey⟩ := Option.bind_eq_some_iff.mp ha
  obtain ⟨f, hf⟩ := OrderedMap.contains_iff.mp (h.store_live path s hs)
  exact ⟨s, f, hs, hf, view_eq_some_iff.mpr ⟨s, a, f, hs, hkey, hf, rfl⟩⟩

/-- Whatever file answers for a path is live. -/
theorem live_of_fileId? (h : Consistent c) {path : String} {id : FileId}
    (hid : c.fileId? path = some id) : c.files.contains id = true := by
  rw [fileId?, Option.or_eq_some_iff, Option.map_eq_some_iff, Option.map_eq_some_iff] at hid
  rcases hid with ⟨s, hs, rfl⟩ | ⟨-, o, ho, rfl⟩
  · exact h.store_live path s hs
  · exact h.owner_live ho

/-- The lists of all kinds together show the owned keys. -/
theorem mem_keys_ofKinds_iff (h : Consistent c) {key : String} :
    key ∈ (Artifact.Kind.all.flatMap c.ofKind).map View.key ↔ c.owners.contains key = true := by
  rw [List.mem_map, OrderedMap.contains_iff]
  constructor
  · rintro ⟨v, hv, rfl⟩
    obtain ⟨o, ho, -⟩ := find?_eq_some_iff.mp (mem_ofKinds_iff.mp hv)
    exact ⟨o, ho⟩
  · rintro ⟨o, ho⟩
    obtain ⟨v, hfind, hkey, -, -⟩ := h.find?_of_owner ho
    exact ⟨v, mem_ofKinds_iff.mpr (by rw [hkey, hfind]), hkey⟩

end Consistent

/-- The tables of every session agree. Stores and owners name live files; the owner of a key is a
store of just that file which keeps an artifact under the key; every live file has a store, and
its identity lies below the next one. So every owned key is answered for, by the file of its
owner, and the lists of all kinds together show every owned key once, each time with the answer
for that key. -/
theorem run_tables_agree (ops : List Op) :
    let c := run ∅ ops
    (∀ path s, c.stores.get? path = some s → c.files.contains s.file = true) ∧
    (∀ key o, c.owners.get? key = some o → c.files.contains o.file = true) ∧
    (∀ key o, c.owners.get? key = some o → ∃ s, c.stores.get? o.path = some s ∧
      s.file = o.file ∧ s.artifacts.contains key = true) ∧
    (∀ id, c.files.contains id = true → ∃ path s, c.stores.get? path = some s ∧ s.file = id) ∧
    (∀ id, c.files.contains id = true → id < c.nextId) ∧
    (∀ key o, c.owners.get? key = some o →
      ∃ v, c.find? key = some v ∧ v.key = key ∧ v.path = o.path ∧ v.id = o.file) ∧
    ((Artifact.Kind.all.flatMap c.ofKind).map View.key).Nodup ∧
    (∀ key, key ∈ (Artifact.Kind.all.flatMap c.ofKind).map View.key ↔
      c.owners.contains key = true) ∧
    (∀ k, ∀ v ∈ c.ofKind k, c.find? v.key = some v) := by
  intro c
  have h : Consistent c := run_consistent ops
  exact ⟨h.store_live, fun _ _ ho => h.owner_live ho, h.owner_held, h.file_stored, h.id_lt,
    fun _ _ ho => h.find?_of_owner ho, nodup_keys_ofKinds c, fun _ => h.mem_keys_ofKinds_iff,
    fun _ _ hv => (mem_ofKind_iff.mp hv).1⟩

end Catalog

end BuildRelay
