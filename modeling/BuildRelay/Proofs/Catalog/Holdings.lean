/-
BuildRelay.Proofs.Catalog.Holdings — what a catalog keeps for one file.

Record, stores and owned keys stand in three tables. A deletion cuts all three by the file, so seen
from one file it takes everything or nothing, and what it leaves keeps its order.

* `holdings` — the share of one file in each table.
* `holdings_deleteFile`, `holdings_deleteFiles` — deletions, seen from any file.
* `Consistent.holdings_of_not_live` — nothing is kept for a file that is not there.
* `Consistent.live_or_next_of_put` — a put brings no file to life but the next one.
-/
import BuildRelay.Proofs.Catalog.Consistency

namespace BuildRelay

/-- Everything that a catalog keeps for one file, each table in its order. -/
@[ext] structure Holdings where
  record : Option File
  /-- Its stores, by source path, with all artifacts in them. -/
  stores : List (String × Store)
  /-- The keys that it answers for. -/
  owned : List (String × Owner)
  deriving DecidableEq

/-- What is kept for a file that is not there. -/
def Holdings.nothing : Holdings := ⟨none, [], []⟩

namespace Catalog

/-- What a catalog keeps for a file. -/
def holdings (c : Catalog) (id : FileId) : Holdings where
  record := c.files.get? id
  stores := c.stores.entries.filter fun e => e.2.file = id
  owned := c.owners.entries.filter fun e => e.2.file = id

/-! ## Deletions -/

/-- What is left of the entries of one file once those of another are cut. -/
theorem filter_cut {β : Type} (file : β → FileId) (l : List β) (id x : FileId) :
    ((l.filter fun e => file e ≠ id).filter fun e => file e = x) =
      if x = id then [] else l.filter fun e => file e = x := by
  rw [List.filter_filter]
  by_cases hx : x = id
  · subst hx
    simp
  · rw [if_neg hx]
    refine List.filter_congr fun e _ => ?_
    by_cases he : file e = x <;> simp [he, hx]

/-- A deletion takes all that is kept for its file and nothing of any other. -/
theorem holdings_deleteFile (c : Catalog) (id x : FileId) :
    (c.deleteFile id).holdings x = if x = id then .nothing else c.holdings x := by
  have hstores := filter_cut (fun e : String × Store => e.2.file) c.stores.entries id x
  have howned := filter_cut (fun e : String × Owner => e.2.file) c.owners.entries id x
  ext1
  · show (c.deleteFile id).files.get? x = _
    rw [get?_files_deleteFile]
    split <;> rfl
  · show ((c.stores.entries.filter fun e => e.2.file ≠ id).filter fun e => e.2.file = x) = _
    rw [hstores]
    split <;> rfl
  · show ((c.owners.entries.filter fun e => e.2.file ≠ id).filter fun e => e.2.file = x) = _
    rw [howned]
    split <;> rfl

theorem holdings_deleteFiles (c : Catalog) (ids : List FileId) (x : FileId) :
    (ids.foldl deleteFile c).holdings x = if x ∈ ids then .nothing else c.holdings x := by
  induction ids generalizing c with
  | nil => simp
  | cons id ids ih =>
    rw [List.foldl_cons, ih, holdings_deleteFile]
    by_cases hx : x = id <;> simp [hx]

theorem contains_files_deleteFiles {c : Catalog} {ids : List FileId} {x : FileId} :
    (ids.foldl deleteFile c).files.contains x = true ↔ c.files.contains x = true ∧ x ∉ ids := by
  have hrecord := congrArg Holdings.record (holdings_deleteFiles c ids x)
  simp only [holdings] at hrecord
  rw [OrderedMap.contains, hrecord]
  by_cases hx : x ∈ ids <;> simp [hx, Holdings.nothing, OrderedMap.contains]

theorem get?_stores_deleteFiles {c : Catalog} {ids : List FileId} {path : String} {s : Store} :
    (ids.foldl deleteFile c).stores.get? path = some s ↔
      c.stores.get? path = some s ∧ s.file ∉ ids := by
  induction ids generalizing c with
  | nil => simp
  | cons id ids ih =>
    rw [List.foldl_cons, ih, get?_stores_deleteFile, List.mem_cons, not_or, and_assoc]

@[simp] theorem nextId_deleteFiles (c : Catalog) (ids : List FileId) :
    (ids.foldl deleteFile c).nextId = c.nextId := by
  induction ids generalizing c with
  | nil => rfl
  | cons id ids ih => exact ih (c.deleteFile id)

/-! ## Files that are not there -/

namespace Consistent

variable {c : Catalog}

theorem holdings_of_not_live (h : Consistent c) {id : FileId}
    (hid : c.files.contains id = false) : c.holdings id = .nothing := by
  have dead : ∀ {x : FileId}, c.files.contains x = true → x ≠ id := by
    rintro x hx rfl
    rw [hid] at hx
    cases hx
  ext1
  · show c.files.get? id = none
    simpa [OrderedMap.contains] using hid
  · refine List.filter_eq_nil_iff.mpr fun e he => ?_
    simpa using dead (h.store_live e.1 e.2 (OrderedMap.get?_of_mem_entries he))
  · refine List.filter_eq_nil_iff.mpr fun e he => ?_
    simpa using dead (h.owner_live (OrderedMap.get?_of_mem_entries (k := e.1) (v := e.2) he))

/-- A put is made for a live file or for the next one, and makes no other file live. -/
theorem live_or_next_of_put (h : Consistent c) (path key : String) (a : Artifact)
    (file : Option File) {id : FileId}
    (hid : (c.put path key a file).2.files.contains id = true) :
    c.files.contains id = true ∨ id = c.nextId := by
  rw [files_put, h.contains_files_enroll] at hid
  rcases hid with hold | rfl
  · exact .inl hold
  · obtain ⟨s, hs, -, he⟩ | ⟨s, f, hs, -, he⟩ | ⟨o, -, -, ho, he⟩ | ⟨-, -, he⟩ :=
      c.enroll_cases path file <;> rw [he]
    · exact .inl (h.store_live path s hs)
    · exact .inl (h.store_live path s hs)
    · exact .inl (h.owner_live ho)
    · exact .inr rfl

/-- The file that a put is made for is live afterwards. -/
theorem live_put (h : Consistent c) (path key : String) (a : Artifact) (file : Option File) :
    (c.put path key a file).2.files.contains (c.put path key a file).1 = true := by
  rw [files_put, h.contains_files_enroll, id_put]
  exact .inr rfl

end Consistent

/-- Identities are handed out in order, at most one by a put, and to a file that is live then. -/
theorem nextId_put_cases (c : Catalog) (path key : String) (a : Artifact) (file : Option File) :
    (c.put path key a file).2.nextId = c.nextId ∨
      (c.put path key a file).2.nextId = c.nextId + 1 ∧
        (c.put path key a file).2.files.contains c.nextId = true := by
  rw [nextId_put, files_put]
  obtain ⟨s, -, -, he⟩ | ⟨s, f, -, -, he⟩ | ⟨o, -, -, -, he⟩ | ⟨-, -, he⟩ :=
    c.enroll_cases path file
  · exact .inl (by rw [he])
  · exact .inl (by rw [he])
  · exact .inl (by rw [he])
  · rw [he]
    exact .inr ⟨rfl, by rw [OrderedMap.contains_insert, decide_eq_true rfl, Bool.true_or]⟩

theorem nextId_le_put (c : Catalog) (path key : String) (a : Artifact) (file : Option File) :
    c.nextId ≤ (c.put path key a file).2.nextId := by
  rcases c.nextId_put_cases path key a file with h | ⟨h, -⟩
  · exact Nat.le_of_eq h.symm
  · rw [h]
    exact Nat.le_succ _

end Catalog

end BuildRelay
