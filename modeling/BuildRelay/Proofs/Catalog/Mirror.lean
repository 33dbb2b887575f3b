/-
BuildRelay.Proofs.Catalog.Mirror — one catalog inside another.

A catalog that serves several parties shows each of them what a catalog of its own would show, if no
two of them write to the same paths and keys. Only the identities of files differ, because they are
handed out to all parties from one row. `Mirrors U ρ c a` says that, on the paths and keys in `U`,
the catalog `c` is the catalog `a` with its identities renamed by `ρ`, and that nothing outside `U`
touches what mirrors `a`.

* `Mirrors.put`, `Mirrors.fill`, `Mirrors.deleteFile` — an operation inside `U`, done to both.
* `Mirrors.put_apart`, `Mirrors.fill_apart`, `Mirrors.deleteFile_apart` — an operation outside `U`,
  done to the larger catalog only.
* `Mirrors.find?`, `Mirrors.firstOfKindAt`, `Mirrors.file?` — what is answered inside `U`.
-/
import BuildRelay.Proofs.Catalog.Holdings
import Mathlib.Logic.Function.Basic

namespace BuildRelay

/-! ## Renaming identities -/

namespace Store

/-- The store under another identity of its file. -/
def relabel (ρ : FileId → FileId) (s : Store) : Store := { s with file := ρ s.file }

@[simp] theorem file_relabel (ρ : FileId → FileId) (s : Store) :
    (s.relabel ρ).file = ρ s.file := rfl

@[simp] theorem artifacts_relabel (ρ : FileId → FileId) (s : Store) :
    (s.relabel ρ).artifacts = s.artifacts := rfl

@[simp] theorem put_relabel (ρ : FileId → FileId) (s : Store) (key : String) (a : Artifact) :
    (s.relabel ρ).put key a = (s.put key a).relabel ρ := rfl

end Store

namespace Owner

/-- The owner under another identity of its file. -/
def relabel (ρ : FileId → FileId) (o : Owner) : Owner := { o with file := ρ o.file }

@[simp] theorem file_relabel (ρ : FileId → FileId) (o : Owner) :
    (o.relabel ρ).file = ρ o.file := rfl

@[simp] theorem path_relabel (ρ : FileId → FileId) (o : Owner) :
    (o.relabel ρ).path = o.path := rfl

end Owner

/-- The view under another identity of its file. -/
def View.relabel (ρ : FileId → FileId) (v : View) : View := { v with id := ρ v.id }

namespace Catalog

/-- No identity below `n` is renamed to `id`. -/
def Apart (ρ : FileId → FileId) (n id : FileId) : Prop := ∀ i < n, id ≠ ρ i

/-- Inside `U` the catalog `c` is the catalog `a` with its identities renamed by `ρ`, and nothing
outside `U` has to do with it. -/
structure Mirrors (U : String → Prop) (ρ : FileId → FileId) (c a : Catalog) : Prop where
  /-- Different files stay different. -/
  injective : ∀ i < a.nextId, ∀ j < a.nextId, ρ i = ρ j → i = j
  /-- The renamed identities have been handed out. -/
  issued : ∀ i < a.nextId, ρ i < c.nextId
  files : ∀ i < a.nextId, c.files.get? (ρ i) = a.files.get? i
  stores : ∀ path, U path → c.stores.get? path = (a.stores.get? path).map (Store.relabel ρ)
  owners : ∀ key, U key → c.owners.get? key = (a.owners.get? key).map (Owner.relabel ρ)
  /-- A store outside belongs to none of the renamed files. -/
  stores_apart : ∀ path s, ¬U path → c.stores.get? path = some s → Apart ρ a.nextId s.file
  /-- A key is inside exactly if the path that owns it is. -/
  owners_apart : ∀ key o, c.owners.get? key = some o → (U o.path ↔ U key)

namespace Mirrors

variable {U : String → Prop} {ρ : FileId → FileId} {c a : Catalog}

theorem empty (U : String → Prop) (ρ : FileId → FileId) : Mirrors U ρ ∅ ∅ where
  injective := nofun
  issued := nofun
  files := nofun
  stores := fun _ _ => rfl
  owners := fun _ _ => rfl
  stores_apart := nofun
  owners_apart := nofun

theorem eq_iff (h : Mirrors U ρ c a) {i j : FileId} (hi : i < a.nextId) (hj : j < a.nextId) :
    ρ i = ρ j ↔ i = j :=
  ⟨h.injective i hi j hj, fun hij => by rw [hij]⟩

/-- Renamings that agree on the identities handed out are interchangeable. -/
theorem congr (h : Mirrors U ρ c a) (ha : a.Consistent) {ρ' : FileId → FileId}
    (hagree : ∀ i < a.nextId, ρ' i = ρ i) : Mirrors U ρ' c a where
  injective := by
    intro i hi j hj
    rw [hagree i hi, hagree j hj]
    exact h.injective i hi j hj
  issued := by
    intro i hi
    rw [hagree i hi]
    exact h.issued i hi
  files := by
    intro i hi
    rw [hagree i hi]
    exact h.files i hi
  stores := by
    intro path hpath
    rw [h.stores path hpath]
    refine Option.map_congr fun s hs => ?_
    rw [Store.relabel, Store.relabel, hagree _ (ha.id_lt _ (ha.store_live path s hs))]
  owners := by
    intro key hkey
    rw [h.owners key hkey]
    refine Option.map_congr fun o ho => ?_
    rw [Owner.relabel, Owner.relabel, hagree _ (ha.id_lt _ (ha.owner_live ho))]
  stores_apart := by
    intro path s hpath hs i hi
    rw [hagree i hi]
    exact h.stores_apart path s hpath hs i hi
  owners_apart := h.owners_apart

/-- The file of an owner outside is none of the renamed files. -/
theorem owner_file_apart (h : Mirrors U ρ c a) (hc : c.Consistent) {key : String} {o : Owner}
    (hkey : ¬U key) (ho : c.owners.get? key = some o) : Apart ρ a.nextId o.file := by
  obtain ⟨s, hs, hfile, -⟩ := hc.owner_held key o ho
  rw [← hfile]
  exact h.stores_apart o.path s (fun hpath => hkey ((h.owners_apart key o ho).mp hpath)) hs

/-! ## Steps inside -/

theorem isCompiled (h : Mirrors U ρ c a) {i : FileId} (hi : i < a.nextId) :
    c.isCompiled (ρ i) = a.isCompiled i := by
  rw [Catalog.isCompiled, Catalog.isCompiled, h.files i hi]

/-- The next files of both catalogs are given the same record. -/
theorem addFile (h : Mirrors U ρ c a) (hc : c.Consistent) (hnext : ρ a.nextId = c.nextId)
    (f : File) : Mirrors U ρ (c.addFile f).2 (a.addFile f).2 where
  injective := by
    -- What was renamed before lies below the identity that is new.
    have hlt : ∀ i < a.nextId, ρ i ≠ ρ a.nextId := by
      intro i hi
      rw [hnext]
      exact Nat.ne_of_lt (h.issued i hi)
    intro i hi j hj hij
    rcases Nat.lt_succ_iff_lt_or_eq.mp hi with hi | rfl <;>
      rcases Nat.lt_succ_iff_lt_or_eq.mp hj with hj | rfl
    · exact h.injective i hi j hj hij
    · exact absurd hij (hlt i hi)
    · exact absurd hij.symm (hlt j hj)
    · rfl
  issued := by
    intro i hi
    rcases Nat.lt_succ_iff_lt_or_eq.mp hi with hi | rfl
    · exact Nat.lt_succ_of_lt (h.issued i hi)
    · rw [hnext]
      exact Nat.lt_succ_self _
  files := by
    intro i hi
    show (c.files.insert c.nextId f).get? (ρ i) = (a.files.insert a.nextId f).get? i
    rw [OrderedMap.get?_insert, OrderedMap.get?_insert]
    rcases Nat.lt_succ_iff_lt_or_eq.mp hi with hi | rfl
    · rw [if_neg (Nat.ne_of_lt (h.issued i hi)), if_neg (Nat.ne_of_lt hi), h.files i hi]
    · rw [if_pos hnext, if_pos rfl]
  stores := h.stores
  owners := h.owners
  stores_apart := by
    intro path s hpath hs i hi
    rcases Nat.lt_succ_iff_lt_or_eq.mp hi with hi | rfl
    · exact h.stores_apart path s hpath hs i hi
    · rw [hnext]
      exact Nat.ne_of_lt (hc.id_lt _ (hc.store_live path s hs))
  owners_apart := h.owners_apart

theorem modifyFile (h : Mirrors U ρ c a) {id : FileId} (hid : id < a.nextId) (g : File → File) :
    Mirrors U ρ { c with files := c.files.modify (ρ id) g }
      { a with files := a.files.modify id g } where
  injective := h.injective
  issued := h.issued
  files := by
    intro i hi
    rw [OrderedMap.get?_modify, OrderedMap.get?_modify, h.files i hi]
    simp only [h.eq_iff hi hid]
  stores := h.stores
  owners := h.owners
  stores_apart := h.stores_apart
  owners_apart := h.owners_apart

theorem insertStore (h : Mirrors U ρ c a) {path : String} (hpath : U path) (s : Store) :
    Mirrors U ρ { c with stores := c.stores.insert path (s.relabel ρ) }
      { a with stores := a.stores.insert path s } where
  injective := h.injective
  issued := h.issued
  files := h.files
  stores := by
    intro x hx
    rw [OrderedMap.get?_insert, OrderedMap.get?_insert, h.stores x hx]
    split <;> rfl
  owners := h.owners
  stores_apart := by
    intro x s' hx hs'
    have hne : x ≠ path := by
      rintro rfl
      exact hx hpath
    rw [OrderedMap.get?_insert, if_neg hne] at hs'
    exact h.stores_apart x s' hx hs'
  owners_apart := h.owners_apart

theorem claim (h : Mirrors U ρ c a) {key : String} (hkey : U key) {o : Owner} (hpath : U o.path)
    (hfile : o.file < a.nextId) : Mirrors U ρ (c.claim key (o.relabel ρ)) (a.claim key o) := by
  have hfree : c.owners.contains key = a.owners.contains key := by
    rw [OrderedMap.contains, h.owners key hkey, Option.isSome_map]
    rfl
  simp only [claim_eq, Owner.file_relabel, h.isCompiled hfile, hfree]
  split
  · refine ⟨h.injective, h.issued, h.files, h.stores, ?_, h.stores_apart, ?_⟩
    · intro k hk
      rw [OrderedMap.get?_insert, OrderedMap.get?_insert, h.owners k hk]
      split <;> rfl
    · intro k o' ho'
      rw [OrderedMap.get?_insert] at ho'
      split at ho'
      · rename_i hk
        cases ho'
        exact iff_of_true hpath (hk ▸ hkey)
      · exact h.owners_apart k o' ho'
  · exact h

theorem noteDirectory (h : Mirrors U ρ c a) (dir : String) :
    Mirrors U ρ (c.noteDirectory dir) (a.noteDirectory dir) :=
  ⟨h.injective, h.issued, h.files, h.stores, h.owners, h.stores_apart, h.owners_apart⟩

/-- A store inside is found or opened in both catalogs, for the file that mirrors the other. -/
theorem enroll (h : Mirrors U ρ c a) (hc : c.Consistent) (ha : a.Consistent)
    (hnext : ρ a.nextId = c.nextId) {path : String} (hpath : U path) (file : Option File) :
    (c.enroll path file).1 = (a.enroll path file).1.relabel ρ ∧
      Mirrors U ρ (c.enroll path file).2 (a.enroll path file).2 := by
  have hstore := h.stores path hpath
  have howner := h.owners path hpath
  cases hs : a.stores.get? path with
  | some s =>
    rw [hs] at hstore
    have hlt : s.file < a.nextId := ha.id_lt _ (ha.store_live path s hs)
    cases file with
    | none =>
      simp only [Catalog.enroll, hs, hstore, Option.map_some]
      exact ⟨trivial, h⟩
    | some f =>
      simp only [Catalog.enroll, hs, hstore, Option.map_some]
      exact ⟨trivial, h.modifyFile hlt fun _ => f⟩
  | none =>
    rw [hs] at hstore
    -- A new file: one that is described, or a placeholder where nobody answers for the path.
    have added : ∀ f : File,
        (⟨c.nextId, ∅⟩ : Store) = Store.relabel ρ ⟨a.nextId, ∅⟩ ∧
          Mirrors U ρ
            ({ (c.addFile f).2 with
              stores := c.stores.insert path ⟨c.nextId, ∅⟩ }.noteDirectory (Path.parent path))
            ({ (a.addFile f).2 with
              stores := a.stores.insert path ⟨a.nextId, ∅⟩ }.noteDirectory (Path.parent path)) := by
      intro f
      rw [← hnext]
      have hopened := (h.addFile hc hnext f).insertStore hpath ⟨a.nextId, ∅⟩
      rw [Store.relabel] at hopened
      exact ⟨rfl, hopened.noteDirectory _⟩
    cases file with
    | some f =>
      simp only [Catalog.enroll, hs, hstore, Option.map_none]
      exact added f
    | none =>
      cases ho : a.owners.get? path with
      | some o =>
        rw [ho] at howner
        simp only [Catalog.enroll, hs, hstore, ho, howner, Option.map_none, Option.map_some]
        exact ⟨rfl, (h.insertStore hpath ⟨o.file, ∅⟩).noteDirectory _⟩
      | none =>
        rw [ho] at howner
        simp only [Catalog.enroll, hs, hstore, ho, howner, Option.map_none]
        exact added _

/-- A put inside is made in both catalogs for the same file. -/
theorem put (h : Mirrors U ρ c a) (hc : c.Consistent) (ha : a.Consistent)
    (hnext : ρ a.nextId = c.nextId) {path key : String} (hpath : U path) {art : Artifact}
    (hkey : art.isImport = false → U key) (file : Option File) :
    (c.put path key art file).1 = ρ (a.put path key art file).1 ∧
      Mirrors U ρ (c.put path key art file).2 (a.put path key art file).2 := by
  obtain ⟨hstore, henrolled⟩ := h.enroll hc ha hnext hpath file
  have hlt : (a.enroll path file).1.file < (a.enroll path file).2.nextId :=
    ha.id_lt_enroll path file ((ha.contains_files_enroll path file _).mpr (.inr rfl))
  refine ⟨by rw [id_put, id_put, hstore]; rfl, ?_⟩
  cases hold : (a.enroll path file).1.artifacts.get? key with
  | some old =>
    simp only [Catalog.put, hstore, Store.artifacts_relabel, hold, Store.put_relabel]
    exact henrolled.insertStore hpath _
  | none =>
    have hclaimed : Mirrors U ρ
        (if art.isImport then (c.enroll path file).2
          else (c.enroll path file).2.claim key
            (Owner.relabel ρ ⟨path, (a.enroll path file).1.file⟩))
        (if art.isImport then (a.enroll path file).2
          else (a.enroll path file).2.claim key ⟨path, (a.enroll path file).1.file⟩) := by
      split
      · exact henrolled
      · rename_i himport
        exact henrolled.claim (hkey (Bool.eq_false_iff.mpr himport)) hpath hlt
    simp only [Catalog.put, hstore, Store.artifacts_relabel, hold, Store.put_relabel]
    exact (hclaimed.insertStore hpath _).noteDirectory _

/-- A text for a key inside arrives in both catalogs or in neither. -/
theorem fill (h : Mirrors U ρ c a) {key : String} (hkey : U key) (text : String) :
    Mirrors U ρ (c.step (.fill key text)) (a.step (.fill key text)) := by
  show Mirrors U ρ ((c.fill? key text).getD c) ((a.fill? key text).getD a)
  have howner := h.owners key hkey
  cases ho : a.owners.get? key with
  | none =>
    rw [ho, Option.map_none] at howner
    simp only [fill?, ho, howner, Option.bind_eq_bind, Option.bind_none, Option.getD_none]
    exact h
  | some o =>
    rw [ho, Option.map_some] at howner
    have hpath : U o.path := (h.owners_apart key _ howner).mpr hkey
    have hstore := h.stores o.path hpath
    cases hs : a.stores.get? o.path with
    | none =>
      rw [hs, Option.map_none] at hstore
      simp only [fill?, ho, howner, Owner.path_relabel, hs, hstore, Option.bind_eq_bind,
        Option.bind_some, Option.bind_none, Option.getD_none]
      exact h
    | some s =>
      rw [hs, Option.map_some] at hstore
      simp only [fill?, ho, howner, Owner.path_relabel, hs, hstore, Option.bind_eq_bind,
        Option.bind_some, Store.artifacts_relabel]
      cases s.artifacts.get? key with
      | none => exact h
      | some art =>
        simp only [Option.bind_some]
        cases art.fill? text with
        | none => exact h
        | some filled => exact h.insertStore hpath (s.put key filled)

/-- A file inside is deleted from both catalogs. -/
theorem deleteFile (h : Mirrors U ρ c a) (ha : a.Consistent) {id : FileId} (hid : id < a.nextId) :
    Mirrors U ρ (c.deleteFile (ρ id)) (a.deleteFile id) where
  injective := h.injective
  issued := h.issued
  files := by
    intro i hi
    rw [get?_files_deleteFile, get?_files_deleteFile, h.files i hi]
    simp only [h.eq_iff hi hid]
  stores := by
    intro path hpath
    rw [lookup_store_deleteFile, lookup_store_deleteFile, h.stores path hpath]
    cases hs : a.stores.get? path with
    | none => rfl
    | some s =>
      have hlt : s.file < a.nextId := ha.id_lt _ (ha.store_live path s hs)
      by_cases hfile : s.file = id <;> simp [Option.filter, h.eq_iff hlt hid, hfile]
  owners := by
    intro key hkey
    rw [lookup_owner_deleteFile, lookup_owner_deleteFile, h.owners key hkey]
    cases ho : a.owners.get? key with
    | none => rfl
    | some o =>
      have hlt : o.file < a.nextId := ha.id_lt _ (ha.owner_live ho)
      by_cases hfile : o.file = id <;> simp [Option.filter, h.eq_iff hlt hid, hfile]
  stores_apart := fun path s hpath hs =>
    h.stores_apart path s hpath (get?_stores_deleteFile.mp hs).1
  owners_apart := fun key o ho => h.owners_apart key o (get?_owners_deleteFile.mp ho).1

theorem deleteFiles (h : Mirrors U ρ c a) (ha : a.Consistent) {ids : List FileId}
    (hids : ∀ i ∈ ids, i < a.nextId) :
    Mirrors U ρ ((ids.map ρ).foldl Catalog.deleteFile c) (ids.foldl Catalog.deleteFile a) := by
  induction ids generalizing c a with
  | nil => exact h
  | cons id ids ih =>
    exact ih (h.deleteFile ha (hids id (List.mem_cons_self ..))) (ha.deleteFile id)
      fun i hi => hids i (List.mem_cons_of_mem _ hi)

/-! ## Steps outside -/

/-- A put outside is made for a file outside. -/
theorem put_apart (h : Mirrors U ρ c a) (hc : c.Consistent) {path key : String} (hpath : ¬U path)
    {art : Artifact} (hkey : art.isImport = false → ¬U key) (file : Option File) :
    Apart ρ a.nextId (c.put path key art file).1 ∧
      Mirrors U ρ (c.put path key art file).2 a := by
  have hnew : Apart ρ a.nextId c.nextId := fun i hi => (Nat.ne_of_lt (h.issued i hi)).symm
  have hid : Apart ρ a.nextId (c.enroll path file).1.file := by
    obtain ⟨s, hs, -, he⟩ | ⟨s, f, hs, -, he⟩ | ⟨o, -, -, ho, he⟩ | ⟨-, -, he⟩ :=
      c.enroll_cases path file <;> rw [he]
    · exact h.stores_apart path s hpath hs
    · exact h.stores_apart path s hpath hs
    · exact h.owner_file_apart hc hpath ho
    · exact hnew
  have hne : ∀ x, U x → x ≠ path := by
    rintro x hx rfl
    exact hpath hx
  refine ⟨by rw [id_put]; exact hid, h.injective, ?_, ?_, ?_, ?_, ?_, ?_⟩
  · intro i hi
    exact Nat.lt_of_lt_of_le (h.issued i hi) (c.nextId_le_put path key art file)
  · intro i hi
    rw [files_put, ← h.files i hi]
    obtain ⟨s, -, -, he⟩ | ⟨s, f, hs, -, he⟩ | ⟨o, -, -, -, he⟩ | ⟨-, -, he⟩ :=
      c.enroll_cases path file <;> rw [he]
    · rw [OrderedMap.get?_modify, if_neg (h.stores_apart path s hpath hs i hi).symm]
    · rw [OrderedMap.get?_insert, if_neg (hnew i hi).symm]
  · intro x hx
    rw [get?_stores_put, if_neg (hne x hx), h.stores x hx]
  · intro k hk
    rw [← h.owners k hk, owners_put]
    split
    · rename_i hclaims
      have hkne : k ≠ key := by
        rintro rfl
        exact hkey hclaims.1.2 hk
      rw [OrderedMap.get?_insert, if_neg hkne]
    · rfl
  · intro x s hx hs
    rw [get?_stores_put] at hs
    split at hs
    · cases hs
      exact hid
    · exact h.stores_apart x s hx hs
  · intro k o ho
    rw [owners_put] at ho
    split at ho
    · rename_i hclaims
      rw [OrderedMap.get?_insert] at ho
      split at ho
      · rename_i hk
        cases ho
        exact iff_of_false hpath (hk ▸ hkey hclaims.1.2)
      · exact h.owners_apart k o ho
    · exact h.owners_apart k o ho

/-- A text for a key outside arrives outside, if it does. -/
theorem fill_apart (h : Mirrors U ρ c a) {key : String} (hkey : ¬U key) (text : String) :
    Mirrors U ρ (c.step (.fill key text)) a := by
  rcases c.step_fill key text with hsame | ⟨c', hfill, hstep⟩
  · rw [hsame]
    exact h
  · obtain ⟨o, s, art, b, ho, hs, -, -, rfl⟩ := fill?_cases hfill
    have hpath : ¬U o.path := fun hx => hkey ((h.owners_apart key o ho).mp hx)
    rw [hstep]
    refine ⟨h.injective, h.issued, h.files, ?_, h.owners, ?_, h.owners_apart⟩
    · intro x hx
      have hne : x ≠ o.path := by
        rintro rfl
        exact hpath hx
      rw [OrderedMap.get?_insert, if_neg hne, h.stores x hx]
    · intro x s' hx hs'
      rw [OrderedMap.get?_insert] at hs'
      split at hs'
      · cases hs'
        exact h.stores_apart o.path s hpath hs
      · exact h.stores_apart x s' hx hs'

/-- A file outside is deleted from the larger catalog alone. -/
theorem deleteFile_apart (h : Mirrors U ρ c a) (ha : a.Consistent) {id : FileId}
    (hid : Apart ρ a.nextId id) : Mirrors U ρ (c.deleteFile id) a where
  injective := h.injective
  issued := h.issued
  files := by
    intro i hi
    rw [get?_files_deleteFile, if_neg (hid i hi).symm, h.files i hi]
  stores := by
    intro path hpath
    rw [lookup_store_deleteFile, h.stores path hpath]
    cases hs : a.stores.get? path with
    | none => rfl
    | some s =>
      have hne := (hid s.file (ha.id_lt _ (ha.store_live path s hs))).symm
      simp [Option.filter, hne]
  owners := by
    intro key hkey
    rw [lookup_owner_deleteFile, h.owners key hkey]
    cases ho : a.owners.get? key with
    | none => rfl
    | some o =>
      have hne := (hid o.file (ha.id_lt _ (ha.owner_live ho))).symm
      simp [Option.filter, hne]
  stores_apart := fun path s hpath hs =>
    h.stores_apart path s hpath (get?_stores_deleteFile.mp hs).1
  owners_apart := fun key o ho => h.owners_apart key o (get?_owners_deleteFile.mp ho).1

theorem deleteFiles_apart (h : Mirrors U ρ c a) (ha : a.Consistent) {ids : List FileId}
    (hids : ∀ id ∈ ids, Apart ρ a.nextId id) :
    Mirrors U ρ (ids.foldl Catalog.deleteFile c) a := by
  induction ids generalizing c with
  | nil => exact h
  | cons id ids ih =>
    exact ih (h.deleteFile_apart ha (hids id (List.mem_cons_self ..)))
      fun i hi => hids i (List.mem_cons_of_mem _ hi)

/-! ## Answers inside -/

theorem view (h : Mirrors U ρ c a) (ha : a.Consistent) {path : String} (hpath : U path)
    (key : String) : c.view path key = (a.view path key).map (View.relabel ρ) := by
  rw [Catalog.view, Catalog.view, h.stores path hpath]
  cases hs : a.stores.get? path with
  | none => rfl
  | some s =>
    have hrecord : c.files.get? (ρ s.file) = a.files.get? s.file :=
      h.files _ (ha.id_lt _ (ha.store_live path s hs))
    simp only [Option.map_some, Option.bind_eq_bind, Option.bind_some, Store.artifacts_relabel,
      Store.file_relabel, hrecord]
    cases s.artifacts.get? key with
    | none => rfl
    | some art => cases a.files.get? s.file <;> rfl

/-- Whoever owns a key inside gives the same answer in both catalogs. -/
theorem find? (h : Mirrors U ρ c a) (ha : a.Consistent) {key : String} (hkey : U key) :
    c.find? key = (a.find? key).map (View.relabel ρ) := by
  have howner := h.owners key hkey
  rw [Catalog.find?, Catalog.find?, howner]
  cases ho : a.owners.get? key with
  | none => rfl
  | some o =>
    rw [ho] at howner
    exact h.view ha ((h.owners_apart key _ howner).mpr hkey) key

/-- The oldest artifact of a kind is the same in both catalogs. -/
theorem firstOfKindAt (h : Mirrors U ρ c a) (ha : a.Consistent) {path : String} (hpath : U path)
    (k : Artifact.Kind) :
    c.firstOfKindAt path k = (a.firstOfKindAt path k).map (View.relabel ρ) := by
  rw [Catalog.firstOfKindAt, Catalog.firstOfKindAt, ofKindAt, ofKindAt, h.stores path hpath]
  cases hs : a.stores.get? path with
  | none => rfl
  | some s =>
    have hrecord : c.files.get? (ρ s.file) = a.files.get? s.file :=
      h.files _ (ha.id_lt _ (ha.store_live path s hs))
    simp only [Option.map_some, Store.file_relabel, hrecord]
    cases a.files.get? s.file with
    | none => rfl
    | some f =>
      simp only [List.head?_map, Option.map_map]
      rfl

/-- The same record answers for a path inside in both catalogs. -/
theorem file? (h : Mirrors U ρ c a) (ha : a.Consistent) {path : String} (hpath : U path) :
    c.file? path = a.file? path := by
  have hid : c.fileId? path = (a.fileId? path).map ρ := by
    rw [fileId?, fileId?, h.stores path hpath, h.owners path hpath]
    cases a.stores.get? path <;> cases a.owners.get? path <;> rfl
  rw [Catalog.file?, Catalog.file?, hid]
  cases hfile : a.fileId? path with
  | none => rfl
  | some id => exact h.files id (ha.id_lt _ (ha.live_of_fileId? hfile))

end Mirrors

end Catalog

end BuildRelay
