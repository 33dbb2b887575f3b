/-
BuildRelay.Proofs.Catalog.Views — what the questions of a catalog answer, in terms of its tables.

* `view_eq_some_iff`, `find?_eq_some_iff` — an answer is a store's artifact and a live file.
* `mem_ofKind_iff` — the list of a kind holds the answers of that kind.
* `nodup_keys_ofKinds` — over all kinds no key is listed twice.
-/
import BuildRelay.Catalog.View
import Mathlib.Data.List.Nodup

namespace BuildRelay

namespace Catalog

variable {c : Catalog}

theorem view_eq_some_iff {path key : String} {v : View} :
    c.view path key = some v ↔ ∃ s a f, c.stores.get? path = some s ∧
      s.artifacts.get? key = some a ∧ c.files.get? s.file = some f ∧
      v = ⟨path, key, a, s.file, f⟩ := by
  simp only [view, bind, Option.bind_eq_some_iff, pure]
  constructor
  · rintro ⟨s, hs, a, ha, f, hf, hv⟩
    exact ⟨s, a, f, hs, ha, hf, (Option.some.inj hv).symm⟩
  · rintro ⟨s, a, f, hs, ha, hf, rfl⟩
    exact ⟨s, hs, a, ha, f, hf, rfl⟩

theorem find?_eq_some_iff {key : String} {v : View} :
    c.find? key = some v ↔ ∃ o, c.owners.get? key = some o ∧ c.view o.path key = some v := by
  simp only [find?, bind, Option.bind_eq_some_iff]

/-- A view knows where it was found. -/
theorem path_key_of_view {path key : String} {v : View} (h : c.view path key = some v) :
    v.path = path ∧ v.key = key := by
  obtain ⟨s, a, f, -, -, -, rfl⟩ := view_eq_some_iff.mp h
  exact ⟨rfl, rfl⟩

/-- The list of a kind holds what the owners of the keys answer, if it is of that kind. -/
theorem mem_ofKind_iff {k : Artifact.Kind} {v : View} :
    v ∈ c.ofKind k ↔ c.find? v.key = some v ∧ v.artifact.kind = k := by
  simp only [ofKind, List.mem_filter, List.mem_filterMap, decide_eq_true_eq]
  refine and_congr_left fun _ => ?_
  constructor
  · rintro ⟨⟨key, o⟩, hmem, hview⟩
    obtain ⟨-, hkey⟩ := path_key_of_view hview
    subst hkey
    exact find?_eq_some_iff.mpr ⟨o, OrderedMap.get?_of_mem_entries hmem, hview⟩
  · intro hfind
    obtain ⟨o, ho, hview⟩ := find?_eq_some_iff.mp hfind
    exact ⟨(v.key, o), OrderedMap.mem_entries_of_get? ho, hview⟩

theorem mem_kinds (k : Artifact.Kind) : k ∈ Artifact.Kind.all := by
  cases k with
  | output o => cases o <;> decide
  | source => decide
  | importLink => decide

theorem mem_ofKinds_iff {v : View} :
    v ∈ Artifact.Kind.all.flatMap c.ofKind ↔ c.find? v.key = some v := by
  rw [List.mem_flatMap]
  constructor
  · rintro ⟨k, -, hv⟩
    exact (mem_ofKind_iff.mp hv).1
  · intro hfind
    exact ⟨v.artifact.kind, mem_kinds _, mem_ofKind_iff.mpr ⟨hfind, rfl⟩⟩

/-- The keys of a list of views are among the keys that it was made of, in the same order. -/
theorem keys_filterMap_view_sublist (c : Catalog) (l : List (String × Owner)) :
    ((l.filterMap fun e => c.view e.2.path e.1).map View.key).Sublist (l.map Prod.fst) := by
  induction l with
  | nil => exact List.Sublist.refl _
  | cons e rest ih =>
    cases hview : c.view e.2.path e.1 with
    | none =>
      simp only [List.filterMap_cons, hview]
      exact ih.cons e.1
    | some v =>
      simp only [List.filterMap_cons, hview, List.map_cons, (path_key_of_view hview).2]
      exact ih.cons_cons e.1

theorem nodup_keys_ofKind (c : Catalog) (k : Artifact.Kind) :
    ((c.ofKind k).map View.key).Nodup := by
  have hfilter := (List.filter_sublist (p := fun v : View => v.artifact.kind = k)
    (l := c.owners.entries.filterMap fun e => c.view e.2.path e.1)).map View.key
  exact (hfilter.trans (keys_filterMap_view_sublist c _)).nodup c.owners.nodup_keys

/-- No key is listed twice, be it under two kinds: the answer for a key is of one kind only. -/
theorem nodup_keys_ofKinds (c : Catalog) :
    ((Artifact.Kind.all.flatMap c.ofKind).map View.key).Nodup := by
  rw [List.map_flatMap, List.nodup_flatMap]
  refine ⟨fun k _ => nodup_keys_ofKind c k, ?_⟩
  have hkinds : Artifact.Kind.all.Nodup := by decide
  refine hkinds.imp ?_
  intro k k' hne key hkey hkey'
  obtain ⟨v, hv, rfl⟩ := List.mem_map.mp hkey
  obtain ⟨v', hv', heq⟩ := List.mem_map.mp hkey'
  obtain ⟨hfind, hkind⟩ := mem_ofKind_iff.mp hv
  obtain ⟨hfind', hkind'⟩ := mem_ofKind_iff.mp hv'
  rw [heq, hfind] at hfind'
  cases hfind'
  exact hne (hkind.symm.trans hkind')

end Catalog

end BuildRelay
