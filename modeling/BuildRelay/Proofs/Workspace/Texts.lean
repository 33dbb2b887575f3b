/-
BuildRelay.Proofs.Workspace.Texts — the text of an output arrives.

The driver knows an output by its path alone, and several sources may have announced the same path.
So a text takes two steps: the owners say whose output it is, and the store of that source takes it.
The stores of all the others keep what they have under the same key. Where nobody owns the path, or
where the owner keeps the text of a source or an import there, the text is dropped.

* `Catalog.Rewritten` — a catalog in which one artifact is another one, and everything else is kept.
* `Catalog.Consistent.fill?_eq_some_iff` — which texts are taken, and what is written then.
* `Catalog.Consistent.rewritten_fill` — what a text that is taken leaves behind.
* `Workspace.step_fill_rewrites_output` — texts in every session.
-/
import BuildRelay.Proofs.Workspace.Sessions

namespace BuildRelay

/-- Outputs take a text, and nothing else does. -/
theorem Artifact.fill?_eq_some_iff {a b : Artifact} {text : String} :
    a.fill? text = some b ↔ ∃ k, a.kind = .output k ∧ b = .output k (some text) := by
  cases a <;> simp [fill?, kind, eq_comm]

namespace Catalog

variable {c d : Catalog} {path key text : String} {a : Artifact}

/-! ## One artifact written anew -/

/-- The source paths with their files and with the keys they keep, everything in its order. -/
def layout (c : Catalog) : List (String × FileId × List String) :=
  c.stores.entries.map fun e => (e.1, e.2.file, e.2.artifacts.keys)

/-- `d` is the catalog `c`, except that the source `path` keeps `a` under `key`, where it kept another
artifact before. -/
structure Rewritten (c d : Catalog) (path key : String) (a : Artifact) : Prop where
  written : d.artifact? path key = some a
  /-- Every other artifact is as it was, also one that another source keeps under the same key. -/
  others_kept : ∀ p k, (p, k) ≠ (path, key) → d.artifact? p k = c.artifact? p k
  layout_kept : d.layout = c.layout
  files_kept : d.files = c.files
  nextId_kept : d.nextId = c.nextId
  owners_kept : d.owners = c.owners
  directories_kept : d.directories = c.directories

theorem rewritten_insert_store {s : Store} {old : Artifact} (hs : c.stores.get? path = some s)
    (hold : s.artifacts.get? key = some old) (a : Artifact) :
    c.Rewritten { c with stores := c.stores.insert path (s.put key a) } path key a where
  written := by simp [artifact?_insert_store hs]
  others_kept := by
    intro p k hne
    rw [artifact?_insert_store hs, if_neg]
    intro heq
    exact hne (Prod.ext heq.1 heq.2)
  layout_kept := by
    have hkeys : (s.put key a).artifacts.keys = s.artifacts.keys :=
      OrderedMap.keys_insert_of_contains (OrderedMap.contains_of_get? hold) a
    exact OrderedMap.map_entries_insert hs (by simp [hkeys])
  files_kept := rfl
  nextId_kept := rfl
  owners_kept := rfl
  directories_kept := rfl

/-! ## Texts that are taken -/

/-- A text is taken if the answer for its key is an output; it goes where that answer is kept. -/
theorem Consistent.fill?_eq_some_iff (h : Consistent c) : c.fill? key text = some d ↔
    ∃ v k s, c.find? key = some v ∧ v.artifact.kind = .output k ∧
      c.stores.get? v.path = some s ∧ s.artifacts.get? key = some v.artifact ∧
      d = { c with stores := c.stores.insert v.path (s.put key (.output k (some text))) } := by
  constructor
  · intro hfill
    obtain ⟨o, s, a, b, ho, hs, ha, hb, rfl⟩ := fill?_cases hfill
    obtain ⟨k, hk, rfl⟩ := Artifact.fill?_eq_some_iff.mp hb
    obtain ⟨f, hf⟩ := OrderedMap.contains_iff.mp (h.store_live o.path s hs)
    have hview : c.view o.path key = some ⟨o.path, key, a, s.file, f⟩ :=
      view_eq_some_iff.mpr ⟨s, a, f, hs, ha, hf, rfl⟩
    exact ⟨_, k, s, find?_eq_some_iff.mpr ⟨o, ho, hview⟩, hk, hs, ha, rfl⟩
  · intro htaken
    obtain ⟨v, k, s, hfind, hk, hs, ha, rfl⟩ := htaken
    obtain ⟨o, ho, hview⟩ := find?_eq_some_iff.mp hfind
    obtain ⟨hpath, -⟩ := path_key_of_view hview
    have hfilled : v.artifact.fill? text = some (.output k (some text)) :=
      Artifact.fill?_eq_some_iff.mpr ⟨k, hk, rfl⟩
    rw [hpath] at hs ⊢
    simp [fill?, ho, hs, ha, hfilled]

/-- Wherever a text goes, the text of a source and an import stay as they are. -/
theorem artifact?_fill_of_kind_ne (hfill : c.fill? key text = some d) {p x : String}
    (ha : c.artifact? p x = some a) (hne : ∀ k, a.kind ≠ .output k) :
    d.artifact? p x = some a := by
  obtain ⟨o, s, old, new, -, hs, hold, hnew, rfl⟩ := fill?_cases hfill
  rw [artifact?_insert_store hs]
  split
  · rename_i hwritten
    obtain ⟨rfl, rfl⟩ := hwritten
    obtain ⟨k, hk, -⟩ := Artifact.fill?_eq_some_iff.mp hnew
    have hsame : old = a := by simpa [artifact?, hs, hold] using ha
    exact absurd (hsame ▸ hk) (hne k)
  · exact ha

/-- What a text that is taken leaves behind: its own artifact has it, whether asked for by way of the
owner or in the store itself, and nothing else has changed. -/
theorem Consistent.rewritten_fill (h : Consistent c) (text : String) {v : View} {k : OutputKind}
    (hfind : c.find? key = some v) (hk : v.artifact.kind = .output k) :
    ∃ d, c.fill? key text = some d ∧ c.Rewritten d v.path key (.output k (some text)) ∧
      d.view v.path key = some { v with artifact := .output k (some text) } ∧
      d.find? key = d.view v.path key := by
  obtain ⟨o, ho, hview⟩ := find?_eq_some_iff.mp hfind
  obtain ⟨s, a, f, hs, ha, hf, rfl⟩ := view_eq_some_iff.mp hview
  refine ⟨{ c with stores := c.stores.insert o.path (s.put key (.output k (some text))) },
    h.fill?_eq_some_iff.mpr ⟨_, k, s, hfind, hk, hs, ha, rfl⟩,
    rewritten_insert_store hs ha _, ?_, ?_⟩
  · refine view_eq_some_iff.mpr ⟨s.put key (.output k (some text)), _, f, ?_, ?_, hf, rfl⟩
    · simp [OrderedMap.get?_insert]
    · simp [Store.put, OrderedMap.get?_insert]
  · simp [find?, ho]

end Catalog

namespace Workspace

/-- A text arrives, in any session. It is taken if and only if whatever answers for its path is an
output; otherwise nothing at all changes. If it is taken, then it is what the path answers with from
then on, both by way of the owner and in the owner's own store, and the answer is otherwise the one
from before. No other artifact changes, not even one that another source keeps for the same path; the
files, the owners, the stores with their keys and the order of all of them stay, and so do the
directories, the projects, what was asked for and what the resolver remembers. Whether it is taken or
not, the text of a source and an import are never altered. -/
theorem step_fill_rewrites_output (paths : Path.Resolver) (ops : List Op) (key text : String) :
    let w := (ofResolver paths).run ops
    let w' := w.step (.fill key text)
    ((w.fill? key text).isSome = true ↔
      ∃ v k, w.catalog.find? key = some v ∧ v.artifact.kind = .output k) ∧
    ((w.fill? key text).isSome = false → w' = w) ∧
    (∀ v k, w.catalog.find? key = some v → v.artifact.kind = .output k →
      w'.text? key = some text ∧
      w'.catalog.find? key = some { v with artifact := .output k (some text) } ∧
      w'.catalog.view v.path key = some { v with artifact := .output k (some text) } ∧
      w.catalog.Rewritten w'.catalog v.path key (.output k (some text)) ∧
      w' = { w with catalog := w'.catalog }) ∧
    ∀ p x a, w.catalog.artifact? p x = some a → (∀ k, a.kind ≠ .output k) →
      w'.catalog.artifact? p x = some a := by
  intro w w'
  have h : w.catalog.Consistent := run_catalog_consistent paths ops
  have hstep : w' = { w with catalog := w.catalog.step (.fill key text) } := w.step_fill key text
  have hcatalog : w'.catalog = (w.catalog.fill? key text).getD w.catalog := by
    rw [hstep]
    rfl
  have hsome : (w.fill? key text).isSome = (w.catalog.fill? key text).isSome := Option.isSome_map
  refine ⟨?taken, fun hnone => ?dropped, fun v k hfind hk => ?written, fun p x a ha hne => ?spared⟩
  case taken =>
    rw [hsome, Option.isSome_iff_exists]
    constructor
    · intro htaken
      obtain ⟨d, hd⟩ := htaken
      obtain ⟨v, k, s, hfind, hk, -⟩ := h.fill?_eq_some_iff.mp hd
      exact ⟨v, k, hfind, hk⟩
    · intro houtput
      obtain ⟨v, k, hfind, hk⟩ := houtput
      obtain ⟨d, hd, -⟩ := h.rewritten_fill text hfind hk
      exact ⟨d, hd⟩
  case dropped =>
    show (w.fill? key text).getD w = w
    rw [Option.isSome_eq_false_iff, Option.isNone_iff_eq_none] at hnone
    rw [hnone, Option.getD_none]
  case written =>
    obtain ⟨d, hd, hrewritten, hview, hfind'⟩ := h.rewritten_fill text hfind hk
    rw [hd, Option.getD_some] at hcatalog
    rw [text?, hcatalog, hfind', hview]
    refine ⟨rfl, rfl, rfl, hrewritten, ?_⟩
    rw [← hcatalog, hstep]
  case spared =>
    rw [hcatalog]
    cases hfill : w.catalog.fill? key text with
    | none => exact ha
    | some d => exact Catalog.artifact?_fill_of_kind_ne hfill ha hne

/-- Two sources announce the same script. The text goes to the one that is compiled. -/
example :
    let w := (inDir "/p").run
      [.source "/p/a.js" "a" ⟨.readOnly, "/p/a.js", "/p/tsconfig.json", ∅⟩,
        .announce "/p/a.js" "/p/out/a.js" (.output .script none),
        .source "/p/a.ts" "a" ⟨.compiled, "/p/a.ts", "/p/tsconfig.json", ∅⟩,
        .announce "/p/a.ts" "/p/out/a.js" (.output .script none),
        .fill "/p/out/a.js" "a;"]
    w.text? "/p/out/a.js" = some "a;" ∧
      w.catalog.artifact? "/p/a.ts" "/p/out/a.js" = some (.output .script (some "a;")) ∧
      w.catalog.artifact? "/p/a.js" "/p/out/a.js" = some (.output .script none) := by
  decide

end Workspace

end BuildRelay
