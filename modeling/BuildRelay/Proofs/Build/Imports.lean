/-
BuildRelay.Proofs.Build.Imports — the imports of a file, resolved one after the other.

The driver hands over all specifiers of a file at once. They are resolved in order, and where one of
them leads is recorded before the next one is looked at; recording an import may bring the importing
file into being, so a specifier that occurs twice may lead to two places. What is recorded in the end
is read off the answers alone: for each specifier the last place it led to. An import is kept beside
its importer and never claims a key, so nothing else in the catalog can tell that it was recorded.

* `Catalog.artifact?_recordImports` — what is recorded for a specifier.
* `Catalog.Annotated` — a catalog in which imports of one source may have been recorded.
* `Host.resolveImports_eq` — what resolving imports leaves in the catalog.
* `Host.resolveImports_records_answers` — the answers, and what is recorded of them, in every session.
-/
import BuildRelay.Proofs.Build.FileView
import BuildRelay.Proofs.Catalog.Kinds

namespace BuildRelay

/-- An import replaces whatever is kept under its specifier. -/
theorem Store.written_importLink (s : Store) (key : String) (link : ImportLink) :
    s.written key (.importLink link) = .importLink link := by
  unfold written
  split
  · rename_i old _
    cases old <;> rfl
  · rfl

namespace Catalog

variable {c d e : Catalog} {path key : String}

/-! ## Imports recorded in order -/

/-- The catalog after imports of a source have been recorded, each a specifier with where it leads. -/
def recordImports (c : Catalog) (path : String) (found : List (String × ImportLink)) : Catalog :=
  found.foldl (fun c e => (c.put path e.1 (.importLink e.2) none).2) c

theorem recordImports_cons (c : Catalog) (path specifier : String) (link : ImportLink)
    (found : List (String × ImportLink)) :
    c.recordImports path ((specifier, link) :: found) =
      (c.put path specifier (.importLink link) none).2.recordImports path found := rfl

/-- The last place that a specifier led to. -/
def lastLink? (found : List (String × ImportLink)) (specifier : String) : Option ImportLink :=
  ((found.filter fun e => e.1 = specifier).getLast?).map Prod.snd

theorem lastLink?_cons (specifier : String) (link : ImportLink) (found : List (String × ImportLink))
    (x : String) : lastLink? ((specifier, link) :: found) x =
      (lastLink? found x).or (if specifier = x then some link else none) := by
  by_cases hx : specifier = x
  · simp only [lastLink?, hx, List.filter_cons, decide_true, if_true, List.getLast?_cons]
    cases (found.filter fun e => e.1 = x).getLast? <;> rfl
  · simp [lastLink?, hx]

/-- What a source keeps under a specifier is the last link that was recorded for it, and without any
what it kept before. -/
theorem artifact?_recordImports (c : Catalog) (path : String) (found : List (String × ImportLink))
    (specifier : String) : (c.recordImports path found).artifact? path specifier =
      ((lastLink? found specifier).map Artifact.importLink).or (c.artifact? path specifier) := by
  induction found generalizing c with
  | nil => rfl
  | cons e found ih =>
    obtain ⟨s, link⟩ := e
    rw [recordImports_cons, ih, artifact?_put, lastLink?_cons, Store.written_importLink]
    by_cases hs : s = specifier
    · cases lastLink? found specifier <;> simp [hs]
    · cases lastLink? found specifier <;> simp [hs]

/-! ## What else changes -/

/-- `d` is the catalog `c`, except that imports of the source `path` may have been recorded. -/
structure Annotated (c d : Catalog) (path : String) : Prop where
  /-- No other source has its store opened or changed. -/
  others_kept : ∀ p, p ≠ path → d.stores.get? p = c.stores.get? p
  /-- A store that was there is still there, and belongs to the same file. -/
  file_kept : ∀ s, c.stores.get? path = some s →
    ∃ s', d.stores.get? path = some s' ∧ s'.file = s.file
  owners_kept : d.owners = c.owners
  /-- The files are those from before, in their order and with their records. One may have been added
  at the end: a placeholder for the source, if no file answered for it, and then it has a store. -/
  files_grow : ∃ added, d.files.entries = c.files.entries ++ added ∧
    d.nextId = c.nextId + added.length ∧
    (added = [] ∨ c.fileId? path = none ∧ d.stores.contains path = true ∧
      added = [(c.nextId, .placeholder path)])

namespace Annotated

theorem refl (c : Catalog) (path : String) : c.Annotated c path where
  others_kept := fun _ _ => rfl
  file_kept := fun s hs => ⟨s, hs, rfl⟩
  owners_kept := rfl
  files_grow := ⟨[], by simp, rfl, .inl rfl⟩

/-- If nobody answers for the source afterwards, then nobody did before. -/
theorem fileId?_eq_none (h : c.Annotated d path) (hd : d.fileId? path = none) :
    c.fileId? path = none := by
  simp only [fileId?, Option.or_eq_none_iff, Option.map_eq_none_iff] at hd ⊢
  refine ⟨?_, h.owners_kept ▸ hd.2⟩
  cases hs : c.stores.get? path with
  | none => rfl
  | some s =>
    obtain ⟨s', hs', -⟩ := h.file_kept s hs
    rw [hd.1] at hs'
    cases hs'

theorem trans (h : c.Annotated d path) (h' : d.Annotated e path) : c.Annotated e path where
  others_kept := fun p hp => (h'.others_kept p hp).trans (h.others_kept p hp)
  file_kept := by
    intro s hs
    obtain ⟨s', hs', hfile⟩ := h.file_kept s hs
    obtain ⟨s'', hs'', hfile'⟩ := h'.file_kept s' hs'
    exact ⟨s'', hs'', hfile'.trans hfile⟩
  owners_kept := h'.owners_kept.trans h.owners_kept
  files_grow := by
    obtain ⟨added, hfiles, hnext, hadded⟩ := h.files_grow
    obtain ⟨added', hfiles', hnext', hadded'⟩ := h'.files_grow
    refine ⟨added ++ added', by rw [hfiles', hfiles, List.append_assoc],
      by rw [hnext', hnext, List.length_append, Nat.add_assoc], ?_⟩
    rcases hadded with rfl | ⟨hnone, hstore, rfl⟩
    · rcases hadded' with rfl | ⟨hnone', hstore', rfl⟩
      · exact .inl rfl
      · exact .inr ⟨h.fileId?_eq_none hnone', hstore', by simp [hnext]⟩
    · -- The source has a store by now, so somebody answers for it.
      obtain ⟨s, hs⟩ := OrderedMap.contains_iff.mp hstore
      obtain ⟨s', hs', -⟩ := h'.file_kept s hs
      rcases hadded' with rfl | ⟨hnone', -⟩
      · exact .inr ⟨hnone, OrderedMap.contains_of_get? hs', List.append_nil _⟩
      · simp [fileId?, hs] at hnone'

/-- Whatever the source keeps unchanged is seen as it was seen before, with the same file. -/
theorem view_eq (h : c.Annotated d path) (ha : d.artifact? path key = c.artifact? path key) :
    d.view path key = c.view path key := by
  cases hs : c.stores.get? path with
  | none =>
    have hnone : d.artifact? path key = none := by
      rw [ha, artifact?, hs, Option.bind_none]
    have hview : d.view path key = none := by
      rw [Option.eq_none_iff_forall_ne_some]
      intro v hv
      obtain ⟨s', a, f, hs', hkey, -, -⟩ := view_eq_some_iff.mp hv
      simp [artifact?, hs', hkey] at hnone
    rw [hview]
    simp [view, hs]
  | some s =>
    obtain ⟨s', hs', hfile⟩ := h.file_kept s hs
    have hfiles : d.files = c.files := by
      obtain ⟨added, hentries, -, rfl | ⟨hnone, -⟩⟩ := h.files_grow
      · exact OrderedMap.ext (by simpa using hentries)
      · simp [fileId?, hs] at hnone
    have hkey : s'.artifacts.get? key = s.artifacts.get? key := by
      simpa [artifact?, hs, hs'] using ha
    simp [view, hs, hs', hfile, hfiles, hkey]

end Annotated

/-- Recording an import opens the store of the importer if need be, and brings a file into being only
if none answers for it. -/
theorem Consistent.annotated_put (h : Consistent c) (path specifier : String) (link : ImportLink) :
    c.Annotated (c.put path specifier (.importLink link) none).2 path where
  others_kept := fun p hp => by rw [get?_stores_put, if_neg hp]
  file_kept := by
    intro s hs
    obtain ⟨s', hs', hfile, -⟩ := Consistent.store_put c hs specifier (.importLink link) none
    exact ⟨s', hs', hfile⟩
  owners_kept := by
    rw [owners_put, if_neg]
    intro hclaims
    cases hclaims.1.2
  files_grow := by
    have hstore : (c.put path specifier (.importLink link) none).2.stores.contains path = true :=
      OrderedMap.contains_of_get? (c.get?_stores_put_self path specifier _ none)
    rw [files_put, nextId_put]
    obtain ⟨s, -, -, he⟩ | ⟨s, f, -, hnone, -⟩ | ⟨o, -, -, -, he⟩ | ⟨hs, ho, he⟩ :=
      c.enroll_cases path none
    · exact ⟨[], by simp [he], by simp [he], .inl rfl⟩
    · cases hnone
    · exact ⟨[], by simp [he], by simp [he], .inl rfl⟩
    · have hfresh : c.files.contains c.nextId = false := by
        rw [Bool.eq_false_iff]
        intro hlive
        exact Nat.lt_irrefl _ (h.id_lt c.nextId hlive)
      refine ⟨[(c.nextId, .placeholder path)], ?_, by simp [he], .inr ⟨?_, hstore, rfl⟩⟩
      · rw [he]
        exact OrderedMap.entries_insert_of_not_contains hfresh _
      · simp [fileId?, hs, ho rfl]

theorem Consistent.annotated_recordImports (h : Consistent c) (path : String)
    (found : List (String × ImportLink)) : c.Annotated (c.recordImports path found) path := by
  induction found generalizing c with
  | nil => exact .refl c path
  | cons e found ih =>
    obtain ⟨specifier, link⟩ := e
    rw [recordImports_cons]
    exact (h.annotated_put path specifier link).trans (ih (h.put path specifier _ none))

theorem Consistent.recordImports (h : Consistent c) (path : String)
    (found : List (String × ImportLink)) : (c.recordImports path found).Consistent :=
  List.foldlRecOn found _ h fun _ hc e _ => hc.put path e.1 _ none

end Catalog

namespace Host

/-! ## Resolving in order -/

/-- The specifiers that led somewhere, in order, with where they led. -/
def found (specifiers : List String) (answers : List (Option ImportLink)) :
    List (String × ImportLink) :=
  (specifiers.zip answers).filterMap fun e => e.2.map fun link => (e.1, link)

section Resolve

variable (h : Host) (importer : String) (options : Options)

/-- Resolving one import records its answer, and changes nothing else about the host. -/
theorem resolveImport_eq (specifier : String) :
    h.resolveImport importer options specifier =
      (h.resolution specifier importer options h.fileSystem,
        h.onWorkspace fun w => { w with
          catalog := w.catalog.recordImports importer
            (found [specifier] [h.resolution specifier importer options h.fileSystem]) }) := by
  unfold resolveImport
  cases h.resolution specifier importer options h.fileSystem <;> rfl

theorem resolveImports_cons (specifier : String) (rest : List String) :
    h.resolveImports importer options (specifier :: rest) =
      ((h.resolveImport importer options specifier).1 ::
        ((h.resolveImport importer options specifier).2.resolveImports importer options rest).1,
      ((h.resolveImport importer options specifier).2.resolveImports importer options rest).2) :=
  rfl

/-- Every answer is that of the resolution, given the file system as the specifiers before it have
left it. -/
theorem answers_resolveImports (specifiers : List String) :
    (h.resolveImports importer options specifiers).1 = specifiers.mapIdx fun i specifier =>
      h.resolution specifier importer options
        (h.resolveImports importer options (specifiers.take i)).2.fileSystem := by
  induction specifiers generalizing h with
  | nil => rfl
  | cons specifier rest ih =>
    have hrest := ih (h.resolveImport importer options specifier).2
    have hresolution : (h.resolveImport importer options specifier).2.resolution = h.resolution := by
      rw [resolveImport_eq]
      rfl
    rw [hresolution] at hrest
    rw [resolveImports_cons, List.mapIdx_cons, hrest]
    simp only [resolveImport_eq, List.take_zero, List.take_succ_cons, resolveImports_cons]
    rfl

/-- What is left is what the answers say, recorded in order. -/
theorem resolveImports_eq (specifiers : List String) :
    (h.resolveImports importer options specifiers).2 = h.onWorkspace fun w => { w with
      catalog := w.catalog.recordImports importer
        (found specifiers (h.resolveImports importer options specifiers).1) } := by
  induction specifiers generalizing h with
  | nil => rfl
  | cons specifier rest ih =>
    rw [resolveImports_cons, ih, resolveImport_eq]
    cases h.resolution specifier importer options h.fileSystem <;> rfl

end Resolve

open Catalog (lastLink?)

/-- Imports of a file are resolved, in any session. There is one answer for each specifier, which is
just what the resolution says, given the file system as it is after the specifiers before. Afterwards,
if some answer for a specifier leads somewhere, what is recorded for it is the last such answer, as a
whole; for any other specifier the file keeps what it kept before, be it an import or not. Of all else,
no store of another source changes, no key gets or changes its owner, no record of a file changes and
no file is added but a placeholder for the importer, if no file answered for it; the rest of the
workspace and of the host stays as it was. -/
theorem resolveImports_records_answers (paths : Path.Resolver) (ops : List Workspace.Op) (h : Host)
    (hsession : h.workspace = (Workspace.ofResolver paths).run ops) (importer : String)
    (options : Options) (specifiers : List String) :
    let o := h.resolveImports importer options specifiers
    let w := h.workspace
    let w' := o.2.workspace
    o.1 = specifiers.mapIdx (fun i specifier => h.resolution specifier importer options
      (h.resolveImports importer options (specifiers.take i)).2.fileSystem) ∧
    (∀ x link, lastLink? (found specifiers o.1) x = some link → ∃ v,
      w'.import? importer x = some v ∧ v.path = importer ∧ v.key = x ∧
        v.artifact = .importLink link) ∧
    (∀ x, lastLink? (found specifiers o.1) x = none →
      w'.import? importer x = w.import? importer x ∧
        w'.catalog.view importer x = w.catalog.view importer x) ∧
    w.catalog.Annotated w'.catalog importer ∧
    o.2 = { h with workspace := { w with catalog := w'.catalog } } := by
  intro o w w'
  have hconsistent : w.catalog.Consistent := by
    show h.workspace.catalog.Consistent
    rw [hsession]
    exact Workspace.run_catalog_consistent paths ops
  have hafter : o.2 = h.onWorkspace fun w => { w with
      catalog := w.catalog.recordImports importer (found specifiers o.1) } :=
    h.resolveImports_eq importer options specifiers
  have hcatalog : w'.catalog = w.catalog.recordImports importer (found specifiers o.1) :=
    congrArg (fun h : Host => h.workspace.catalog) hafter
  have hconsistent' : w'.catalog.Consistent := hcatalog ▸ hconsistent.recordImports importer _
  have hannotated : w.catalog.Annotated w'.catalog importer :=
    hcatalog ▸ hconsistent.annotated_recordImports importer _
  have hkept : ∀ x, w'.catalog.artifact? importer x =
      ((lastLink? (found specifiers o.1) x).map Artifact.importLink).or
        (w.catalog.artifact? importer x) := by
    intro x
    rw [hcatalog, Catalog.artifact?_recordImports]
  refine ⟨h.answers_resolveImports importer options specifiers, fun x link hlast => ?recorded,
    fun x hnone => ?others, hannotated, ?rest⟩
  case recorded =>
    have hartifact : w'.catalog.artifact? importer x = some (.importLink link) := by
      rw [hkept, hlast]
      rfl
    obtain ⟨s, f, -, -, hview⟩ := hconsistent'.view_of_artifact? hartifact
    exact ⟨_, by rw [Workspace.import?, hview]; rfl, rfl, rfl, rfl⟩
  case others =>
    have hview : w'.catalog.view importer x = w.catalog.view importer x :=
      hannotated.view_eq (by rw [hkept, hnone]; rfl)
    exact ⟨by rw [Workspace.import?, Workspace.import?, hview], hview⟩
  case rest =>
    rw [hafter, hcatalog]
    rfl

/-- A host whose resolution prefers sources, but only for importers that it can see. -/
def preferringSources : Host where
  workspace := (Workspace.inDir "/p").run
    [.source "/p/b.ts" "" ⟨.compiled, "/p/b.ts", "/p/tsconfig.json", ∅⟩]
  disk := .ofFile "/p/b.ts" ""
  resolution := fun specifier importer _ files =>
    if specifier = "./missing" then none
    else if files.fileExists importer then some ⟨"/p/b.ts", ".ts", false, none⟩
    else some ⟨"/p/b.d.ts", ".d.ts", true, none⟩
  overrides := none
  projects := ∅
  active := none

/-- The importer is unknown. Once its first import has been recorded it can be seen, so the same
specifier leads to another place the second time, and that is what is recorded. -/
theorem resolveImports_records_answers_of_repetition :
    let o := preferringSources.resolveImports "/lib/x.ts" ∅ ["./b", "./missing", "./b"]
    o.1 = [some ⟨"/p/b.d.ts", ".d.ts", true, none⟩, none, some ⟨"/p/b.ts", ".ts", false, none⟩] ∧
    (∃ v, o.2.workspace.import? "/lib/x.ts" "./b" = some v ∧
      v.artifact = .importLink ⟨"/p/b.ts", ".ts", false, none⟩) ∧
    o.2.workspace.import? "/lib/x.ts" "./missing" = none ∧
    o.2.workspace.catalog.owners = preferringSources.workspace.catalog.owners := by
  intro o
  have hanswers : o.1 =
      [some ⟨"/p/b.d.ts", ".d.ts", true, none⟩, none, some ⟨"/p/b.ts", ".ts", false, none⟩] := by
    decide
  obtain ⟨-, hrecorded, hothers, hannotated, -⟩ := resolveImports_records_answers (.inDir "/p") _
    preferringSources rfl "/lib/x.ts" ∅ ["./b", "./missing", "./b"]
  obtain ⟨v, hv, -, -, hlink⟩ := hrecorded "./b" ⟨"/p/b.ts", ".ts", false, none⟩ (by decide)
  exact ⟨hanswers, ⟨v, hv, hlink⟩, (hothers "./missing" (by decide)).1.trans (by decide),
    hannotated.owners_kept⟩

end Host

end BuildRelay
