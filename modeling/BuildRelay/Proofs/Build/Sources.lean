/-
BuildRelay.Proofs.Build.Sources — what a refresh leaves of the sources of a project.

The driver answers a refresh with files of all kinds. Those that come from an external library or
from the default library are none of the project's; every other one is a source of its own, and is
registered with its text and with a record that names the project and its options. The driver may
ask the host for much before it answers, but no question of its own makes a project active or gives
it a file. So the sources that a refresh registers all go to the project that it is about.

* `Project.Owns`, `Project.registration` — which sources are a project's own, and what is registered
  for one.
* `Project.Registers` — the operations by which a project registers sources.
* `Workspace.HasSource` — a project has the file of a source path, under its name and options.
* `Registered`, `registered_refresh` — a refresh that succeeds registers the sources of its project,
  and gives the project all of them.
-/
import BuildRelay.Proofs.Build.Supply
import BuildRelay.Proofs.Catalog.Repetition
import BuildRelay.Proofs.Workspace.Projects

namespace BuildRelay

/-! ## What a project registers -/

namespace Project

open Workspace (Op)

/-- A source is a project's own if it comes neither from an external library nor from the default
library. -/
def Owns (p : Project) (s : SourceFile) : Prop :=
  p.isExternal s = false ∧ p.isDefaultLib s = false

instance (p : Project) (s : SourceFile) : Decidable (p.Owns s) :=
  inferInstanceAs (Decidable (_ ∧ _))

/-- The registration of a source of a project: its text, and a record with the project and its
options. Typings are read and never compiled. -/
def registration (p : Project) (s : SourceFile) : Op :=
  .source s.fileName s.text
    { kind := if s.isTypings then .readOnly else .compiled
      fileName := s.fileName
      project := p.id
      options := p.options }

/-- The operations by which a project registers sources: each source in turn is registered, and
then outputs may be announced for it, still without a text. -/
inductive Registers (p : Project) : List SourceFile → List Op → Prop where
  | nil : Registers p [] []
  | cons (s : SourceFile) {sources : List SourceFile} {announced ops : List Op}
    (hannounced : ∀ op ∈ announced, ∃ key k, op = .announce s.fileName key (.output k none))
    (hrest : Registers p sources ops) :
    Registers p (s :: sources) (p.registration s :: (announced ++ ops))

end Project

theorem Builder.ownSources_eq (p : Project) (files : List SourceFile) :
    ownSources p files = files.filter fun s => p.Owns s :=
  List.filter_congr fun s _ => by
    cases h : p.isExternal s <;> cases h' : p.isDefaultLib s <;> simp [Project.Owns, h, h']

namespace Builder

variable (naming : OutputNaming) (ignoreCase : Bool) (p : Project)

theorem announceOutputs_eq_run (names : OutputNames) (path : String) (w : Workspace) :
    announceOutputs names path w =
      w.run (names.toList.map fun e => .announce path e.2 (.output e.1 none)) := by
  rw [Workspace.run, List.foldl_map]
  rfl

/-- A source is registered, and then the outputs of it are announced if it is compiled. -/
theorem exists_registerSource_eq_run (w : Workspace) (s : SourceFile) :
    ∃ announced : List Workspace.Op,
      (∀ op ∈ announced, ∃ key k, op = .announce s.fileName key (.output k none)) ∧
      registerSource naming ignoreCase p w s = w.run (p.registration s :: announced) := by
  simp only [registerSource]
  split
  · refine ⟨_, fun op hop => ?_, announceOutputs_eq_run ..⟩
    obtain ⟨e, -, rfl⟩ := List.mem_map.mp hop
    exact ⟨e.2, e.1, rfl⟩
  · exact ⟨[], fun _ hop => absurd hop List.not_mem_nil, rfl⟩

/-- Registering sources one after the other is such operations, and no others. -/
theorem exists_registerSources_eq_run (sources : List SourceFile) (w : Workspace) :
    ∃ ops, p.Registers sources ops ∧
      sources.foldl (registerSource naming ignoreCase p) w = w.run ops := by
  induction sources generalizing w with
  | nil => exact ⟨[], .nil, rfl⟩
  | cons s sources ih =>
    obtain ⟨announced, hannounced, hfirst⟩ := exists_registerSource_eq_run naming ignoreCase p w s
    obtain ⟨ops, hops, hrest⟩ := ih (registerSource naming ignoreCase p w s)
    refine ⟨_, .cons s hannounced hops, ?_⟩
    rw [List.foldl_cons, hrest, hfirst, ← List.cons_append, Workspace.run_append]

end Builder

/-! ## The sources of a project -/

namespace Workspace

/-- A source path has a store, the file of that store is one of a project's, and its record names
the project and its options. -/
def HasSource (w : Workspace) (p : Project) (path : String) : Prop :=
  ∃ s, w.catalog.stores.get? path = some s ∧ s.file ∈ w.tracked p.id ∧
    ∀ f, w.catalog.files.get? s.file = some f → f.project = p.id ∧ f.options = p.options

variable {w : Workspace} {p : Project} {path : String}

/-- A source that is registered for the active project, under its name and options, is one that the
project has. -/
theorem hasSource_source (hactive : w.active = some p.id) (path text : String) {file : File}
    (hfile : file.project = p.id ∧ file.options = p.options) :
    (w.step (.source path text file)).HasSource p path := by
  have hput := w.catalog.recorded_put path path (.source text) (some file)
  have hid := w.catalog.id_put path path (.source text) (some file)
  refine ⟨_, (congrArg (·.stores.get? path) (catalog_registerSource ..)).trans hput.store, ?_, ?_⟩
  · rw [Store.file_put, ← hid]
    exact mem_tracked_track.mpr (.inr ⟨hactive, rfl⟩)
  · intro f hf
    rw [step, catalog_registerSource] at hf
    rwa [← hput.record file rfl f hf]

/-- A project keeps the sources that it has through whatever the catalog takes in, as long as the
records that come with it are its own. -/
theorem HasSource.of_put {w' : Workspace} (h : w.HasSource p path) {other key : String} {a : Artifact}
    {file : Option File} (hcatalog : w'.catalog = (w.catalog.put other key a file).2)
    (htracked : ∀ id ∈ w.tracked p.id, id ∈ w'.tracked p.id)
    (hrecords : ∀ id f, (w.catalog.put other key a file).2.files.get? id = some f →
      w.catalog.files.get? id = some f ∨ f.project = p.id ∧ f.options = p.options) :
    w'.HasSource p path := by
  obtain ⟨s, hs, hmem, hrecord⟩ := h
  have hown (f : File) (hf : w'.catalog.files.get? s.file = some f) :
      f.project = p.id ∧ f.options = p.options := by
    rw [hcatalog] at hf
    exact (hrecords s.file f hf).elim (hrecord f) id
  by_cases hpath : path = other
  · subst hpath
    obtain ⟨s', hs', hsame, -⟩ := Catalog.Consistent.store_put w.catalog hs key a file
    exact ⟨s', by rw [hcatalog, hs'], hsame ▸ htracked _ hmem, hsame ▸ hown⟩
  · have hstore : w'.catalog.stores.get? path = some s := by
      rw [hcatalog, Catalog.get?_stores_put, if_neg hpath, hs]
    exact ⟨s, hstore, htracked _ hmem, hown⟩

/-- A project that registers another source keeps those that it has: where the other one replaces
a record, it is with one of the same project. -/
theorem HasSource.source (h : w.HasSource p path) (other text : String) {file : File}
    (hfile : file.project = p.id ∧ file.options = p.options) :
    (w.step (.source other text file)).HasSource p path := by
  refine h.of_put (catalog_registerSource ..) (fun _ hid => mem_tracked_track.mpr (.inl hid)) ?_
  intro id f hf
  rcases Catalog.get?_files_put_some hf with rfl | hold
  · exact .inr hfile
  · exact .inl hold

/-- What is announced for a source that has a store changes no file. -/
theorem HasSource.announce (h : w.HasSource p path) {other : String} (hother : w.HasSource p other)
    (key : String) (a : Artifact) : (w.step (.announce other key a)).HasSource p path := by
  obtain ⟨t, ht, -⟩ := hother
  have hfiles : (w.catalog.put other key a none).2.files = w.catalog.files :=
    Catalog.files_put_none_of_store ht
  exact h.of_put rfl (fun _ hid => hid) fun id f hf => .inl (hfiles ▸ hf)

theorem run_announced {other : String} (hactive : w.active = some p.id)
    (hother : w.HasSource p other) {announced : List Op}
    (hannounced : ∀ op ∈ announced, ∃ key k, op = .announce other key (.output k none)) :
    (w.run announced).active = some p.id ∧
      ∀ path, w.HasSource p path → (w.run announced).HasSource p path := by
  refine List.foldlRecOn (motive := fun v : Workspace => v.active = some p.id ∧
    ∀ path, w.HasSource p path → v.HasSource p path) announced step ⟨hactive, fun _ h => h⟩ ?_
  rintro v ⟨hv, hkeep⟩ op hop
  obtain ⟨key, k, rfl⟩ := hannounced op hop
  exact ⟨(v.active_step _).trans hv, fun path h => (hkeep path h).announce (hkeep other hother) key _⟩

end Workspace

/-- An active project that registers sources has all of them then, and those that it had before. -/
theorem Project.Registers.hasSource_run {p : Project} {sources : List SourceFile}
    {ops : List Workspace.Op} (h : p.Registers sources ops) {w : Workspace}
    (hactive : w.active = some p.id) {path : String}
    (hpath : w.HasSource p path ∨ ∃ s ∈ sources, s.fileName = path) :
    (w.run ops).HasSource p path := by
  induction h generalizing w with
  | nil =>
    rcases hpath with hold | ⟨t, ht, -⟩
    · exact hold
    · cases ht
  | @cons s sources announced ops hannounced _ ih =>
    have hfirst : (w.step (p.registration s)).HasSource p s.fileName :=
      Workspace.hasSource_source hactive _ _ ⟨rfl, rfl⟩
    obtain ⟨hstill, hkeep⟩ := Workspace.run_announced
      ((w.active_step (p.registration s)).trans hactive) hfirst hannounced
    show ((w.step (p.registration s)).run (announced ++ ops)).HasSource p path
    rw [Workspace.run_append]
    refine ih hstill ?_
    rcases hpath with hold | ⟨t, ht, rfl⟩
    · exact .inl (hkeep path (hold.source _ _ ⟨rfl, rfl⟩))
    · rcases List.mem_cons.mp ht with rfl | hlater
      · exact .inl (hkeep _ hfirst)
      · exact .inr ⟨t, hlater, rfl⟩

/-! ## A refresh -/

namespace Builder

/-- The builder with what a project registered before dropped. -/
def resetting (p : Project) (b : Builder) : Builder := b.onWorkspace fun w => w.resetProject p.id

variable {p : Project} {b s : Builder} {v : List BuildEvent}

/-- A refresh fails with the driver, before anything is registered. -/
theorem refresh_of_error {e : BuildError}
    (h : runProgram p.sources (resetting p b) = ⟨.error e, s, v⟩) :
    refresh p b = ⟨.error e, s, .reset p.id :: .sourcesAsked p.id :: v⟩ := by
  simp only [resetting] at h
  simp [refresh, Action.modify, Action.tell, Bind.bind, Action.bind, h]

/-- A refresh registers the project's own among the files that the driver answers with. -/
theorem refresh_of_ok {files : List SourceFile}
    (h : runProgram p.sources (resetting p b) = ⟨.ok files, s, v⟩) :
    refresh p b = ⟨.ok (), registerSources p (files.filter fun t => p.Owns t) s,
      .reset p.id :: .sourcesAsked p.id :: (v ++
        [.registered p.id ((files.filter fun t => p.Owns t).map SourceFile.fileName)])⟩ := by
  simp only [resetting] at h
  rw [← ownSources_eq]
  simp [refresh, Action.modify, Action.tell, Bind.bind, Action.bind, h]

/-- The driver was asked for the sources of a project and answered. Then each file of its answer that
comes from no library was registered, in order, and beyond that nothing but outputs of theirs was
announced; so the project has all of them. -/
def Registered (p : Project) (asked now : Builder) : Prop :=
  ∃ files, (runProgram p.sources (resetting p asked)).result = .ok files ∧
    (∃ ops, p.Registers (files.filter fun s => p.Owns s) ops ∧
      now.host.workspace =
        (runProgram p.sources (resetting p asked)).state.host.workspace.run ops) ∧
    ∀ s ∈ files, p.isExternal s = false → p.isDefaultLib s = false →
      now.host.workspace.HasSource p s.fileName

/-- A refresh that succeeds registers the sources of its project. -/
theorem registered_refresh {files : List SourceFile}
    (h : (runProgram p.sources (resetting p b)).result = .ok files) :
    Registered p b (refresh p b).state := by
  rcases hanswer : runProgram p.sources (resetting p b) with ⟨result, s, v⟩
  have hstate : s = (runProgram p.sources (resetting p b)).state := by rw [hanswer]
  rw [hanswer] at h
  cases h
  obtain ⟨ops, hops, hrun⟩ := exists_registerSources_eq_run s.naming (!s.host.disk.caseSensitive) p
    (files.filter fun t => p.Owns t) s.host.workspace
  have hnow : (refresh p b).state.host.workspace = s.host.workspace.run ops := by
    rw [refresh_of_ok hanswer]
    exact hrun
  -- No question of the driver makes another project active.
  have hactive : s.host.workspace.active = some p.id := by
    rw [hstate]
    exact (p.sources.answered_run (resetting p b).host).active_eq
  refine ⟨files, by rw [hanswer], ⟨ops, hops, by rw [hnow, hanswer]⟩, fun t ht hown hown' => ?_⟩
  rw [hnow]
  exact hops.hasSource_run hactive
    (.inr ⟨t, List.mem_filter.mpr ⟨ht, decide_eq_true ⟨hown, hown'⟩⟩, rfl⟩)

end Builder

end BuildRelay
