/-
BuildRelay.Proofs.Bundle.Chunks — the entries that a start adds for sources nobody asked for.

After everything has been built, a start may make an entry of every source that has compiled text to
come, in the order in which the catalog lists them. The entry is named by the way from the root
directory of the source to the source. That way can be gone: resolved from the root directory, the
name leads back to the source, so that no two sources below one root share a name. Unlike the
typings at the end, entries are made one by one, and those before a source without root directory
stay.

* `IsChunkOf` — a source, as it becomes an entry.
* `Traceable` — the sources that the name of their entry leads back to.
* `buildStart_after_build` — a start is the build, and then the entries.
* `buildStart_adds_entries` — what a start adds to the bundle, and what it leaves.
-/
import BuildRelay.Output.Layout
import BuildRelay.Proofs.Bundle.Reach
import BuildRelay.Proofs.Path.Detour

namespace BuildRelay

namespace Adapter

open BuildRelay.Action (Leaves Composes)

variable {a : Adapter} {cwd rootDir : String}

/-! ## Names of entries -/

/-- The name of the entry for a source: the way to it from a root directory. -/
def chunkId (cwd rootDir path : String) : String :=
  Path.relative (Path.resolve cwd rootDir) path

/-- A source whose path is canonical, on the root of its root directory, and without a name that
starts like a drive. -/
structure Traceable (cwd rootDir path : String) : Prop where
  canonical : Path.IsCanonical path
  root : (Path.locate (Path.resolve cwd rootDir)).drive = (Path.locate path).drive
  plain : (Path.locate path).PlainNames

/-- The options of a source name a root directory. -/
def HasRootDir (v : View) : Prop := v.file.options.rootDir.isSome

instance : DecidablePred HasRootDir := fun v =>
  inferInstanceAs (Decidable (v.file.options.rootDir.isSome = true))

/-- A source, as it becomes an entry. -/
def IsChunkOf (cwd : String) (v : View) (e : BundleEvent) : Prop :=
  ∃ rootDir, v.file.options.rootDir = some rootDir ∧ e = .chunk (chunkId cwd rootDir v.path) true

theorem IsChunkOf.unique {v : View} {e e' : BundleEvent} (h : IsChunkOf cwd v e)
    (h' : IsChunkOf cwd v e') : e = e' := by
  obtain ⟨rootDir, hroot, rfl⟩ := h
  obtain ⟨_, hroot', rfl⟩ := h'
  cases Option.some.inj (hroot.symm.trans hroot')
  rfl

/-- The name of an entry leads back to its source. -/
theorem IsChunkOf.resolve_id {v : View} {id : String} (h : IsChunkOf cwd v (.chunk id true))
    (hcwd : Path.IsCanonical cwd) (hroot : v.file.options.rootDir = some rootDir)
    (htrace : Traceable cwd rootDir v.path) :
    Path.resolve (Path.resolve cwd rootDir) id = v.path := by
  obtain ⟨_, hroot', hid⟩ := h
  cases Option.some.inj (hroot.symm.trans hroot')
  rw [(BundleEvent.chunk.inj hid).1]
  exact Path.resolve_relative (hcwd.resolved rootDir) htrace.canonical htrace.root htrace.plain

/-! ## Making entries -/

theorem emitChunks_cons {v : View} (hroot : v.file.options.rootDir = some rootDir)
    (rest : List View) :
    emitChunks (v :: rest) a =
      let o := emitChunks rest (a.onWorkspace fun _ => (a.workspace.resolve rootDir).2)
      ⟨o.result, o.state,
        .chunk (Path.relative (a.workspace.resolve rootDir).1 v.path) true :: o.trace⟩ := by
  rw [emitChunks, hroot]
  rfl

/-- Sources with root directories become entries, and then come the others. -/
theorem exists_emitChunks_append (h : a.workspace.Reached cwd) {views : List View}
    (hroots : ∀ v ∈ views, HasRootDir v) (rest : List View) :
    ∃ chunks a', List.Forall₂ (IsChunkOf cwd) views chunks ∧
      emitChunks (views ++ rest) a = ⟨(emitChunks rest a').result, (emitChunks rest a').state,
        chunks ++ (emitChunks rest a').trace⟩ := by
  induction views generalizing a with
  | nil => exact ⟨[], a, .nil, rfl⟩
  | cons v more ih =>
    rw [List.forall_mem_cons] at hroots
    obtain ⟨rootDir, hroot⟩ := Option.isSome_iff_exists.mp hroots.1
    have hnext : (a.onWorkspace fun _ => (a.workspace.resolve rootDir).2).workspace.Reached cwd :=
      h.run [.resolve rootDir]
    obtain ⟨chunks, a', hchunks, hmore⟩ := ih hnext hroots.2
    refine ⟨.chunk (chunkId cwd rootDir v.path) true :: chunks, a',
      .cons ⟨rootDir, hroot, rfl⟩ hchunks, ?_⟩
    rw [List.cons_append, emitChunks_cons hroot, hmore, h.fst_resolve]
    rfl

/-- If every source has a root directory, all of them become entries. -/
theorem emitChunks_of_hasRootDir (h : a.workspace.Reached cwd) {views : List View}
    (hroots : ∀ v ∈ views, HasRootDir v) : (emitChunks views a).result = .ok () ∧
      List.Forall₂ (IsChunkOf cwd) views (emitChunks views a).trace := by
  obtain ⟨chunks, a', hchunks, heq⟩ := exists_emitChunks_append h hroots []
  rw [List.append_nil] at heq
  rw [heq]
  exact ⟨rfl, (List.append_nil chunks).symm ▸ hchunks⟩

/-- A source without root directory is refused; those before it have become entries. -/
theorem emitChunks_of_not_hasRootDir (h : a.workspace.Reached cwd) {before : List View} {v : View}
    (hroots : ∀ u ∈ before, HasRootDir u) (hv : ¬HasRootDir v) (after : List View) :
    (emitChunks (before ++ v :: after) a).result = .error (.noRootDir v.path) ∧
      List.Forall₂ (IsChunkOf cwd) before (emitChunks (before ++ v :: after) a).trace := by
  obtain ⟨chunks, a', hchunks, heq⟩ := exists_emitChunks_append h hroots (v :: after)
  have hrefused : emitChunks (v :: after) a' = ⟨.error (.noRootDir v.path), a', []⟩ := by
    rw [emitChunks, Option.not_isSome_iff_eq_none.mp hv]
    rfl
  rw [heq, hrefused]
  exact ⟨rfl, (List.append_nil chunks).symm ▸ hchunks⟩

/-! ## A start -/

/-- The settings are kept, and nothing is put into the bundle. -/
def OnlyBuilds (a a' : Adapter) (trace : List BundleEvent) : Prop :=
  a'.settings = a.settings ∧ ∃ events : List BuildEvent, trace = events.map .build

theorem onlyBuilds_composes : Composes OnlyBuilds where
  refl a := ⟨rfl, [], rfl⟩
  trans := by
    rintro a a' a'' - - ⟨hkept, events, rfl⟩ ⟨hkept', events', rfl⟩
    exact ⟨hkept'.trans hkept, events ++ events', List.map_append.symm⟩

theorem onlyBuilds_buildAll (watch : Bool) : Leaves OnlyBuilds (buildAll watch) := by
  have hbuilding : ∀ x : BuildAction Builder Unit, Leaves OnlyBuilds (building x) :=
    fun x a => ⟨rfl, (x a.builder).trace, rfl⟩
  unfold buildAll
  refine onlyBuilds_composes.bind (hbuilding _) fun _ => ?_
  exact onlyBuilds_composes.bind (fun a => ⟨rfl, [], rfl⟩) fun _ => hbuilding _

/-- After a build that has come to an end, nothing has been asked for. -/
theorem consumed_buildAll {watch : Bool} (h : (buildAll watch a).result = .ok ()) :
    (buildAll watch a).state.workspace.consumed = [] := by
  have hrest : ∀ a : Adapter, (building Builder.build
      (a.onWorkspace Workspace.resetConsumed)).state.workspace.consumed = [] :=
    fun a => (Builder.supplied_build _).consumed_eq
  rw [buildAll, Action.state_bind]
  cases hmode : (building (Builder.setMode (.ofWatch watch)) a).result with
  | error e =>
    simp only [buildAll, Bind.bind, Action.bind, hmode] at h
    cases h
  | ok _ =>
    dsimp only
    rw [Action.state_bind]
    exact hrest _

theorem emitUnused_of_includeUnused (h : a.settings.includeUnused = true) :
    emitUnused a = emitChunks (a.workspace.catalog.ofKind (.output .script)) a := by
  simp only [emitUnused, Bind.bind, Action.bind, Action.get, h, if_true, List.nil_append]

/-- After a build that has come to an end, a start is the build, and then the entries. -/
theorem buildStart_after_build (hunused : a.settings.includeUnused = true) {watch : Bool}
    (h : (buildAll watch a).result = .ok ()) :
    buildStart watch a =
      let ran := buildAll watch a
      let o := emitChunks (ran.state.workspace.catalog.ofKind (.output .script)) ran.state
      ⟨o.result, o.state, ran.trace ++ o.trace⟩ := by
  have hran : buildAll watch a =
      ⟨.ok (), (buildAll watch a).state, (buildAll watch a).trace⟩ := by
    rw [← h]
  have hkept : (buildAll watch a).state.settings.includeUnused = true := by
    rw [(onlyBuilds_buildAll watch a).1, hunused]
  rw [buildStart_eq, Action.bind_of_ok hran, emitUnused_of_includeUnused hkept]

/-- What a start adds to the bundle, if it is to add the sources that nobody has asked for. Take a
build that has come to an end, and list the sources that the catalog then has compiled text to come
for. If all of them have root directories, exactly these become entries, in their order; otherwise
the start is refused for the first that has none, and exactly those before it have become entries.
Nothing else is put into the bundle. The name of an entry leads back to its source, so that different
sources below one root directory have different names. In either case nothing has been asked for
afterwards, and everything but what the resolver remembers is as the build left it. -/
theorem buildStart_adds_entries (h : a.workspace.Reached cwd)
    (hunused : a.settings.includeUnused = true) {watch : Bool}
    (hbuilt : (buildAll watch a).result = .ok ()) :
    let ran := buildAll watch a
    let o := buildStart watch a
    let scripts := ran.state.workspace.catalog.ofKind (.output .script)
    (∃ events : List BuildEvent, ran.trace = events.map .build) ∧
    ((∀ v ∈ scripts, HasRootDir v) → o.result = .ok () ∧
      ∃ chunks, o.trace = ran.trace ++ chunks ∧ List.Forall₂ (IsChunkOf cwd) scripts chunks) ∧
    (∀ before v after, scripts = before ++ v :: after → (∀ u ∈ before, HasRootDir u) →
      ¬HasRootDir v → o.result = .error (.noRootDir v.path) ∧
      ∃ chunks, o.trace = ran.trace ++ chunks ∧ List.Forall₂ (IsChunkOf cwd) before chunks) ∧
    (∀ v ∈ scripts, ∀ rootDir id, v.file.options.rootDir = some rootDir →
      Traceable cwd rootDir v.path → IsChunkOf cwd v (.chunk id true) →
      Path.resolve (Path.resolve cwd rootDir) id = v.path) ∧
    (∀ u ∈ scripts, ∀ v ∈ scripts, ∀ r r' id, u.file.options.rootDir = some r →
      v.file.options.rootDir = some r' → Path.resolve cwd r = Path.resolve cwd r' →
      Traceable cwd r u.path → Traceable cwd r' v.path → IsChunkOf cwd u (.chunk id true) →
      IsChunkOf cwd v (.chunk id true) → u.path = v.path) ∧
    o.state.workspace.consumed = [] ∧
    ∃ memo, o.state = ran.state.onWorkspace fun w => w.recalling memo := by
  intro ran o scripts
  have hran : ran.state.workspace.Reached cwd := (continues_buildAll watch a).reached h
  have ho : o = ⟨(emitChunks scripts ran.state).result, (emitChunks scripts ran.state).state,
      ran.trace ++ (emitChunks scripts ran.state).trace⟩ := buildStart_after_build hunused hbuilt
  obtain ⟨memo, hstate⟩ := recalls_emitting.emitChunks scripts ran.state
  replace hstate : o.state = ran.state.onWorkspace fun w => w.recalling memo := by rw [ho, hstate]
  refine ⟨(onlyBuilds_buildAll watch a).2, ?complete, ?refused, ?back, ?apart, ?consumed, memo,
    hstate⟩
  case complete =>
    intro hroots
    obtain ⟨hresult, hchunks⟩ := emitChunks_of_hasRootDir hran hroots
    rw [ho]
    exact ⟨hresult, _, rfl, hchunks⟩
  case refused =>
    intro before v after hsplit hroots hv
    obtain ⟨hresult, hchunks⟩ := emitChunks_of_not_hasRootDir hran hroots hv after
    rw [← hsplit] at hresult hchunks
    rw [ho]
    exact ⟨hresult, _, rfl, hchunks⟩
  case back =>
    intro v _ rootDir id hroot htrace hchunk
    exact hchunk.resolve_id h.canonical hroot htrace
  case apart =>
    intro u _ v _ r r' id hu hv hroots hutrace hvtrace huchunk hvchunk
    rw [← huchunk.resolve_id h.canonical hu hutrace, hroots]
    exact hvchunk.resolve_id h.canonical hv hvtrace
  case consumed =>
    rw [hstate]
    exact consumed_buildAll hbuilt

/-- A project with one source, which has to be compiled. -/
def projectOf (id fileName : String) (options : Options) : Project where
  id := id
  kind := .build
  options := options
  sources := .done [⟨fileName, "", false⟩]
  isExternal := fun _ => false
  isDefaultLib := fun _ => false
  finish := .done ()

/-- The options of a project with a root directory. -/
def rootedOptions : Options := .ofList [("rootDir", .str "src"), ("outDir", .str "dist")]

/-- The options of a project without one. -/
def rootlessOptions : Options := .ofList [("outDir", .str "out")]

/-- A bundler that is to add what nobody asked for, with a project for each of these options. -/
def addingUnused : Adapter where
  settings := ⟨true⟩
  builder :=
    { freshAdapter.builder with
      naming := (OutputLayout.ofDir "/p").names
      driver := ⟨none,
        [.project (projectOf "/p/tsconfig.json" "/p/src/lib/a.ts" rootedOptions),
          .project (projectOf "/q/tsconfig.json" "/q/b.ts" rootlessOptions)], .done ()⟩ }
  room := .ofTimeout 1000

/-- The source of the first project becomes an entry before that of the second is refused. -/
theorem buildStart_adds_entries_of_two_projects :
    addingUnused.workspace.Reached "/p" ∧ (buildAll false addingUnused).result = .ok () ∧
    Traceable "/p" "src" "/p/src/lib/a.ts" ∧ Path.resolve "/p/src" "lib/a.ts" = "/p/src/lib/a.ts" ∧
    (buildStart false addingUnused).result = .error (.noRootDir "/q/b.ts") ∧
    (buildStart false addingUnused).trace =
      (buildAll false addingUnused).trace ++ [.chunk "lib/a.ts" true] := by
  have h : addingUnused.workspace.Reached "/p" := freshAdapter_reached []
  have hbuilt : (buildAll false addingUnused).result = .ok () := rfl
  have htrace : Traceable "/p" "src" "/p/src/lib/a.ts" := ⟨by decide, by decide, by decide⟩
  let first : View := ⟨"/p/src/lib/a.ts", "/p/dist/lib/a.js", .output .script none, 0,
    ⟨.compiled, "/p/src/lib/a.ts", "/p/tsconfig.json", rootedOptions⟩⟩
  let second : View := ⟨"/q/b.ts", "/p/out/q/b.js", .output .script none, 1,
    ⟨.compiled, "/q/b.ts", "/q/tsconfig.json", rootlessOptions⟩⟩
  have hscripts : (buildAll false addingUnused).state.workspace.catalog.ofKind (.output .script) =
      [first] ++ second :: [] := by decide
  have hentry : IsChunkOf "/p" first (.chunk "lib/a.ts" true) :=
    ⟨"src", by decide, congrArg (BundleEvent.chunk · true) (by decide)⟩
  obtain ⟨-, -, hrefused, hback, -⟩ := buildStart_adds_entries h rfl hbuilt
  have hfirst : first ∈ (buildAll false addingUnused).state.workspace.catalog.ofKind
      (.output .script) := by
    rw [hscripts]
    exact List.mem_cons_self
  obtain ⟨hresult, chunks, hemitted, hchunks⟩ :=
    hrefused [first] second [] hscripts (by decide) (by decide)
  obtain ⟨e, rest, he, hrest, rfl⟩ := List.forall₂_cons_left_iff.mp hchunks
  cases List.forall₂_nil_left_iff.mp hrest
  cases he.unique hentry
  exact ⟨h, hbuilt, htrace, hback first hfirst "src" "lib/a.ts" (by decide) htrace hentry, hresult,
    hemitted⟩

end Adapter

end BuildRelay
