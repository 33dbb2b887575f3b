/-
BuildRelay.Proofs.Workspace.Projects — which files a project has, and what resetting it drops.

A project is known by the files that it registered. A source that two projects register keeps the
file of the first, and then both know it; dropping it for one of them drops it for the other too.

* `registrations` — the registrations of a session, with the project whose pass was running.
* `registered_for_iff` — a registration is for the project whose pass was started last and has not
  been ended.
* `Bookkeeping.step`, `Bookkeeping.run` — of the live files, a project has just those that were ever
  registered for it: whatever it forgets, it deletes.
* `resetProject_keeps_file_iff` — exactly when a file of another project survives.
* `resetProject_drops_shared_source` — a session in which one does not.
-/
import BuildRelay.Proofs.Catalog.Holdings
import BuildRelay.Proofs.Workspace.Sessions

namespace BuildRelay

namespace Workspace

/-! ## The files of a project -/

/-- The files that a project has, live or not. -/
def tracked (w : Workspace) (project : String) : List FileId := (w.projects.get? project).getD []

/-- The active project gets a file that it does not have yet, and no other project gets any. -/
theorem tracked_track (w : Workspace) (id : FileId) (project : String) :
    (w.track id).tracked project =
      if w.active = some project ∧ id ∉ w.tracked project then w.tracked project ++ [id]
      else w.tracked project := by
  unfold track
  cases hactive : w.active with
  | none => simp
  | some active =>
    simp only [tracked, OrderedMap.get?_insert, Option.some.injEq]
    by_cases hproject : project = active
    · subst hproject
      by_cases hid : id ∈ (w.projects.get? project).getD [] <;> simp [hid]
    · rw [if_neg hproject, if_neg fun h => hproject h.1.symm]

theorem mem_tracked_track {w : Workspace} {id x : FileId} {project : String} :
    x ∈ (w.track id).tracked project ↔
      x ∈ w.tracked project ∨ w.active = some project ∧ x = id := by
  rw [tracked_track]
  split
  · rename_i hnew
    rw [List.mem_append, List.mem_singleton, and_iff_right hnew.1]
  · rename_i hold
    refine (or_iff_left_of_imp ?_).symm
    rintro ⟨hactive, rfl⟩
    by_contra hid
    exact hold ⟨hactive, hid⟩

/-- Clearing a project forgets its files and those of no other. -/
theorem tracked_clearProject (w : Workspace) (cleared project : String) :
    (w.clearProject cleared).tracked project =
      if project = cleared then [] else w.tracked project := by
  unfold clearProject
  cases hids : w.projects.get? cleared with
  | none =>
    by_cases hproject : project = cleared
    · simp [tracked, hproject, hids]
    · rw [if_neg hproject]
  | some ids =>
    simp only [tracked, OrderedMap.get?_insert]
    by_cases hproject : project = cleared <;> simp [hproject]

theorem catalog_clearProject_eq (w : Workspace) (project : String) :
    (w.clearProject project).catalog = (w.tracked project).foldl Catalog.deleteFile w.catalog := by
  rw [catalog_clearProject, run_deleteFile, tracked]

/-! ## Registrations -/

/-- One registration of a source. -/
structure Registration where
  /-- The file that it came to. -/
  id : FileId
  /-- The project whose pass was running. -/
  project : Option String
  deriving DecidableEq

/-- The registration that an operation makes. -/
def registration? (w : Workspace) : Op → Option Registration
  | .source path text file => some ⟨(w.registerSource path text file).1, w.active⟩
  | .reset _ | .clear _ | .clearActive | .importLink .. | .announce .. | .fill .. | .consume _
  | .resetConsumed | .resolve _ => none

/-- The registrations of a session, oldest first. -/
def registrations (w : Workspace) : List Op → List Registration
  | [] => []
  | op :: ops => (w.registration? op).toList ++ registrations (w.step op) ops

/-- A session makes a registration each time that it registers a source, for the project that is
active by then. -/
theorem mem_registrations_iff {w : Workspace} {ops : List Op} {r : Registration} :
    r ∈ registrations w ops ↔ ∃ before path text file after,
      ops = before ++ .source path text file :: after ∧
        r = ⟨((w.run before).registerSource path text file).1, (w.run before).active⟩ := by
  induction ops generalizing w with
  | nil => simp [registrations]
  | cons op ops ih =>
    rw [registrations, List.mem_append, Option.mem_toList, ih]
    constructor
    · intro h
      rcases h with hnow | ⟨before, path, text, file, after, rfl, hr⟩
      · cases op with
        | source path text file => exact ⟨[], path, text, file, ops, rfl, (Option.some.inj hnow).symm⟩
        | _ => cases hnow
      · exact ⟨op :: before, path, text, file, after, rfl, hr⟩
    · intro h
      obtain ⟨before, path, text, file, after, heq, rfl⟩ := h
      rcases before with _ | ⟨first, before⟩
      · obtain ⟨rfl, rfl⟩ := List.cons.inj heq
        exact .inl rfl
      · obtain ⟨rfl, rfl⟩ := List.cons.inj heq
        exact .inr ⟨before, path, text, file, after, rfl, rfl⟩

/-- What is registered for a project is registered while its pass runs: after the pass was started,
and before it ended or another one started. -/
theorem registered_for_iff {paths : Path.Resolver} {ops : List Op} {id : FileId} {project : String} :
    (⟨id, some project⟩ : Registration) ∈ registrations (ofResolver paths) ops ↔
      ∃ before path text file after, ops = before ++ .source path text file :: after ∧
        RunsPass before project ∧
        id = (((ofResolver paths).run before).registerSource path text file).1 := by
  rw [mem_registrations_iff]
  constructor
  · intro h
    obtain ⟨before, path, text, file, after, hops, hr⟩ := h
    obtain ⟨hid, hactive⟩ := Registration.mk.inj hr
    have hruns : RunsPass before project := (active_run_iff paths before project).mp hactive.symm
    exact ⟨before, path, text, file, after, hops, hruns, hid⟩
  · intro h
    obtain ⟨before, path, text, file, after, hops, hruns, rfl⟩ := h
    have hactive : ((ofResolver paths).run before).active = some project :=
      (active_run_iff paths before project).mpr hruns
    exact ⟨before, path, text, file, after, hops, by rw [hactive]⟩

/-- The project that a file was last registered for. -/
def lastProject? (l : List Registration) (id : FileId) : Option String :=
  ((l.filter fun r => r.id = id).getLast?).bind Registration.project

theorem mem_of_lastProject? {l : List Registration} {id : FileId} {project : String}
    (h : lastProject? l id = some project) : (⟨id, some project⟩ : Registration) ∈ l := by
  obtain ⟨r, hlast, hproject⟩ := Option.bind_eq_some_iff.mp h
  obtain ⟨hmem, hid⟩ := List.mem_filter.mp (List.mem_of_getLast? hlast)
  obtain ⟨rid, rproject⟩ := r
  cases of_decide_eq_true hid
  cases hproject
  exact hmem

/-! ## Projects keep step with the registrations -/

/-- The files of the projects agree with the registrations so far. -/
structure Bookkeeping (w : Workspace) (l : List Registration) : Prop where
  /-- A live file belongs to every project that it was ever registered for. -/
  tracked_of_live : ∀ id project, (⟨id, some project⟩ : Registration) ∈ l →
    w.catalog.files.contains id = true → id ∈ w.tracked project
  registered_of_tracked : ∀ id project, id ∈ w.tracked project →
    (⟨id, some project⟩ : Registration) ∈ l
  /-- Every registration came to a file that was handed out before. -/
  id_lt : ∀ r ∈ l, r.id < w.catalog.nextId

namespace Bookkeeping

variable {w w' : Workspace} {l : List Registration}

theorem start (paths : Path.Resolver) : Bookkeeping (ofResolver paths) [] where
  tracked_of_live := by intro id project h; cases h
  registered_of_tracked := by intro id project h; cases h
  id_lt := by intro r h; cases h

/-- Whatever leaves the projects alone and brings no file to life but the next one keeps the
books: nobody can have registered a file that was not handed out. -/
theorem of_projects_eq (h : Bookkeeping w l) (hprojects : w'.projects = w.projects)
    (hlive : ∀ id, w'.catalog.files.contains id = true →
      w.catalog.files.contains id = true ∨ id = w.catalog.nextId)
    (hnext : w.catalog.nextId ≤ w'.catalog.nextId) : Bookkeeping w' l where
  tracked_of_live := by
    intro id project hmem hid
    rw [tracked, hprojects]
    rcases hlive id hid with hold | hnew
    · exact h.tracked_of_live id project hmem hold
    · exact absurd hnew (Nat.ne_of_lt (h.id_lt _ hmem))
  registered_of_tracked := by
    intro id project hid
    rw [tracked, hprojects] at hid
    exact h.registered_of_tracked id project hid
  id_lt := fun r hr => Nat.lt_of_lt_of_le (h.id_lt r hr) hnext

theorem put (h : Bookkeeping w l) (hc : w.catalog.Consistent) (path key : String) (a : Artifact)
    (file : Option File) : Bookkeeping (w.put path key a file).2 l :=
  h.of_projects_eq rfl (fun _ hid => hc.live_or_next_of_put path key a file hid)
    (w.catalog.nextId_le_put path key a file)

theorem fill (h : Bookkeeping w l) {key text : String} (hfill : w.fill? key text = some w') :
    Bookkeeping w' l := by
  obtain ⟨c', hc', rfl⟩ := Option.map_eq_some_iff.mp hfill
  obtain ⟨o, s, a, b, -, -, -, -, rfl⟩ := Catalog.fill?_cases hc'
  exact h.of_projects_eq rfl (fun _ hid => .inl hid) (Nat.le_refl _)

theorem track (h : Bookkeeping w l) {id : FileId} (hlt : id < w.catalog.nextId) :
    Bookkeeping (w.track id) (l ++ [⟨id, w.active⟩]) where
  tracked_of_live := by
    intro x project hmem hx
    rw [catalog_track] at hx
    rw [mem_tracked_track]
    rcases List.mem_append.mp hmem with hold | hnew
    · exact .inl (h.tracked_of_live x project hold hx)
    · obtain ⟨hid, hactive⟩ := Registration.mk.inj (List.mem_singleton.mp hnew)
      exact .inr ⟨hactive.symm, hid⟩
  registered_of_tracked := by
    intro x project hx
    rcases mem_tracked_track.mp hx with hold | ⟨hactive, rfl⟩
    · exact List.mem_append_left _ (h.registered_of_tracked x project hold)
    · exact List.mem_append_right _ (by rw [hactive, List.mem_singleton])
  id_lt := by
    intro r hr
    rw [catalog_track]
    rcases List.mem_append.mp hr with hold | hnew
    · exact h.id_lt r hold
    · cases List.mem_singleton.mp hnew
      exact hlt

/-- A cleared project has no files left, and none of those that it had is live. -/
theorem clearProject (h : Bookkeeping w l) (cleared : String) :
    Bookkeeping (w.clearProject cleared) l where
  tracked_of_live := by
    intro id project hmem hid
    rw [catalog_clearProject_eq, Catalog.contains_files_deleteFiles] at hid
    have hold := h.tracked_of_live id project hmem hid.1
    rw [tracked_clearProject]
    split
    · rename_i hproject
      subst hproject
      exact absurd hold hid.2
    · exact hold
  registered_of_tracked := by
    intro id project hid
    rw [tracked_clearProject] at hid
    split at hid
    · cases hid
    · exact h.registered_of_tracked id project hid
  id_lt := by
    intro r hr
    rw [catalog_clearProject_eq, Catalog.nextId_deleteFiles]
    exact h.id_lt r hr

theorem step (h : Bookkeeping w l) (hc : w.catalog.Consistent) (op : Op) :
    Bookkeeping (w.step op) (l ++ (w.registration? op).toList) := by
  have same : ∀ {w' : Workspace}, w'.projects = w.projects → w'.catalog = w.catalog →
      Bookkeeping w' (l ++ []) := by
    intro w' hprojects hcatalog
    rw [List.append_nil]
    exact h.of_projects_eq hprojects (fun _ hid => .inl (hcatalog ▸ hid))
      (Nat.le_of_eq (by rw [hcatalog]))
  cases op with
  | source path text file =>
    refine (h.put hc path path (.source text) (some file)).track ?_
    exact (hc.put path path (.source text) (some file)).id_lt _ (hc.live_put ..)
  | importLink path specifier link =>
    rw [registration?, Option.toList_none, List.append_nil]
    exact h.put hc path specifier (.importLink link) none
  | announce path key a =>
    rw [registration?, Option.toList_none, List.append_nil]
    exact h.put hc path key a none
  | clear project =>
    rw [registration?, Option.toList_none, List.append_nil]
    exact h.clearProject project
  | reset project =>
    rw [registration?, Option.toList_none, List.append_nil]
    exact (h.clearProject project).of_projects_eq rfl (fun _ hid => .inl hid) (Nat.le_refl _)
  | fill key text =>
    rw [registration?, Option.toList_none, List.append_nil]
    show Bookkeeping ((w.fill? key text).getD w) l
    cases hfill : w.fill? key text with
    | none => exact h
    | some w' => exact h.fill hfill
  | consume path => exact same (w.projects_consume path) (w.catalog_consume path)
  | clearActive => exact same rfl rfl
  | resetConsumed => exact same rfl rfl
  | resolve path => exact same rfl rfl

theorem run (h : Bookkeeping w l) (hc : w.catalog.Consistent) (ops : List Op) :
    Bookkeeping (w.run ops) (l ++ registrations w ops) := by
  induction ops generalizing w l with
  | nil =>
    rw [registrations, List.append_nil]
    exact h
  | cons op ops ih =>
    have hrest := ih (h.step hc op) (consistent_step hc op)
    rw [List.append_assoc] at hrest
    exact hrest

end Bookkeeping

/-! ## Resets -/

theorem run_bookkeeping (paths : Path.Resolver) (ops : List Op) :
    Bookkeeping ((ofResolver paths).run ops) (registrations (ofResolver paths) ops) :=
  (Bookkeeping.start paths).run Catalog.empty_consistent ops

/-- A reset hands out no identity. -/
theorem nextId_resetProject (w : Workspace) (project : String) :
    (w.resetProject project).catalog.nextId = w.catalog.nextId := by
  show (w.clearProject project).catalog.nextId = w.catalog.nextId
  rw [catalog_clearProject_eq, Catalog.nextId_deleteFiles]

theorem holdings_resetProject (w : Workspace) (project : String) (id : FileId) :
    (w.resetProject project).catalog.holdings id =
      if id ∈ w.tracked project then .nothing else w.catalog.holdings id := by
  rw [← Catalog.holdings_deleteFiles, ← catalog_clearProject_eq]
  rfl

theorem get?_stores_resetProject {w : Workspace} {project path : String} {s : Store} :
    (w.resetProject project).catalog.stores.get? path = some s ↔
      w.catalog.stores.get? path = some s ∧ s.file ∉ w.tracked project := by
  rw [← Catalog.get?_stores_deleteFiles, ← catalog_clearProject_eq]
  rfl

/-- What resetting a project does to the files of another. A live file that was last registered for
the other project keeps all that the catalog has for it exactly if it was never registered for the
project that is reset. Every file that ever was loses everything. The list of the other project
stays as it is, with the file in it. -/
theorem resetProject_keeps_file_iff (paths : Path.Resolver) (ops : List Op) (reset other : String)
    (hne : reset ≠ other) (id : FileId)
    (hlive : ((ofResolver paths).run ops).catalog.files.contains id = true)
    (hlast : lastProject? (registrations (ofResolver paths) ops) id = some other) :
    let w := (ofResolver paths).run ops
    let l := registrations (ofResolver paths) ops
    let after := w.resetProject reset
    (after.catalog.holdings id = w.catalog.holdings id ↔
      (⟨id, some reset⟩ : Registration) ∉ l) ∧
    (∀ x, (⟨x, some reset⟩ : Registration) ∈ l → after.catalog.holdings x = .nothing) ∧
    after.tracked other = w.tracked other ∧ id ∈ w.tracked other := by
  intro w l after
  have hbooks : Bookkeeping w l := run_bookkeeping paths ops
  have hc : w.catalog.Consistent := run_catalog_consistent paths ops
  have hdropped : ∀ x, (⟨x, some reset⟩ : Registration) ∈ l →
      after.catalog.holdings x = .nothing := by
    intro x hx
    rw [holdings_resetProject]
    split
    · rfl
    · rename_i hnot
      -- What the project no longer has is gone already.
      refine hc.holdings_of_not_live (Bool.eq_false_iff.mpr fun hxlive => ?_)
      exact hnot (hbooks.tracked_of_live x reset hx hxlive)
  refine ⟨⟨?_, ?_⟩, hdropped, ?_, ?_⟩
  · intro hkept hmem
    rw [hdropped id hmem] at hkept
    obtain ⟨f, hf⟩ := OrderedMap.contains_iff.mp hlive
    have hrecord := congrArg Holdings.record hkept
    simp only [Holdings.nothing, Catalog.holdings] at hrecord
    rw [hf] at hrecord
    cases hrecord
  · intro hnot
    rw [holdings_resetProject, if_neg fun hid => hnot (hbooks.registered_of_tracked id reset hid)]
  · exact (tracked_clearProject w reset other).trans (if_neg hne.symm)
  · exact hbooks.tracked_of_live id other (mem_of_lastProject? hlast) hlive

/-- Two projects register one source each. -/
def separateSourcesSession : List Op :=
  [.reset "/a/tsconfig.json",
    .source "/a/x.ts" "x" ⟨.compiled, "/a/x.ts", "/a/tsconfig.json", ∅⟩,
    .reset "/b/tsconfig.json",
    .source "/b/y.ts" "y" ⟨.compiled, "/b/y.ts", "/b/tsconfig.json", ∅⟩]

theorem resetProject_keeps_separate_source :
    let w := (ofResolver ⟨"/work", ∅⟩).run separateSourcesSession
    (w.resetProject "/a/tsconfig.json").catalog.holdings 1 = w.catalog.holdings 1 ∧
      (w.resetProject "/a/tsconfig.json").catalog.holdings 0 = .nothing := by
  have h := resetProject_keeps_file_iff ⟨"/work", ∅⟩ separateSourcesSession
    "/a/tsconfig.json" "/b/tsconfig.json" (by decide) 1 (by decide) (by decide)
  exact ⟨h.1.mpr (by decide), h.2.1 0 (by decide)⟩

/-- Two projects register one source after the other. -/
def sharedSourceSession : List Op :=
  [.reset "/a/tsconfig.json",
    .source "/src/x.ts" "x" ⟨.compiled, "/src/x.ts", "/a/tsconfig.json", ∅⟩,
    .reset "/b/tsconfig.json",
    .source "/src/x.ts" "x" ⟨.compiled, "/src/x.ts", "/b/tsconfig.json", ∅⟩]

theorem resetProject_drops_shared_source :
    let w := (ofResolver ⟨"/work", ∅⟩).run sharedSourceSession
    lastProject? (registrations (ofResolver ⟨"/work", ∅⟩) sharedSourceSession) 0 =
      some "/b/tsconfig.json" ∧
    w.projectFiles "/b/tsconfig.json" = [⟨.compiled, "/src/x.ts", "/b/tsconfig.json", ∅⟩] ∧
    (w.resetProject "/a/tsconfig.json").catalog.holdings 0 = .nothing ∧
    (w.resetProject "/a/tsconfig.json").projectFiles "/b/tsconfig.json" = [] := by
  decide

end Workspace

end BuildRelay
