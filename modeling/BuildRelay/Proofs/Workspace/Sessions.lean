/-
BuildRelay.Proofs.Workspace.Sessions — everything that can be done to a workspace, and what its
catalog sees of it.

A workspace never touches the tables of its catalog itself: whatever is done to it is, for the
catalog, a list of puts, texts and deletions (`catalog_step`). So what holds in every session of a
catalog holds of the catalog of every workspace (`exists_catalog_session`).
-/
import BuildRelay.Proofs.Catalog.Consistency
import BuildRelay.Proofs.Path.Memo
import BuildRelay.Workspace.Basic
import Mathlib.Data.List.Induction

namespace BuildRelay

namespace Workspace

/-- What can be done to a workspace. -/
inductive Op where
  /-- A pass over a project starts. -/
  | reset (project : String)
  /-- The files of a project are dropped. -/
  | clear (project : String)
  | clearActive
  | source (path text : String) (file : File)
  | importLink (path specifier : String) (link : ImportLink)
  | announce (path key : String) (a : Artifact)
  /-- The text of an output arrives; one that nobody waits for is dropped. -/
  | fill (key text : String)
  | consume (path : String)
  | resetConsumed
  | resolve (path : String)

/-- The workspace after an operation. -/
def step (w : Workspace) : Op → Workspace
  | .reset project => w.resetProject project
  | .clear project => w.clearProject project
  | .clearActive => w.clearActive
  | .source path text file => (w.registerSource path text file).2
  | .importLink path specifier link => w.registerImport path specifier link
  | .announce path key a => w.announce path key a
  | .fill key text => (w.fill? key text).getD w
  | .consume path => w.consume path
  | .resetConsumed => w.resetConsumed
  | .resolve path => (w.resolve path).2

/-- The workspace after operations, one after the other. -/
def run (w : Workspace) (ops : List Op) : Workspace := ops.foldl step w

theorem run_append (w : Workspace) (ops ops' : List Op) :
    w.run (ops ++ ops') = (w.run ops).run ops' := List.foldl_append

/-- What every step keeps, every session keeps. -/
theorem run_induction {P : Workspace → Prop} {w : Workspace} (start : P w)
    (step : ∀ w op, P w → P (w.step op)) (ops : List Op) : P (w.run ops) :=
  List.foldlRecOn ops Workspace.step start fun w h op _ => step w op h

/-! ## Lists that keep each entry once

The files of a project and the demands of the bundler are kept in one way: what comes is put at the
end, unless it is there. -/

section Once

variable {α : Type} [DecidableEq α]

theorem eraseDups_concat (l : List α) (x : α) :
    (l ++ [x]).eraseDups = if x ∈ l then l.eraseDups else l.eraseDups ++ [x] := by
  rw [List.eraseDups_append]
  by_cases hx : x ∈ l <;> simp [List.removeAll, List.eraseDups_cons, hx]

theorem nodup_eraseDups (l : List α) : l.eraseDups.Nodup := by
  induction l using List.reverseRecOn with
  | nil => exact List.nodup_nil
  | append_singleton l x ih =>
    rw [eraseDups_concat]
    split
    · exact ih
    · rename_i hnew
      rw [List.nodup_append]
      refine ⟨ih, List.nodup_singleton x, ?_⟩
      rintro y hy z hz rfl
      rw [List.mem_singleton] at hz
      subst hz
      exact hnew (List.mem_eraseDups.mp hy)

end Once

/-! ## Texts and demand -/

/-- A text that arrives touches the catalog only. -/
theorem step_fill (w : Workspace) (key text : String) :
    w.step (.fill key text) = { w with catalog := w.catalog.step (.fill key text) } := by
  show (w.fill? key text).getD w = { w with catalog := (w.catalog.fill? key text).getD w.catalog }
  unfold fill?
  cases w.catalog.fill? key text <;> rfl

section Consume

variable (w : Workspace) (path : String)

@[simp] theorem active_consume : (w.consume path).active = w.active := by
  simp only [consume]
  split <;> rfl

@[simp] theorem projects_consume : (w.consume path).projects = w.projects := by
  simp only [consume]
  split <;> rfl

@[simp] theorem catalog_consume : (w.consume path).catalog = w.catalog := by
  simp only [consume]
  split <;> rfl

end Consume

/-! ## What a pass touches -/

section Pass

variable (w : Workspace)

/-- Noting a file for the active project touches the lists of the projects only. -/
theorem exists_track (id : FileId) : ∃ projects, w.track id = { w with projects } := by
  unfold track
  split
  · exact ⟨w.projects, rfl⟩
  · exact ⟨_, rfl⟩

/-- Clearing a project touches the lists of the projects and the catalog. -/
theorem exists_clearProject (project : String) :
    ∃ projects catalog, w.clearProject project = { w with projects, catalog } := by
  unfold clearProject
  split
  · exact ⟨w.projects, w.catalog, rfl⟩
  · exact ⟨_, _, rfl⟩

@[simp] theorem active_track (id : FileId) : (w.track id).active = w.active := by
  obtain ⟨_, htrack⟩ := w.exists_track id
  rw [htrack]

@[simp] theorem paths_track (id : FileId) : (w.track id).paths = w.paths := by
  obtain ⟨_, htrack⟩ := w.exists_track id
  rw [htrack]

@[simp] theorem consumed_track (id : FileId) : (w.track id).consumed = w.consumed := by
  obtain ⟨_, htrack⟩ := w.exists_track id
  rw [htrack]

@[simp] theorem catalog_track (id : FileId) : (w.track id).catalog = w.catalog := by
  obtain ⟨_, htrack⟩ := w.exists_track id
  rw [htrack]

@[simp] theorem active_clearProject (project : String) :
    (w.clearProject project).active = w.active := by
  obtain ⟨_, _, hclear⟩ := w.exists_clearProject project
  rw [hclear]

@[simp] theorem paths_clearProject (project : String) :
    (w.clearProject project).paths = w.paths := by
  obtain ⟨_, _, hclear⟩ := w.exists_clearProject project
  rw [hclear]

@[simp] theorem consumed_clearProject (project : String) :
    (w.clearProject project).consumed = w.consumed := by
  obtain ⟨_, _, hclear⟩ := w.exists_clearProject project
  rw [hclear]

end Pass

/-! ## The running pass -/

/-- The project that is active after an operation: only the start and the end of a pass change
it. -/
theorem active_step (w : Workspace) (op : Op) :
    (w.step op).active = match op with
      | .reset project => some project
      | .clearActive => none
      | _ => w.active := by
  cases op with
  | clear project => exact w.active_clearProject project
  | source path text file => exact active_track ..
  | fill key text => rw [step_fill]
  | consume path => exact w.active_consume path
  | reset project | clearActive | importLink path specifier link | announce path key a
  | resetConsumed | resolve path => rfl

/-- Whether an operation starts or ends a pass. -/
def Op.turns : Op → Bool
  | .reset _ | .clearActive => true
  | .clear _ | .source .. | .importLink .. | .announce .. | .fill .. | .consume _
  | .resetConsumed | .resolve _ => false

/-- The pass over a project was started in a session, and since then none was started or ended. -/
def RunsPass (ops : List Op) (project : String) : Prop :=
  ∃ before since, ops = before ++ .reset project :: since ∧ ∀ op ∈ since, op.turns = false

theorem runsPass_concat {ops : List Op} {op : Op} {project : String} :
    RunsPass (ops ++ [op]) project ↔
      op = .reset project ∨ op.turns = false ∧ RunsPass ops project := by
  constructor
  · intro h
    obtain ⟨before, since, heq, hsince⟩ := h
    rcases List.eq_nil_or_concat since with rfl | ⟨since, last, rfl⟩
    · exact .inl (List.singleton_inj.mp (List.append_inj' heq rfl).2)
    · rw [List.concat_eq_append, ← List.cons_append, ← List.append_assoc] at heq
      obtain ⟨hops, hlast⟩ := List.append_inj' heq rfl
      cases hlast
      refine .inr ⟨hsince op (by simp), before, since, hops, fun o ho => hsince o (by simp [ho])⟩
  · intro h
    rcases h with rfl | ⟨hop, before, since, rfl, hsince⟩
    · exact ⟨ops, [], rfl, nofun⟩
    · refine ⟨before, since ++ [op], by simp, fun o ho => ?_⟩
      rcases List.mem_append.mp ho with hold | hnew
      · exact hsince o hold
      · exact List.mem_singleton.mp hnew ▸ hop

/-- The active project of a session is the one whose pass was started last, as long as that pass has
not been ended. -/
theorem active_run_iff (paths : Path.Resolver) (ops : List Op) (project : String) :
    ((ofResolver paths).run ops).active = some project ↔ RunsPass ops project := by
  induction ops using List.reverseRecOn with
  | nil =>
    refine iff_of_false nofun fun h => ?_
    obtain ⟨before, since, heq, -⟩ := h
    simp at heq
  | append_singleton ops op ih =>
    rw [run_append, runsPass_concat, ← ih]
    show (((ofResolver paths).run ops).step op).active = some project ↔ _
    rw [active_step]
    cases op <;> simp [Op.turns]

/-! ## The resolver of a workspace -/

/-- An operation resolves one path or none. -/
theorem paths_step (w : Workspace) (op : Op) :
    (w.step op).paths = w.paths ∨ ∃ path, (w.step op).paths = (w.paths.resolve path).2 := by
  cases op with
  | reset project => exact .inl (w.paths_clearProject project)
  | clear project => exact .inl (w.paths_clearProject project)
  | source path text file => exact .inl (paths_track ..)
  | fill key text =>
    rw [step_fill]
    exact .inl rfl
  | consume path =>
    refine .inr ⟨path, ?_⟩
    show (w.consume path).paths = _
    simp only [consume]
    split <;> rfl
  | resolve path => exact .inr ⟨path, rfl⟩
  | clearActive | importLink path specifier link | announce path key a | resetConsumed =>
    exact .inl rfl

/-- Whatever a session resolves, its resolver goes on giving the answers it gave at the start. -/
theorem run_paths {w : Workspace} (h : w.paths.Faithful) (ops : List Op) :
    (w.run ops).paths.Faithful ∧ (w.run ops).paths.cwd = w.paths.cwd := by
  refine run_induction (P := fun v => v.paths.Faithful ∧ v.paths.cwd = w.paths.cwd) ⟨h, rfl⟩ ?_ ops
  rintro v op ⟨hfaithful, hcwd⟩
  rcases v.paths_step op with hsame | ⟨path, hresolved⟩
  · rw [hsame]
    exact ⟨hfaithful, hcwd⟩
  · rw [hresolved, Path.Resolver.cwd_resolve]
    exact ⟨hfaithful.resolve path, hcwd⟩

/-! ## The catalog of a workspace -/

@[simp] theorem catalog_registerSource (w : Workspace) (path text : String) (file : File) :
    (w.registerSource path text file).2.catalog =
      (w.catalog.put path path (.source text) (some file)).2 := by
  simp [registerSource, put]

theorem run_deleteFile (c : Catalog) (ids : List FileId) :
    c.run (ids.map .deleteFile) = ids.foldl Catalog.deleteFile c := by
  rw [Catalog.run, List.foldl_map]
  rfl

/-- Dropping the files of a project deletes them one by one. -/
theorem catalog_clearProject (w : Workspace) (project : String) :
    (w.clearProject project).catalog =
      w.catalog.run (((w.projects.get? project).getD []).map .deleteFile) := by
  rw [run_deleteFile]
  unfold clearProject
  cases w.projects.get? project <;> rfl

/-- What the catalog sees of an operation. -/
def catalogOps (w : Workspace) : Op → List Catalog.Op
  | .reset project | .clear project => ((w.projects.get? project).getD []).map .deleteFile
  | .source path text file => [.put path path (.source text) (some file)]
  | .importLink path specifier link => [.put path specifier (.importLink link) none]
  | .announce path key a => [.put path key a none]
  | .fill key text => [.fill key text]
  | .clearActive | .consume _ | .resetConsumed | .resolve _ => []

theorem catalog_step (w : Workspace) (op : Op) :
    (w.step op).catalog = w.catalog.run (w.catalogOps op) := by
  cases op with
  | reset project => exact w.catalog_clearProject project
  | clear project => exact w.catalog_clearProject project
  | source path text file => exact w.catalog_registerSource path text file
  | fill key text =>
    rw [step_fill]
    rfl
  | consume path => exact w.catalog_consume path
  | clearActive | importLink path specifier link | announce path key a | resetConsumed
  | resolve path => rfl

theorem consistent_step {w : Workspace} (h : w.catalog.Consistent) (op : Op) :
    (w.step op).catalog.Consistent := by
  rw [catalog_step]
  exact Catalog.run_induction h (fun _ op h => h.step op) _

/-- The catalog of every workspace is that of a session of its own. -/
theorem exists_catalog_session (paths : Path.Resolver) (ops : List Op) :
    ∃ catalogOps, ((ofResolver paths).run ops).catalog = Catalog.run ∅ catalogOps := by
  refine run_induction (P := fun w => ∃ catalogOps, w.catalog = Catalog.run ∅ catalogOps)
    ⟨[], rfl⟩ ?_ ops
  rintro w op ⟨catalogOps, hw⟩
  refine ⟨catalogOps ++ w.catalogOps op, ?_⟩
  rw [catalog_step, hw, Catalog.run, Catalog.run, Catalog.run, List.foldl_append]

theorem run_catalog_consistent (paths : Path.Resolver) (ops : List Op) :
    ((ofResolver paths).run ops).catalog.Consistent := by
  obtain ⟨catalogOps, hcatalog⟩ := exists_catalog_session paths ops
  rw [hcatalog]
  exact Catalog.run_consistent catalogOps

end Workspace

end BuildRelay
