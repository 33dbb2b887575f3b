/-
BuildRelay.Proofs.Workspace.Separation — projects that keep out of each other's way.

All projects of a session share one catalog: one row of identities, one table of owners. Still a
project whose passes write to no path or key that a pass of another project writes to sees the
catalog as if it were alone with it, up to the identities of its files. The specifiers of imports do
not count: they never own anything.

* `Pass` — one pass over a project.
* `Separated` — the session of all projects beside the session of one project alone.
* `Separated.step`, `Separated.step_apart` — an operation of that project, and of any other.
* `run_sees_own_passes` — what is asked about the project, over all sessions of passes.
-/
import BuildRelay.Proofs.Catalog.Mirror
import BuildRelay.Proofs.Workspace.Projects

namespace BuildRelay

namespace Workspace

open Catalog (Mirrors Apart)

/-! ## Passes -/

/-- Whether an operation is made during a pass, neither starting nor ending one nor dropping
files. -/
def Op.duringPass : Op → Bool
  | .reset _ | .clear _ | .clearActive => false
  | .source .. | .importLink .. | .announce .. | .fill .. | .consume _ | .resetConsumed
  | .resolve _ => true

theorem active_of_duringPass (w : Workspace) {op : Op} (h : op.duringPass = true) :
    (w.step op).active = w.active := by
  rw [active_step]
  cases op with
  | reset | clear | clearActive => cases h
  | source | importLink | announce | fill | consume | resetConsumed | resolve => rfl

/-- The source paths and keys that an operation writes to. The specifier of an import is no key that
anybody could own. -/
def Op.touched : Op → List String
  | .source path _ _ | .importLink path _ _ => [path]
  | .announce path key a => if a.isImport then [path] else [path, key]
  | .fill key _ => [key]
  | .reset _ | .clear _ | .clearActive | .consume _ | .resetConsumed | .resolve _ => []

/-- One pass over a project: it is reset, and then its files are reported. -/
structure Pass where
  project : String
  ops : List Op
  duringPass : ∀ op ∈ ops, op.duringPass = true

/-- The operations of a pass. -/
def Pass.toOps (p : Pass) : List Op := .reset p.project :: p.ops

/-- The source paths and keys that a pass writes to. -/
def Pass.touched (p : Pass) : List String := p.ops.flatMap Op.touched

/-- The operations of passes, one pass after the other. -/
def session (passes : List Pass) : List Op := passes.flatMap Pass.toOps

theorem run_session_cons (w : Workspace) (p : Pass) (passes : List Pass) :
    w.run (session (p :: passes)) =
      ((w.resetProject p.project).run p.ops).run (session passes) := by
  rw [session, List.flatMap_cons, run_append]
  rfl

/-! ## Two sessions side by side -/

/-- Inside `U` the workspace `w` of all projects shows what the workspace `alone` of one project
does, and the files of that project are the same. -/
structure Separated (U : String → Prop) (project : String) (ρ : FileId → FileId)
    (w alone : Workspace) : Prop where
  consistent : w.catalog.Consistent
  alone_consistent : alone.catalog.Consistent
  mirrors : Mirrors U ρ w.catalog alone.catalog
  tracked : w.tracked project = (alone.tracked project).map ρ
  tracked_lt : ∀ id ∈ alone.tracked project, id < alone.catalog.nextId
  others_lt : ∀ other ≠ project, ∀ id ∈ w.tracked other, id < w.catalog.nextId
  /-- No other project has a file of this one. -/
  others_apart : ∀ other ≠ project, ∀ id ∈ w.tracked other, Apart ρ alone.catalog.nextId id

namespace Separated

variable {U : String → Prop} {project : String} {ρ : FileId → FileId} {w alone : Workspace}

theorem start (U : String → Prop) (project : String) (ρ : FileId → FileId)
    (paths : Path.Resolver) : Separated U project ρ (ofResolver paths) (ofResolver paths) where
  consistent := Catalog.empty_consistent
  alone_consistent := Catalog.empty_consistent
  mirrors := .empty U ρ
  tracked := rfl
  tracked_lt := nofun
  others_lt := nofun
  others_apart := nofun

/-- As long as the catalogs stay, only the files of the projects have to be looked at. -/
theorem of_tracked (h : Separated U project ρ w alone) {w' alone' : Workspace}
    (hcatalog : w'.catalog = w.catalog) (hcatalog' : alone'.catalog = alone.catalog)
    (htracked : w'.tracked project = (alone'.tracked project).map ρ)
    (hlt : ∀ id ∈ alone'.tracked project, id < alone.catalog.nextId)
    (hothers : ∀ other ≠ project, ∀ id ∈ w'.tracked other,
      id < w.catalog.nextId ∧ Apart ρ alone.catalog.nextId id) :
    Separated U project ρ w' alone' where
  consistent := hcatalog ▸ h.consistent
  alone_consistent := hcatalog' ▸ h.alone_consistent
  mirrors := by
    rw [hcatalog, hcatalog']
    exact h.mirrors
  tracked := htracked
  tracked_lt := hcatalog' ▸ hlt
  others_lt := fun other hother id hid => hcatalog ▸ (hothers other hother id hid).1
  others_apart := fun other hother id hid => hcatalog' ▸ (hothers other hother id hid).2

/-- Nothing else in the workspaces matters. -/
theorem of_eq (h : Separated U project ρ w alone) {w' alone' : Workspace}
    (hcatalog : w'.catalog = w.catalog) (hprojects : w'.projects = w.projects)
    (hcatalog' : alone'.catalog = alone.catalog) (hprojects' : alone'.projects = alone.projects) :
    Separated U project ρ w' alone' := by
  have htracked : ∀ p, w'.tracked p = w.tracked p := fun p => by
    rw [Workspace.tracked, Workspace.tracked, hprojects]
  have htracked' : ∀ p, alone'.tracked p = alone.tracked p := fun p => by
    rw [Workspace.tracked, Workspace.tracked, hprojects']
  refine h.of_tracked hcatalog hcatalog' ?_ ?_ ?_
  · rw [htracked, htracked']
    exact h.tracked
  · rw [htracked']
    exact h.tracked_lt
  · intro other hother id hid
    rw [htracked] at hid
    exact ⟨h.others_lt other hother id hid, h.others_apart other hother id hid⟩

/-- The next file of the project alone can be paired with the next file of all. -/
theorem extend (h : Separated U project ρ w alone) :
    ∃ ρ', ρ' alone.catalog.nextId = w.catalog.nextId ∧ Separated U project ρ' w alone := by
  let ρ' := Function.update ρ alone.catalog.nextId w.catalog.nextId
  have hagree : ∀ i < alone.catalog.nextId, ρ' i = ρ i := fun i hi =>
    Function.update_of_ne (Nat.ne_of_lt hi) ..
  refine ⟨ρ', Function.update_self .., h.consistent, h.alone_consistent,
    h.mirrors.congr h.alone_consistent hagree, ?_, h.tracked_lt, h.others_lt, ?_⟩
  · rw [h.tracked]
    exact List.map_congr_left fun id hid => (hagree id (h.tracked_lt id hid)).symm
  · intro other hother id hid i hi
    rw [hagree i hi]
    exact h.others_apart other hother id hid i hi

/-! ### The project itself -/

theorem put (h : Separated U project ρ w alone)
    (hnext : ρ alone.catalog.nextId = w.catalog.nextId) {path key : String} (hpath : U path)
    {a : Artifact} (hkey : a.isImport = false → U key) (file : Option File) :
    (w.put path key a file).1 = ρ (alone.put path key a file).1 ∧
      Separated U project ρ (w.put path key a file).2 (alone.put path key a file).2 := by
  obtain ⟨hid, hmirrors⟩ := h.mirrors.put h.consistent h.alone_consistent hnext hpath hkey file
  refine ⟨hid, h.consistent.put .., h.alone_consistent.put .., hmirrors, h.tracked, ?_, ?_, ?_⟩
  · intro id hid
    exact Nat.lt_of_lt_of_le (h.tracked_lt id hid) (alone.catalog.nextId_le_put path key a file)
  · intro other hother id hid
    exact Nat.lt_of_lt_of_le (h.others_lt other hother id hid)
      (w.catalog.nextId_le_put path key a file)
  · intro other hother id hid i hi
    have hle : i ≤ alone.catalog.nextId := by
      refine Nat.le_of_lt_succ (Nat.lt_of_lt_of_le hi ?_)
      rcases alone.catalog.nextId_put_cases path key a file with hsame | ⟨hsucc, -⟩
      · exact Nat.le_succ_of_le (Nat.le_of_eq hsame)
      · exact Nat.le_of_eq hsucc
    -- The identity that is new is paired with one that no project had before.
    rcases Nat.lt_or_eq_of_le hle with hi | rfl
    · exact h.others_apart other hother id hid i hi
    · rw [hnext]
      exact Nat.ne_of_lt (h.others_lt other hother id hid)

theorem track (h : Separated U project ρ w alone) (hactive : w.active = some project)
    (hactive' : alone.active = some project) {id : FileId} (hid : id < alone.catalog.nextId) :
    Separated U project ρ (w.track (ρ id)) (alone.track id) := by
  have hmem : ρ id ∈ w.tracked project ↔ id ∈ alone.tracked project := by
    rw [h.tracked, List.mem_map]
    constructor
    · rintro ⟨x, hx, hxid⟩
      rw [← h.mirrors.injective x (h.tracked_lt x hx) id hid hxid]
      exact hx
    · exact fun hx => ⟨id, hx, rfl⟩
  refine h.of_tracked (catalog_track ..) (catalog_track ..) ?_ ?_ ?_
  · simp only [tracked_track, hactive, hactive', hmem, true_and]
    split
    · rw [h.tracked, List.map_append, List.map_singleton]
    · exact h.tracked
  · intro x hx
    rcases mem_tracked_track.mp hx with hold | ⟨-, rfl⟩
    · exact h.tracked_lt x hold
    · exact hid
  · intro other hother x hx
    rcases mem_tracked_track.mp hx with hold | ⟨hother', -⟩
    · exact ⟨h.others_lt other hother x hold, h.others_apart other hother x hold⟩
    · exact absurd (Option.some.inj (hother'.symm.trans hactive)) hother

theorem fill (h : Separated U project ρ w alone) {key : String} (hkey : U key) (text : String) :
    Separated U project ρ (w.step (.fill key text)) (alone.step (.fill key text)) := by
  rw [step_fill, step_fill]
  refine ⟨h.consistent.step (.fill key text), h.alone_consistent.step (.fill key text),
    h.mirrors.fill hkey text, h.tracked, ?_, ?_, ?_⟩
  · rw [Catalog.nextId_step_fill]
    exact h.tracked_lt
  · rw [Catalog.nextId_step_fill]
    exact h.others_lt
  · rw [Catalog.nextId_step_fill]
    exact h.others_apart

/-- An operation of the project, made in both sessions. -/
theorem step (h : Separated U project ρ w alone) (hactive : w.active = some project)
    (hactive' : alone.active = some project) {op : Op} (hop : op.duringPass = true)
    (hU : ∀ x ∈ op.touched, U x) :
    ∃ ρ', Separated U project ρ' (w.step op) (alone.step op) := by
  obtain ⟨ρ', hnext, h⟩ := h.extend
  cases op with
  | source path text file =>
    have hpath : U path := hU path (List.mem_singleton.mpr rfl)
    obtain ⟨hid, hput⟩ := h.put hnext hpath (fun _ => hpath) (a := .source text) (some file)
    have hlt : (alone.put path path (.source text) (some file)).1 <
        (alone.put path path (.source text) (some file)).2.catalog.nextId :=
      hput.alone_consistent.id_lt _ (h.alone_consistent.live_put ..)
    have htrack := hput.track hactive hactive' hlt
    rw [← hid] at htrack
    exact ⟨ρ', htrack⟩
  | importLink path specifier link =>
    have hpath : U path := hU path (List.mem_singleton.mpr rfl)
    exact ⟨ρ', (h.put hnext hpath (a := .importLink link) nofun none).2⟩
  | announce path key a =>
    have hpath : U path := hU path (by rw [Op.touched]; split <;> simp)
    have hkey : a.isImport = false → U key := fun himport =>
      hU key (by simp [Op.touched, himport])
    exact ⟨ρ', (h.put hnext hpath hkey none).2⟩
  | fill key text => exact ⟨ρ', h.fill (hU key (List.mem_singleton.mpr rfl)) text⟩
  | consume path =>
    exact ⟨ρ', h.of_eq (catalog_consume ..) (projects_consume ..) (catalog_consume ..)
      (projects_consume ..)⟩
  | resetConsumed => exact ⟨ρ', h.of_eq rfl rfl rfl rfl⟩
  | resolve path => exact ⟨ρ', h.of_eq rfl rfl rfl rfl⟩
  | reset | clear | clearActive => cases hop

/-- The project is reset in both sessions. -/
theorem reset (h : Separated U project ρ w alone) :
    Separated U project ρ (w.resetProject project) (alone.resetProject project) := by
  have hcatalog := catalog_clearProject_eq w project
  have hcatalog' := catalog_clearProject_eq alone project
  have hdeleted := h.mirrors.deleteFiles h.alone_consistent h.tracked_lt
  rw [← h.tracked, ← hcatalog, ← hcatalog'] at hdeleted
  have hothers : ∀ other ≠ project,
      (w.resetProject project).tracked other = w.tracked other := fun other hother =>
    (tracked_clearProject w project other).trans (if_neg hother)
  have hnone : ∀ v : Workspace, (v.resetProject project).tracked project = [] := fun v =>
    (tracked_clearProject v project project).trans (if_pos rfl)
  refine ⟨consistent_step h.consistent (.reset project),
    consistent_step h.alone_consistent (.reset project), hdeleted, ?_, ?_, ?_, ?_⟩
  · rw [hnone, hnone]
    rfl
  · rw [hnone]
    nofun
  · intro other hother
    rw [hothers other hother, nextId_resetProject]
    exact h.others_lt other hother
  · intro other hother
    rw [hothers other hother, nextId_resetProject]
    exact h.others_apart other hother

/-! ### The other projects -/

theorem put_apart (h : Separated U project ρ w alone) {path key : String} (hpath : ¬U path)
    {a : Artifact} (hkey : a.isImport = false → ¬U key) (file : Option File) :
    Apart ρ alone.catalog.nextId (w.put path key a file).1 ∧
      Separated U project ρ (w.put path key a file).2 alone := by
  obtain ⟨hid, hmirrors⟩ := h.mirrors.put_apart h.consistent hpath hkey file
  refine ⟨hid, h.consistent.put .., h.alone_consistent, hmirrors, h.tracked, h.tracked_lt, ?_,
    h.others_apart⟩
  intro other hother id hid
  exact Nat.lt_of_lt_of_le (h.others_lt other hother id hid)
    (w.catalog.nextId_le_put path key a file)

theorem track_apart (h : Separated U project ρ w alone) (hactive : w.active ≠ some project)
    {id : FileId} (hlt : id < w.catalog.nextId) (hid : Apart ρ alone.catalog.nextId id) :
    Separated U project ρ (w.track id) alone := by
  refine h.of_tracked (catalog_track ..) rfl ?_ h.tracked_lt ?_
  · rw [tracked_track, if_neg fun hnew => hactive hnew.1]
    exact h.tracked
  · intro other hother x hx
    rcases mem_tracked_track.mp hx with hold | ⟨-, rfl⟩
    · exact ⟨h.others_lt other hother x hold, h.others_apart other hother x hold⟩
    · exact ⟨hlt, hid⟩

theorem fill_apart (h : Separated U project ρ w alone) {key : String} (hkey : ¬U key)
    (text : String) : Separated U project ρ (w.step (.fill key text)) alone := by
  rw [step_fill]
  refine ⟨h.consistent.step (.fill key text), h.alone_consistent, h.mirrors.fill_apart hkey text,
    h.tracked, h.tracked_lt, ?_, h.others_apart⟩
  rw [Catalog.nextId_step_fill]
  exact h.others_lt

/-- An operation of another project, made in the session of all projects only. -/
theorem step_apart (h : Separated U project ρ w alone) (hactive : w.active ≠ some project) {op : Op}
    (hop : op.duringPass = true) (hU : ∀ x ∈ op.touched, ¬U x) :
    Separated U project ρ (w.step op) alone := by
  cases op with
  | source path text file =>
    have hpath : ¬U path := hU path (List.mem_singleton.mpr rfl)
    obtain ⟨hid, hput⟩ := h.put_apart hpath (fun _ => hpath) (a := .source text) (some file)
    exact hput.track_apart hactive (hput.consistent.id_lt _ (h.consistent.live_put ..)) hid
  | importLink path specifier link =>
    have hpath : ¬U path := hU path (List.mem_singleton.mpr rfl)
    exact (h.put_apart hpath (a := .importLink link) nofun none).2
  | announce path key a =>
    have hpath : ¬U path := hU path (by rw [Op.touched]; split <;> simp)
    have hkey : a.isImport = false → ¬U key := fun himport =>
      hU key (by simp [Op.touched, himport])
    exact (h.put_apart hpath hkey none).2
  | fill key text => exact h.fill_apart (hU key (List.mem_singleton.mpr rfl)) text
  | consume path => exact h.of_eq (catalog_consume ..) (projects_consume ..) rfl rfl
  | resetConsumed => exact h.of_eq rfl rfl rfl rfl
  | resolve path => exact h.of_eq rfl rfl rfl rfl
  | reset | clear | clearActive => cases hop

/-- Another project is reset. -/
theorem reset_apart (h : Separated U project ρ w alone) {other : String}
    (hother : other ≠ project) : Separated U project ρ (w.resetProject other) alone := by
  have hcatalog := catalog_clearProject_eq w other
  have hdeleted := h.mirrors.deleteFiles_apart h.alone_consistent (h.others_apart other hother)
  rw [← hcatalog] at hdeleted
  have htracked : ∀ p, (w.resetProject other).tracked p = if p = other then [] else w.tracked p :=
    tracked_clearProject w other
  have hmem : ∀ p, ∀ id ∈ (w.resetProject other).tracked p, id ∈ w.tracked p := by
    intro p id hid
    rw [htracked] at hid
    split at hid
    · cases hid
    · exact hid
  refine ⟨consistent_step h.consistent (.reset other), h.alone_consistent, hdeleted, ?_,
    h.tracked_lt, ?_, ?_⟩
  · rw [htracked, if_neg hother.symm]
    exact h.tracked
  · intro p hp id hid
    rw [nextId_resetProject]
    exact h.others_lt p hp id (hmem p id hid)
  · intro p hp id hid
    exact h.others_apart p hp id (hmem p id hid)

/-! ### Passes -/

theorem run (h : Separated U project ρ w alone) (hactive : w.active = some project)
    (hactive' : alone.active = some project) {ops : List Op}
    (hops : ∀ op ∈ ops, op.duringPass = true) (hU : ∀ x ∈ ops.flatMap Op.touched, U x) :
    ∃ ρ', Separated U project ρ' (w.run ops) (alone.run ops) := by
  induction ops generalizing ρ w alone with
  | nil => exact ⟨ρ, h⟩
  | cons op ops ih =>
    have hop := hops op (List.mem_cons_self ..)
    rw [List.flatMap_cons] at hU
    obtain ⟨ρ', h'⟩ := h.step hactive hactive' hop fun x hx => hU x (List.mem_append_left _ hx)
    exact ih h' ((active_of_duringPass w hop).trans hactive)
      ((active_of_duringPass alone hop).trans hactive')
      (fun op hmem => hops op (List.mem_cons_of_mem _ hmem))
      fun x hx => hU x (List.mem_append_right _ hx)

theorem run_apart (h : Separated U project ρ w alone) (hactive : w.active ≠ some project)
    {ops : List Op} (hops : ∀ op ∈ ops, op.duringPass = true)
    (hU : ∀ x ∈ ops.flatMap Op.touched, ¬U x) : Separated U project ρ (w.run ops) alone := by
  induction ops generalizing w with
  | nil => exact h
  | cons op ops ih =>
    have hop := hops op (List.mem_cons_self ..)
    rw [List.flatMap_cons] at hU
    refine ih (h.step_apart hactive hop fun x hx => hU x (List.mem_append_left _ hx)) ?_
      (fun op hmem => hops op (List.mem_cons_of_mem _ hmem))
      fun x hx => hU x (List.mem_append_right _ hx)
    rw [active_of_duringPass w hop]
    exact hactive

/-- The passes of the project are made in both sessions, those of all others in one. -/
theorem passes (h : Separated U project ρ w alone) {passes : List Pass}
    (hmine : ∀ p ∈ passes, p.project = project → ∀ x ∈ p.touched, U x)
    (hothers : ∀ p ∈ passes, p.project ≠ project → ∀ x ∈ p.touched, ¬U x) :
    ∃ ρ', Separated U project ρ' (w.run (session passes))
      (alone.run (session (passes.filter fun p => p.project = project))) := by
  induction passes generalizing ρ w alone with
  | nil => exact ⟨ρ, h⟩
  | cons p passes ih =>
    have hmine' := fun q hq => hmine q (List.mem_cons_of_mem _ hq)
    have hothers' := fun q hq => hothers q (List.mem_cons_of_mem _ hq)
    rw [run_session_cons, List.filter_cons]
    by_cases hp : p.project = project
    · subst hp
      rw [if_pos (decide_eq_true rfl), run_session_cons]
      obtain ⟨ρ', h'⟩ := h.reset.run rfl rfl p.duringPass (hmine p (List.mem_cons_self ..) rfl)
      exact ih h' hmine' hothers'
    · rw [if_neg fun hq => hp (of_decide_eq_true hq)]
      have hactive : (w.resetProject p.project).active ≠ some project := fun hactive =>
        hp (Option.some.inj hactive)
      have h' := (h.reset_apart hp).run_apart hactive p.duringPass
        (hothers p (List.mem_cons_self ..) hp)
      exact ih h' hmine' hothers'

/-! ### Answers -/

theorem projectFiles (h : Separated U project ρ w alone) :
    w.projectFiles project = alone.projectFiles project := by
  show (w.tracked project).filterMap _ = (alone.tracked project).filterMap _
  rw [h.tracked, List.filterMap_map]
  exact List.filterMap_congr fun id hid => h.mirrors.files id (h.tracked_lt id hid)

end Separated

/-! ## Sessions -/

/-- What a project sees of a session of passes, if none of its passes writes to a path or key that
a pass of another project writes to. However the passes come one after the other, it sees what it
would see if only its own passes had been made, up to the identities of the files: the same records,
and on every path and key that no other project writes to the same store, owner, record, text,
outputs and imports. -/
theorem run_sees_own_passes (paths : Path.Resolver) (passes : List Pass) (project : String)
    (hdisjoint : ∀ p ∈ passes, p.project = project → ∀ q ∈ passes, q.project ≠ project →
      ∀ x ∈ p.touched, x ∉ q.touched) :
    let w := (ofResolver paths).run (session passes)
    let alone := (ofResolver paths).run (session (passes.filter fun p => p.project = project))
    ∃ ρ : FileId → FileId,
      (∀ i j, alone.catalog.files.contains i = true → alone.catalog.files.contains j = true →
        ρ i = ρ j → i = j) ∧
      w.projectFiles project = alone.projectFiles project ∧
      ∀ x, (∀ q ∈ passes, q.project ≠ project → x ∉ q.touched) →
        w.catalog.stores.get? x = (alone.catalog.stores.get? x).map (Store.relabel ρ) ∧
        w.catalog.find? x = (alone.catalog.find? x).map (View.relabel ρ) ∧
        w.catalog.file? x = alone.catalog.file? x ∧
        w.text? x = alone.text? x ∧
        (∀ k, w.output? x k = (alone.output? x k).map (View.relabel ρ)) ∧
        ∀ specifier, w.import? x specifier = (alone.import? x specifier).map (View.relabel ρ) := by
  intro w alone
  -- Inside are the paths and keys that no other project writes to.
  let U : String → Prop := fun x => ∀ q ∈ passes, q.project ≠ project → x ∉ q.touched
  have hstart : Separated U project (fun i => i) (ofResolver paths) (ofResolver paths) :=
    .start U project _ paths
  obtain ⟨ρ, h⟩ : ∃ ρ, Separated U project ρ w alone := by
    refine hstart.passes ?_ ?_
    · intro p hp hproject x hx q hq hother
      exact hdisjoint p hp hproject q hq hother x hx
    · intro p hp hother x hx hU
      exact hU p hp hother hx
  have hc := h.alone_consistent
  refine ⟨ρ, ?_, h.projectFiles, ?_⟩
  · intro i j hi hj
    exact h.mirrors.injective i (hc.id_lt i hi) j (hc.id_lt j hj)
  · intro x hx
    have hfind := h.mirrors.find? hc hx
    refine ⟨h.mirrors.stores x hx, hfind, h.mirrors.file? hc hx, ?_,
      fun k => h.mirrors.firstOfKindAt hc hx (.output k), ?_⟩
    · rw [text?, text?, hfind, Option.bind_map]
      rfl
    · intro specifier
      rw [import?, import?, h.mirrors.view hc hx, Option.filter_map]
      rfl

/-- Two passes over one project with a pass over another between them. Both projects import
something by the same specifier. -/
def alternatingPasses : List Pass :=
  [⟨"/b/tsconfig.json",
      [.source "/b/y.ts" "y" ⟨.compiled, "/b/y.ts", "/b/tsconfig.json", ∅⟩,
        .importLink "/b/y.ts" "./dep" ⟨"/b/dep.ts", ".ts", false, none⟩], by decide⟩,
    ⟨"/a/tsconfig.json",
      [.source "/a/x.ts" "x" ⟨.compiled, "/a/x.ts", "/a/tsconfig.json", ∅⟩,
        .importLink "/a/x.ts" "./dep" ⟨"/a/dep.ts", ".ts", false, none⟩,
        .announce "/a/x.ts" "/a/x.js" (.output .script none), .fill "/a/x.js" "js"], by decide⟩,
    ⟨"/b/tsconfig.json",
      [.source "/b/y.ts" "z" ⟨.compiled, "/b/y.ts", "/b/tsconfig.json", ∅⟩], by decide⟩]

theorem run_sees_own_passes_alternating :
    let w := (ofResolver ⟨"/work", ∅⟩).run (session alternatingPasses)
    let alone := (ofResolver ⟨"/work", ∅⟩).run
      (session (alternatingPasses.filter fun p => p.project = "/a/tsconfig.json"))
    w.catalog.fileId? "/a/x.js" = some 1 ∧ alone.catalog.fileId? "/a/x.js" = some 0 ∧
      w.projectFiles "/a/tsconfig.json" = alone.projectFiles "/a/tsconfig.json" ∧
      w.text? "/a/x.js" = alone.text? "/a/x.js" ∧ w.text? "/a/x.js" = some "js" := by
  have hdisjoint : ∀ p ∈ alternatingPasses, p.project = "/a/tsconfig.json" →
      ∀ q ∈ alternatingPasses, q.project ≠ "/a/tsconfig.json" →
        ∀ x ∈ p.touched, x ∉ q.touched := by decide
  obtain ⟨ρ, -, hfiles, hanswers⟩ :=
    run_sees_own_passes ⟨"/work", ∅⟩ alternatingPasses "/a/tsconfig.json" hdisjoint
  obtain ⟨-, -, -, htext, -⟩ := hanswers "/a/x.js" (by decide)
  exact ⟨by decide, by decide, hfiles, htext, by decide⟩

end Workspace

end BuildRelay
