/-
BuildRelay.Proofs.Workspace.Leftovers — what is left once every project has been cleared.

A project hears of a file only when a source is registered. An import or an announcement for a path
that nobody answers for opens a file as well, for a placeholder, and as long as no source comes to
that file no project has it. Such a file outlives the clearing of all projects.

* `strays` — the files that a session opened without a source.
* `Accounted.step`, `Accounted.run` — a live file is a stray or has been registered.
* `contains_files_clearProjects` — clearing projects, seen from one file.
* `clearProjects_empty_iff` — exactly when nothing is left, and what is left otherwise.
* `clearProjects_keeps_stray_import` — a session that leaves something.
-/
import BuildRelay.Proofs.Workspace.Projects
import BuildRelay.Proofs.Workspace.SharedRecord

namespace BuildRelay

namespace Catalog

variable {c : Catalog}

/-- A put without a record makes a file live only where nobody answers for its path. -/
theorem Consistent.live_of_put_none (h : Consistent c) {path key : String} {a : Artifact}
    {id : FileId} (hid : (c.put path key a none).2.files.contains id = true) :
    c.files.contains id = true ∨ c.fileId? path = none ∧ id = c.nextId := by
  rw [files_put, h.contains_files_enroll] at hid
  rcases hid with hold | rfl
  · exact .inl hold
  · obtain ⟨s, hs, -, he⟩ | ⟨s, f, -, hnone, -⟩ | ⟨o, -, -, ho, he⟩ | ⟨hs, howner, he⟩ :=
      c.enroll_cases path none
    · rw [he]
      exact .inl (h.store_live path s hs)
    · cases hnone
    · rw [he]
      exact .inl (h.owner_live ho)
    · rw [he]
      exact .inr ⟨by simp [fileId?, hs, howner rfl], rfl⟩

/-- A catalog without files holds nothing at all. -/
theorem Consistent.empty_iff (h : Consistent c) :
    (c.files = ∅ ∧ c.stores = ∅ ∧ c.owners = ∅) ↔ ∀ id, c.files.contains id = false := by
  rw [OrderedMap.eq_empty_iff]
  refine and_iff_left_of_imp fun hfiles => ⟨?_, ?_⟩
  · refine OrderedMap.eq_empty_iff.mpr fun path => ?_
    rw [← Bool.not_eq_true]
    intro hpath
    obtain ⟨s, hs⟩ := OrderedMap.contains_iff.mp hpath
    have hlive := h.store_live path s hs
    rw [hfiles] at hlive
    cases hlive
  · refine OrderedMap.eq_empty_iff.mpr fun key => ?_
    rw [← Bool.not_eq_true]
    intro hkey
    obtain ⟨o, ho⟩ := OrderedMap.contains_iff.mp hkey
    have hlive := h.owner_live ho
    rw [hfiles] at hlive
    cases hlive

end Catalog

namespace Workspace

/-! ## Files without a source -/

/-- The file that an operation opens without a source: the next one, if the operation writes
without a record to a path that nobody answers for. -/
def stray? (w : Workspace) (op : Op) : Option FileId :=
  op.unrecorded?.bind fun path =>
    if w.catalog.fileId? path = none then some w.catalog.nextId else none

/-- The files that a session opens without a source, oldest first. -/
def strays (w : Workspace) : List Op → List FileId
  | [] => []
  | op :: ops => (w.stray? op).toList ++ strays (w.step op) ops

/-- Every live file has been registered or opened without a source. -/
def Accounted (w : Workspace) (l : List Registration) (opened : List FileId) : Prop :=
  ∀ id, w.catalog.files.contains id = true → (∃ r ∈ l, r.id = id) ∨ id ∈ opened

namespace Accounted

variable {w : Workspace} {l : List Registration} {opened : List FileId}

/-- Whatever makes no file live needs no account of it. -/
theorem mono (h : Accounted w l opened) {w' : Workspace} {l' : List Registration}
    {opened' : List FileId}
    (hlive : ∀ id, w'.catalog.files.contains id = true → w.catalog.files.contains id = true ∨
      (∃ r ∈ l', r.id = id) ∨ id ∈ opened') : Accounted w' (l ++ l') (opened ++ opened') := by
  intro id hid
  rcases hlive id hid with hold | ⟨r, hr, hrid⟩ | hnew
  · rcases h id hold with ⟨r, hr, hrid⟩ | hopened
    · exact .inl ⟨r, List.mem_append_left _ hr, hrid⟩
    · exact .inr (List.mem_append_left _ hopened)
  · exact .inl ⟨r, List.mem_append_right _ hr, hrid⟩
  · exact .inr (List.mem_append_right _ hnew)

theorem step (h : Accounted w l opened) (hc : w.catalog.Consistent) (op : Op) :
    Accounted (w.step op) (l ++ (w.registration? op).toList) (opened ++ (w.stray? op).toList) := by
  refine h.mono fun id hid => ?_
  rw [catalog_step] at hid
  -- An import and an announcement open at most a stray file.
  have unrecorded : ∀ {path key : String} {a : Artifact}, op.unrecorded? = some path →
      (w.catalog.put path key a none).2.files.contains id = true →
      w.catalog.files.contains id = true ∨ id ∈ (w.stray? op).toList := by
    intro path key a hpath hput
    rcases hc.live_of_put_none hput with hold | ⟨hnobody, rfl⟩
    · exact .inl hold
    · exact .inr (by simp [stray?, hpath, hnobody])
  have deleted : ∀ {ids : List FileId},
      (w.catalog.run (ids.map .deleteFile)).files.contains id = true →
      w.catalog.files.contains id = true := by
    intro ids hrun
    rw [run_deleteFile, Catalog.contains_files_deleteFiles] at hrun
    exact hrun.1
  cases op with
  | reset project => exact .inl (deleted hid)
  | clear project => exact .inl (deleted hid)
  | source path text file =>
    rw [catalogOps, Catalog.run, List.foldl, List.foldl, Catalog.step, Catalog.files_put,
      hc.contains_files_enroll] at hid
    refine hid.imp_right fun hnew => .inl ?_
    refine ⟨_, List.mem_singleton.mpr rfl, ?_⟩
    exact (w.catalog.id_put path path (.source text) (some file)).trans hnew.symm
  | importLink path specifier link => exact (unrecorded rfl hid).imp_right .inr
  | announce path key a => exact (unrecorded rfl hid).imp_right .inr
  | fill key text =>
    rw [catalogOps, Catalog.run, List.foldl, List.foldl, Catalog.files_step_fill] at hid
    exact .inl hid
  | clearActive | consume path | resetConsumed | resolve path => exact .inl hid

theorem run (h : Accounted w l opened) (hc : w.catalog.Consistent) (ops : List Op) :
    Accounted (w.run ops) (l ++ registrations w ops) (opened ++ strays w ops) := by
  induction ops generalizing w l opened with
  | nil =>
    rw [registrations, strays, List.append_nil, List.append_nil]
    exact h
  | cons op ops ih =>
    have hrest := ih (h.step hc op) (consistent_step hc op)
    rw [List.append_assoc, List.append_assoc] at hrest
    exact hrest

end Accounted

/-! ## The projects of a session -/

/-- The project whose pass an operation starts. -/
def Op.started? : Op → Option String
  | .reset project => some project
  | _ => none

/-- The projects whose passes a session starts. -/
def started (ops : List Op) : List String := ops.filterMap Op.started?

/-- A source is registered for a project only in a pass that was started. -/
theorem started_of_registration {w : Workspace} {project : String} (ops : List Op)
    {r : Registration} (hr : r ∈ registrations w ops) (hproject : r.project = some project) :
    w.active = some project ∨ project ∈ started ops := by
  induction ops generalizing w with
  | nil => cases hr
  | cons op ops ih =>
    rcases List.mem_append.mp hr with hnow | hlater
    · left
      cases op with
      | source path text file =>
        cases List.mem_singleton.mp hnow
        exact hproject
      | reset | clear | clearActive | importLink | announce | fill | consume | resetConsumed
      | resolve => cases hnow
    · rcases ih hlater with hactive | hstarted
      · rw [active_step] at hactive
        cases op with
        | reset project' =>
          cases hactive
          exact .inr (List.mem_cons_self ..)
        | clearActive => cases hactive
        | clear | source | importLink | announce | fill | consume | resetConsumed | resolve =>
          exact .inl hactive
      · right
        rw [started, List.filterMap_cons]
        split
        · exact hstarted
        · exact List.mem_cons_of_mem _ hstarted

/-! ## Clearing projects -/

theorem contains_files_clearProjects (w : Workspace) (projects : List String) (id : FileId) :
    (projects.foldl clearProject w).catalog.files.contains id = true ↔
      w.catalog.files.contains id = true ∧ ∀ project ∈ projects, id ∉ w.tracked project := by
  induction projects generalizing w with
  | nil => simp
  | cons cleared projects ih =>
    rw [List.foldl_cons, ih, catalog_clearProject_eq, Catalog.contains_files_deleteFiles,
      List.forall_mem_cons, and_assoc]
    refine and_congr_right fun _ => and_congr_right fun hid => forall₂_congr fun project _ => ?_
    rw [tracked_clearProject]
    split
    · rename_i hproject
      subst hproject
      simp [hid]
    · rfl

theorem consistent_clearProjects {w : Workspace} (h : w.catalog.Consistent)
    (projects : List String) : (projects.foldl clearProject w).catalog.Consistent := by
  induction projects generalizing w with
  | nil => exact h
  | cons cleared projects ih => exact ih (consistent_step h (.clear cleared))

/-- What is left once all projects have been cleared, if sources were registered in passes of
projects only. It is the live files that were opened without a source and that no source was
registered for since. So the catalog is empty exactly if there is none of them: if every import and
every announcement was made for a path that something answered for, or whose file was deleted or
registered afterwards. -/
theorem clearProjects_empty_iff (paths : Path.Resolver) (ops : List Op) (projects : List String)
    (hpasses : ∀ r ∈ registrations (ofResolver paths) ops, r.project ≠ none)
    (hprojects : ∀ project ∈ started ops, project ∈ projects) :
    let w := (ofResolver paths).run ops
    let l := registrations (ofResolver paths) ops
    let opened := strays (ofResolver paths) ops
    let after := projects.foldl clearProject w
    (∀ id, after.catalog.files.contains id = true ↔
      w.catalog.files.contains id = true ∧ id ∈ opened ∧ ∀ r ∈ l, r.id ≠ id) ∧
    ((after.catalog.files = ∅ ∧ after.catalog.stores = ∅ ∧ after.catalog.owners = ∅) ↔
      ∀ id ∈ opened, w.catalog.files.contains id = true → ∃ r ∈ l, r.id = id) := by
  intro w l opened after
  have hc : w.catalog.Consistent := run_catalog_consistent paths ops
  have hbooks : Bookkeeping w l := run_bookkeeping paths ops
  have hstart : Accounted (ofResolver paths) [] [] := by
    intro id hid
    cases hid
  have haccounted : Accounted w l opened := hstart.run Catalog.empty_consistent ops
  have hleft : ∀ id, after.catalog.files.contains id = true ↔
      w.catalog.files.contains id = true ∧ id ∈ opened ∧ ∀ r ∈ l, r.id ≠ id := by
    intro id
    rw [contains_files_clearProjects]
    refine and_congr_right fun hlive => ?_
    constructor
    · intro huntracked
      have hunregistered : ∀ r ∈ l, r.id ≠ id := by
        rintro ⟨rid, rproject⟩ hr rfl
        obtain ⟨project, rfl⟩ := Option.ne_none_iff_exists'.mp (hpasses _ hr)
        rcases started_of_registration ops hr rfl with hnone | hstarted
        · cases hnone
        · exact huntracked project (hprojects project hstarted)
            (hbooks.tracked_of_live rid project hr hlive)
      refine ⟨(haccounted id hlive).resolve_left ?_, hunregistered⟩
      rintro ⟨r, hr, hid⟩
      exact hunregistered r hr hid
    · rintro ⟨-, hunregistered⟩ project - htracked
      exact hunregistered _ (hbooks.registered_of_tracked id project htracked) rfl
  refine ⟨hleft, ?_⟩
  rw [(consistent_clearProjects hc projects).empty_iff]
  constructor
  · intro hempty id hopened hlive
    by_contra hunregistered
    push Not at hunregistered
    have hkept := (hleft id).mpr ⟨hlive, hopened, hunregistered⟩
    rw [hempty] at hkept
    cases hkept
  · intro hregistered id
    rw [← Bool.not_eq_true]
    intro hkept
    obtain ⟨hlive, hopened, hunregistered⟩ := (hleft id).mp hkept
    obtain ⟨r, hr, hid⟩ := hregistered id hopened hlive
    exact hunregistered r hr hid

/-- A pass that records an import of a library file, which is never registered as a source. -/
def libraryImportSession : List Op :=
  [.reset "/p/tsconfig.json",
    .importLink "/p/node_modules/x/index.d.ts" "./util"
      ⟨"/p/node_modules/x/util.d.ts", ".d.ts", false, none⟩]

theorem clearProjects_keeps_stray_import :
    let w := (ofResolver ⟨"/work", ∅⟩).run libraryImportSession
    let after := w.clearProject "/p/tsconfig.json"
    w.active = some "/p/tsconfig.json" ∧
      after.catalog.files.size = 1 ∧
      after.catalog.stores.contains "/p/node_modules/x/index.d.ts" = true := by
  decide

/-- A pass that records an import of a source before it registers the source. -/
def earlyImportSession : List Op :=
  [.reset "/p/tsconfig.json",
    .importLink "/p/a.ts" "./b" ⟨"/p/b.ts", ".ts", false, none⟩,
    .source "/p/a.ts" "a" ⟨.compiled, "/p/a.ts", "/p/tsconfig.json", ∅⟩,
    .announce "/p/a.ts" "/p/a.js" (.output .script none)]

theorem clearProjects_empty_after_registration :
    let after := ((ofResolver ⟨"/work", ∅⟩).run earlyImportSession).clearProject "/p/tsconfig.json"
    (∀ r ∈ registrations (ofResolver ⟨"/work", ∅⟩) earlyImportSession, r.project ≠ none) ∧
      (∀ project ∈ started earlyImportSession, project ∈ ["/p/tsconfig.json"]) ∧
      strays (ofResolver ⟨"/work", ∅⟩) earlyImportSession = [0] ∧
      after.catalog.files = ∅ ∧ after.catalog.stores = ∅ ∧ after.catalog.owners = ∅ := by
  have hpasses : ∀ r ∈ registrations (ofResolver ⟨"/work", ∅⟩) earlyImportSession,
      r.project ≠ none := by decide
  have hprojects : ∀ project ∈ started earlyImportSession, project ∈ ["/p/tsconfig.json"] := by
    decide
  refine ⟨hpasses, hprojects, by decide, ?_⟩
  exact (clearProjects_empty_iff ⟨"/work", ∅⟩ earlyImportSession ["/p/tsconfig.json"] hpasses
    hprojects).2.mpr (by decide)

end Workspace

end BuildRelay
