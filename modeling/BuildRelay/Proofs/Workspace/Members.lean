/-
BuildRelay.Proofs.Workspace.Members — the list of files of a project, over whole sessions.

A project lists the files that were registered for it since it was last cleared, in the order in
which they first were. It may keep the identity of a file that another project has deleted. That
does no harm: an identity comes to life once, so what is dead stays dead, and a project neither
shows nor deletes a file that it did not register.

* `members` — the list as the session has it.
* `tracked_run_eq_members` — it is the list that the workspace keeps.
* `births` — the files that come to life in a session.
* `births_eq_range`, `toNat_of_few_births` — they are numbered from zero, without a gap, so numbers of
  32 bits will do for as many sessions as create no more than that.
* `births_ascending`, `dead_run` — no identity is handed out twice.
* `run_project_members` — what a project shows, and what clearing it deletes.
-/
import BuildRelay.Proofs.Workspace.Projects
import Mathlib.Data.List.DropRight

namespace BuildRelay

namespace Workspace

/-! ## The members of a project -/

/-- Whether an operation clears a project. -/
def Op.clears (project : String) : Op → Bool
  | .reset p | .clear p => p = project
  | .clearActive | .source .. | .importLink .. | .announce .. | .fill .. | .consume _
  | .resetConsumed | .resolve _ => false

/-- A session up to the last operation that cleared a project. -/
def untilCleared (project : String) (ops : List Op) : List Op :=
  ops.rdropWhile fun op => !op.clears project

/-- A session after the last operation that cleared a project. -/
def sinceCleared (project : String) (ops : List Op) : List Op :=
  ops.rtakeWhile fun op => !op.clears project

/-- The files that the registrations for a project came to, oldest first. -/
def filesFor (project : String) (l : List Registration) : List FileId :=
  (l.filter fun r => r.project = some project).map Registration.id

/-- The files registered for a project since it was last cleared, each once, in the order in which
they first were. -/
def members (w : Workspace) (ops : List Op) (project : String) : List FileId :=
  (filesFor project
    (registrations (w.run (untilCleared project ops)) (sinceCleared project ops))).eraseDups

/-- An operation that does not clear a project adds the file that it registers for the project, if
it registers one and the file is not there yet. -/
theorem tracked_step {w : Workspace} {op : Op} {project : String} {l : List FileId}
    (hop : op.clears project = false) (hl : w.tracked project = l.eraseDups) :
    (w.step op).tracked project =
      (l ++ filesFor project (w.registration? op).toList).eraseDups := by
  have quiet : (w.step op).projects = w.projects → w.registration? op = none →
      (w.step op).tracked project =
        (l ++ filesFor project (w.registration? op).toList).eraseDups := by
    intro hprojects hnone
    have hsame : (w.step op).tracked project = w.tracked project := by
      rw [tracked, hprojects, tracked]
    rw [hsame, hl, hnone]
    simp [filesFor]
  have cleared : ∀ p, op.clears project = decide (p = project) →
      (w.clearProject p).tracked project = (l ++ []).eraseDups := by
    intro p hp
    rw [hp, decide_eq_false_iff_not] at hop
    rw [tracked_clearProject, if_neg (Ne.symm hop), List.append_nil, hl]
  cases op with
  | reset p => exact cleared p rfl
  | clear p => exact cleared p rfl
  | source path text file =>
    have hput : (w.put path path (.source text) (some file)).2.tracked project = l.eraseDups := hl
    show ((w.put path path (.source text) (some file)).2.track _).tracked project = _
    rw [tracked_track, hput]
    simp only [registration?, Option.toList_some, filesFor]
    by_cases hactive : w.active = some project
    · rw [List.filter_cons_of_pos (by simpa using hactive), List.filter_nil, List.map_singleton,
        eraseDups_concat]
      by_cases hid : (w.registerSource path text file).1 ∈ l
      · rw [if_pos hid, if_neg fun h => h.2 (List.mem_eraseDups.mpr hid)]
      · rw [if_neg hid, if_pos ⟨hactive, fun h => hid (List.mem_eraseDups.mp h)⟩]
        rfl
    · rw [List.filter_cons_of_neg (by simpa using hactive), if_neg fun h => hactive h.1]
      simp
  | fill key text => exact quiet (by rw [step_fill]) rfl
  | consume path => exact quiet (w.projects_consume path) rfl
  | clearActive => exact quiet rfl rfl
  | importLink path specifier link => exact quiet rfl rfl
  | announce path key a => exact quiet rfl rfl
  | resetConsumed => exact quiet rfl rfl
  | resolve path => exact quiet rfl rfl

theorem tracked_run {w : Workspace} {ops : List Op} {project : String} {l : List FileId}
    (hops : ∀ op ∈ ops, op.clears project = false) (hl : w.tracked project = l.eraseDups) :
    (w.run ops).tracked project = (l ++ filesFor project (registrations w ops)).eraseDups := by
  induction ops generalizing w l with
  | nil =>
    rw [registrations, filesFor, List.filter_nil, List.map_nil, List.append_nil]
    exact hl
  | cons op ops ih =>
    have hrest := ih (fun op hop => hops op (List.mem_cons_of_mem _ hop))
      (tracked_step (hops op List.mem_cons_self) hl)
    rw [registrations, filesFor, List.filter_append, List.map_append, ← List.append_assoc]
    exact hrest

theorem tracked_step_of_clears (w : Workspace) {op : Op} {project : String}
    (hop : op.clears project = true) : (w.step op).tracked project = [] := by
  cases op with
  | reset p =>
    obtain rfl := of_decide_eq_true hop
    exact (tracked_clearProject w p p).trans (if_pos rfl)
  | clear p =>
    obtain rfl := of_decide_eq_true hop
    exact (tracked_clearProject w p p).trans (if_pos rfl)
  | clearActive | source | importLink | announce | fill | consume | resetConsumed | resolve =>
    cases hop

/-- A project that has just been cleared, or never was registered for, has no files. -/
theorem tracked_untilCleared (paths : Path.Resolver) (ops : List Op) (project : String) :
    ((ofResolver paths).run (untilCleared project ops)).tracked project = [] := by
  induction ops using List.reverseRecOn with
  | nil => rfl
  | append_singleton ops op ih =>
    rw [untilCleared, List.rdropWhile_concat]
    split
    · exact ih
    · rename_i hclears
      rw [run_append]
      exact tracked_step_of_clears _ (by simpa using hclears)

/-- The list that the workspace keeps for a project is the list of its members. -/
theorem tracked_run_eq_members (paths : Path.Resolver) (ops : List Op) (project : String) :
    ((ofResolver paths).run ops).tracked project = members (ofResolver paths) ops project := by
  have hsplit : untilCleared project ops ++ sinceCleared project ops = ops :=
    List.rdropWhile_append_rtakeWhile
  have hstart : ((ofResolver paths).run (untilCleared project ops)).tracked project =
      ([] : List FileId).eraseDups := tracked_untilCleared paths ops project
  have hsince : ∀ op ∈ sinceCleared project ops, op.clears project = false := by
    intro op hop
    simpa using List.mem_rtakeWhile_imp hop
  calc ((ofResolver paths).run ops).tracked project
      = (((ofResolver paths).run (untilCleared project ops)).run
          (sinceCleared project ops)).tracked project := by rw [← run_append, hsplit]
    _ = members (ofResolver paths) ops project := by
      rw [tracked_run hsince hstart, List.nil_append, members]

/-! ## Files that come to life -/

/-- The files that an operation brings to life. -/
def born (w : Workspace) (op : Op) : List FileId :=
  (w.step op).catalog.files.keys.filter fun id => !w.catalog.files.contains id

/-- The files that come to life in a session, in order. -/
def births (w : Workspace) : List Op → List FileId
  | [] => []
  | op :: ops => w.born op ++ births (w.step op) ops

theorem mem_born {w : Workspace} {op : Op} {id : FileId} : id ∈ w.born op ↔
    (w.step op).catalog.files.contains id = true ∧ w.catalog.files.contains id = false := by
  rw [born, List.mem_filter, OrderedMap.mem_keys_iff, Bool.not_eq_true']

theorem live_or_born {w : Workspace} {op : Op} {id : FileId}
    (hlive : (w.step op).catalog.files.contains id = true) :
    w.catalog.files.contains id = true ∨ id ∈ w.born op := by
  cases hold : w.catalog.files.contains id with
  | true => exact .inl rfl
  | false => exact .inr (mem_born.mpr ⟨hlive, hold⟩)

/-- Identities are handed out in order, at most one by an operation, and to a file that is live
then. -/
theorem nextId_step_cases (w : Workspace) (op : Op) :
    (w.step op).catalog.nextId = w.catalog.nextId ∨
      (w.step op).catalog.nextId = w.catalog.nextId + 1 ∧
        (w.step op).catalog.files.contains w.catalog.nextId = true := by
  have deleted : ∀ project, (w.clearProject project).catalog.nextId = w.catalog.nextId := by
    intro project
    rw [catalog_clearProject_eq, Catalog.nextId_deleteFiles]
  cases op with
  | reset project => exact .inl (deleted project)
  | clear project => exact .inl (deleted project)
  | source path text file =>
    rw [step, catalog_registerSource]
    exact w.catalog.nextId_put_cases ..
  | importLink path specifier link => exact w.catalog.nextId_put_cases ..
  | announce path key a => exact w.catalog.nextId_put_cases ..
  | fill key text =>
    rw [step_fill]
    exact .inl (w.catalog.nextId_step_fill key text)
  | consume path => exact .inl (congrArg Catalog.nextId (w.catalog_consume path))
  | clearActive => exact .inl rfl
  | resetConsumed => exact .inl rfl
  | resolve path => exact .inl rfl

theorem nextId_le_step (w : Workspace) (op : Op) :
    w.catalog.nextId ≤ (w.step op).catalog.nextId := by
  rcases w.nextId_step_cases op with hsame | ⟨hnext, -⟩
  · exact Nat.le_of_eq hsame.symm
  · exact Nat.le_trans (Nat.le_succ _) (Nat.le_of_eq hnext.symm)

section Step

variable {w : Workspace} (hc : w.catalog.Consistent) (op : Op)

include hc

/-- An operation brings no file to life but the next one. -/
theorem live_or_next_step {id : FileId} (hid : (w.step op).catalog.files.contains id = true) :
    w.catalog.files.contains id = true ∨ id = w.catalog.nextId := by
  have deleted : ∀ project, (w.clearProject project).catalog.files.contains id = true →
      w.catalog.files.contains id = true ∨ id = w.catalog.nextId := by
    intro project hlive
    rw [catalog_clearProject_eq, Catalog.contains_files_deleteFiles] at hlive
    exact .inl hlive.1
  cases op with
  | reset project => exact deleted project hid
  | clear project => exact deleted project hid
  | source path text file =>
    refine hc.live_or_next_of_put path path (.source text) (some file) ?_
    rw [← catalog_registerSource]
    exact hid
  | importLink path specifier link =>
    exact hc.live_or_next_of_put path specifier (.importLink link) none hid
  | announce path key a => exact hc.live_or_next_of_put path key a none hid
  | fill key text =>
    rw [step_fill, Catalog.files_step_fill] at hid
    exact .inl hid
  | consume path => exact .inl (w.catalog_consume path ▸ hid)
  | clearActive => exact .inl hid
  | resetConsumed => exact .inl hid
  | resolve path => exact .inl hid

theorem eq_nextId_of_mem_born {id : FileId} (hid : id ∈ w.born op) : id = w.catalog.nextId := by
  obtain ⟨hlive, hdead⟩ := mem_born.mp hid
  refine (live_or_next_step hc op hlive).resolve_left fun hold => ?_
  rw [hdead] at hold
  cases hold

theorem nextId_lt_of_mem_born {id : FileId} (hid : id ∈ w.born op) :
    id < (w.step op).catalog.nextId :=
  (consistent_step hc op).id_lt id (mem_born.mp hid).1

/-- An operation brings the next file to life, and counts it, or none. -/
theorem born_cases : (w.born op = [] ∧ (w.step op).catalog.nextId = w.catalog.nextId) ∨
    (w.born op = [w.catalog.nextId] ∧ (w.step op).catalog.nextId = w.catalog.nextId + 1) := by
  rcases w.nextId_step_cases op with hsame | ⟨hnext, hlive⟩
  · refine .inl ⟨List.eq_nil_iff_forall_not_mem.mpr fun id hid => ?_, hsame⟩
    have hlt := nextId_lt_of_mem_born hc op hid
    rw [eq_nextId_of_mem_born hc op hid, hsame] at hlt
    exact Nat.lt_irrefl _ hlt
  · have hdead : w.catalog.files.contains w.catalog.nextId = false := by
      rw [← Bool.not_eq_true]
      exact fun hold => Nat.lt_irrefl _ (hc.id_lt _ hold)
    have hmem : w.catalog.nextId ∈ w.born op := mem_born.mpr ⟨hlive, hdead⟩
    have hnodup : (w.born op).Nodup := (w.step op).catalog.files.nodup_keys.filter _
    refine .inr ⟨?_, hnext⟩
    exact List.perm_singleton.mp ((List.perm_ext_iff_of_nodup hnodup (List.nodup_singleton _)).mpr
      fun id => ⟨fun hid => List.mem_singleton.mpr (eq_nextId_of_mem_born hc op hid),
        fun hid => List.mem_singleton.mp hid ▸ hmem⟩)

end Step

section Run

variable {w : Workspace} (hc : w.catalog.Consistent) (ops : List Op)

include hc

/-- The files that come to life get the identities that come next, one by one, and the next identity
counts them. -/
theorem births_eq_range' : births w ops = List.range' w.catalog.nextId (births w ops).length ∧
    (w.run ops).catalog.nextId = w.catalog.nextId + (births w ops).length := by
  induction ops generalizing w with
  | nil => exact ⟨rfl, rfl⟩
  | cons op ops ih =>
    obtain ⟨hlater, hcount⟩ := ih (consistent_step hc op)
    have hrun : (w.run (op :: ops)).catalog.nextId =
      (w.step op).catalog.nextId + (births (w.step op) ops).length := hcount
    rw [hrun, births]
    rcases born_cases hc op with ⟨hnone, hsame⟩ | ⟨hone, hnext⟩
    · rw [hnone, List.nil_append, ← hsame]
      exact ⟨hlater, rfl⟩
    · rw [hone, List.singleton_append, List.length_cons]
      refine ⟨?_, ?_⟩
      · rw [List.range'_succ, ← hnext, ← hlater]
      · rw [hnext, Nat.add_right_comm, Nat.add_assoc]

/-- A file comes to life with an identity that was not handed out before, and is counted then. -/
theorem mem_births_iff {id : FileId} : id ∈ births w ops ↔
    w.catalog.nextId ≤ id ∧ id < (w.run ops).catalog.nextId := by
  obtain ⟨hrange, hcount⟩ := births_eq_range' hc ops
  rw [hcount]
  nth_rewrite 1 [hrange]
  rw [List.mem_range'_1]

/-- No identity comes to life twice. -/
theorem births_ascending : (births w ops).Pairwise (· < ·) := by
  rw [(births_eq_range' hc ops).1]
  exact List.pairwise_lt_range'

/-- What has been handed out and is dead stays dead. -/
theorem dead_run {id : FileId} (hlt : id < w.catalog.nextId)
    (hdead : w.catalog.files.contains id = false) :
    (w.run ops).catalog.files.contains id = false := by
  induction ops generalizing w with
  | nil => exact hdead
  | cons op ops ih =>
    refine ih (consistent_step hc op) (Nat.lt_of_lt_of_le hlt (nextId_le_step w op)) ?_
    rw [← Bool.not_eq_true]
    intro hlive
    rcases live_or_next_step hc op hlive with hold | hnext
    · rw [hdead] at hold
      cases hold
    · exact absurd hnext (Nat.ne_of_lt hlt)

/-- Every live file was there from the start or has come to life. -/
theorem live_run {id : FileId} (hlive : (w.run ops).catalog.files.contains id = true) :
    w.catalog.files.contains id = true ∨ id ∈ births w ops := by
  induction ops generalizing w with
  | nil => exact .inl hlive
  | cons op ops ih =>
    rcases ih (consistent_step hc op) hlive with hnow | hlater
    · exact (live_or_born hnow).imp_right (List.mem_append_left _)
    · exact .inr (List.mem_append_right _ hlater)

/-- Whatever a source is registered for was there from the start or has come to life. -/
theorem birth_of_registration {r : Registration} (hr : r ∈ registrations w ops) :
    w.catalog.files.contains r.id = true ∨ r.id ∈ births w ops := by
  induction ops generalizing w with
  | nil => cases hr
  | cons op ops ih =>
    have soon : (w.step op).catalog.files.contains r.id = true →
        w.catalog.files.contains r.id = true ∨ r.id ∈ births w (op :: ops) :=
      fun hlive => (live_or_born hlive).imp_right (List.mem_append_left _)
    rcases List.mem_append.mp hr with hnow | hlater
    · cases op with
      | source path text file =>
        obtain rfl := List.mem_singleton.mp hnow
        refine soon ?_
        show (w.registerSource path text file).2.catalog.files.contains _ = true
        rw [catalog_registerSource]
        exact hc.live_put path path (.source text) (some file)
      | reset | clear | clearActive | importLink | announce | fill | consume | resetConsumed
      | resolve => cases hnow
    · rcases ih (consistent_step hc op) hlater with hnow | hborn
      · exact soon hnow
      · exact .inr (List.mem_append_right _ hborn)

end Run

/-- The files of a session are numbered from zero, without a gap, and the next identity is their
number. -/
theorem births_eq_range (paths : Path.Resolver) (ops : List Op) :
    births (ofResolver paths) ops = List.range ((ofResolver paths).run ops).catalog.nextId ∧
    ((ofResolver paths).run ops).catalog.nextId = (births (ofResolver paths) ops).length := by
  have hempty : (ofResolver paths).catalog.Consistent := Catalog.empty_consistent
  obtain ⟨hrange, hcount⟩ := births_eq_range' hempty ops
  have hstart : (ofResolver paths).catalog.nextId = 0 := rfl
  rw [hstart, Nat.zero_add] at hcount
  rw [hstart, ← hcount, ← List.range_eq_range'] at hrange
  exact ⟨hrange, hcount⟩

/-- As long as a session has created fewer files than there are numbers of 32 bits, the next identity
and every one handed out so far are what a counter of 32 bits would have them be. -/
theorem toNat_of_few_births {paths : Path.Resolver} {ops : List Op}
    (hfew : (births (ofResolver paths) ops).length < UInt32.size) {id : FileId}
    (hid : id ≤ ((ofResolver paths).run ops).catalog.nextId) : (UInt32.ofNat id).toNat = id := by
  rw [(births_eq_range paths ops).2] at hid
  exact UInt32.toNat_ofNat_of_lt' (Nat.lt_of_le_of_lt hid hfew)

/-! ## What a project shows -/

/-- The files of a project after any session. It shows the live ones among its members, each once
and in the order in which they were first registered. Clearing it takes all that the catalog keeps
for its members, and touches nothing else. An identity comes to life once, and a dead one stays
dead, so a member that another project has deleted is nobody else's file, ever. -/
theorem run_project_members (paths : Path.Resolver) (ops : List Op) (project : String) :
    let w := (ofResolver paths).run ops
    let ids := members (ofResolver paths) ops project
    let created := births (ofResolver paths) ops
    (w.projectFiles project = ids.filterMap w.catalog.files.get? ∧ ids.Nodup) ∧
    (∀ id, (w.clearProject project).catalog.holdings id =
      if id ∈ ids then .nothing else w.catalog.holdings id) ∧
    (created.Pairwise (· < ·) ∧ (∀ id ∈ ids, id ∈ created) ∧
      ∀ id, w.catalog.files.contains id = true → id ∈ created) ∧
    ∀ id ∈ created, w.catalog.files.contains id = false →
      ∀ more, (w.run more).catalog.files.contains id = false := by
  intro w ids created
  have hempty : (ofResolver paths).catalog.Consistent := Catalog.empty_consistent
  have hc : w.catalog.Consistent := run_catalog_consistent paths ops
  have htracked : w.tracked project = ids := tracked_run_eq_members paths ops project
  have hnone : ∀ id, (ofResolver paths).catalog.files.contains id ≠ true := by
    intro id hid
    cases hid
  refine ⟨⟨?shown, nodup_eraseDups _⟩, ?cleared,
    ⟨births_ascending hempty ops, ?member, ?live⟩, ?dead⟩
  case shown =>
    rw [← htracked]
    rfl
  case cleared =>
    intro id
    rw [catalog_clearProject_eq, htracked, Catalog.holdings_deleteFiles]
  case member =>
    intro id hid
    rw [← htracked] at hid
    have hregistered := (run_bookkeeping paths ops).registered_of_tracked id project hid
    exact (birth_of_registration hempty ops hregistered).resolve_left (hnone id)
  case live =>
    intro id hlive
    exact (live_run hempty ops hlive).resolve_left (hnone id)
  case dead =>
    intro id hid hdead more
    exact dead_run hc more ((mem_births_iff hempty ops).mp hid).2 hdead

end Workspace

end BuildRelay
