/-
BuildRelay.Proofs.Workspace.Demand — what the bundler asked for, over whole sessions.

The bundler names a path as it likes. What it asked for is kept in canonical form, so that all
spellings of a path are one demand, in the order in which the demands first came, until the next
cycle forgets them. The canonical form is given by a resolver that remembers, and between two demands
anything may happen to the workspace that owns it; neither makes a difference to the list.

* `demanded` — the demands of a session since they were last forgotten, as they were spelled.
* `consumed_step`, `consumed_consume` — what one operation does to the list.
* `consumed_run` — the list after any operations.
* `run_consumed_eq_demanded` — the list of a session of its own.
-/
import BuildRelay.Proofs.Path.Below
import BuildRelay.Proofs.Workspace.Sessions
import Mathlib.Data.List.DropRight

namespace BuildRelay

namespace Workspace

/-! ## Demands -/

/-- Whether an operation notes or forgets what the bundler asked for. -/
def Op.isDemand : Op → Bool
  | .consume _ | .resetConsumed => true
  | .reset _ | .clear _ | .clearActive | .source .. | .importLink .. | .announce .. | .fill ..
  | .resolve _ => false

/-- Whether an operation forgets what the bundler asked for. -/
def Op.forgets : Op → Bool
  | .resetConsumed => true
  | .reset _ | .clear _ | .clearActive | .source .. | .importLink .. | .announce .. | .fill ..
  | .consume _ | .resolve _ => false

/-- The path that the bundler asks for by an operation, as it spells it. -/
def Op.demand? : Op → Option String
  | .consume path => some path
  | .reset _ | .clear _ | .clearActive | .source .. | .importLink .. | .announce .. | .fill ..
  | .resetConsumed | .resolve _ => none

/-- The paths that the bundler asked for in a session since its demands were last forgotten, as it
spelled them, one for each time that it asked. -/
def demanded (ops : List Op) : List String :=
  (ops.rtakeWhile fun op => !op.forgets).filterMap Op.demand?

theorem demanded_concat (ops : List Op) (op : Op) :
    demanded (ops ++ [op]) = if op.forgets then [] else demanded ops ++ op.demand?.toList := by
  rw [demanded, List.rtakeWhile_concat]
  cases hop : op.forgets with
  | true => rfl
  | false =>
    simp only [Bool.not_false, Bool.false_eq_true, if_true, if_false, List.filterMap_append]
    cases hpath : op.demand? <;> simp [demanded, hpath]

/-- What is no demand neither asks nor forgets. -/
theorem demanded_concat_of_not_isDemand (ops : List Op) {op : Op} (hop : op.isDemand = false) :
    demanded (ops ++ [op]) = demanded ops := by
  have hquiet : op.forgets = false ∧ op.demand? = none := by
    cases op with
    | consume path => cases hop
    | resetConsumed => cases hop
    | reset | clear | clearActive | source | importLink | announce | fill | resolve =>
      exact ⟨rfl, rfl⟩
  rw [demanded_concat, hquiet.1, hquiet.2, if_neg Bool.false_ne_true]
  exact List.append_nil _

/-! ## The list, step by step -/

theorem consumed_step (w : Workspace) {op : Op} (hop : op.isDemand = false) :
    (w.step op).consumed = w.consumed := by
  cases op with
  | consume path => cases hop
  | resetConsumed => cases hop
  | reset project => exact w.consumed_clearProject project
  | clear project => exact w.consumed_clearProject project
  | source path text file => exact consumed_track ..
  | fill key text => rw [step_fill]
  | clearActive | importLink path specifier link | announce path key a | resolve path => rfl

/-- A demand is noted in canonical form, if it is a new one. -/
theorem consumed_consume {w : Workspace} (h : w.paths.Faithful) (path : String) :
    (w.consume path).consumed =
      if Path.resolve w.paths.cwd path ∈ w.consumed then w.consumed
      else w.consumed ++ [Path.resolve w.paths.cwd path] := by
  have hanswer : (w.resolve path).1 = Path.resolve w.paths.cwd path := h.answer path
  show (if (w.resolve path).1 ∈ w.consumed then (w.resolve path).2 else
    { (w.resolve path).2 with consumed := w.consumed ++ [(w.resolve path).1] }).consumed = _
  rw [hanswer, apply_ite consumed]
  rfl

/-! ## The list of a session -/

theorem consumed_run {w : Workspace} (h : w.paths.Faithful) (hstart : w.consumed = [])
    (ops : List Op) : (w.run ops).consumed =
      ((demanded ops).map (Path.resolve w.paths.cwd)).eraseDups := by
  induction ops using List.reverseRecOn with
  | nil => exact hstart
  | append_singleton ops op ih =>
    have quiet : op.isDemand = false → ((w.run ops).step op).consumed =
        ((demanded (ops ++ [op])).map (Path.resolve w.paths.cwd)).eraseDups := by
      intro hop
      rw [consumed_step _ hop, demanded_concat_of_not_isDemand ops hop, ih]
    rw [run_append]
    cases op with
    | consume path =>
      obtain ⟨hfaithful, hcwd⟩ := run_paths h ops
      show ((w.run ops).consume path).consumed = _
      rw [consumed_consume hfaithful, hcwd, demanded_concat, ih]
      simp only [Op.forgets, Op.demand?, Bool.false_eq_true, if_false, Option.toList_some,
        List.map_append, List.map_cons, List.map_nil, eraseDups_concat, List.mem_eraseDups]
    | resetConsumed =>
      rw [demanded_concat]
      rfl
    | reset | clear | clearActive | source | importLink | announce | fill | resolve =>
      exact quiet rfl

/-- What a workspace has down as asked for, after any session. It is the list of the paths that the
bundler asked for since its demands were last forgotten, each resolved from the working directory, in
the order in which they were first asked for and without repetitions: two spellings of a path are
one. Each of them is canonical. Whatever is done to the workspace otherwise, and whatever its
resolver was asked before or is asked meanwhile, neither adds to the list nor takes from it. -/
theorem run_consumed_eq_demanded (dir : String) (asked : List String) (ops : List Op) :
    let start := ofResolver ((Path.Resolver.inDir dir).resolveAll asked).2
    let w := start.run ops
    w.consumed = ((demanded ops).map (Path.resolve w.paths.cwd)).eraseDups ∧
    w.paths.cwd = start.paths.cwd ∧ w.consumed.Nodup ∧
    (∀ path ∈ w.consumed, Path.IsCanonical path) ∧
    ∀ op : Op, op.isDemand = false → (w.step op).consumed = w.consumed := by
  intro start w
  obtain ⟨hfaithful, hdir⟩ := (Path.Resolver.inDir_faithful dir).resolveAll asked
  obtain ⟨-, hcwd⟩ := run_paths (w := start) hfaithful ops
  have hcanonical : Path.IsCanonical w.paths.cwd := by
    rw [hcwd]
    exact hdir ▸ Path.isCanonical_resolve (by decide) dir
  have hlist : w.consumed = ((demanded ops).map (Path.resolve w.paths.cwd)).eraseDups := by
    rw [hcwd]
    exact consumed_run hfaithful rfl ops
  refine ⟨hlist, hcwd, hlist ▸ nodup_eraseDups _, ?_, fun op hop => w.consumed_step hop⟩
  intro path hpath
  rw [hlist, List.mem_eraseDups, List.mem_map] at hpath
  obtain ⟨spelling, -, rfl⟩ := hpath
  exact hcanonical.resolved spelling

/-- Two cycles: what the first one asked for is forgotten, and the second one asks for one file by two
names, with a registration and another demand between them. -/
theorem run_consumed_eq_demanded_of_spellings :
    let w := (ofResolver ((Path.Resolver.inDir "/work").resolveAll ["b.ts"]).2).run
      [.consume "c.ts", .resetConsumed, .consume "src\\a.ts", .clear "/p", .consume "/work//b.ts",
        .consume "./src/../src/a.ts"]
    w.consumed = ["/work/src/a.ts", "/work/b.ts"] ∧ Path.IsCanonical "/work/src/a.ts" ∧
      Op.clearActive.isDemand = false ∧ (w.step .clearActive).consumed = w.consumed := by
  intro w
  obtain ⟨hlist, hcwd, -, hcanonical, hkept⟩ := run_consumed_eq_demanded "/work" ["b.ts"]
    [.consume "c.ts", .resetConsumed, .consume "src\\a.ts", .clear "/p", .consume "/work//b.ts",
      .consume "./src/../src/a.ts"]
  have hpaths : w.consumed = ["/work/src/a.ts", "/work/b.ts"] := by
    rw [hlist, hcwd]
    decide
  have hmem : "/work/src/a.ts" ∈ w.consumed := by
    rw [hpaths]
    exact List.mem_cons_self
  exact ⟨hpaths, hcanonical _ hmem, rfl, hkept .clearActive rfl⟩

end Workspace

end BuildRelay
