/-
BuildRelay.Proofs.Bundle.Resolution — what an import is resolved to, and what that leaves behind.

There are two ways to an answer. The driver may have recorded for the importing source where the
specifier leads; that is kept in the store of the importer, under the specifier as it is written.
Otherwise the specifier is read as a path, and whoever owns that path answers if it is a source that
is compiled. An import that leads into an external library counts as not recorded. Either way an
answer is noted, under its canonical path, and nothing else is left but what the resolver remembers.

* `Workspace.Imports`, `Workspace.Compiles` — the two ways, in terms of the tables of the catalog.
* `internalImport?_eq_some_iff`, `compiledSource?_eq_some_iff` — that they are what is looked up.
* `exists_resolveId` — an answer, and the workspace after it.
* `step_resolve_eq` — an import is resolved, in any state of a session.
-/
import BuildRelay.Proofs.Bundle.Reach

namespace BuildRelay

namespace Workspace

/-! ## The two ways to an answer -/

/-- An import is recorded for a source under a specifier, leads to a path, and stays out of external
libraries. -/
def Imports (w : Workspace) (path specifier target : String) : Prop :=
  ∃ l : ImportLink, w.catalog.artifact? path specifier = some (.importLink l) ∧
    l.external = false ∧ l.destPath = target

/-- A path is owned, and its owner keeps the text of a source there and is compiled. -/
def Compiles (w : Workspace) (path : String) : Prop :=
  ∃ o text f, w.catalog.owners.get? path = some o ∧
    w.catalog.artifact? o.path path = some (.source text) ∧
    w.catalog.files.get? o.file = some f ∧ f.kind = .compiled

variable {w : Workspace} {path specifier x : String}

theorem import?_eq_some_iff {v : View} : w.import? path specifier = some v ↔
    w.catalog.view path specifier = some v ∧ v.artifact.isImport = true :=
  Option.filter_eq_some_iff

theorem source?_eq_some_iff {v : View} : w.source? path = some v ↔
    w.catalog.find? path = some v ∧ v.artifact.kind = .source := by
  simp [source?, Option.filter_eq_some_iff]

end Workspace

namespace Adapter

open Workspace (Imports Compiles)

variable {w : Workspace} {path specifier x : String}

theorem internalImport?_eq_some_iff (h : w.catalog.Consistent) :
    internalImport? w path specifier = some x ↔ w.Imports path specifier x := by
  simp only [internalImport?, bind, Option.bind_eq_some_iff]
  constructor
  · rintro ⟨v, himport, l, hlink, hx⟩
    obtain ⟨hview, -⟩ := Workspace.import?_eq_some_iff.mp himport
    obtain ⟨s, a, f, hs, ha, -, rfl⟩ := Catalog.view_eq_some_iff.mp hview
    have hlocal : l.external = false ∧ l.destPath = x := by
      cases hexternal : l.external <;> simp_all
    refine ⟨l, Option.bind_eq_some_iff.mpr ⟨s, hs, ?_⟩, hlocal⟩
    cases a with
    | importLink l' =>
      cases hlink
      exact ha
    | source text => cases hlink
    | output k text => cases hlink
  · rintro ⟨l, ha, hexternal, rfl⟩
    obtain ⟨s, f, -, -, hview⟩ := h.view_of_artifact? ha
    exact ⟨_, Workspace.import?_eq_some_iff.mpr ⟨hview, rfl⟩, l, rfl, by simp [hexternal]⟩

theorem compiledSource?_eq_some_iff (h : w.catalog.Consistent) :
    compiledSource? w path = some x ↔ x = path ∧ w.Compiles path := by
  simp only [compiledSource?, Option.map_eq_some_iff, Option.filter_eq_some_iff,
    Workspace.source?_eq_some_iff]
  constructor
  · rintro ⟨v, ⟨⟨hfind, hkind⟩, hcompiled⟩, rfl⟩
    obtain ⟨o, ho, hview⟩ := Catalog.find?_eq_some_iff.mp hfind
    obtain ⟨s, a, f, hs, ha, hf, rfl⟩ := Catalog.view_eq_some_iff.mp hview
    obtain ⟨s', hs', hfile, -⟩ := h.owner_held path o ho
    cases Option.some.inj (hs.symm.trans hs')
    refine ⟨rfl, o, ?_⟩
    cases a with
    | source text =>
      exact ⟨text, f, ho, Option.bind_eq_some_iff.mpr ⟨s, hs, ha⟩, hfile ▸ hf,
        by simpa [File.isCompiled] using hcompiled⟩
    | output k text => cases hkind
    | importLink l => cases hkind
  · rintro ⟨rfl, o, text, f, ho, ha, hf, hcompiled⟩
    obtain ⟨s, f', hs, hf', hview⟩ := h.view_of_artifact? ha
    obtain ⟨s', hs', hfile, -⟩ := h.owner_held x o ho
    cases Option.some.inj (hs.symm.trans hs')
    rw [hfile, hf] at hf'
    cases hf'
    exact ⟨_, ⟨⟨Catalog.find?_eq_some_iff.mpr ⟨o, ho, hview⟩, rfl⟩,
      by simp [File.isCompiled, hcompiled]⟩, rfl⟩

/-! ## An answer and what it leaves -/

/-- What was asked for, once an import has been resolved: an answer is added under its canonical
path unless it is there. -/
def askedAfter (cwd : String) (asked : List String) : Option String → List String
  | none => asked
  | some x => if Path.resolve cwd x ∈ asked then asked else asked ++ [Path.resolve cwd x]

section Reached

variable {cwd : String} (h : w.Reached cwd)
include h

theorem exists_resolve (path : String) : ∃ memo,
    w.resolve path = (Path.resolve cwd path, w.recalling memo) ∧
      (w.recalling memo).Reached cwd := by
  obtain ⟨memo, hmemo⟩ := w.exists_recalling_resolve path
  exact ⟨memo, Prod.ext (h.fst_resolve path) hmemo, hmemo ▸ h.run [.resolve path]⟩

theorem exists_consume (x : String) : ∃ memo, w.consume x =
    { w.recalling memo with consumed := askedAfter cwd w.consumed (some x) } := by
  obtain ⟨memo, hresolve, -⟩ := exists_resolve h x
  refine ⟨memo, ?_⟩
  have hconsumed : (w.recalling memo).consumed = w.consumed := rfl
  by_cases hasked : Path.resolve cwd x ∈ w.consumed
  · simp only [Workspace.consume, hresolve, hconsumed, askedAfter, if_pos hasked]
    rfl
  · simp only [Workspace.consume, hresolve, hconsumed, askedAfter, if_neg hasked]

/-- The specifier, read as a path. -/
theorem exists_resolveId_of_path (source : String) {answer : Option String}
    (hanswer : compiledSource? w (Path.resolve cwd source) = answer) :
    ∃ memo, resolveId source none w =
      (answer, { w.recalling memo with consumed := askedAfter cwd w.consumed answer }) := by
  obtain ⟨memo, hresolve, hreached⟩ := exists_resolve h source
  have hsame : compiledSource? (w.recalling memo) (Path.resolve cwd source) = answer := hanswer
  simp only [resolveId, hresolve, hsame]
  cases answer with
  | none => exact ⟨memo, rfl⟩
  | some x =>
    obtain ⟨memo', hconsume⟩ := exists_consume hreached x
    exact ⟨memo', congrArg (Prod.mk (some x)) hconsume⟩

/-- What is recorded for the importer comes first. -/
theorem exists_resolveId (source : String) (importer : Option String) {answer : Option String}
    (hanswer : (importer.bind fun i => internalImport? w (Path.resolve cwd i) source).or
      (compiledSource? w (Path.resolve cwd source)) = answer) :
    ∃ memo, resolveId source importer w =
      (answer, { w.recalling memo with consumed := askedAfter cwd w.consumed answer }) := by
  cases importer with
  | none => exact exists_resolveId_of_path h source hanswer
  | some i =>
    obtain ⟨memo, hresolve, hreached⟩ := exists_resolve h i
    have hsame : internalImport? (w.recalling memo) (Path.resolve cwd i) source =
        internalImport? w (Path.resolve cwd i) source := rfl
    rw [Option.bind_some] at hanswer
    cases hrecorded : internalImport? w (Path.resolve cwd i) source with
    | none =>
      -- The rest goes on as if there were no importer.
      rw [hrecorded, Option.none_or] at hanswer
      obtain ⟨memo', hpath⟩ := exists_resolveId_of_path hreached source hanswer
      refine ⟨memo', Eq.trans ?_ hpath⟩
      simp only [resolveId, hresolve, hsame, hrecorded]
    | some x =>
      rw [hrecorded, Option.some_or] at hanswer
      subst hanswer
      obtain ⟨memo', hconsume⟩ := exists_consume hreached x
      refine ⟨memo', ?_⟩
      simp only [resolveId, hresolve, hsame, hrecorded]
      exact congrArg (Prod.mk (some x)) hconsume

end Reached

/-- An import is resolved, in any state of a session. What the driver recorded for the importer under
just that specifier comes first, unless it leads into an external library; then the specifier is
taken for a path, and the answer is that path in canonical form, if it is owned by a source that is
compiled. There is no other answer. An answer is noted unless it has been; and of the bundler's side,
of the builder and of the workspace nothing else changes than what the resolver remembers. -/
theorem step_resolve_eq {cwd : String} {a : Adapter} (h : a.workspace.Reached cwd)
    (source : String) (importer : Option String) :
    let w := a.workspace
    let answer := (resolveId source importer w).1
    let recorded (x : String) : Prop :=
      ∃ i, importer = some i ∧ w.Imports (Path.resolve cwd i) source x
    (∀ x, answer = some x ↔ recorded x ∨
      (∀ y, ¬recorded y) ∧ x = Path.resolve cwd source ∧ w.Compiles (Path.resolve cwd source)) ∧
    ∃ memo, a.step (.resolve source importer) = a.onWorkspace fun w =>
      { w.recalling memo with consumed := askedAfter cwd w.consumed answer } := by
  intro w answer recorded
  have hconsistent : w.catalog.Consistent := h.consistent
  have hrecorded : ∀ x, (importer.bind fun i => internalImport? w (Path.resolve cwd i) source) =
      some x ↔ recorded x := by
    intro x
    simp only [recorded, Option.bind_eq_some_iff, internalImport?_eq_some_iff hconsistent]
  obtain ⟨memo, hresolve⟩ := exists_resolveId h source importer rfl
  refine ⟨fun x => ?answers, memo, ?notes⟩
  case answers =>
    have hanswer : answer = (importer.bind fun i => internalImport? w (Path.resolve cwd i) source).or
        (compiledSource? w (Path.resolve cwd source)) := congrArg Prod.fst hresolve
    rw [hanswer, Option.or_eq_some_iff, Option.eq_none_iff_forall_ne_some,
      compiledSource?_eq_some_iff hconsistent]
    simp only [ne_eq, hrecorded]
  case notes =>
    have hafter : (resolveId source importer w).2 =
        { w.recalling memo with consumed := askedAfter cwd w.consumed answer } := by
      rw [show answer = (resolveId source importer w).1 from rfl, hresolve]
    exact congrArg (fun w' => a.onWorkspace fun _ => w') hafter

/-- A bundler over two compiled sources. For the one, an import of the other is recorded, and one that
leads into a library. -/
def withImports : Adapter :=
  freshAdapter.onWorkspace fun w => w.run
    [.source "/p/src/a.ts" "" ⟨.compiled, "/p/src/a.ts", "/p/tsconfig.json", ∅⟩,
      .source "/p/src/b.ts" "" ⟨.compiled, "/p/src/b.ts", "/p/tsconfig.json", ∅⟩,
      .importLink "/p/src/a.ts" "./b" ⟨"/p/src/b.ts", ".ts", false, none⟩,
      .importLink "/p/src/a.ts" "src/b.ts" ⟨"/p/lib/b.d.ts", ".d.ts", true, none⟩]

/-- The importer may be spelled in any way, and an import of a library is read as a path. -/
theorem step_resolve_eq_of_two_specifiers :
    withImports.workspace.Reached "/p" ∧
    (resolveId "./b" (some "src\\a.ts") withImports.workspace).1 = some "/p/src/b.ts" ∧
    (withImports.step (.resolve "./b" (some "src\\a.ts"))).workspace.consumed = ["/p/src/b.ts"] ∧
    (resolveId "src/b.ts" (some "/p/src/a.ts") withImports.workspace).1 = some "/p/src/b.ts" := by
  have h : withImports.workspace.Reached "/p" := freshAdapter_reached _
  obtain ⟨hanswer, memo, hstep⟩ := step_resolve_eq h "./b" (some "src\\a.ts")
  have hrecorded := (hanswer "/p/src/b.ts").mpr
    (.inl ⟨_, rfl, ⟨"/p/src/b.ts", ".ts", false, none⟩, by decide, rfl, rfl⟩)
  refine ⟨h, hrecorded, ?_, ?_⟩
  · rw [hstep, hrecorded]
    show askedAfter "/p" withImports.workspace.consumed (some "/p/src/b.ts") = ["/p/src/b.ts"]
    decide
  · refine ((step_resolve_eq h "src/b.ts" (some "/p/src/a.ts")).1 "/p/src/b.ts").mpr
      (.inr ⟨?_, by decide, ?_⟩)
    · rintro y ⟨i, ⟨⟩, l, hl, hexternal, -⟩
      have hlibrary : withImports.workspace.catalog.artifact? (Path.resolve "/p" "/p/src/a.ts")
          "src/b.ts" = some (.importLink ⟨"/p/lib/b.d.ts", ".d.ts", true, none⟩) := by decide
      cases Option.some.inj (hlibrary.symm.trans hl)
      cases hexternal
    · exact ⟨⟨"/p/src/b.ts", 1⟩, "", ⟨.compiled, "/p/src/b.ts", "/p/tsconfig.json", ∅⟩, by decide,
        by decide, by decide, rfl⟩

end Adapter

end BuildRelay
