/-
BuildRelay.Proofs.Bundle.Closing — a bundle is closed with all of its typings, or with none.

The typings of every source that was asked for are gathered before the first of them is put into the
bundle. So a source whose typings cannot be placed keeps those of all the others out of it as well,
wherever it stands among them. Typings without text are left out, but only if they could be placed.

* `closing` — the sources that the bundle is closed with.
* `IsAssetOf` — the typings of a source, as they come into the bundle.
* `buildEnd_all_or_nothing` — what closing the bundle leads to.
-/
import BuildRelay.Proofs.Bundle.Reach
import BuildRelay.Proofs.Bundle.Typings

namespace BuildRelay

namespace Adapter

variable {a : Adapter} {w : Workspace} {cwd : String}

/-- The sources that have been asked for and are to have typings, in the order in which they were
asked for. -/
def closing (w : Workspace) : List String :=
  w.consumed.filter fun path => (w.output? path .typings).isSome

/-- The text of a source's typings is there. -/
def hasText (w : Workspace) (path : String) : Bool :=
  (w.output? path .typings).any fun v => v.artifact.text?.isSome

/-- The typings of a source, as they come into the bundle. -/
def IsAssetOf (cwd : String) (w : Workspace) (path : String) (e : BundleEvent) : Prop :=
  ∃ v outDir text, w.output? path .typings = some v ∧ v.file.options.outDir = some outDir ∧
    v.artifact.text? = some text ∧ e = .asset (assetName cwd outDir v.key) text

/-- A source without typings is not refused. -/
theorem find?_closing : (closing w).find? (unplaced w) = w.consumed.find? (unplaced w) := by
  rw [closing, List.find?_filter]
  refine congrArg (List.find? · w.consumed) (funext fun path => ?_)
  cases hv : w.output? path .typings with
  | none => simp [unplaced, hv]
  | some v => cases hout : v.file.options.outDir <;> simp [unplaced, hv, hout]

/-- If no source is refused, each whose text is there has its typings gathered. -/
theorem forall₂_isAssetOf {paths : List String} (h : paths.find? (unplaced w) = none) :
    List.Forall₂ (IsAssetOf cwd w)
      ((paths.filter fun path => (w.output? path .typings).isSome).filter (hasText w))
      ((paths.filterMap (typingsOf? w)).map fun t => .asset (assetName cwd t.1 t.2.1) t.2.2) := by
  induction paths with
  | nil => exact .nil
  | cons path rest ih =>
    rw [List.find?_eq_none, List.forall_mem_cons, ← List.find?_eq_none] at h
    obtain ⟨hplaced, hrest⟩ := h
    cases hv : w.output? path .typings with
    | none =>
      have hnone : typingsOf? w path = none := by simp [typingsOf?, hv]
      rw [List.filter_cons_of_neg (by simp [hv]), List.filterMap_cons_none hnone]
      exact ih hrest
    | some v =>
      obtain ⟨outDir, hout⟩ : ∃ outDir, v.file.options.outDir = some outDir :=
        Option.ne_none_iff_exists'.mp fun hnone => by simp [unplaced, hv, hnone] at hplaced
      rw [List.filter_cons_of_pos (by simp [hv])]
      cases htext : v.artifact.text? with
      | none =>
        have hnone : typingsOf? w path = none := by simp [typingsOf?, hv, htext]
        rw [List.filter_cons_of_neg (by simp [hasText, hv, htext]), List.filterMap_cons_none hnone]
        exact ih hrest
      | some text =>
        have hsome : typingsOf? w path = some (outDir, v.key, text) := by
          simp [typingsOf?, hv, hout, htext]
        rw [List.filter_cons_of_pos (by simp [hasText, hv, htext]), List.filterMap_cons_some hsome]
        exact .cons ⟨v, outDir, text, hv, hout, htext, rfl⟩ (ih hrest)

/-- Closing the bundle is all or nothing. Take the sources that have been asked for and are to have
typings. If the options of one of them name no output directory, then closing the bundle is refused
for the first such source, whether the text of its typings is there or not, and nothing is put into
the bundle. Otherwise it comes to an end, and puts exactly the typings whose text is there into the
bundle, in the order of their sources and named from the output directory. In either case nothing
changes but what the resolver remembers. -/
theorem buildEnd_all_or_nothing (h : a.workspace.Reached cwd) :
    let w := a.workspace
    let o := buildEnd a
    (∀ path, (closing w).find? (unplaced w) = some path →
      o.result = .error (.noOutDir path) ∧ o.trace = []) ∧
    ((closing w).find? (unplaced w) = none →
      o.result = .ok () ∧
      List.Forall₂ (IsAssetOf cwd w) ((closing w).filter (hasText w)) o.trace) ∧
    ∃ memo, o.state = a.onWorkspace fun w => w.recalling memo := by
  intro w o
  rw [find?_closing]
  refine ⟨fun path hpath => ?refused, fun hplaced => ?closed, recalls_emitting.buildEnd a⟩
  case refused =>
    have hresult : o.result = .error (.noOutDir path) := by
      rw [result_buildEnd h.faithful, hpath]
    exact ⟨hresult, by rw [trace_buildEnd h.faithful, hresult]⟩
  case closed =>
    have hresult : o.result = .ok () := by
      rw [result_buildEnd h.faithful, hplaced]
    refine ⟨hresult, ?_⟩
    rw [trace_buildEnd h.faithful, hresult, h.cwd_eq]
    exact forall₂_isAssetOf hplaced

/-- A bundler that has asked for sources. The text of the typings of `a.ts` is there, that of `b.ts`
is not, and the options of `c.ts` name no output directory. -/
def havingAskedFor (sources : List String) : Adapter :=
  freshAdapter.onWorkspace fun w => w.run <|
    [.source "/p/src/a.ts" "" ⟨.compiled, "/p/src/a.ts", "/p/tsconfig.json", nestedOptions⟩,
      .announce "/p/src/a.ts" "/p/dist/types/a.d.ts" (.output .typings none),
      .fill "/p/dist/types/a.d.ts" "export declare const a: 1;",
      .source "/p/src/b.ts" "" ⟨.compiled, "/p/src/b.ts", "/p/tsconfig.json", nestedOptions⟩,
      .announce "/p/src/b.ts" "/p/dist/types/b.d.ts" (.output .typings none),
      .source "/p/src/c.ts" "" ⟨.compiled, "/p/src/c.ts", "/p/tsconfig.json", ∅⟩,
      .announce "/p/src/c.ts" "/p/src/c.d.ts" (.output .typings none)] ++
    sources.map .consume

/-- The source without output directory keeps the typings of the first one out of the bundle. -/
theorem buildEnd_all_or_nothing_of_three_sources :
    (∀ sources, (havingAskedFor sources).workspace.Reached "/p") ∧
    (buildEnd (havingAskedFor ["src/a.ts", "src/b.ts"])).result = .ok () ∧
    (∃ e, IsAssetOf "/p" (havingAskedFor ["src/a.ts", "src/b.ts"]).workspace "/p/src/a.ts" e ∧
      (buildEnd (havingAskedFor ["src/a.ts", "src/b.ts"])).trace = [e]) ∧
    (buildEnd (havingAskedFor ["src/a.ts", "src/b.ts", "src/c.ts"])).result =
      .error (.noOutDir "/p/src/c.ts") ∧
    (buildEnd (havingAskedFor ["src/a.ts", "src/b.ts", "src/c.ts"])).trace = [] := by
  have h : ∀ sources, (havingAskedFor sources).workspace.Reached "/p" :=
    fun sources => freshAdapter_reached _
  obtain ⟨hresult, hassets⟩ :=
    (buildEnd_all_or_nothing (h ["src/a.ts", "src/b.ts"])).2.1 (by decide)
  have hwritten : (closing (havingAskedFor ["src/a.ts", "src/b.ts"]).workspace).filter
      (hasText (havingAskedFor ["src/a.ts", "src/b.ts"]).workspace) = ["/p/src/a.ts"] := by decide
  rw [hwritten, List.forall₂_cons_left_iff] at hassets
  obtain ⟨e, rest, hasset, hrest, htrace⟩ := hassets
  rw [List.forall₂_nil_left_iff.mp hrest] at htrace
  obtain ⟨hrefused, hempty⟩ :=
    (buildEnd_all_or_nothing (h ["src/a.ts", "src/b.ts", "src/c.ts"])).1 "/p/src/c.ts" (by decide)
  exact ⟨h, hresult, ⟨e, hasset, htrace⟩, hrefused, hempty⟩

end Adapter

end BuildRelay
