/-
BuildRelay.Proofs.Bundle.Typings — the names under which typings come into the bundle.

The typings of a source are put below a directory by its options, text by text; the bundle names
them from the output directory, name by name. As long as the directory for typings does not lie
outside of the output directory both agree: what the bundle adds to the place of the source is the
way down from the one directory to the other, and nothing leads up.

* `typingsBelow?` — from the output directory to that for typings.
* `OutputLayout.exists_typings` — where typings come to lie, told by names.
* `Adapter.trace_buildEnd` — what is put into the bundle when it is closed.
* `Adapter.typings_keep_place` — the name of typings in the bundle.
-/
import BuildRelay.Bundle.Adapter
import BuildRelay.Proofs.Build.Overrides
import BuildRelay.Proofs.Output.Layout

namespace BuildRelay

/-! ## Where typings come to lie -/

/-- The names that lead from the output directory to the directory for typings, if the options name
an output directory and that for typings is not outside of it. -/
def typingsBelow? (cwd : String) (options : Options) : Option (List Path.Segment) :=
  options.outDir.bind fun outDir =>
    match options.text? "declarationDir" with
    | none => some []
    | some dir =>
      (Path.locate (Path.resolve cwd outDir)).within? (Path.locate (Path.resolve cwd dir))

namespace OutputLayout

variable {cwd outDir : String} {options : Options} {below : List Path.Segment}

theorem baseDir_ofDir (hcwd : Path.IsCanonical cwd) : (ofDir cwd).baseDir = cwd :=
  hcwd.resolve_eq "/"

/-- The directory for typings lies at the place that the names below the output directory lead
to. -/
theorem home?_typings (hcwd : Path.IsCanonical cwd) (hout : options.outDir = some outDir)
    (hbelow : typingsBelow? cwd options = some below) :
    (ofDir cwd).home? options .typings =
      some ((Path.locate (Path.resolve cwd outDir)).down below).toChars := by
  have htext : ∀ dir, (Path.resolve cwd dir).toList =
      (Path.locate (Path.resolve cwd dir)).toChars :=
    fun dir => (hcwd.resolved dir).toChars_locate.symm
  have hhome : (ofDir cwd).home? options .typings =
      some (Path.locate (Path.resolve cwd ((options.text? "declarationDir").getD outDir))).toChars := by
    rw [Options.outDir] at hout
    simp only [home?, optionDir?, baseDir_ofDir hcwd, hout, Option.map_some, htext]
    cases options.text? "declarationDir" <;> rfl
  rw [hhome, Option.some.injEq]
  refine congrArg Path.Location.toChars ?_
  rw [typingsBelow?, hout, Option.bind_some] at hbelow
  cases hdir : options.text? "declarationDir" with
  | none =>
    rw [hdir] at hbelow
    cases hbelow
    simp [Path.Location.down]
  | some dir =>
    rw [hdir] at hbelow
    exact Path.Location.within?_eq_some_iff.mp hbelow

/-- Names that lead from one canonical place to another are names. -/
theorem isName_of_mem_below (hbelow : typingsBelow? cwd options = some below) :
    ∀ s ∈ below, Path.Location.IsName s := by
  intro s hs
  obtain ⟨outDir, -, hbelow⟩ := Option.bind_eq_some_iff.mp hbelow
  split at hbelow
  · cases hbelow
    cases hs
  · rename_i dir _
    refine (Path.locate_canonical (Path.resolve cwd dir)).names s ?_
    rw [Path.Location.within?_eq_some_iff.mp hbelow, Path.Location.segments_down]
    exact List.mem_append_right _ hs

/-- The typings of a source lie below the output directory: first come the names that lead to the
directory for typings, then those of the place of the source, the last of them with the extension
of typings. -/
theorem exists_typings (hcwd : Path.IsCanonical cwd) {f : String} (hf : IsSource f)
    (hout : options.outDir = some outDir) (hdecl : options.declaration = true)
    (hbelow : typingsBelow? cwd options = some below) :
    ∃ front stem, ∃ e : SourceExt,
      (ofDir cwd).placeNames options f = front ++ [stem ++ e.chars] ∧
      ((ofDir cwd).names options f false).typings = some (String.ofList (Path.joinSlashes
        ((Path.locate (Path.resolve cwd outDir)).pieces ++
          (below ++ front ++ [stem ++ e.typings])))) ∧
      ∀ s ∈ below ++ front ++ [stem ++ e.typings], Path.Location.IsName s := by
  obtain ⟨lead, front, stem, e, hpieces, hplace⟩ := (ofDir cwd).exists_cut options hf
  refine ⟨front, stem, e, hplace, ?typings, ?names⟩
  case typings =>
    have hplain := (Path.locate_canonical (Path.resolve cwd outDir)).down
      (isName_of_mem_below hbelow)
    have hmoved : Path.joinSlashes ((Path.locate (Path.resolve cwd outDir)).down below).pieces ++
        '/' :: Path.joinSlashes (front ++ [stem]) ++ e.typings =
        Path.joinSlashes ((Path.locate (Path.resolve cwd outDir)).pieces ++
          (below ++ front ++ [stem ++ e.typings])) := by
      rw [List.append_assoc, List.cons_append, ← Path.joinSlashes_concat_append,
        ← Path.joinSlashes_append (Path.Location.pieces_ne_nil _) (by simp),
        Path.Location.pieces_down]
      simp only [List.append_assoc]
    have hnames := path?_names (isCanonical_baseDir cwd) hf hpieces hplace .typings
    rw [Options.emits, if_pos hdecl, home?_typings hcwd hout hbelow, rebase,
      hplain.trimTrailing_toChars, SourceExt.tail, hmoved] at hnames
    exact hnames
  case names =>
    have hsource := (ofDir cwd).isName_of_mem_placeNames options hf
    rw [hplace] at hsource
    have hlast := hsource (stem ++ e.chars) (by simp)
    intro s hs
    rcases List.mem_append.mp hs with hs | hs
    · rcases List.mem_append.mp hs with hs | hs
      · exact isName_of_mem_below hbelow s hs
      · exact hsource s (List.mem_append_left _ hs)
    · cases List.mem_singleton.mp hs
      refine SourceExt.isName_append_typings (fun hslash => ?_) e
      exact hlast.2.2.2 (List.mem_append_left _ hslash)

end OutputLayout

/-! ## Closing the bundle -/

namespace Adapter

variable {a : Adapter}

/-- The name under which what lies at a path comes into the bundle: its place below the output
directory, wherever that is. -/
def assetName (cwd outDir path : String) : String :=
  Path.relative (Path.resolve cwd outDir) path

/-- The typings of one source, if their text is there: output directory, path and text. -/
def typingsOf? (w : Workspace) (path : String) : Option (String × String × String) := do
  let v ← w.output? path .typings
  let outDir ← v.file.options.outDir
  let text ← v.artifact.text?
  return (outDir, v.key, text)

/-- The options of a source with typings name no output directory. -/
def unplaced (w : Workspace) (path : String) : Bool :=
  (w.output? path .typings).any fun v => v.file.options.outDir.isNone

/-- The first source whose typings cannot be placed is refused; if there is none, nothing is left out
whose text is there. -/
theorem consumedTypings_eq (w : Workspace) (paths : List String) : consumedTypings w paths =
    match paths.find? (unplaced w) with
    | some path => .error (.noOutDir path)
    | none => .ok (paths.filterMap (typingsOf? w)) := by
  induction paths with
  | nil => rfl
  | cons path rest ih =>
    rw [consumedTypings]
    split
    · rename_i hnone
      have hplaced : unplaced w path = false := by simp [unplaced, hnone]
      rw [ih, List.find?_cons, hplaced, List.filterMap_cons_none (by simp [typingsOf?, hnone])]
    · rename_i v hv
      split
      · rename_i hout
        have hrefused : unplaced w path = true := by simp [unplaced, hv, hout]
        rw [List.find?_cons, hrefused]
      · rename_i hout htext
        have hplaced : unplaced w path = false := by simp [unplaced, hv, hout]
        rw [ih, List.find?_cons, hplaced,
          List.filterMap_cons_none (by simp [typingsOf?, hv, htext])]
      · rename_i outDir text hout htext
        have hplaced : unplaced w path = false := by simp [unplaced, hv, hout]
        have hfound : typingsOf? w path = some (outDir, v.key, text) := by
          simp [typingsOf?, hv, hout, htext]
        rw [ih, List.find?_cons, hplaced, List.filterMap_cons_some hfound]
        cases rest.find? (unplaced w) <;> rfl

theorem emitAssets_cons (outDir path text : String) (rest : List (String × String × String)) :
    emitAssets ((outDir, path, text) :: rest) a =
      let o := emitAssets rest (a.onWorkspace fun _ => (a.workspace.resolve outDir).2)
      ⟨o.result, o.state,
        .asset (Path.relative (a.workspace.resolve outDir).1 path) text :: o.trace⟩ := rfl

theorem emitAssets_eq (h : a.workspace.paths.Faithful)
    (typings : List (String × String × String)) : (emitAssets typings a).result = .ok () ∧
      (emitAssets typings a).trace =
        typings.map fun t => .asset (assetName a.workspace.paths.cwd t.1 t.2.1) t.2.2 := by
  induction typings generalizing a with
  | nil => exact ⟨rfl, rfl⟩
  | cons t rest ih =>
    obtain ⟨outDir, path, text⟩ := t
    have hanswer : (a.workspace.resolve outDir).1 = Path.resolve a.workspace.paths.cwd outDir :=
      h.answer outDir
    have hcwd : (a.onWorkspace fun _ => (a.workspace.resolve outDir).2).workspace.paths.cwd =
        a.workspace.paths.cwd := Path.Resolver.cwd_resolve _ outDir
    obtain ⟨hresult, htrace⟩ :=
      ih (a := a.onWorkspace fun _ => (a.workspace.resolve outDir).2) (h.resolve outDir)
    rw [hcwd] at htrace
    rw [emitAssets_cons]
    refine ⟨hresult, ?_⟩
    simp only [htrace, hanswer, List.map_cons, assetName]

/-- Closing the bundle is refused for the first source whose typings cannot be placed. -/
theorem result_buildEnd (h : a.workspace.paths.Faithful) : (buildEnd a).result =
    match a.workspace.consumed.find? (unplaced a.workspace) with
    | some path => .error (.noOutDir path)
    | none => .ok () := by
  simp only [buildEnd, Bind.bind, Action.bind, Action.get, consumedTypings_eq]
  cases a.workspace.consumed.find? (unplaced a.workspace) with
  | some path => rfl
  | none => exact (emitAssets_eq h _).1

/-- Closing the bundle puts the typings of every source that was asked for into it, unless one of
the sources is refused; then nothing is put into it. -/
theorem trace_buildEnd (h : a.workspace.paths.Faithful) : (buildEnd a).trace =
    match (buildEnd a).result with
    | .error _ => []
    | .ok () => (a.workspace.consumed.filterMap (typingsOf? a.workspace)).map fun t =>
        .asset (assetName a.workspace.paths.cwd t.1 t.2.1) t.2.2 := by
  rw [result_buildEnd h]
  simp only [buildEnd, Bind.bind, Action.bind, Action.get, consumedTypings_eq, List.nil_append]
  cases a.workspace.consumed.find? (unplaced a.workspace) with
  | some path => rfl
  | none => exact (emitAssets_eq h _).2

/-- Typings keep the place of their source. Take a source and options with an output directory,
with typings, and with no directory for typings outside of the output directory. Then the source
has typings, and closing the bundle puts them into it under a name that is made of the way from the
output directory to that for typings and of the place of the source, the extension of typings in
place of its own. No name in it is empty, and none leads up. -/
theorem typings_keep_place {cwd outDir f : String} {options : Options} {below : List Path.Segment}
    (hcwd : Path.IsCanonical cwd) (hf : IsSource f) (hout : options.outDir = some outDir)
    (hdecl : options.declaration = true) (hbelow : typingsBelow? cwd options = some below) :
    ∃ d front stem, ∃ e : SourceExt,
      ((OutputLayout.ofDir cwd).names options f false).typings = some d ∧
      (OutputLayout.ofDir cwd).placeNames options f = front ++ [stem ++ e.chars] ∧
      Path.splitSlashes (assetName cwd outDir d).toList = below ++ front ++ [stem ++ e.typings] ∧
      (∀ s ∈ Path.splitSlashes (assetName cwd outDir d).toList, s ≠ [] ∧ s ≠ ['.', '.']) ∧
      (assetName cwd outDir d).toList.head? ≠ some '/' ∧
      ∀ (a : Adapter) (path text : String), a.workspace.paths.Faithful →
        a.workspace.paths.cwd = cwd → path ∈ a.workspace.consumed →
        typingsOf? a.workspace path = some (outDir, d, text) → (buildEnd a).result = .ok () →
        .asset (assetName cwd outDir d) text ∈ (buildEnd a).trace := by
  obtain ⟨front, stem, e, hplace, htypings, hnames⟩ :=
    OutputLayout.exists_typings hcwd hf hout hdecl hbelow
  refine ⟨_, front, stem, e, htypings, hplace, ?_⟩
  generalize hd : String.ofList _ = d
  have hsplit : Path.splitSlashes (assetName cwd outDir d).toList =
      below ++ front ++ [stem ++ e.typings] := by
    rw [assetName, ← hd, Path.relative_down (hcwd.resolved outDir) hnames, String.toList_ofList,
      Path.splitSlashes_joinSlashes (fun s hs => (hnames s hs).2.2.2) (by simp)]
  have hplain : ∀ s ∈ Path.splitSlashes (assetName cwd outDir d).toList,
      s ≠ [] ∧ s ≠ ['.', '.'] := by
    rw [hsplit]
    exact fun s hs => ⟨(hnames s hs).1, (hnames s hs).2.2.1⟩
  refine ⟨hsplit, hplain, ?head, ?emitted⟩
  case head =>
    intro hhead
    obtain ⟨rest, hrest⟩ := List.head?_eq_some_iff.mp hhead
    have hempty : [] ∈ Path.splitSlashes (assetName cwd outDir d).toList := by
      rw [hrest]
      simp [Path.splitSlashes]
    exact (hplain [] hempty).1 rfl
  case emitted =>
    intro a path text hfaithful hacwd hasked hwritten hresult
    rw [trace_buildEnd hfaithful, hresult, hacwd]
    exact List.mem_map.mpr ⟨_, List.mem_filterMap.mpr ⟨path, hasked, hwritten⟩, rfl⟩

/-- Options with a directory for typings below the output directory. -/
def nestedOptions : Options :=
  .ofList [("rootDir", .str "src"), ("outDir", .str "dist"), ("declarationDir", .str "dist/types"),
    ("declaration", .bool true)]

/-- A bundler that has asked for a source whose typings have been written. -/
def withTypings : Adapter where
  settings := .empty
  builder :=
    { host :=
        { workspace := (Workspace.ofResolver ⟨"/p", ∅⟩).run
            [.source "/p/src/lib/a.tsx" ""
                ⟨.compiled, "/p/src/lib/a.tsx", "/p/tsconfig.json", nestedOptions⟩,
              .announce "/p/src/lib/a.tsx" "/p/dist/types/lib/a.d.ts" (.output .typings none),
              .fill "/p/dist/types/lib/a.d.ts" "export declare const a: 1;",
              .consume "/p/src/lib/a.tsx"]
          disk := ⟨fun _ => false, fun _ => false, fun _ => none, true⟩
          resolution := fun _ _ _ _ => none
          overrides := none
          projects := ∅
          active := none }
      naming := (OutputLayout.ofDir "/p").names
      roots := ["/p"]
      driver := ⟨none, [], .done ()⟩
      mode := none
      announcements := ⟨true, true⟩ }
  room := .ofTimeout 1000

/-- The bundle gets the typings below the name of their directory. -/
theorem typings_keep_place_in_nested_directory :
    Path.IsCanonical "/p" ∧ IsSource "/p/src/lib/a.tsx" ∧ nestedOptions.outDir = some "dist" ∧
    nestedOptions.declaration = true ∧ typingsBelow? "/p" nestedOptions = some ["types".toList] ∧
    ((OutputLayout.ofDir "/p").names nestedOptions "/p/src/lib/a.tsx" false).typings =
      some "/p/dist/types/lib/a.d.ts" ∧
    withTypings.workspace.paths.Faithful ∧ (buildEnd withTypings).result = .ok () ∧
    .asset "types/lib/a.d.ts" "export declare const a: 1;" ∈ (buildEnd withTypings).trace := by
  have hcwd : Path.IsCanonical "/p" := by decide
  have hf : IsSource "/p/src/lib/a.tsx" := by decide
  have hbelow : typingsBelow? "/p" nestedOptions = some ["types".toList] := by decide
  have htypings : ((OutputLayout.ofDir "/p").names nestedOptions "/p/src/lib/a.tsx" false).typings =
      some "/p/dist/types/lib/a.d.ts" := by decide
  have hfaithful : withTypings.workspace.paths.Faithful :=
    (Workspace.run_paths (w := .ofResolver ⟨"/p", ∅⟩) nofun _).1
  have hwritten : typingsOf? withTypings.workspace "/p/src/lib/a.tsx" =
      some ("dist", "/p/dist/types/lib/a.d.ts", "export declare const a: 1;") := by decide
  obtain ⟨d, _, _, _, hd, -, -, -, -, hemitted⟩ := typings_keep_place hcwd hf rfl rfl hbelow
  cases Option.some.inj (hd.symm.trans htypings)
  have hresult : (buildEnd withTypings).result = .ok () := rfl
  exact ⟨hcwd, hf, rfl, rfl, hbelow, htypings, hfaithful, hresult,
    hemitted withTypings _ _ hfaithful rfl (by decide) hwritten hresult⟩

end Adapter

end BuildRelay
