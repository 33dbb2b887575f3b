/-
BuildRelay.Proofs.Output.Contention — sources of one project do not contend for a path.

Below one root directory a source is told by the stem of its place and its extension. An output
keeps the stem and trades the extension for a tail, and tails of different kinds never end one
another; so the kind, the directory and the stem of an output can be read off its path again. The
one thing that is lost is whether the extension was `.ts` or `.tsx`.

* `SourceExt.tail_apart` — what two tails that end the same path have in common.
* `IsSource.no_tail` — no source ends with a tail.
* `OutputLayout.rebase_inj` — moving places into directories keeps them apart.
* `OutputLayout.outputs_never_contend` — sources and their outputs are all different.
-/
import BuildRelay.Proofs.Output.Layout
import Mathlib.Data.Fintype.Sets

namespace BuildRelay

instance : Fintype SourceExt := ⟨{.mts, .cts, .tsx, .ts}, by intro e; cases e <;> decide⟩

instance : Fintype OutputKind :=
  ⟨{.script, .typings, .sourceMap}, by intro k; cases k <;> decide⟩

/-! ## Tails -/

namespace SourceExt

/-- Whether two extensions are the plain one and that for JSX. -/
def twins : SourceExt → SourceExt → Bool
  | .ts, .tsx | .tsx, .ts => true
  | _, _ => false

/-- Tails that end the same path are of one kind, and of one extension or of a twin. The twin is
told apart by its script if JSX is preserved. -/
theorem tail_apart {keepJsx : Bool} {e e' : SourceExt} {k k' : OutputKind} {s : List Char}
    (h : e.tail keepJsx k <:+ s) (h' : e'.tail keepJsx k' <:+ s) :
    k = k' ∧ e.tail keepJsx k = e'.tail keepJsx k' ∧
      (e = e' ∨ e.twins e' = true ∧ (keepJsx = true → k = .typings)) := by
  have hcompare := List.suffix_or_suffix_of_suffix h h'
  clear h h'
  revert keepJsx e e' k k'
  decide

end SourceExt

/-- A source ends with no tail: not with that of typings, since then it would be none, and not with
any other, since it ends with the extension of a source. -/
theorem IsSource.no_tail {path : String} (h : IsSource path) (keepJsx : Bool) (e : SourceExt)
    (k : OutputKind) : ¬ e.tail keepJsx k <:+ path.toList := by
  intro htail
  by_cases hk : k = .typings
  · subst hk
    exact h.not_typings e htail
  · obtain ⟨own, hown⟩ := h.ext
    have hcompare := List.suffix_or_suffix_of_suffix htail hown
    clear h htail hown
    revert keepJsx e k own
    decide

/-- Two paths that differ only in that one ends with `.ts` and the other one with `.tsx`. -/
def Twins (f g : String) : Prop :=
  ∃ stem, ∃ e e' : SourceExt, e.twins e' = true ∧
    f.toList = stem ++ e.chars ∧ g.toList = stem ++ e'.chars

namespace OutputLayout

variable {l : OutputLayout} {options : Options}

/-! ## Places below the root -/

/-- The directory whose layout is kept: the root directory of the options, or else the project
directory. -/
def effectiveRoot (l : OutputLayout) (options : Options) : String :=
  (l.root? options).getD l.baseDir

/-- Whether a source lies below the directory whose layout is kept. -/
def UnderRoot (l : OutputLayout) (options : Options) (path : String) : Prop :=
  ((Path.locate (l.effectiveRoot options)).below? (Path.locate path)).isSome = true

instance (path : String) : Decidable (l.UnderRoot options path) :=
  inferInstanceAs (Decidable (_ = true))

theorem below?_effectiveRoot {path : String} (h : l.UnderRoot options path) :
    (Path.locate (l.effectiveRoot options)).below? (Path.locate path) =
      some (l.placeNames options path) := by
  obtain ⟨names, hnames⟩ := Option.isSome_iff_exists.mp h
  rw [hnames]
  unfold effectiveRoot at hnames
  unfold placeNames
  cases hroot : l.root? options with
  | none =>
    rw [hroot] at hnames
    simp only [Option.getD_none] at hnames
    simp [hnames]
  | some root =>
    rw [hroot] at hnames
    simp only [Option.getD_some] at hnames
    simp [hnames]

/-- A source below the root, cut in front of its extension. Above its place stand the pieces of
the root. -/
theorem exists_cut_under_root {path : String} (hpath : IsSource path)
    (hroot : l.UnderRoot options path) : ∃ front stem, ∃ e : SourceExt,
      (Path.locate path).pieces =
        (Path.locate (l.effectiveRoot options)).pieces ++ (front ++ [stem ++ e.chars]) ∧
      l.placeNames options path = front ++ [stem ++ e.chars] ∧
      path.toList = Path.joinSlashes (Path.locate (l.effectiveRoot options)).pieces ++
        '/' :: Path.joinSlashes (front ++ [stem]) ++ e.chars := by
  obtain ⟨lead, front, stem, e, -, hplace⟩ := l.exists_cut options hpath
  obtain ⟨hdown, -⟩ := Path.Location.below?_eq_some_iff.mp (below?_effectiveRoot hroot)
  have hpieces : (Path.locate path).pieces =
      (Path.locate (l.effectiveRoot options)).pieces ++ (front ++ [stem ++ e.chars]) := by
    rw [hdown, Path.Location.pieces_down, hplace]
  refine ⟨front, stem, e, hpieces, hplace, ?_⟩
  rw [hpath.toList_eq, hpieces, Path.joinSlashes_append (Path.Location.pieces_ne_nil _) (by simp),
    Path.joinSlashes_concat_append, List.append_assoc, List.cons_append]

/-- Places that are moved into one directory, or left where they are, stay apart. -/
theorem rebase_inj {root a b : List Path.Segment} {dir : Option (List Char)} (hroot : root ≠ [])
    (ha : a ≠ []) (hb : b ≠ [])
    (h : rebase (Path.joinSlashes (root ++ a)) (Path.joinSlashes a) dir =
      rebase (Path.joinSlashes (root ++ b)) (Path.joinSlashes b) dir) :
    Path.joinSlashes a = Path.joinSlashes b := by
  cases dir with
  | none =>
    simp only [rebase, Path.joinSlashes_append hroot ha, Path.joinSlashes_append hroot hb] at h
    exact (List.cons.inj (List.append_cancel_left h)).2
  | some dir => exact (List.cons.inj (List.append_cancel_left h)).2

/-! ## All different -/

/-- The output of one kind of a source, where case counts. -/
def output? (l : OutputLayout) (options : Options) (path : String) (k : OutputKind) :
    Option String :=
  (l.names options path false).path? k

section Outputs

variable (hbase : Path.IsCanonical l.baseDir) {f g p : String}

include hbase

theorem isSome_output? (hf : IsSource f) (k : OutputKind) :
    (l.output? options f k).isSome = options.emits k := by
  obtain ⟨lead, front, stem, e, hpieces, hplace⟩ := l.exists_cut options hf
  rw [output?, path?_names hbase hf hpieces hplace]
  cases options.emits k <;> rfl

theorem exists_tail_of_output? (hf : IsSource f) {k : OutputKind}
    (hp : l.output? options f k = some p) :
    ∃ e : SourceExt, e.chars <:+ f.toList ∧ e.tail options.keepsJsx k <:+ p.toList := by
  obtain ⟨lead, front, stem, e, hpieces, hplace⟩ := l.exists_cut options hf
  rw [output?, path?_names hbase hf hpieces hplace] at hp
  obtain ⟨-, hp⟩ := Option.ite_none_right_eq_some.mp hp
  refine ⟨e, ?_, ?_⟩
  · rw [hf.toList_eq, hpieces, ← List.append_assoc, Path.joinSlashes_concat_append]
    exact List.suffix_append ..
  · rw [← Option.some.inj hp, String.toList_ofList]
    exact List.suffix_append ..

/-- No output is a source. -/
theorem output?_ne_source (hf : IsSource f) (hg : IsSource g) {k : OutputKind}
    (hp : l.output? options f k = some p) : p ≠ g := by
  rintro rfl
  obtain ⟨e, -, htail⟩ := exists_tail_of_output? hbase hf hp
  exact hg.no_tail _ e k htail

/-- The kind of an output can be read off its path. -/
theorem kind_eq_of_output? (hf : IsSource f) (hg : IsSource g) {k k' : OutputKind}
    (hp : l.output? options f k = some p) (hp' : l.output? options g k' = some p) : k = k' := by
  obtain ⟨e, -, htail⟩ := exists_tail_of_output? hbase hf hp
  obtain ⟨e', -, htail'⟩ := exists_tail_of_output? hbase hg hp'
  exact (SourceExt.tail_apart htail htail').1

/-- Different sources below one root that have an output in common are twins. -/
theorem twins_of_output? (hf : IsSource f) (hg : IsSource g) (hne : f ≠ g)
    (hfroot : l.UnderRoot options f) (hgroot : l.UnderRoot options g) {k : OutputKind}
    (hp : l.output? options f k = some p) (hp' : l.output? options g k = some p) :
    Twins f g ∧ (options.keepsJsx = true → k = .typings) := by
  obtain ⟨front, stem, e, hpieces, hplace, hftext⟩ := exists_cut_under_root hf hfroot
  obtain ⟨front', stem', e', hpieces', hplace', hgtext⟩ := exists_cut_under_root hg hgroot
  rw [output?, path?_names hbase hf hpieces hplace] at hp
  rw [output?, path?_names hbase hg hpieces' hplace'] at hp'
  obtain ⟨-, hp⟩ := Option.ite_none_right_eq_some.mp hp
  obtain ⟨-, hp'⟩ := Option.ite_none_right_eq_some.mp hp'
  have htext := congrArg String.toList (Option.some.inj (hp.trans hp'.symm))
  rw [String.toList_ofList, String.toList_ofList] at htext
  obtain ⟨-, htail, hext⟩ := SourceExt.tail_apart ⟨_, htext⟩ (List.suffix_append ..)
  -- With the tails gone the stems are left, in one directory.
  rw [htail] at htext
  have hstem := rebase_inj (Path.Location.pieces_ne_nil _) (by simp) (by simp)
    (List.append_cancel_right htext)
  rw [← hstem] at hgtext
  rcases hext with rfl | ⟨htwins, hkeep⟩
  · exact absurd (String.toList_inj.mp (hftext.trans hgtext.symm)) hne
  · exact ⟨⟨_, e, e', htwins, hftext, hgtext⟩, hkeep⟩

end Outputs

/-- Two different sources below the root never contend for a path. Each has the outputs that the
options ask for, none of them equal to another one or to either source, and the two have none in
common. The only exception are sources that differ in `.ts` against `.tsx`: outputs of one kind
may coincide for them, and if JSX is preserved only their typings. -/
theorem outputs_never_contend (dir : String) (options : Options) {f g : String}
    (hf : IsSource f) (hg : IsSource g) (hne : f ≠ g)
    (hfroot : (ofDir dir).UnderRoot options f) (hgroot : (ofDir dir).UnderRoot options g) :
    (∀ k, ((ofDir dir).output? options f k).isSome = options.emits k) ∧
    (∀ k p, (ofDir dir).output? options f k = some p → p ≠ f ∧ p ≠ g) ∧
    (∀ k k' p, (ofDir dir).output? options f k = some p →
      (ofDir dir).output? options f k' = some p → k = k') ∧
    (∀ k k' p, (ofDir dir).output? options f k = some p →
      (ofDir dir).output? options g k' = some p →
      Twins f g ∧ k = k' ∧ (options.keepsJsx = true → k = .typings)) := by
  have hbase := isCanonical_baseDir dir
  refine ⟨fun k => isSome_output? hbase hf k, fun k p hp =>
    ⟨output?_ne_source hbase hf hf hp, output?_ne_source hbase hf hg hp⟩,
    fun k k' p hp hp' => kind_eq_of_output? hbase hf hf hp hp', fun k k' p hp hp' => ?_⟩
  obtain rfl := kind_eq_of_output? hbase hf hg hp hp'
  obtain ⟨htwins, hkeep⟩ := twins_of_output? hbase hf hg hne hfroot hgroot hp hp'
  exact ⟨htwins, rfl, hkeep⟩

/-- Options with a directory for everything, everything emitted and JSX preserved. -/
def preservingOptions : Options :=
  .ofList [("rootDir", .str "src"), ("outDir", .str "dist"), ("declarationDir", .str "types"),
    ("declaration", .bool true), ("sourceMap", .bool true), ("jsx", .str "Preserve")]

/-- Twins whose scripts stand apart, since JSX is preserved, and whose typings coincide. -/
theorem outputs_never_contend_twins :
    IsSource "/p/src/a.ts" ∧ IsSource "/p/src/a.tsx" ∧
    (ofDir "/p").UnderRoot preservingOptions "/p/src/a.ts" ∧
    (ofDir "/p").UnderRoot preservingOptions "/p/src/a.tsx" ∧
    (ofDir "/p").output? preservingOptions "/p/src/a.ts" .typings = some "/p/types/a.d.ts" ∧
    (ofDir "/p").output? preservingOptions "/p/src/a.tsx" .typings = some "/p/types/a.d.ts" ∧
    Twins "/p/src/a.ts" "/p/src/a.tsx" ∧
    ∀ p, (ofDir "/p").output? preservingOptions "/p/src/a.ts" .script = some p →
      (ofDir "/p").output? preservingOptions "/p/src/a.tsx" .script ≠ some p := by
  have hf : IsSource "/p/src/a.ts" := by decide
  have hg : IsSource "/p/src/a.tsx" := by decide
  have hfroot : (ofDir "/p").UnderRoot preservingOptions "/p/src/a.ts" := by decide
  have hgroot : (ofDir "/p").UnderRoot preservingOptions "/p/src/a.tsx" := by decide
  have hftypings : (ofDir "/p").output? preservingOptions "/p/src/a.ts" .typings =
      some "/p/types/a.d.ts" := by decide
  have hgtypings : (ofDir "/p").output? preservingOptions "/p/src/a.tsx" .typings =
      some "/p/types/a.d.ts" := by decide
  obtain ⟨-, -, -, hshared⟩ :=
    outputs_never_contend "/p" preservingOptions hf hg (by decide) hfroot hgroot
  refine ⟨hf, hg, hfroot, hgroot, hftypings, hgtypings, (hshared _ _ _ hftypings hgtypings).1, ?_⟩
  intro p hp hp'
  cases (hshared _ _ _ hp hp').2.2 (by decide)

end OutputLayout

end BuildRelay
