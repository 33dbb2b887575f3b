/-
BuildRelay.Proofs.Workspace.Outputs — the text of an output, from its announcement on.

A text is written through the owner of its key and read through the store of its source. A pass
that registers a compiled source and announces an output brings the two together: the source is the
first artifact of a fresh store, the output the second, and the source owns the output, whoever did
before. Nothing but a deletion or another write under one of the two keys parts them again.

* `Store.Leads`, `Catalog.Serves` — the invariant, for the store and with the owner.
* `Serves.put`, `Serves.fill` — what keeps it.
* `serves_announce` — how a pass sets it up.
* `serves_run` — over a session the text is the last one that arrived.
* `output?_after_pass` — what the source answers after a pass.
-/
import BuildRelay.Proofs.Workspace.Projects

namespace BuildRelay

/-! ## One store -/

namespace Store

/-- The text of the source comes first, the output next. -/
def Leads (s : Store) (path key : String) (k : OutputKind) (text : Option String) : Prop :=
  ∃ src rest, s.artifacts.entries = (path, .source src) :: (key, .output k text) :: rest

variable {s : Store} {path key : String} {k : OutputKind} {text : Option String}

namespace Leads

theorem get?_source (h : Leads s path key k text) :
    ∃ src, s.artifacts.get? path = some (.source src) := by
  obtain ⟨src, rest, hentries⟩ := h
  exact ⟨src, OrderedMap.get?_of_mem_entries (by simp [hentries])⟩

theorem get?_output (h : Leads s path key k text) :
    s.artifacts.get? key = some (.output k text) := by
  obtain ⟨src, rest, hentries⟩ := h
  exact OrderedMap.get?_of_mem_entries (by simp [hentries])

theorem put_source (h : Leads s path key k text) (src : String) :
    Leads (s.put path (.source src)) path key k text := by
  obtain ⟨old, rest, hentries⟩ := h
  exact ⟨src, rest, by simp [put, OrderedMap.insert, hentries, Entries.put]⟩

theorem put_output (h : Leads s path key k text) (hne : key ≠ path) (text' : Option String) :
    Leads (s.put key (.output k text')) path key k text' := by
  obtain ⟨src, rest, hentries⟩ := h
  exact ⟨src, rest, by simp [put, OrderedMap.insert, hentries, Entries.put, hne.symm]⟩

/-- What is written under other keys comes later. -/
theorem put_other (h : Leads s path key k text) {x : String} (hpath : x ≠ path) (hkey : x ≠ key)
    (a : Artifact) : Leads (s.put x a) path key k text := by
  obtain ⟨src, rest, hentries⟩ := h
  refine ⟨src, Entries.put x a rest, ?_⟩
  simp [put, OrderedMap.insert, hentries, Entries.put, hpath.symm, hkey.symm]

/-- The oldest output of the kind is the announced one. -/
theorem head?_ofKind (h : Leads s path key k text) :
    (s.ofKind (.output k)).head? = some (key, .output k text) := by
  obtain ⟨src, rest, hentries⟩ := h
  simp [ofKind, hentries, Artifact.kind]

end Leads

end Store

/-! ## Store and owner -/

namespace Catalog

/-- The announced output of a source has one text, be it asked for by its own key or by its
source. -/
def Serves (c : Catalog) (path key : String) (k : OutputKind) (text : Option String) : Prop :=
  ∃ s o, c.stores.get? path = some s ∧ c.files.contains s.file = true ∧ s.Leads path key k text ∧
    c.owners.get? key = some o ∧ o.path = path

variable {c : Catalog} {path key : String} {k : OutputKind} {text : Option String}

/-- A put that does not claim a key leaves its owner alone. -/
theorem get?_owners_put_of_not_claims {p x : String} {a : Artifact}
    (h : x = key → ¬ c.Claims p x a) (file : Option File) :
    (c.put p x a file).2.owners.get? key = c.owners.get? key := by
  rw [owners_put]
  split
  · rename_i hclaims
    rw [OrderedMap.get?_insert, if_neg fun hkey => h hkey.symm hclaims.1]
  · rfl

theorem Serves.put (h : Serves c path key k text) (hc : Consistent c) (hne : key ≠ path)
    {p x : String} {a : Artifact} (hkey : x = key → p = path ∧ a = .output k none)
    (hsource : x = path → a.kind = .source) (file : Option File) :
    Serves (c.put p x a file).2 path key k text := by
  obtain ⟨s, o, hs, hlive, hleads, ho, hpath⟩ := h
  have howner : (c.put p x a file).2.owners.get? key = some o := by
    rw [get?_owners_put_of_not_claims ?_, ho]
    rintro rfl hclaims
    obtain ⟨rfl, -⟩ := hkey rfl
    -- The store of the source holds the output already.
    have hheld := hclaims.1
    rw [artifact?, hs, Option.bind_some, hleads.get?_output] at hheld
    cases hheld
  have hlive' : (c.put p x a file).2.files.contains s.file = true := by
    rw [files_put, hc.contains_files_enroll]
    exact .inl hlive
  by_cases hp : p = path
  · subst hp
    have hs' := get?_stores_put_self c p x a file
    rw [enroll_of_store hs file] at hs'
    refine ⟨_, o, hs', hlive', ?_, howner, hpath⟩
    by_cases hx : x = key
    · obtain ⟨-, rfl⟩ := hkey hx
      subst hx
      have hmerged : s.written x (.output k none) = .output k text := by
        simp [Store.written, hleads.get?_output, Artifact.merge]
      rw [hmerged]
      exact hleads.put_output hne text
    · by_cases hxp : x = p
      · subst hxp
        obtain ⟨src, hsrc⟩ := hleads.get?_source
        cases a with
        | source src' =>
          rw [Store.written, hsrc]
          exact hleads.put_source src'
        | output k' t => cases hsource rfl
        | importLink l => cases hsource rfl
      · exact hleads.put_other hxp hx _
  · exact ⟨s, o, by rw [get?_stores_put, if_neg (Ne.symm hp), hs], hlive', hleads, howner, hpath⟩

/-- A text goes to the announced output exactly if it is meant for its key. -/
theorem Serves.fill (h : Serves c path key k text) (hne : key ≠ path) (x new : String) :
    Serves ((c.fill? x new).getD c) path key k (if x = key then some new else text) := by
  have hserves := h
  obtain ⟨s, o, hs, hlive, hleads, ho, hpath⟩ := h
  by_cases hx : x = key
  · subst hx
    have hfill : c.fill? x new = some { c with
        stores := c.stores.insert path (s.put x (.output k (some new))) } := by
      simp [fill?, ho, hpath, hs, hleads.get?_output, Artifact.fill?]
    rw [hfill, if_pos rfl, Option.getD_some]
    have hleads' := hleads.put_output hne (some new)
    refine ⟨s.put x (.output k (some new)), o, ?_, hlive, hleads', ho, hpath⟩
    rw [OrderedMap.get?_insert, if_pos rfl]
  · rw [if_neg hx]
    cases hfill : c.fill? x new with
    | none => exact hserves
    | some c' =>
      obtain ⟨o', s', a, b, -, hs', ha, hb, rfl⟩ := fill?_cases hfill
      rw [Option.getD_some]
      by_cases hp : path = o'.path
      · rw [← hp, hs] at hs'
        cases hs'
        have hxp : x ≠ path := by
          rintro rfl
          obtain ⟨src, hsrc⟩ := hleads.get?_source
          rw [hsrc] at ha
          cases ha
          cases hb
        refine ⟨s.put x b, o, ?_, hlive, hleads.put_other hxp hx b, ho, hpath⟩
        rw [OrderedMap.get?_insert, if_pos hp]
      · refine ⟨s, o, ?_, hlive, hleads, ho, hpath⟩
        rw [OrderedMap.get?_insert, if_neg hp, hs]

/-- A source without a store is registered as compiled, and then its output is announced: the
source takes the output over, whoever owned it. -/
theorem serves_announce (hs : c.stores.get? path = none) (hne : key ≠ path) (src : String)
    {file : File} (hcompiled : file.isCompiled = true) (k : OutputKind) :
    Serves ((c.put path path (.source src) (some file)).2.put path key (.output k none) none).2
      path key k none := by
  have henroll : c.enroll path (some file) = (⟨c.nextId, ∅⟩,
      { c with
        files := c.files.insert c.nextId file
        nextId := c.nextId + 1
        stores := c.stores.insert path ⟨c.nextId, ∅⟩
        directories := c.directories.insert (Path.parent path) }) := by
    simp [enroll, hs, addFile, noteDirectory]
  generalize hregistered : (c.put path path (.source src) (some file)).2 = c'
  have hs' : c'.stores.get? path = some ((⟨c.nextId, ∅⟩ : Store).put path (.source src)) := by
    rw [← hregistered, get?_stores_put_self, henroll]
    rfl
  have hf' : c'.files.get? c.nextId = some file := by
    rw [← hregistered, files_put, henroll]
    exact (OrderedMap.get?_insert ..).trans (if_pos rfl)
  have henroll' : c'.enroll path none = ((⟨c.nextId, ∅⟩ : Store).put path (.source src), c') := by
    simp [enroll, hs']
  have hnone : ((⟨c.nextId, ∅⟩ : Store).put path (.source src)).artifacts.get? key = none := by
    rw [Store.put, OrderedMap.get?_insert, if_neg hne]
    rfl
  refine ⟨_, ⟨path, c.nextId⟩, get?_stores_put_self .., ?_, ?_, ?_, rfl⟩
  · rw [files_put, henroll']
    exact OrderedMap.contains_of_get? hf'
  · rw [henroll', Store.written, hnone]
    refine ⟨src, [], ?_⟩
    show Entries.put key _ [(path, _)] = _
    simp [Entries.put, hne.symm]
  · have hclaims : c'.Claims path key (.output k none) := by
      refine ⟨?_, rfl⟩
      rw [artifact?, hs', Option.bind_some, hnone]
    have hmine : (c'.enroll path none).2.isCompiled (c'.enroll path none).1.file = true := by
      rw [henroll']
      show (c'.files.get? c.nextId).any File.isCompiled = true
      rw [hf']
      exact hcompiled
    rw [owners_put, if_pos ⟨hclaims, .inl hmine⟩, OrderedMap.get?_insert, if_pos rfl, henroll']
    rfl

/-- The source and the key of the output give one answer. -/
theorem Serves.answer (h : Serves c path key k text) :
    ∃ v, c.firstOfKindAt path (.output k) = some v ∧ c.find? key = some v ∧
      v.path = path ∧ v.key = key ∧ v.artifact = .output k text := by
  obtain ⟨s, o, hs, hlive, hleads, ho, hpath⟩ := h
  obtain ⟨f, hf⟩ := OrderedMap.contains_iff.mp hlive
  refine ⟨⟨path, key, .output k text, s.file, f⟩, ?_, ?_, rfl, rfl, rfl⟩
  · simp [firstOfKindAt, ofKindAt, hs, hf, hleads.head?_ofKind]
  · refine find?_eq_some_iff.mpr ⟨o, ho, ?_⟩
    rw [hpath]
    exact view_eq_some_iff.mpr ⟨s, _, f, hs, hleads.get?_output, hf, rfl⟩

end Catalog

/-! ## Sessions -/

namespace Workspace

/-- What an operation writes: for which source path, under which key, and what. -/
def Op.write? : Op → Option (String × String × Artifact)
  | .source path text _ => some (path, path, .source text)
  | .importLink path specifier link => some (path, specifier, .importLink link)
  | .announce path key a => some (path, key, a)
  | .reset _ | .clear _ | .clearActive | .fill .. | .consume _ | .resetConsumed | .resolve _ => none

/-- Whether an operation drops the files of a project. -/
def Op.drops : Op → Bool
  | .reset _ | .clear _ => true
  | .clearActive | .source .. | .importLink .. | .announce .. | .fill .. | .consume _
  | .resetConsumed | .resolve _ => false

/-- The text that an operation brings for a key. -/
def Op.text? (key : String) : Op → Option String
  | .fill k text => if k = key then some text else none
  | .reset _ | .clear _ | .clearActive | .source .. | .importLink .. | .announce .. | .consume _
  | .resetConsumed | .resolve _ => none

/-- The texts that arrive for a key, oldest first. -/
def texts (key : String) (ops : List Op) : List String := ops.filterMap (Op.text? key)

/-- An operation leaves a source and its output to each other: it drops nothing, it writes the
output only for that source and without a text, and under the path of the source it writes only
sources. -/
def Op.Spares (op : Op) (path key : String) (k : OutputKind) : Prop :=
  op.drops = false ∧ ∀ e ∈ op.write?,
    (e.2.1 = key → e.1 = path ∧ e.2.2 = .output k none) ∧ (e.2.1 = path → e.2.2.kind = .source)

instance (op : Op) (path key : String) (k : OutputKind) : Decidable (op.Spares path key k) :=
  inferInstanceAs (Decidable (_ ∧ _))

variable {w : Workspace} {path key : String} {k : OutputKind} {text : Option String}

theorem serves_step (h : w.catalog.Serves path key k text) (hc : w.catalog.Consistent)
    (hne : key ≠ path) {op : Op} (hop : op.Spares path key k) :
    (w.step op).catalog.Serves path key k ((op.text? key).or text) := by
  have written : ∀ {p x : String} {a : Artifact} (file : Option File), op.write? = some (p, x, a) →
      (w.catalog.put p x a file).2.Serves path key k text := by
    intro p x a file hwrite
    obtain ⟨houtput, hsource⟩ := hop.2 (p, x, a) hwrite
    exact h.put hc hne houtput hsource file
  cases op with
  | reset project => cases hop.1
  | clear project => cases hop.1
  | source p t file =>
    rw [step, catalog_registerSource]
    exact written (some file) rfl
  | importLink p specifier link => exact written none rfl
  | announce p x a => exact written none rfl
  | fill x new =>
    have hfilled := h.fill hne x new
    rw [catalog_step]
    show ((w.catalog.fill? x new).getD w.catalog).Serves path key k _
    by_cases hx : x = key <;> simpa [Op.text?, hx] using hfilled
  | consume p =>
    have hcatalog : (w.step (.consume p)).catalog = w.catalog := catalog_step w (.consume p)
    rw [hcatalog]
    exact h
  | clearActive => exact h
  | resetConsumed => exact h
  | resolve p => exact h

/-- Over a session the text of the output is the last one that arrived for it. -/
theorem serves_run (h : w.catalog.Serves path key k text) (hc : w.catalog.Consistent)
    (hne : key ≠ path) {ops : List Op} (hops : ∀ op ∈ ops, op.Spares path key k) :
    (w.run ops).catalog.Serves path key k ((texts key ops).getLast?.or text) := by
  induction ops generalizing w text with
  | nil => exact h
  | cons op ops ih =>
    have hstep := serves_step h hc hne (hops op List.mem_cons_self)
    have hrest := ih hstep (consistent_step hc op) fun op' hop' =>
      hops op' (List.mem_cons_of_mem _ hop')
    have hlast : (texts key (op :: ops)).getLast?.or text =
        (texts key ops).getLast?.or ((op.text? key).or text) := by
      cases hfirst : op.text? key with
      | none => simp [texts, hfirst]
      | some t =>
        cases hlater : (texts key ops).getLast? with
        | none => simp_all [texts, List.getLast?_cons]
        | some t' => simp_all [texts, List.getLast?_cons]
    rw [hlast]
    exact hrest

/-- What a pass over a project makes of an output, whatever the workspace was before. The pass
registers a compiled source, which has no store but one that the project itself left behind, and
announces an output of it. From then on, as long as nothing is dropped and nobody writes under the
keys of the two in another way, the source answers with that output, and the text is the last one
that arrived since, if there was any; the key of the output answers with the same. -/
theorem output?_after_pass (paths : Path.Resolver) (before after : List Op)
    (project path key text : String) (file : File) (k : OutputKind)
    (hcompiled : file.isCompiled = true) (hne : key ≠ path)
    (htracked : ∀ s, ((ofResolver paths).run before).catalog.stores.get? path = some s →
      s.file ∈ ((ofResolver paths).run before).tracked project)
    (hafter : ∀ op ∈ after, op.Spares path key k) :
    let w := (ofResolver paths).run (before ++ [.reset project, .source path text file,
      .announce path key (.output k none)] ++ after)
    ∃ v, w.output? path k = some v ∧ w.catalog.find? key = some v ∧ v.path = path ∧ v.key = key ∧
      v.artifact = .output k (texts key after).getLast? := by
  intro w
  let start := ((ofResolver paths).run before).step (.reset project)
  let registered := start.step (.source path text file)
  let announced := registered.step (.announce path key (.output k none))
  have hw : w = announced.run after := by
    simp only [w, run, List.foldl_append]
    rfl
  have hfresh : start.catalog.stores.get? path = none := by
    rw [← Option.not_isSome_iff_eq_none]
    intro hsome
    obtain ⟨s, hs⟩ := Option.isSome_iff_exists.mp hsome
    obtain ⟨hold, hkept⟩ := get?_stores_resetProject.mp hs
    exact hkept (htracked s hold)
  have hserves : announced.catalog.Serves path key k none := by
    rw [catalog_step, catalog_step]
    exact Catalog.serves_announce hfresh hne text hcompiled k
  have hconsistent : announced.catalog.Consistent :=
    consistent_step (consistent_step (consistent_step (run_catalog_consistent paths before) _) _) _
  have hrun := serves_run hserves hconsistent hne hafter
  rw [Option.or_none, ← hw] at hrun
  exact hrun.answer

/-- A source with its script, from a pass that has written the text. -/
def writtenScript : List Op :=
  [.reset "/p/tsconfig.json",
    .source "/src/a.ts" "a" ⟨.compiled, "/src/a.ts", "/p/tsconfig.json", ∅⟩,
    .announce "/src/a.ts" "/out/a.js" (.output .script none),
    .fill "/out/a.js" "old"]

/-- What may follow in the next pass: an import, the text, and the script announced once more. -/
def rewrittenScript : List Op :=
  [.importLink "/src/a.ts" "./b" ⟨"/src/b.ts", ".ts", false, none⟩,
    .fill "/out/a.js" "new",
    .announce "/src/a.ts" "/out/a.js" (.output .script none)]

theorem output?_after_second_pass :
    (∀ op ∈ rewrittenScript, op.Spares "/src/a.ts" "/out/a.js" .script) ∧
    ∃ v, ((ofResolver ⟨"/work", ∅⟩).run (writtenScript ++ [.reset "/p/tsconfig.json",
        .source "/src/a.ts" "a2" ⟨.compiled, "/src/a.ts", "/p/tsconfig.json", ∅⟩,
        .announce "/src/a.ts" "/out/a.js" (.output .script none)] ++ rewrittenScript)).output?
          "/src/a.ts" .script = some v ∧
      v.key = "/out/a.js" ∧ v.artifact = .output .script (some "new") := by
  have hspares : ∀ op ∈ rewrittenScript, op.Spares "/src/a.ts" "/out/a.js" .script := by decide
  refine ⟨hspares, ?_⟩
  obtain ⟨v, hv, -, -, hkey, htext⟩ := output?_after_pass ⟨"/work", ∅⟩ writtenScript rewrittenScript
    "/p/tsconfig.json" "/src/a.ts" "/out/a.js" "a2" ⟨.compiled, "/src/a.ts", "/p/tsconfig.json", ∅⟩
    .script (by decide) (by decide)
    (by
      intro s hs
      have hfile : (((ofResolver ⟨"/work", ∅⟩).run writtenScript).catalog.stores.get?
        "/src/a.ts").map Store.file = some 0 := by decide
      rw [hs] at hfile
      rw [show s.file = 0 from Option.some.inj hfile]
      decide)
    hspares
  exact ⟨v, hv, hkey, htext⟩

end Workspace

end BuildRelay
