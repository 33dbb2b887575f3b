/-
BuildRelay.Proofs.Build.FileView — the file system as the driver sees it.

The driver's three questions go to three places: whether a file exists is read off the stores and
the owners of the catalog, what can be read off the owners alone, and whether a directory exists
off the directories noted so far; each answer is then joined with that of the disk. The answers fit
together if those of the disk do.

* `FileSystem.Coherent` — what can be read is a file, and a file lies in a directory.
* `Host.file_of_text`, `Host.directory_of_file` — the two halves, for the view of a host.
* `Host.fileSystem_coherent` — the view is coherent in every session, and knows every path that
  the catalog knows.
-/
import BuildRelay.Build.Host
import BuildRelay.Proofs.Catalog.Directories
import BuildRelay.Proofs.Workspace.Sessions

namespace BuildRelay

namespace FileSystem

/-- A file system without loose ends. -/
structure Coherent (fs : FileSystem) : Prop where
  /-- What can be read is a file. -/
  file_of_text : ∀ path text, fs.textAt path = some text → fs.fileExists path = true
  /-- A file lies in a directory. -/
  directory_of_file : ∀ path, fs.fileExists path = true →
    fs.directoryExists (Path.parent path) = true

/-- The file system that holds one file, in its directory. -/
def ofFile (path text : String) : FileSystem where
  fileExists p := p = path
  directoryExists p := p = Path.parent path
  textAt p := if p = path then some text else none
  caseSensitive := true

theorem ofFile_coherent (path text : String) : (ofFile path text).Coherent where
  file_of_text := by
    intro p t h
    by_cases hp : p = path
    · simp [ofFile, hp]
    · simp [ofFile, hp] at h
  directory_of_file := by
    intro p h
    have hp : p = path := by simpa [ofFile] using h
    simp [ofFile, hp]

end FileSystem

/-- A text in memory is kept for an owned key, and an owner is a file. -/
theorem Workspace.hasFile_of_text? {w : Workspace} {path text : String}
    (h : w.text? path = some text) : w.catalog.hasFile path = true := by
  obtain ⟨v, hv, -⟩ := Option.bind_eq_some_iff.mp h
  obtain ⟨o, ho, -⟩ := Catalog.find?_eq_some_iff.mp hv
  exact Catalog.hasFile_iff.mpr (.inr (OrderedMap.contains_of_get? ho))

namespace Host

variable {h : Host} {path text : String}

theorem fileExists_fileSystem_iff : h.fileSystem.fileExists path = true ↔
    h.workspace.catalog.hasFile path = true ∨ h.disk.fileExists path = true := by
  simp [fileSystem]

theorem directoryExists_fileSystem_iff : h.fileSystem.directoryExists path = true ↔
    h.workspace.catalog.hasDirectory path = true ∨ h.disk.directoryExists path = true := by
  simp [fileSystem]

/-- Whatever text the driver reads is on disk or in memory. -/
theorem textAt_fileSystem (ht : h.fileSystem.textAt path = some text) :
    h.disk.textAt path = some text ∨ h.workspace.text? path = some text := by
  simp only [fileSystem, Option.or_eq_some_iff, Option.filter_eq_some_iff] at ht
  rcases ht with ⟨hdisk, -⟩ | ⟨-, hmemory | ⟨-, hdisk⟩⟩
  · exact .inl hdisk
  · exact .inr hmemory
  · exact .inl hdisk

/-- What the driver can read exists for it. -/
theorem file_of_text (hdisk : h.disk.Coherent) (ht : h.fileSystem.textAt path = some text) :
    h.fileSystem.fileExists path = true := by
  rw [fileExists_fileSystem_iff]
  rcases textAt_fileSystem ht with hd | hm
  · exact .inr (hdisk.file_of_text path text hd)
  · exact .inl (Workspace.hasFile_of_text? hm)

/-- The directory of what exists for the driver exists for it. -/
theorem directory_of_file (hlocated : h.workspace.catalog.Located)
    (hconsistent : h.workspace.catalog.Consistent) (hdisk : h.disk.Coherent)
    (hf : h.fileSystem.fileExists path = true) :
    h.fileSystem.directoryExists (Path.parent path) = true := by
  rw [directoryExists_fileSystem_iff]
  rcases fileExists_fileSystem_iff.mp hf with hm | hd
  · exact .inl (hlocated.hasDirectory_of_hasFile hconsistent hm)
  · exact .inr (hdisk.directory_of_file path hd)

/-- Over a coherent disk the driver's view is coherent in every session: what it can read exists,
and what exists lies in a directory that exists. Every path that the catalog knows, by its store
or by its owner, exists in the view. -/
theorem fileSystem_coherent (paths : Path.Resolver) (ops : List Workspace.Op) (h : Host)
    (hsession : h.workspace = (Workspace.ofResolver paths).run ops) (hdisk : h.disk.Coherent) :
    h.fileSystem.Coherent ∧
    ∀ path, h.workspace.catalog.stores.contains path = true ∨
        h.workspace.catalog.owners.contains path = true →
      h.fileSystem.fileExists path = true := by
  obtain ⟨catalogOps, hcatalog⟩ := Workspace.exists_catalog_session paths ops
  rw [← hsession] at hcatalog
  have hlocated : h.workspace.catalog.Located := hcatalog ▸ Catalog.run_located catalogOps
  have hconsistent : h.workspace.catalog.Consistent := hcatalog ▸ Catalog.run_consistent catalogOps
  refine ⟨⟨fun path text => file_of_text hdisk,
    fun path => directory_of_file hlocated hconsistent hdisk⟩, fun path hpath => ?_⟩
  exact fileExists_fileSystem_iff.mpr (.inl (Catalog.hasFile_iff.mpr hpath))

/-- A host over a disk with one empty file, which has been registered and whose script has been
emitted. -/
def withEmittedScript : Host where
  workspace := (Workspace.inDir "/p").run
    [.source "/p/a.ts" "run()" ⟨.compiled, "/p/a.ts", "/p/tsconfig.json", ∅⟩,
      .announce "/p/a.ts" "/p/out/a.js" (.output .script none),
      .fill "/p/out/a.js" "run();"]
  disk := .ofFile "/p/a.ts" ""
  resolution := fun _ _ _ _ => none
  overrides := none
  projects := ∅
  active := none

/-- The emitted script is nowhere on disk, nor is its directory; both exist for the driver. -/
theorem fileSystem_coherent_with_emitted_script :
    withEmittedScript.disk.Coherent ∧ withEmittedScript.fileSystem.Coherent ∧
    withEmittedScript.disk.fileExists "/p/out/a.js" = false ∧
    withEmittedScript.disk.directoryExists "/p/out" = false ∧
    withEmittedScript.fileSystem.textAt "/p/out/a.js" = some "run();" ∧
    withEmittedScript.fileSystem.fileExists "/p/out/a.js" = true ∧
    withEmittedScript.fileSystem.directoryExists (Path.parent "/p/out/a.js") = true := by
  have hdisk : withEmittedScript.disk.Coherent := FileSystem.ofFile_coherent "/p/a.ts" ""
  obtain ⟨hcoherent, hknown⟩ := fileSystem_coherent (.inDir "/p") _ withEmittedScript rfl hdisk
  have hexists := hknown "/p/out/a.js" (.inr (by decide))
  exact ⟨hdisk, hcoherent, by decide, by decide, by decide, hexists,
    hcoherent.directory_of_file _ hexists⟩

end Host

end BuildRelay
