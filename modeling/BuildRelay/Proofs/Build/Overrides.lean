/-
BuildRelay.Proofs.Build.Overrides — which options a program is given.

The settings of a project are kept under the path of its config file, and they are looked up under
the canonical path of the project that is being built. Whoever writes a key that resolves to the
config file gets the overrides applied, however the key is spelled and whatever has been resolved
since; the memory of the resolver changes no answer.

* `Host.programOptions_eq` — the options of a program, name by name.
* `ofSettings_honours_overrides` — the settings of a project reach its programs.
-/
import BuildRelay.Build.Builder
import BuildRelay.Proofs.Settings.Placement
import BuildRelay.Proofs.Workspace.Sessions

namespace BuildRelay

/-- The options of a program for an active project: a name has the value that the project gives it,
or else the one that all projects give it, or else the one asked with. -/
theorem Host.programOptions_eq {h : Host} {project : String} (hactive : h.active = some project)
    (hpaths : h.workspace.paths.Faithful) (base : Options) :
    ∃ options, (h.programOptions base).1 = .ok options ∧ ∀ name, options.get? name =
      ((h.projects.get? (Path.resolve h.workspace.paths.cwd project)).bind
          fun bag => bag.get? name).or
        ((h.overrides.bind fun bag => bag.get? name).or (base.get? name)) := by
  have hkey : (h.workspace.resolve project).1 = Path.resolve h.workspace.paths.cwd project :=
    hpaths.answer project
  simp only [programOptions, hactive, hkey]
  refine ⟨_, rfl, fun name => ?_⟩
  cases h.projects.get? (Path.resolve h.workspace.paths.cwd project) with
  | none => cases h.overrides <;> simp [OrderedMap.get?_layer]
  | some bag => cases h.overrides <;> simp [OrderedMap.get?_layer]

namespace Builder

/-- The settings of a project reach its programs. Take any key that names a file, and say that the
path it resolves to from the working directory is there. Then the key comes to lie at that path, and
what is kept there is the last of the bags that came there. And when a project is built that
resolves to that path, by whatever name the driver knows it and whatever the session did before, its
programs get each option from that bag, or else from the overrides for all projects, or else as they
asked. A key without a config file is kept as it is, with the last bag that came there. -/
theorem ofSettings_honours_overrides (settings : Settings) (cwd : String) (disk : FileSystem)
    (resolution : ImportResolution) (naming : OutputNaming) (driver : Driver)
    (announcements : Announcements) :
    let host := (ofSettings settings (.inDir cwd) disk resolution naming driver announcements).host
    let root := (Path.Resolver.inDir cwd).cwd
    let landed := lastLanding? disk.fileExists root settings.projects
    (∀ key, settings.projects.contains key = true → Path.NamesFile key →
      disk.fileExists (Path.resolve root key) = true →
      landing disk.fileExists root key = Path.resolve root key ∧
      ∃ bag, landed (Path.resolve root key) = some bag ∧
        host.projects.get? (Path.resolve root key) = some bag ∧
        ∀ (ops : List Workspace.Op) (project : String),
          Path.resolve root project = Path.resolve root key → ∀ base : Options,
            let building := { host with
              workspace := host.workspace.run ops
              active := some project }
            ∃ options, (building.programOptions base).1 = .ok options ∧
              ∀ name, options.get? name = (bag.get? name).or
                ((settings.overrides.bind fun bag => bag.get? name).or (base.get? name))) ∧
    (∀ key, settings.projects.contains key = true →
      configOf? disk.fileExists root key = none →
      landing disk.fileExists root key = key ∧
      ∃ bag, landed key = some bag ∧ host.projects.get? key = some bag) := by
  intro host root landed
  have hstart : (Path.Resolver.inDir cwd).Faithful := Path.Resolver.inDir_faithful cwd
  obtain ⟨hfaithful, hcwd⟩ := settings.place_paths hstart disk.fileExists
  have hprojects : ∀ path, host.projects.get? path = landed path :=
    Placement.get?_ofProjects disk.fileExists hstart settings.projects
  refine ⟨?_, ?_⟩
  · intro key hkey hname hexists
    have hland := landing_of_exists hname hexists
    obtain ⟨bag, hbag⟩ := exists_lastLanding? disk.fileExists root hkey
    rw [hland] at hbag
    refine ⟨hland, bag, hbag, (hprojects _).trans hbag, ?_⟩
    intro ops project hproject base building
    obtain ⟨hrun, hruncwd⟩ := Workspace.run_paths (w := host.workspace) hfaithful ops
    obtain ⟨options, hoptions, hnames⟩ := Host.programOptions_eq (h := building) rfl hrun base
    refine ⟨options, hoptions, fun name => ?_⟩
    have hroot : building.workspace.paths.cwd = root := hruncwd.trans hcwd
    have hlookup : building.projects.get? (Path.resolve building.workspace.paths.cwd project) =
        some bag := by
      rw [hroot, hproject]
      exact (hprojects _).trans hbag
    rw [hnames name, hlookup, Option.bind_some]
    rfl
  · intro key hkey hnone
    have hland : landing disk.fileExists root key = key := by rw [landing, hnone, Option.getD_none]
    obtain ⟨bag, hbag⟩ := exists_lastLanding? disk.fileExists root hkey
    rw [hland] at hbag
    exact ⟨hland, bag, hbag, (hprojects key).trans hbag⟩

/-- Two spellings of one project, and options for all projects. -/
def twiceNamedSettings : Settings where
  overrides := some ⟨[("target", .str "es5"), ("strict", .null)], by decide⟩
  projects := ⟨[("tsconfig.json", ⟨[("strict", .bool true)], by decide⟩),
    ("sub\\..\\tsconfig.json", ⟨[("strict", .bool false)], by decide⟩)], by decide⟩
  roots := []

/-- A file system that holds one config file. -/
def oneConfigDisk : FileSystem where
  fileExists path := path = "/work/tsconfig.json"
  directoryExists _ := false
  textAt _ := none
  caseSensitive := true

theorem ofSettings_honours_overrides_of_two_spellings :
    let host := (ofSettings twiceNamedSettings (.inDir "/work") oneConfigDisk (fun _ _ _ _ => none)
      (fun _ _ _ => .none) ⟨none, [], .done ()⟩ ⟨false, false⟩).host
    let building := { host with
      workspace := host.workspace.run [.resolve "tsconfig.json"]
      active := some "/work/./tsconfig.json" }
    ∃ options, (building.programOptions ⟨[("target", .str "es3"), ("jsx", .str "react")],
        by decide⟩).1 = .ok options ∧
      options.get? "strict" = some (.bool false) ∧ options.get? "target" = some (.str "es5") ∧
      options.get? "jsx" = some (.str "react") := by
  intro host building
  have hroot : (Path.Resolver.inDir "/work").cwd = "/work" := by decide
  have hland : ∀ key, key ∈ ["tsconfig.json", "sub\\..\\tsconfig.json"] →
      landing oneConfigDisk.fileExists "/work" key = "/work/tsconfig.json" := by
    intro key hkey
    have hresolve : Path.NamesFile key ∧ Path.resolve "/work" key = "/work/tsconfig.json" := by
      revert key
      decide
    rw [landing_of_exists hresolve.1 (by rw [hresolve.2]; rfl), hresolve.2]
  obtain ⟨-, bag, hbag, -, hprograms⟩ :=
    (ofSettings_honours_overrides twiceNamedSettings "/work" oneConfigDisk (fun _ _ _ _ => none)
      (fun _ _ _ => .none) ⟨none, [], .done ()⟩ ⟨false, false⟩).1 "tsconfig.json" (by decide)
      (by decide) (by decide)
  have hpath : Path.resolve (Path.Resolver.inDir "/work").cwd "tsconfig.json" =
      "/work/tsconfig.json" := by decide
  rw [hpath, hroot] at hbag
  simp only [lastLanding?, twiceNamedSettings, List.filter_cons, hland _ (List.mem_cons_self ..),
    hland _ (List.mem_cons_of_mem _ (List.mem_cons_self ..)), decide_true, if_true] at hbag
  cases hbag
  obtain ⟨options, hoptions, hnames⟩ := hprograms [.resolve "tsconfig.json"]
    "/work/./tsconfig.json" (by decide) ⟨[("target", .str "es3"), ("jsx", .str "react")], by decide⟩
  exact ⟨options, hoptions, hnames "strict", hnames "target", hnames "jsx"⟩

end Builder

end BuildRelay
