/-
BuildRelay.Settings.Placement — settings in terms of canonical paths.

A user names a project by a directory and a config file name. The settings of a session name it by
the config file that this leads to, looked for from that directory upward; a key without such a
file stays as it is. The roots become canonical paths, and the working directory is the root where
none is given.
-/
import BuildRelay.Path.Resolver
import BuildRelay.Settings.Basic
import BuildRelay.Settings.Search

namespace BuildRelay

/-- The directory and the config file name that a key stands for. -/
def splitKey (key : String) : String × String :=
  let back := (Path.slashed key).toList.reverse
  let name := String.ofList (back.takeWhile (· ≠ '/')).reverse
  match back.dropWhile (· ≠ '/') with
  | [] => (".", name)
  | [_] => ("/", name)
  | _ :: dir => (String.ofList dir.reverse, name)

/-- Projects placed so far, the resolver that placed them, and the paths it was asked for. -/
structure Placement where
  /-- The projects under their new keys. -/
  projects : OrderedMap String Options
  paths : Path.Resolver
  /-- The paths asked for in the file system, in order. -/
  probed : List String
  deriving DecidableEq

namespace Placement

/-- Places one project. -/
def add (fileExists : String → Bool) (p : Placement) (key : String) (bag : Options) : Placement :=
  let (dir, name) := splitKey key
  let (dir, paths) := p.paths.resolve dir
  let search := findConfig dir name fileExists
  { projects := p.projects.insert (search.found.getD key) bag
    paths
    probed := p.probed ++ search.probed }

/-- Places projects one after the other; of those that meet in one file the last wins. -/
def ofProjects (fileExists : String → Bool) (paths : Path.Resolver)
    (projects : OrderedMap String Options) : Placement :=
  projects.entries.foldl (fun p e => p.add fileExists e.1 e.2) ⟨∅, paths, []⟩

end Placement

namespace Path.Resolver

/-- Resolves paths in order. -/
def resolveAll (r : Resolver) : List String → List String × Resolver
  | [] => ([], r)
  | path :: rest =>
    let (answer, r) := r.resolve path
    let (answers, r) := r.resolveAll rest
    (answer :: answers, r)

end Path.Resolver

namespace Settings

/-- The settings in terms of canonical paths, with the resolver that was used and the paths that
were asked for (`process`). -/
def place (s : Settings) (paths : Path.Resolver) (fileExists : String → Bool) :
    Settings × Path.Resolver × List String :=
  let p := Placement.ofProjects fileExists paths s.projects
  let (roots, paths) :=
    if s.roots.isEmpty then ([p.paths.cwd], p.paths) else p.paths.resolveAll s.roots
  (⟨s.overrides, p.projects, roots⟩, paths, p.probed)

end Settings

end BuildRelay
