/-
BuildRelay.Path.Resolver — resolution against a working directory, with every answer remembered.
-/
import BuildRelay.Data.OrderedMap
import BuildRelay.Path.Basic

namespace BuildRelay.Path

/-- Resolves paths against one directory and remembers each answer (`PathNormalizer`). -/
structure Resolver where
  /-- The canonical working directory. -/
  cwd : String
  /-- The answers given so far, by the text that was asked. -/
  memo : OrderedMap String String
  deriving DecidableEq

namespace Resolver

/-- A resolver in a directory; a directory text without root is taken from the slash. -/
def inDir (cwd : String) : Resolver := ⟨Path.resolve "" cwd, ∅⟩

/-- The canonical text of a path, and the resolver that remembers it (`resolve_normalize`). -/
def resolve (r : Resolver) (path : String) : String × Resolver :=
  match r.memo.get? path with
  | some known => (known, r)
  | none =>
    let answer := Path.resolve r.cwd path
    (answer, { r with memo := r.memo.insert path answer })

/-- The number of texts asked so far, repetitions not counted (`cached_len`). -/
def remembered (r : Resolver) : Nat := r.memo.size

end Resolver

end BuildRelay.Path
