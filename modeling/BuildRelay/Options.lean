/-
BuildRelay.Options — bags of compiler options.

The build driver owns the meaning of options. Here they are carried about, layered, and asked for
the few keys that say where outputs go.
-/
import BuildRelay.Data.Json
import BuildRelay.Data.OrderedMap

namespace BuildRelay

/-- A bag of compiler options: values by name, in the order in which the names came. One bag is laid
over another by `OrderedMap.layer` (`CompilerOptions`, with its `merge`). -/
abbrev Options := OrderedMap String Json

namespace Options

/-- The bag of a JSON object; no other value is one. -/
def ofJson? : Json → Option Options
  | .obj members => some (OrderedMap.ofList members)
  | _ => none

/-- Equality of bags, where the order of names does not count. -/
def same (a b : Options) : Bool := (Json.obj a.entries).same (.obj b.entries)

/-- The value of a name, if it is a string. -/
def text? (o : Options) (name : String) : Option String := (o.get? name).bind Json.text?

/-- The value of a name, if it is a boolean. -/
def truth? (o : Options) (name : String) : Option Bool := (o.get? name).bind Json.truth?

/-- Where emitted files go. -/
def outDir (o : Options) : Option String := o.text? "outDir"

/-- The directory whose layout is kept below the output directory. -/
def rootDir (o : Options) : Option String := o.text? "rootDir"

/-- Whether typings are emitted. -/
def declaration (o : Options) : Bool := (o.truth? "declaration").getD false

/-- Whether source maps are emitted. -/
def sourceMap (o : Options) : Bool := (o.truth? "sourceMap").getD false

end Options

end BuildRelay
