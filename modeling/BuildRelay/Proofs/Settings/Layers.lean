/-
BuildRelay.Proofs.Settings.Layers — bags of options that are laid over one another.

The options of a program come in layers: what it asks with, what holds for all projects, what holds
for its own. Two layers may be put together first and the third over them, or the upper two first;
the program cannot tell. Not only do its options have the same values then, they also stand in the
same order, because a name keeps the place where the lowest layer has it.

What the values are makes no difference, since none of them is looked into; so the laws are those of
ordered maps. A map is known by its keys in order and by its values (`OrderedMap.ext_keys`), and each
law is proved once for the keys and once for the values.

* `OrderedMap.keys_layer` — the keys of two layers; their values are in `OrderedMap.get?_layer`.
* `OrderedMap.layer_assoc`, `OrderedMap.layer_self` — three layers, and a map laid over itself.
* `Options.layer_monoid` — the laws of layers.
-/
import BuildRelay.Options

namespace BuildRelay

namespace OrderedMap

variable {κ α : Type} [DecidableEq κ] (a b c : OrderedMap κ α)

/-! ## Keys -/

theorem keys_layer : (a.layer b).keys = a.keys ++ b.keys.filter fun k => !a.contains k :=
  keys_insertAll a b.nodup_keys

theorem contains_layer (k : κ) : (a.layer b).contains k = (a.contains k || b.contains k) := by
  rw [contains, get?_layer, Option.isSome_or, Bool.or_comm]
  rfl

/-- The keys of three layers, the lowest first. -/
theorem keys_layer_layer : ((a.layer b).layer c).keys =
    a.keys ++ (b.keys.filter fun k => !a.contains k) ++
      c.keys.filter fun k => !(a.contains k || b.contains k) := by
  simp only [keys_layer, contains_layer]

/-! ## Laws -/

theorem layer_assoc : (a.layer b).layer c = a.layer (b.layer c) := by
  apply ext_keys
  · rw [keys_layer_layer, keys_layer, keys_layer, List.filter_append, List.filter_filter,
      List.append_assoc]
    simp only [Bool.not_or]
  · intro k
    simp only [get?_layer, Option.or_assoc]

theorem empty_layer : layer ∅ a = a := by
  apply ext_keys
  · have hnew : (a.keys.filter fun k => !(∅ : OrderedMap κ α).contains k) = a.keys :=
      List.filter_eq_self.mpr fun _ _ => rfl
    rw [keys_layer, hnew]
    rfl
  · intro k
    rw [get?_layer, get?_empty, Option.or_none]

theorem layer_empty : a.layer ∅ = a := rfl

theorem layer_self : a.layer a = a := by
  apply ext_keys
  · have hnew : (a.keys.filter fun k => !a.contains k) = [] := by
      rw [List.filter_eq_nil_iff]
      intro k hk
      simp [mem_keys_iff.mp hk]
    rw [keys_layer, hnew, List.append_nil]
  · intro k
    rw [get?_layer, Option.or_self]

end OrderedMap

namespace Options

/-- Layers of options form a monoid in which the upper one prevails. A name has the value that the
upper bag gives it, whole and as it is written there, or else that of the lower one. Of three bags any
two neighbours may be layered first, and the result is the same, order included: the names of the
lowest, then those that the middle one adds, then those that the uppermost adds. An empty bag changes
nothing, above or below, and neither does a bag that is laid over itself. All that holds whatever the
values of the bags are. -/
theorem layer_monoid {Value : Type} (a b c : OrderedMap String Value) :
    (∀ name, (a.layer b).get? name = (b.get? name).or (a.get? name)) ∧
    (a.layer b).layer c = a.layer (b.layer c) ∧
    ((a.layer b).layer c).keys =
      a.keys ++ (b.keys.filter fun name => !a.contains name) ++
        (c.keys.filter fun name => !(a.contains name || b.contains name)) ∧
    OrderedMap.layer ∅ a = a ∧ a.layer ∅ = a ∧ a.layer a = a :=
  ⟨a.get?_layer b, a.layer_assoc b c, a.keys_layer_layer b c, a.empty_layer, a.layer_empty,
    a.layer_self⟩

/-- An object that is a value is replaced like any other value: its members are not layered. -/
example :
    let lower : Options := .ofList [("paths", .obj [("@a", .str "a")]), ("strict", .bool true)]
    let upper : Options := .ofList [("outDir", .str "/out"), ("paths", .obj [("@b", .str "b")])]
    (lower.layer upper).entries =
      [("paths", .obj [("@b", .str "b")]), ("strict", .bool true), ("outDir", .str "/out")] := by
  decide

end Options

end BuildRelay
