/-
BuildRelay.Data.Json — the values an option may hold.

Numbers are integers and objects keep the order of their members. A number with a fraction is left
out: nothing here computes with a number, and what holds of layered bags holds for values of any kind
(`Options.layer_monoid`). `=` is equality of the written values; `same` ignores the order of members,
at every depth.
-/

namespace BuildRelay

/-- A JSON value with integer numbers; objects list their members in order. -/
inductive Json where
  | null
  | bool (b : Bool)
  /-- The only numbers there are. -/
  | int (n : Int)
  | str (s : String)
  | arr (items : List Json)
  | obj (members : List (String × Json))
  deriving Inhabited

namespace Json

/-! ## Equality -/

mutual

/-- Whether two values are written alike, member order included. -/
def alike : Json → Json → Bool
  | .null, .null => true
  | .bool a, .bool b => a == b
  | .int a, .int b => a == b
  | .str a, .str b => a == b
  | .arr a, .arr b => alikeItems a b
  | .obj a, .obj b => alikeMembers a b
  | _, _ => false

/-- `alike` for lists of items. -/
def alikeItems : List Json → List Json → Bool
  | [], [] => true
  | a :: as, b :: bs => alike a b && alikeItems as bs
  | _, _ => false

/-- `alike` for lists of members. -/
def alikeMembers : List (String × Json) → List (String × Json) → Bool
  | [], [] => true
  | (k, a) :: as, (l, b) :: bs => k == l && alike a b && alikeMembers as bs
  | _, _ => false

end

mutual

theorem alike_iff : ∀ {a b : Json}, alike a b = true ↔ a = b
  | .null, b => by cases b <;> simp [alike]
  | .bool _, b => by cases b <;> simp [alike]
  | .int _, b => by cases b <;> simp [alike]
  | .str _, b => by cases b <;> simp [alike]
  | .arr _, b => by cases b <;> simp [alike, alikeItems_iff]
  | .obj _, b => by cases b <;> simp [alike, alikeMembers_iff]

theorem alikeItems_iff : ∀ {a b : List Json}, alikeItems a b = true ↔ a = b
  | [], b => by cases b <;> simp [alikeItems]
  | x :: xs, b => by cases b <;> simp [alikeItems, alike_iff, alikeItems_iff]

theorem alikeMembers_iff : ∀ {a b : List (String × Json)}, alikeMembers a b = true ↔ a = b
  | [], b => by cases b <;> simp [alikeMembers]
  | (_, _) :: xs, b => by
    cases b <;> simp [alikeMembers, alike_iff, alikeMembers_iff, Prod.ext_iff]

end

instance : DecidableEq Json := fun _ _ => decidable_of_iff _ alike_iff

mutual

/-- Equality of values, where the order of the members of an object does not count. -/
def same : Json → Json → Bool
  | .null, .null => true
  | .bool a, .bool b => a == b
  | .int a, .int b => a == b
  | .str a, .str b => a == b
  | .arr a, .arr b => sameItems a b
  | .obj a, .obj b => a.length == b.length && sameMembers a b
  | _, _ => false

/-- Equality of two lists of items, position by position. -/
def sameItems : List Json → List Json → Bool
  | [], [] => true
  | a :: as, b :: bs => same a b && sameItems as bs
  | _, _ => false

/-- Every listed member is found, with an equal value, among the members `b`. -/
def sameMembers : List (String × Json) → List (String × Json) → Bool
  | [], _ => true
  | (k, v) :: rest, b =>
    (match b.lookup k with
      | some w => same v w
      | none => false) && sameMembers rest b

end

/-! ## Reading -/

/-- The text of a string value. -/
def text? : Json → Option String
  | .str s => some s
  | _ => none

/-- The truth value of a boolean value. -/
def truth? : Json → Option Bool
  | .bool b => some b
  | _ => none

end Json

end BuildRelay
