/-
JSON values.

The reader goes over the tokens once. What is still open is kept on a stack, so that values may be
nested to any depth.
-/
import RenderFold.Json.Token

namespace RenderFold

/-- A JSON value. Members keep their order and may repeat a name. -/
inductive Json where
  | null
  | bool (value : Bool)
  | number (natural : Option Nat)
  | text (content : Option String)
  | array (items : List Json)
  | object (members : List (Option String × Json))
deriving Repr

namespace Json

/-- An array or object that is not closed yet, its contents listed with the last one first. -/
inductive Enclosing where
  | array (items : List Json)
  | object (members : List (Option String × Json)) (name : Option String)
deriving Repr

/-- What may come next. -/
inductive Expect where
  /-- A value. -/
  | value
  /-- A value, or the end of the array that was just opened. -/
  | firstItem
  /-- A name of a member of an object with the given members, or its end. -/
  | firstName
  /-- A name of a further member. -/
  | name (members : List (Option String × Json))
  /-- A colon after a name. -/
  | colon (members : List (Option String × Json)) (name : Option String)
  /-- A comma or the end of what encloses this value. -/
  | afterValue (value : Json)
deriving Repr

/-- What is open, from the inside out, and what may come next. -/
structure Nest where
  enclosing : List Enclosing
  expect : Expect
deriving Repr

namespace Nest

def start : Nest := ⟨[], .value⟩

def beginValue (enclosing : List Enclosing) : Token → Option Nest
  | .null => some ⟨enclosing, .afterValue .null⟩
  | .bool b => some ⟨enclosing, .afterValue (.bool b)⟩
  | .number n => some ⟨enclosing, .afterValue (.number n)⟩
  | .text s => some ⟨enclosing, .afterValue (.text s)⟩
  | .openArray => some ⟨.array [] :: enclosing, .firstItem⟩
  | .openObject => some ⟨enclosing, .firstName⟩
  | .closeArray | .closeObject | .colon | .comma => none

/-- Go on after a value. -/
def continueValue (value : Json) : List Enclosing → Token → Option Nest
  | .array items :: rest, .comma => some ⟨.array (value :: items) :: rest, .value⟩
  | .array items :: rest, .closeArray =>
      some ⟨rest, .afterValue (.array (value :: items).reverse)⟩
  | .object members name :: rest, .comma => some ⟨rest, .name ((name, value) :: members)⟩
  | .object members name :: rest, .closeObject =>
      some ⟨rest, .afterValue (.object ((name, value) :: members).reverse)⟩
  | _, _ => none

def step (n : Nest) (t : Token) : Option Nest :=
  match n.expect, t with
  | .value, t => beginValue n.enclosing t
  | .firstItem, .closeArray => some ⟨n.enclosing.tail, .afterValue (.array [])⟩
  | .firstItem, t => beginValue n.enclosing t
  | .firstName, .closeObject => some ⟨n.enclosing, .afterValue (.object [])⟩
  | .firstName, .text s => some ⟨n.enclosing, .colon [] s⟩
  | .name members, .text s => some ⟨n.enclosing, .colon members s⟩
  | .colon members s, .colon => some ⟨.object members s :: n.enclosing, .value⟩
  | .afterValue value, t => continueValue value n.enclosing t
  | _, _ => none

/-- The value that was read, once nothing is open. -/
def value? (n : Nest) : Option Json :=
  match n.enclosing, n.expect with
  | [], .afterValue value => some value
  | _, _ => none

end Nest

def ofTokens? (tokens : List Token) : Option Json := do
  (← tokens.foldlM Nest.step Nest.start).value?

/-- The value that a text writes. -/
def parse? (text : String) : Option Json := do
  ofTokens? (← tokens? text.toList)

/-! ### Reading values of known form -/

def asBool? : Json → Option Bool
  | .bool b => some b
  | _ => none

def asNatBelow? (bound : Nat) : Json → Option Nat
  | .number (some n) => if n < bound then some n else none
  | _ => none

/-- The names of members; nothing if one of them has no characters. -/
def namedMembers? (members : List (Option String × Json)) : Option (List (String × Json)) :=
  members.mapM fun m => m.1.map fun name => (name, m.2)

/-- The value of a field in a list of members; a repeated field is refused. -/
def field? (members : List (String × Json)) (name : String) : Option (Option Json) :=
  match members.filter fun m => m.1 = name with
  | [] => some none
  | [m] => some (some m.2)
  | _ => none

/-- The values of the given fields, absent ones marked. They are members of an object, which may
have others, or the first items of an array in the order of the fields, which may not. -/
def fields? (names : List String) : Json → Option (List (Option Json))
  | .object members => do
      let members ← namedMembers? members
      names.mapM (field? members)
  | .array items =>
      if items.length ≤ names.length then
        some (items.map some ++ List.replicate (names.length - items.length) none)
      else none
  | _ => none

/-- A name out of a list of alternatives, written as a text or as the only member of an object with
the value null. -/
def asName? : Json → Option String
  | .text (some name) => some name
  | .object [(some name, .null)] => some name
  | _ => none

end Json

end RenderFold
