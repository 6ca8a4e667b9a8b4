/-
  JSON values as a parser hands them to a program that reads them.

  The members of an object keep their order and may repeat a name; a lookup takes the first.
  Strings are over an arbitrary type `α`. Looking up a name or the elements of a value of
  another kind is not an error and gives nothing.
-/
namespace Portico.Lib

universe u

inductive Json (α : Type u) where
  | null
  | bool (b : Bool)
  | number (n : Int)
  | string (s : α)
  | array (items : List (Json α))
  | object (members : List (α × Json α))

namespace Json

variable {α : Type u}

/-- The value of the first member of that name. -/
def get? [BEq α] (key : α) : Json α → Option (Json α)
  | .object members => (members.find? (·.1 == key)).map Prod.snd
  | _ => none

/-- The elements of an array, or the values of an object. -/
def children : Json α → List (Json α)
  | .array items => items
  | .object members => members.map Prod.snd
  | _ => []

def string? : Json α → Option α
  | .string s => some s
  | _ => none

/-- A member that is a string. -/
def getString? [BEq α] (key : α) (j : Json α) : Option α := (j.get? key).bind string?

end Json

end Portico.Lib
