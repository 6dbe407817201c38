/-! Types of values: three primitives, collections of one element type, and a type that is not
known yet. -/

namespace TinyScript

inductive Family
  | list | set | map
deriving DecidableEq, Repr

namespace Family

def name : Family → String
  | list => "list"
  | set => "set"
  | map => "map"

def ofName? : String → Option Family
  | "list" => some list
  | "set" => some set
  | "map" => some map
  | _ => none

theorem ofName?_name (f : Family) : ofName? f.name = some f := by cases f <;> rfl

end Family

inductive DataType
  | bool | int | str | unknown
  | collection (family : Family) (element : DataType)
deriving DecidableEq, Repr

namespace DataType

instance : Inhabited DataType := ⟨unknown⟩

def render : DataType → String
  | bool => "bool"
  | int => "int"
  | str => "str"
  | unknown => "unknown"
  | collection family element => family.name ++ "<" ++ element.render ++ ">"

def isKnown (t : DataType) : Bool := t ≠ unknown

@[simp] theorem isKnown_iff (t : DataType) : t.isKnown = true ↔ t ≠ unknown := by
  simp only [isKnown, decide_eq_true_eq]

def ofName? : String → Option DataType
  | "bool" => some bool
  | "int" => some int
  | "str" => some str
  | _ => none

/-- The collection of a family and an element type; a `map` would need two of them. -/
def ofFamily? : Family → DataType → Option DataType
  | .list, element => some (collection .list element)
  | .set, element => some (collection .set element)
  | .map, _ => none

def remake? : DataType → Option DataType
  | collection family element => ofFamily? family element
  | _ => none

end DataType

end TinyScript
