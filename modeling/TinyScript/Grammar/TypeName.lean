import TinyScript.Grammar.Reader
import TinyScript.Grammar.Tables

/-! Reading the name of a type: a primitive, or a family of collections and its element type in
angle brackets. -/

namespace TinyScript.Reader

def namedTypeOf (element : ReadM DataType) : ReadM DataType := do
  let name ← expect .identifier
  match DataType.ofName? name.value with
  | some t => return t
  | none =>
    match Family.ofName? name.value with
    | none => throw ⟨.unknownType name.value, name.span.start⟩
    | some family =>
      let _ ← expect .less
      let t ← element
      let _ ← expect .greater
      match DataType.ofFamily? family t with
      | some t => return t
      | none => throw ⟨.unsupportedCollection name.value, name.span.start⟩

def typeWithin (g : Grammar) : Nat → ReadM DataType
  | 0 => do throw ⟨.circularGrammar, (← get).position⟩
  | n + 1 => do
    if g.opensType (← peek) then namedTypeOf (typeWithin g n) else fail

/-- Reads a type. Each level of nesting takes a token, so the tokens left bound the levels. -/
def readType (g : Grammar) : ReadM DataType := do
  typeWithin g ((← get).upcoming.length + 1)

def readNamedType (g : Grammar) : ReadM DataType := namedTypeOf (readType g)

end TinyScript.Reader
