import TinyScript.Walk.Visitor

/-! Filling the scopes of a program. Parameters go to their function's scope. An assignment to a
name that an active scope has gives that symbol a type if it had none; to any other name it declares
the name in the innermost scope. What fails is noted, and the walk goes on. -/

namespace TinyScript

structure Analysis where
  program : Program
  scopes : Scopes := {}
deriving Repr

structure Declared where
  scopes : Scopes
  errors : List Error := []
deriving Repr

namespace Declared

def report (d : Declared) (e : Error) : Declared := { d with errors := d.errors ++ [e] }

def update (d : Declared) : Except Error Scopes → Declared
  | .ok scopes => { d with scopes := scopes }
  | .error e => d.report e

/-- What an assignment of a value of type `type` to `name` does. -/
def assign (d : Declared) (c : Context) (name : String) (type : DataType) : Declared :=
  match c.binding d.scopes name with
  | .error e => d.report e
  | .ok (some (scope, symbol)) =>
    if !symbol.type.isKnown && type.isKnown then
      d.update ((d.scopes.setType scope name type).map Prod.fst)
    else d
  | .ok none =>
    match c.innermost? with
    | some scope => d.update (d.scopes.declare scope name type)
    | none => d

def declareParameters (d : Declared) (scope : Scope) : List Parameter → Declared
  | [] => d
  | p :: ps => (d.update (d.scopes.declare scope p.name p.type)).declareParameters scope ps

/-- A parameter without a type takes the one that its scope has found for it. -/
def settle (d : Declared) (scope : Scope) (p : Parameter) : Parameter × Declared :=
  if p.type.isKnown then (p, d)
  else
    match d.scopes.lookup scope p.name with
    | .ok (some symbol) => ({ p with type := symbol.type }, d)
    | .ok none => (p, d)
    | .error e => (p, d.report e)

def settleAll (d : Declared) (scope : Scope) : List Parameter → List Parameter × Declared
  | [] => ([], d)
  | p :: ps =>
    let (p', d₁) := d.settle scope p
    let (ps', d₂) := d₁.settleAll scope ps
    (p' :: ps', d₂)

end Declared

namespace Visitor

def declaring : Visitor Empty Declared where
  function _ descend := do
    let f ← descend
    let (parameters, d) := (← Walk.data).settleAll f.scope f.parameters
    Walk.setData d
    return { f with parameters := parameters }
  parameters f := do Walk.setData ((← Walk.data).declareParameters f.scope f.parameters)
  statement _ descend := do
    match ← descend with
    | .assign depth (.var tag name) value =>
      let j ← get
      Walk.setData (j.data.assign j.context name (j.context.resolve j.data.scopes value))
      return .assign depth (.var tag name) value
    | s => return s

end Visitor

namespace Analysis

def fillScopes (a : Analysis) : Option Error × Analysis :=
  match (Visitor.declaring.visitProgram a.program).complete
      ⟨.ofProgram a.program, ⟨a.scopes, []⟩⟩ with
  | (p, j) => (j.data.errors.head?, ⟨p, j.data.scopes⟩)

end Analysis

end TinyScript
