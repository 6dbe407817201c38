import TinyScript.Tree.Program

/-! What is known while a tree is walked: the functions that can be called, and the scopes that are
active, innermost first. -/

namespace TinyScript

structure Signature where
  name : String
  parameters : List DataType
  returnType : DataType
deriving DecidableEq, Repr

def Function.signature (f : Function) : Signature :=
  ⟨f.name, f.parameters.map Parameter.type, f.returnType⟩

structure Context where
  functions : List Signature
  active : List Scope := []
deriving DecidableEq, Repr

namespace Context

def ofProgram (p : Program) : Context := { functions := p.functions.map Function.signature }

/-- The function of a name; of several the last. -/
def function? (c : Context) (name : String) : Option Signature :=
  c.functions.reverse.find? fun s => s.name = name

def enter (c : Context) (s : Scope) : Context := { c with active := s :: c.active }

def leave (c : Context) : Context := { c with active := c.active.tail }

@[simp] theorem leave_enter (c : Context) (s : Scope) : (c.enter s).leave = c := rfl

def innermost? (c : Context) : Option Scope := c.active.head?

/-- The nearest known type of a name. A scope where the name is absent or of unknown type is passed
over; a poisoned scope ends the search. -/
def nearestType (scopes : Scopes) (name : String) : List Scope → DataType
  | [] => .unknown
  | s :: rest =>
    match scopes.lookup s name with
    | .ok (some symbol) => if symbol.type.isKnown then symbol.type else nearestType scopes name rest
    | .ok none => nearestType scopes name rest
    | .error _ => .unknown

def nearestBinding (scopes : Scopes) (name : String) :
    List Scope → Except Error (Option (Scope × Symbol))
  | [] => .ok none
  | s :: rest =>
    match scopes.lookup s name with
    | .ok (some symbol) => .ok (some (s, symbol))
    | .ok none => nearestBinding scopes name rest
    | .error e => .error e

def variableType (c : Context) (scopes : Scopes) (name : String) : DataType :=
  nearestType scopes name c.active

def binding (c : Context) (scopes : Scopes) (name : String) :
    Except Error (Option (Scope × Symbol)) :=
  nearestBinding scopes name c.active

def returnType (c : Context) (name : String) : DataType :=
  match c.function? name with
  | some s => s.returnType
  | none => .unknown

/-- The type of an expression as far as it can be told: its own if it is known, else that of the
left or only operand, of the function called, of the literal or of the variable. -/
def resolve (c : Context) (scopes : Scopes) (e : Expr) : DataType :=
  if e.type.isKnown then e.type
  else
    match e with
    | .binary _ _ left _ => c.resolve scopes left
    | .unary _ _ operand => c.resolve scopes operand
    | .literal _ value => value.type
    | .var _ name => c.variableType scopes name
    | .call _ name _ => c.returnType name

end Context

end TinyScript
