import TinyScript.Walk.Visitor

/-! The course of a walk: which nodes it comes to, in what order, and with which scopes active. -/

namespace TinyScript

inductive Place
  | program (program : Program)
  | function (function : Function)
  | parameters (function : Function)
  | block (block : Block)
  | statement (statement : Stmt)
  | expr (expr : Expr)
deriving Repr

structure Visit where
  place : Place
  active : List Scope
deriving Repr

inductive Reaction
  | descend | skip | abort
deriving DecidableEq, Repr

namespace Visitor

def note (react : Array Visit → Place → Reaction) (place : Place) :
    Walk Unit (Array Visit) Bool := do
  let visits ← Walk.data
  match react visits place with
  | .abort => throw ()
  | reaction =>
    Walk.setData (visits.push ⟨place, (← get).context.active⟩)
    return reaction = .descend

def enterIf {α : Type} (node : α) (descend : Walk Unit (Array Visit) α) (deeper : Bool) :
    Walk Unit (Array Visit) α := if deeper then descend else return node

/-- A visitor that keeps a note of every node it comes to and changes none. -/
def tracing (react : Array Visit → Place → Reaction) : Visitor Unit (Array Visit) where
  program p descend := do enterIf p descend (← note react (.program p))
  function f descend := do enterIf f descend (← note react (.function f))
  parameters f := do let _ ← note react (.parameters f)
  block b descend := do enterIf b descend (← note react (.block b))
  statement s descend := do enterIf s descend (← note react (.statement s))
  expr e descend := do enterIf e descend (← note react (.expr e))

end Visitor

namespace Place

def scope? : Place → Option Scope
  | program p => some p.scope
  | function f => some f.scope
  | block b => some b.scope
  | _ => none

end Place

namespace Program

def trace (p : Program) (react : Array Visit → Place → Reaction) :
    Except Unit Program × Journey (Array Visit) :=
  ((Visitor.tracing react).visitProgram p).run.run ⟨.ofProgram p, #[]⟩

def places (p : Program) : List Place :=
  ((p.trace fun _ _ => .descend).2.data.map Visit.place).toList

def scopes (p : Program) : List Scope := p.places.filterMap Place.scope?

end Program

end TinyScript
