import TinyScript.Typing.Context

/-! Walking a tree. A visitor says what to do at each node, given the node and a way to descend into
it; the walk itself keeps the scopes around the node active, and leaves them also when the visitor
breaks off. -/

namespace TinyScript

structure Journey (σ : Type) where
  context : Context
  data : σ

namespace Journey

variable {σ : Type}

def enter (j : Journey σ) (s : Scope) : Journey σ := { j with context := j.context.enter s }

def leave (j : Journey σ) : Journey σ := { j with context := j.context.leave }

end Journey

abbrev Walk (ε σ : Type) := ExceptT ε (StateM (Journey σ))

namespace Walk

variable {ε σ α : Type}

/-- Walks with a scope active, and leaves the scope whatever the outcome. -/
def inScope (s : Scope) (act : Walk ε σ α) : Walk ε σ α := ExceptT.mk do
  modify fun j => j.enter s
  let outcome ← act.run
  modify Journey.leave
  return outcome

def data : Walk ε σ σ := return (← get).data

def setData (d : σ) : Walk ε σ Unit := modify fun j => { j with data := d }

def complete (act : Walk Empty σ α) (j : Journey σ) : α × Journey σ :=
  match act.run.run j with
  | (.ok a, k) => (a, k)
  | (.error e, _) => nomatch e

end Walk

/-- What to do at each node. A hook gets the node and the descent into it; what it gives back
replaces the node. -/
structure Visitor (ε σ : Type) where
  program : Program → Walk ε σ Program → Walk ε σ Program := fun _ descend => descend
  function : Function → Walk ε σ Function → Walk ε σ Function := fun _ descend => descend
  /-- Comes between a function and its body, in the function's scope. -/
  parameters : Function → Walk ε σ Unit := fun _ => pure ()
  block : Block → Walk ε σ Block → Walk ε σ Block := fun _ descend => descend
  statement : Stmt → Walk ε σ Stmt → Walk ε σ Stmt := fun _ descend => descend
  expr : Expr → Walk ε σ Expr → Walk ε σ Expr := fun _ descend => descend

namespace Visitor

variable {ε σ : Type} (v : Visitor ε σ)

mutual

def visitExpr : Expr → Walk ε σ Expr
  | .binary tag operator left right => v.expr (.binary tag operator left right) do
    let left' ← visitExpr left
    let right' ← visitExpr right
    return .binary tag operator left' right'
  | .unary tag operator operand => v.expr (.unary tag operator operand) do
    let operand' ← visitExpr operand
    return .unary tag operator operand'
  | .literal tag value => v.expr (.literal tag value) (return .literal tag value)
  | .var tag name => v.expr (.var tag name) (return .var tag name)
  | .call tag name arguments => v.expr (.call tag name arguments) do
    let arguments' ← visitExprs arguments
    return .call tag name arguments'

def visitExprs : List Expr → Walk ε σ (List Expr)
  | [] => return []
  | e :: es => do
    let e' ← visitExpr e
    let es' ← visitExprs es
    return e' :: es'

end

mutual

/-- The value of an assignment comes before its target. -/
def visitStmt : Stmt → Walk ε σ Stmt
  | .assign depth target value => v.statement (.assign depth target value) do
    let value' ← v.visitExpr value
    let target' ← v.visitExpr target
    return .assign depth target' value'
  | .ifThen depth condition yes => v.statement (.ifThen depth condition yes) do
    let condition' ← v.visitExpr condition
    let yes' ← visitBlock yes
    return .ifThen depth condition' yes'
  | .ifElse depth condition yes no => v.statement (.ifElse depth condition yes no) do
    let condition' ← v.visitExpr condition
    let yes' ← visitBlock yes
    let no' ← visitBlock no
    return .ifElse depth condition' yes' no'
  | .loop depth guard body => v.statement (.loop depth guard body) do
    let guard' ← v.visitExpr guard
    let body' ← visitBlock body
    return .loop depth guard' body'
  | .ret depth value => v.statement (.ret depth value) do
    let value' ← v.visitExpr value
    return .ret depth value'
  | .brk depth => v.statement (.brk depth) (return .brk depth)
  | .cont depth => v.statement (.cont depth) (return .cont depth)
  | .test depth call expected => v.statement (.test depth call expected) do
    let call' ← v.visitExpr call
    let expected' ← v.visitExpr expected
    return .test depth call' expected'

def visitBlock : Block → Walk ε σ Block
  | .mk depth scope statements => v.block (.mk depth scope statements) (Walk.inScope scope do
    let statements' ← visitStmts statements
    return .mk depth scope statements')

def visitStmts : List Stmt → Walk ε σ (List Stmt)
  | [] => return []
  | s :: ss => do
    let s' ← visitStmt s
    let ss' ← visitStmts ss
    return s' :: ss'

end

def visitFunction (f : Function) : Walk ε σ Function := v.function f (Walk.inScope f.scope do
  v.parameters f
  let body ← v.visitBlock f.body
  return { f with body := body })

def visitFunctions : List Function → Walk ε σ (List Function)
  | [] => return []
  | f :: fs => do
    let f' ← v.visitFunction f
    let fs' ← visitFunctions fs
    return f' :: fs'

/-- Statements come before functions. -/
def visitProgram (p : Program) : Walk ε σ Program := v.program p (Walk.inScope p.scope do
  let statements ← v.visitStmts p.statements
  let functions ← v.visitFunctions p.functions
  return { p with statements := statements, functions := functions })

end Visitor

end TinyScript
