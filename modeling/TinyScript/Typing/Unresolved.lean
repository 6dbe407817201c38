import TinyScript.Tree.Program

/-! The expressions whose type is still unknown, wholes before parts and the target of an assignment
before its value. -/

namespace TinyScript

namespace Expr

def own (e : Expr) : List Expr := if e.type.isKnown then [] else [e]

mutual

def unresolved : Expr → List Expr
  | .binary tag operator left right =>
    own (.binary tag operator left right) ++ (unresolved left ++ unresolved right)
  | .unary tag operator operand => own (.unary tag operator operand) ++ unresolved operand
  | .literal tag value => own (.literal tag value)
  | .var tag name => own (.var tag name)
  | .call tag name arguments => own (.call tag name arguments) ++ unresolvedList arguments

def unresolvedList : List Expr → List Expr
  | [] => []
  | e :: es => unresolved e ++ unresolvedList es

end

end Expr

mutual

def Stmt.unresolved : Stmt → List Expr
  | .assign _ target value => target.unresolved ++ value.unresolved
  | .ifThen _ condition yes => condition.unresolved ++ yes.unresolved
  | .ifElse _ condition yes no => condition.unresolved ++ (yes.unresolved ++ no.unresolved)
  | .loop _ guard body => guard.unresolved ++ body.unresolved
  | .ret _ value => value.unresolved
  | .brk _ => []
  | .cont _ => []
  | .test _ call expected => call.unresolved ++ expected.unresolved

def Block.unresolved : Block → List Expr
  | .mk _ _ statements => Stmt.unresolvedList statements

def Stmt.unresolvedList : List Stmt → List Expr
  | [] => []
  | s :: ss => s.unresolved ++ Stmt.unresolvedList ss

end

def Program.unresolved (p : Program) : List Expr :=
  Stmt.unresolvedList p.statements ++ p.functions.flatMap fun f => f.body.unresolved

end TinyScript
