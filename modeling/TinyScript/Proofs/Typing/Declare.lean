import TinyScript.Proofs.Outcome
import TinyScript.Typing.Declare

/-! Filling the scopes, without the walk: the statements of a program stay as they are, and what
each of them does to the scopes is a function of the context it stands in. -/

namespace TinyScript

theorem Walk.outcome_inScope {ε σ α : Type} (s : Scope) (act : Walk ε σ α) (j : Journey σ) :
    outcome (inScope s act) j =
      ((outcome act (j.enter s)).1, (outcome act (j.enter s)).2.leave) := rfl

namespace Visitor

mutual

theorem outcome_visitExpr {ε σ : Type} {v : Visitor ε σ}
    (hv : ∀ e descend, v.expr e descend = descend) (e : Expr) (j : Journey σ) :
    outcome (v.visitExpr e) j = (.ok e, j) := by
  cases e with
  | binary tag operator left right =>
    rw [visitExpr, hv, outcome_bind_ok (outcome_visitExpr hv left j),
      outcome_bind_ok (outcome_visitExpr hv right j), outcome_pure]
  | unary tag operator operand =>
    rw [visitExpr, hv, outcome_bind_ok (outcome_visitExpr hv operand j), outcome_pure]
  | literal tag value => rw [visitExpr, hv, outcome_pure]
  | var tag name => rw [visitExpr, hv, outcome_pure]
  | call tag name arguments =>
    rw [visitExpr, hv, outcome_bind_ok (outcome_visitExprs hv arguments j), outcome_pure]

theorem outcome_visitExprs {ε σ : Type} {v : Visitor ε σ}
    (hv : ∀ e descend, v.expr e descend = descend) (es : List Expr) (j : Journey σ) :
    outcome (v.visitExprs es) j = (.ok es, j) := by
  cases es with
  | nil => rw [visitExprs, outcome_pure]
  | cons e es =>
    rw [visitExprs, outcome_bind_ok (outcome_visitExpr hv e j),
      outcome_bind_ok (outcome_visitExprs hv es j), outcome_pure]

end

end Visitor

def Stmt.assigned (c : Context) (d : Declared) : Stmt → Declared
  | .assign _ (.var _ name) value => d.assign c name (c.resolve d.scopes value)
  | _ => d

mutual

def Stmt.declare (c : Context) : Stmt → Declared → Declared
  | .ifThen _ _ yes, d => yes.declare c d
  | .ifElse _ _ yes no, d => no.declare c (yes.declare c d)
  | .loop _ _ body, d => body.declare c d
  | .assign depth target value, d => Stmt.assigned c d (.assign depth target value)
  | .ret _ _, d | .brk _, d | .cont _, d | .test _ _ _, d => d

def Block.declare (c : Context) : Block → Declared → Declared
  | .mk _ scope statements, d => Stmt.declareAll (c.enter scope) statements d

def Stmt.declareAll (c : Context) : List Stmt → Declared → Declared
  | [], d => d
  | s :: ss, d => Stmt.declareAll c ss (s.declare c d)

end

namespace Function

def within (c : Context) (f : Function) (d : Declared) : Declared :=
  f.body.declare (c.enter f.scope) (d.declareParameters f.scope f.parameters)

def settled (c : Context) (f : Function) (d : Declared) : Function :=
  { f with parameters := ((f.within c d).settleAll f.scope f.parameters).1 }

def declare (c : Context) (f : Function) (d : Declared) : Declared :=
  ((f.within c d).settleAll f.scope f.parameters).2

def settledAll (c : Context) : List Function → Declared → List Function
  | [], _ => []
  | f :: fs, d => f.settled c d :: settledAll c fs (f.declare c d)

def declareAll (c : Context) : List Function → Declared → Declared
  | [], d => d
  | f :: fs, d => declareAll c fs (f.declare c d)

end Function

namespace Program

def declare (c : Context) (p : Program) (d : Declared) : Declared :=
  Function.declareAll (c.enter p.scope) p.functions
    (Stmt.declareAll (c.enter p.scope) p.statements d)

def settled (c : Context) (p : Program) (d : Declared) : Program :=
  { p with functions := Function.settledAll (c.enter p.scope) p.functions
             (Stmt.declareAll (c.enter p.scope) p.statements d) }

end Program

namespace Visitor

theorem outcome_statement {descend : Walk Empty Declared Stmt} {j k : Journey Declared} {s : Stmt}
    (h : outcome descend j = (.ok s, k)) (s' : Stmt) :
    outcome (declaring.statement s' descend) j =
      (.ok s, { k with data := s.assigned k.context k.data }) := by
  rw [declaring, outcome_bind_ok h]
  cases s with
  | assign depth target value => cases target <;> rfl
  | _ => rfl

theorem declaring_expr (e : Expr) (descend : Walk Empty Declared Expr) :
    declaring.expr e descend = descend := rfl

mutual

theorem outcome_visitStmt (s : Stmt) (j : Journey Declared) :
    outcome (declaring.visitStmt s) j = (.ok s, { j with data := s.declare j.context j.data }) := by
  have he := outcome_visitExpr declaring_expr
  cases s with
  | assign depth target value =>
    rw [visitStmt, outcome_statement (s := .assign depth target value) (k := j)]
    · rfl
    · rw [outcome_bind_ok (he value j), outcome_bind_ok (he target j), outcome_pure]
  | ifThen depth condition yes =>
    rw [visitStmt, outcome_statement]
    rotate_left
    · rw [outcome_bind_ok (he condition j), outcome_bind_ok (outcome_visitBlock yes j),
        outcome_pure]
    · rfl
  | ifElse depth condition yes no =>
    rw [visitStmt, outcome_statement]
    rotate_left
    · rw [outcome_bind_ok (he condition j), outcome_bind_ok (outcome_visitBlock yes j),
        outcome_bind_ok (outcome_visitBlock no _), outcome_pure]
    · rfl
  | loop depth guard body =>
    rw [visitStmt, outcome_statement]
    rotate_left
    · rw [outcome_bind_ok (he guard j), outcome_bind_ok (outcome_visitBlock body j), outcome_pure]
    · rfl
  | ret depth value =>
    rw [visitStmt, outcome_statement]
    rotate_left
    · rw [outcome_bind_ok (he value j), outcome_pure]
    · rfl
  | brk depth => rfl
  | cont depth => rfl
  | test depth call expected =>
    rw [visitStmt, outcome_statement]
    rotate_left
    · rw [outcome_bind_ok (he call j), outcome_bind_ok (he expected j), outcome_pure]
    · rfl

theorem outcome_visitBlock (b : Block) (j : Journey Declared) :
    outcome (declaring.visitBlock b) j =
      (.ok b, { j with data := b.declare j.context j.data }) := by
  cases b with
  | mk depth scope statements =>
    rw [visitBlock]
    change outcome (Walk.inScope scope _) j = _
    rw [Walk.outcome_inScope, outcome_bind_ok (outcome_visitStmts statements (j.enter scope)),
      outcome_pure]
    rfl

theorem outcome_visitStmts (ss : List Stmt) (j : Journey Declared) :
    outcome (declaring.visitStmts ss) j =
      (.ok ss, { j with data := Stmt.declareAll j.context ss j.data }) := by
  cases ss with
  | nil => rfl
  | cons s ss =>
    rw [visitStmts, outcome_bind_ok (outcome_visitStmt s j),
      outcome_bind_ok (outcome_visitStmts ss _), outcome_pure]
    rfl

end

theorem outcome_function {descend : Walk Empty Declared Function} {j k : Journey Declared}
    {f : Function} (h : outcome descend j = (.ok f, k)) (f' : Function) :
    outcome (declaring.function f' descend) j =
      (.ok { f with parameters := (k.data.settleAll f.scope f.parameters).1 },
        { k with data := (k.data.settleAll f.scope f.parameters).2 }) := by
  rw [declaring, outcome_bind_ok h]
  rfl

theorem outcome_visitFunction (f : Function) (j : Journey Declared) :
    outcome (declaring.visitFunction f) j =
      (.ok (f.settled j.context j.data), { j with data := f.declare j.context j.data }) := by
  let j' : Journey Declared :=
    ⟨j.context.enter f.scope, j.data.declareParameters f.scope f.parameters⟩
  have hparameters : outcome (declaring.parameters f) (j.enter f.scope) = (.ok (), j') := rfl
  have hdescend : outcome (Walk.inScope f.scope do
      declaring.parameters f
      let body ← declaring.visitBlock f.body
      return { f with body := body }) j =
      (.ok f, { j with data := f.within j.context j.data }) := by
    rw [Walk.outcome_inScope, outcome_bind_ok hparameters,
      outcome_bind_ok (outcome_visitBlock f.body j'), outcome_pure]
    rfl
  rw [visitFunction, outcome_function hdescend]
  rfl

theorem outcome_visitFunctions (fs : List Function) (j : Journey Declared) :
    outcome (declaring.visitFunctions fs) j = (.ok (Function.settledAll j.context fs j.data),
      { j with data := Function.declareAll j.context fs j.data }) := by
  induction fs generalizing j with
  | nil => rfl
  | cons f fs ih =>
    rw [visitFunctions, outcome_bind_ok (outcome_visitFunction f j), outcome_bind_ok (ih _),
      outcome_pure]
    rfl

theorem outcome_visitProgram (p : Program) (j : Journey Declared) :
    outcome (declaring.visitProgram p) j =
      (.ok (p.settled j.context j.data), { j with data := p.declare j.context j.data }) := by
  change outcome (Walk.inScope p.scope _) _ = _
  rw [Walk.outcome_inScope, outcome_bind_ok (outcome_visitStmts p.statements (j.enter p.scope)),
    outcome_bind_ok (outcome_visitFunctions p.functions _), outcome_pure]
  rfl

end Visitor

theorem Walk.complete_eq {σ α : Type} {act : Walk Empty σ α} {j k : Journey σ} {x : α}
    (h : outcome act j = (.ok x, k)) : act.complete j = (x, k) := by
  have h' : act.run.run j = (.ok x, k) := h
  rw [Walk.complete, h']

theorem Analysis.fillScopes_eq (a : Analysis) :
    let c := Context.ofProgram a.program
    a.fillScopes = ((a.program.declare c ⟨a.scopes, []⟩).errors.head?,
      ⟨a.program.settled c ⟨a.scopes, []⟩, (a.program.declare c ⟨a.scopes, []⟩).scopes⟩) := by
  intro c
  have h := Walk.complete_eq (Visitor.outcome_visitProgram a.program ⟨c, a.scopes, []⟩)
  rw [fillScopes, h]

end TinyScript
