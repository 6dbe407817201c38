import TinyScript.Proofs.Typing.Declare
import TinyScript.Walk.Trace

/-! Where a walk comes to each node. The sites of a tree are its nodes in the order of a walk, each
with the scopes around it. A visitor that leaves the active scopes to the walk comes to nothing but
sites, with just those scopes active, and ends or breaks off with the scopes it started with. -/

namespace TinyScript

mutual

def Expr.sites (around : List Scope) : Expr → List Visit
  | .binary tag operator left right =>
    ⟨.expr (.binary tag operator left right), around⟩ ::
      (left.sites around ++ right.sites around)
  | .unary tag operator operand =>
    ⟨.expr (.unary tag operator operand), around⟩ :: operand.sites around
  | .literal tag value => [⟨.expr (.literal tag value), around⟩]
  | .var tag name => [⟨.expr (.var tag name), around⟩]
  | .call tag name arguments =>
    ⟨.expr (.call tag name arguments), around⟩ :: Expr.sitesAll around arguments

def Expr.sitesAll (around : List Scope) : List Expr → List Visit
  | [] => []
  | e :: es => e.sites around ++ Expr.sitesAll around es

end

mutual

def Stmt.sites (around : List Scope) : Stmt → List Visit
  | .assign depth target value =>
    ⟨.statement (.assign depth target value), around⟩ ::
      (value.sites around ++ target.sites around)
  | .ifThen depth condition yes =>
    ⟨.statement (.ifThen depth condition yes), around⟩ ::
      (condition.sites around ++ yes.sites around)
  | .ifElse depth condition yes no =>
    ⟨.statement (.ifElse depth condition yes no), around⟩ ::
      (condition.sites around ++ (yes.sites around ++ no.sites around))
  | .loop depth guard body =>
    ⟨.statement (.loop depth guard body), around⟩ :: (guard.sites around ++ body.sites around)
  | .ret depth value => ⟨.statement (.ret depth value), around⟩ :: value.sites around
  | .brk depth => [⟨.statement (.brk depth), around⟩]
  | .cont depth => [⟨.statement (.cont depth), around⟩]
  | .test depth call expected =>
    ⟨.statement (.test depth call expected), around⟩ ::
      (call.sites around ++ expected.sites around)

/-- The scope of a block is around its statements and not around the block. -/
def Block.sites (around : List Scope) : Block → List Visit
  | .mk depth scope statements =>
    ⟨.block (.mk depth scope statements), around⟩ :: Stmt.sitesAll (scope :: around) statements

def Stmt.sitesAll (around : List Scope) : List Stmt → List Visit
  | [] => []
  | s :: ss => s.sites around ++ Stmt.sitesAll around ss

end

/-- The scope of a function is around its parameters and its body. -/
def Function.sites (around : List Scope) (f : Function) : List Visit :=
  ⟨.function f, around⟩ :: ⟨.parameters f, f.scope :: around⟩ :: f.body.sites (f.scope :: around)

def Function.sitesAll (around : List Scope) : List Function → List Visit
  | [] => []
  | f :: fs => f.sites around ++ Function.sitesAll around fs

def Program.sites (around : List Scope) (p : Program) : List Visit :=
  ⟨.program p, around⟩ ::
    (Stmt.sitesAll (p.scope :: around) p.statements ++
      Function.sitesAll (p.scope :: around) p.functions)

def Visit.IsExpr (around : List Scope) (v : Visit) : Prop := ∃ e, v = ⟨.expr e, around⟩

mutual

theorem Expr.isExpr_sites (around : List Scope) (e : Expr) :
    ∀ v ∈ e.sites around, v.IsExpr around := by
  cases e with
  | binary tag operator left right =>
    exact List.forall_mem_cons.2 ⟨⟨_, rfl⟩, List.forall_mem_append.2
      ⟨left.isExpr_sites around, right.isExpr_sites around⟩⟩
  | unary tag operator operand =>
    exact List.forall_mem_cons.2 ⟨⟨_, rfl⟩, operand.isExpr_sites around⟩
  | literal tag value => exact List.forall_mem_singleton.2 ⟨_, rfl⟩
  | var tag name => exact List.forall_mem_singleton.2 ⟨_, rfl⟩
  | call tag name arguments =>
    exact List.forall_mem_cons.2 ⟨⟨_, rfl⟩, Expr.isExpr_sitesAll around arguments⟩

theorem Expr.isExpr_sitesAll (around : List Scope) (es : List Expr) :
    ∀ v ∈ Expr.sitesAll around es, v.IsExpr around := by
  cases es with
  | nil => exact List.forall_mem_nil _
  | cons e es =>
    exact List.forall_mem_append.2 ⟨e.isExpr_sites around, Expr.isExpr_sitesAll around es⟩

end

variable {ε σ α β : Type} {seen : σ → List Visit}

namespace Walk

/-- What a hook does at a node: it notes the visit in what is `seen` of its data, or does not; then
it skips the node, breaks off, or descends once. After a descent it can still change its data and
the node, and break off. -/
def Orderly (seen : σ → List Visit) (place : Place) (hook : Walk ε σ α → Walk ε σ α) : Prop :=
  ∀ descend j, ∃ d,
    (seen d = seen j.data ∨ seen d = seen j.data ++ [⟨place, j.context.active⟩]) ∧
    ∃ result,
      outcome (hook descend) j = (result, { j with data := d }) ∨
      ∃ d', seen d' = seen (outcome descend { j with data := d }).2.data ∧
        outcome (hook descend) j =
          (result, { (outcome descend { j with data := d }).2 with data := d' })

/-- Started with the scopes `around` active, a walk leaves the context as it was, also if it breaks
off, and what it notes on the way are some of the `sites`, in their order. -/
def Keeps (seen : σ → List Visit) (around : List Scope) (sites : List Visit)
    (act : Walk ε σ α) : Prop :=
  ∀ j, j.context.active = around → (outcome act j).2.context = j.context ∧
    ∃ visits, visits.Sublist sites ∧ seen (outcome act j).2.data = seen j.data ++ visits

namespace Keeps

variable {around : List Scope} {sites sites' : List Visit} {act : Walk ε σ α}

theorem pure (a : α) : Keeps seen around [] (Pure.pure a : Walk ε σ α) :=
  fun _ _ => ⟨rfl, [], List.Sublist.refl [], (List.append_nil _).symm⟩

theorem bind {next : α → Walk ε σ β} (h : Keeps seen around sites act)
    (hnext : ∀ a, Keeps seen around sites' (next a)) :
    Keeps seen around (sites ++ sites') (act >>= next) := by
  intro j hj
  obtain ⟨hcontext, visits, hv, hn⟩ := h j hj
  rcases hact : outcome act j with ⟨result, k⟩
  rw [hact] at hcontext hn
  cases result with
  | error e =>
    have hall : visits.Sublist (sites ++ sites') := hv.trans (List.sublist_append_left _ _)
    rw [outcome_bind_error hact]
    exact ⟨hcontext, visits, hall, hn⟩
  | ok a =>
    have hk : k.context.active = around := (congrArg Context.active hcontext).trans hj
    obtain ⟨hcontext', visits', hv', hn'⟩ := hnext a k hk
    have hnotes : seen (outcome (next a) k).2.data = seen j.data ++ (visits ++ visits') := by
      rw [hn', hn, List.append_assoc]
    rw [outcome_bind_ok hact]
    exact ⟨hcontext'.trans hcontext, visits ++ visits', hv.append hv', hnotes⟩

theorem map (f : α → β) (h : Keeps seen around sites act) :
    Keeps seen around sites (act >>= fun a => Pure.pure (f a)) := by
  have hend : ∀ a, Keeps seen around [] (Pure.pure (f a) : Walk ε σ β) := fun a => pure (f a)
  have hbind := h.bind hend
  rwa [List.append_nil] at hbind

theorem inScope {s : Scope} (h : Keeps seen (s :: around) sites act) :
    Keeps seen around sites (Walk.inScope s act) := by
  intro j hj
  have henter : (j.enter s).context.active = s :: around := congrArg (s :: ·) hj
  obtain ⟨hcontext, hnoted⟩ := h (j.enter s) henter
  have hleave : (outcome act (j.enter s)).2.context.leave = (j.context.enter s).leave :=
    congrArg Context.leave hcontext
  exact ⟨hleave, hnoted⟩

end Keeps

theorem Orderly.keeps {place : Place} {hook : Walk ε σ α → Walk ε σ α} {descend : Walk ε σ α}
    {around : List Scope} {sites : List Visit} (h : Orderly seen place hook)
    (hdescend : Keeps seen around sites descend) :
    Keeps seen around (⟨place, around⟩ :: sites) (hook descend) := by
  rintro j rfl
  obtain ⟨d, hd, result, hskip | ⟨d', hd', hdescended⟩⟩ := h descend j
  · rw [hskip]
    refine ⟨rfl, ?_⟩
    rcases hd with hd | hd
    · exact ⟨[], List.nil_sublist _, by rw [hd, List.append_nil]⟩
    · exact ⟨[⟨place, j.context.active⟩], (List.nil_sublist _).cons_cons _, hd⟩
  · obtain ⟨hcontext, visits, hv, hn⟩ := hdescend { j with data := d } rfl
    rw [hdescended, hd', hn]
    refine ⟨hcontext, ?_⟩
    rcases hd with hd | hd
    · exact ⟨visits, hv.cons _, by rw [hd]⟩
    · exact ⟨⟨place, j.context.active⟩ :: visits, hv.cons_cons _,
        by rw [hd, List.append_assoc]; rfl⟩

end Walk

open Walk (Keeps)

/-- A visitor that leaves the active scopes to the walk. -/
structure Visitor.Orderly (v : Visitor ε σ) (seen : σ → List Visit) : Prop where
  program : ∀ p, Walk.Orderly seen (.program p) (v.program p)
  function : ∀ f, Walk.Orderly seen (.function f) (v.function f)
  parameters : ∀ f, Walk.Orderly seen (.parameters f) fun _ => v.parameters f
  block : ∀ b, Walk.Orderly seen (.block b) (v.block b)
  statement : ∀ s, Walk.Orderly seen (.statement s) (v.statement s)
  expr : ∀ e, Walk.Orderly seen (.expr e) (v.expr e)

namespace Visitor

variable {v : Visitor ε σ}

mutual

theorem keeps_visitExpr (hv : v.Orderly seen) (around : List Scope) (e : Expr) :
    Keeps seen around (e.sites around) (v.visitExpr e) := by
  cases e with
  | binary tag operator left right =>
    rw [visitExpr]
    exact (hv.expr _).keeps ((keeps_visitExpr hv around left).bind fun _ =>
      (keeps_visitExpr hv around right).map _)
  | unary tag operator operand =>
    rw [visitExpr]
    exact (hv.expr _).keeps ((keeps_visitExpr hv around operand).map _)
  | literal tag value =>
    rw [visitExpr]
    exact (hv.expr _).keeps (Keeps.pure _)
  | var tag name =>
    rw [visitExpr]
    exact (hv.expr _).keeps (Keeps.pure _)
  | call tag name arguments =>
    rw [visitExpr]
    exact (hv.expr _).keeps ((keeps_visitExprs hv around arguments).map _)

theorem keeps_visitExprs (hv : v.Orderly seen) (around : List Scope) (es : List Expr) :
    Keeps seen around (Expr.sitesAll around es) (v.visitExprs es) := by
  cases es with
  | nil => exact Keeps.pure _
  | cons e es =>
    rw [visitExprs]
    exact (keeps_visitExpr hv around e).bind fun _ => (keeps_visitExprs hv around es).map _

end

mutual

theorem keeps_visitStmt (hv : v.Orderly seen) (around : List Scope) (s : Stmt) :
    Keeps seen around (s.sites around) (v.visitStmt s) := by
  have he := keeps_visitExpr hv around
  cases s with
  | assign depth target value =>
    rw [visitStmt]
    exact (hv.statement _).keeps ((he value).bind fun _ => (he target).map _)
  | ifThen depth condition yes =>
    rw [visitStmt]
    exact (hv.statement _).keeps ((he condition).bind fun _ =>
      (keeps_visitBlock hv around yes).map _)
  | ifElse depth condition yes no =>
    rw [visitStmt]
    exact (hv.statement _).keeps ((he condition).bind fun _ =>
      (keeps_visitBlock hv around yes).bind fun _ => (keeps_visitBlock hv around no).map _)
  | loop depth guard body =>
    rw [visitStmt]
    exact (hv.statement _).keeps ((he guard).bind fun _ => (keeps_visitBlock hv around body).map _)
  | ret depth value =>
    rw [visitStmt]
    exact (hv.statement _).keeps ((he value).map _)
  | brk depth =>
    rw [visitStmt]
    exact (hv.statement _).keeps (Keeps.pure _)
  | cont depth =>
    rw [visitStmt]
    exact (hv.statement _).keeps (Keeps.pure _)
  | test depth call expected =>
    rw [visitStmt]
    exact (hv.statement _).keeps ((he call).bind fun _ => (he expected).map _)

theorem keeps_visitBlock (hv : v.Orderly seen) (around : List Scope) (b : Block) :
    Keeps seen around (b.sites around) (v.visitBlock b) := by
  cases b with
  | mk depth scope statements =>
    rw [visitBlock]
    exact (hv.block _).keeps ((keeps_visitStmts hv (scope :: around) statements).map _).inScope

theorem keeps_visitStmts (hv : v.Orderly seen) (around : List Scope) (ss : List Stmt) :
    Keeps seen around (Stmt.sitesAll around ss) (v.visitStmts ss) := by
  cases ss with
  | nil => exact Keeps.pure _
  | cons s ss =>
    rw [visitStmts]
    exact (keeps_visitStmt hv around s).bind fun _ => (keeps_visitStmts hv around ss).map _

end

theorem keeps_visitFunction (hv : v.Orderly seen) (around : List Scope) (f : Function) :
    Keeps seen around (f.sites around) (v.visitFunction f) := by
  have hnothing : Keeps seen (f.scope :: around) [] (pure () : Walk ε σ Unit) := Keeps.pure ()
  have hparameters := (hv.parameters f).keeps hnothing
  have hbody := (keeps_visitBlock hv (f.scope :: around) f.body).map
    fun body => { f with body := body }
  exact (hv.function f).keeps (hparameters.bind fun _ => hbody).inScope

theorem keeps_visitFunctions (hv : v.Orderly seen) (around : List Scope) (fs : List Function) :
    Keeps seen around (Function.sitesAll around fs) (v.visitFunctions fs) := by
  induction fs with
  | nil => exact Keeps.pure _
  | cons f fs ih => exact (keeps_visitFunction hv around f).bind fun _ => ih.map _

theorem keeps_visitProgram (hv : v.Orderly seen) (around : List Scope) (p : Program) :
    Keeps seen around (p.sites around) (v.visitProgram p) := by
  have hstatements := keeps_visitStmts hv (p.scope :: around) p.statements
  have hfunctions := keeps_visitFunctions hv (p.scope :: around) p.functions
  exact (hv.program p).keeps (hstatements.bind fun _ => hfunctions.map _).inScope

end Visitor

end TinyScript
