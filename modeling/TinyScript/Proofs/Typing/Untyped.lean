import TinyScript.Proofs.Typing.Analyzed
import TinyScript.Proofs.Walk.Addresses

/-! Expressions left without a type. They are listed in the order of the text, and looked for at
just the nodes that typing comes to, though typing comes to the value of an assignment before its
target. So where types are required, every expression of the tree that has none is counted. -/

namespace TinyScript

namespace Expr

def isUntyped (e : Expr) : Bool := e.type = .unknown

theorem own_eq (e : Expr) : e.own = [e].filter isUntyped := by
  by_cases h : e.type = .unknown
  · simp [own, isUntyped, h, DataType.isKnown]
  · have hknown := (DataType.isKnown_iff e.type).2 h
    simp [own, isUntyped, h, hknown]

mutual

theorem unresolved_eq (e : Expr) : e.unresolved = e.nodes.filter isUntyped := by
  cases e with
  | binary tag operator left right =>
    rw [unresolved, nodes, own_eq, unresolved_eq left, unresolved_eq right, ← List.filter_append,
      ← List.filter_append]
    rfl
  | unary tag operator operand =>
    rw [unresolved, nodes, own_eq, unresolved_eq operand, ← List.filter_append]
    rfl
  | literal tag value => exact own_eq _
  | var tag name => exact own_eq _
  | call tag name arguments =>
    rw [unresolved, nodes, own_eq, unresolvedList_eq arguments, ← List.filter_append]
    rfl

theorem unresolvedList_eq (es : List Expr) :
    unresolvedList es = (nodesAll es).filter isUntyped := by
  cases es with
  | nil => rfl
  | cons e es =>
    rw [unresolvedList, nodesAll, unresolved_eq e, unresolvedList_eq es, List.filter_append]

end

end Expr

mutual

theorem Stmt.unresolved_eq (s : Stmt) : s.unresolved = s.nodes.filter Expr.isUntyped := by
  cases s with
  | assign depth target value =>
    rw [Stmt.unresolved, Stmt.nodes, target.unresolved_eq, value.unresolved_eq, List.filter_append]
  | ifThen depth condition yes =>
    rw [Stmt.unresolved, Stmt.nodes, condition.unresolved_eq, yes.unresolved_eq,
      List.filter_append]
  | ifElse depth condition yes no =>
    rw [Stmt.unresolved, Stmt.nodes, condition.unresolved_eq, yes.unresolved_eq, no.unresolved_eq,
      List.filter_append, List.filter_append]
  | loop depth guard body =>
    rw [Stmt.unresolved, Stmt.nodes, guard.unresolved_eq, body.unresolved_eq, List.filter_append]
  | ret depth value => exact value.unresolved_eq
  | brk depth => rfl
  | cont depth => rfl
  | test depth call expected =>
    rw [Stmt.unresolved, Stmt.nodes, call.unresolved_eq, expected.unresolved_eq,
      List.filter_append]

theorem Block.unresolved_eq (b : Block) : b.unresolved = b.nodes.filter Expr.isUntyped := by
  cases b with
  | mk depth scope statements => exact Stmt.unresolvedList_eq statements

theorem Stmt.unresolvedList_eq (ss : List Stmt) :
    Stmt.unresolvedList ss = (Stmt.nodesAll ss).filter Expr.isUntyped := by
  cases ss with
  | nil => rfl
  | cons s ss =>
    rw [Stmt.unresolvedList, Stmt.nodesAll, s.unresolved_eq, Stmt.unresolvedList_eq ss,
      List.filter_append]

end

namespace Program

theorem unresolved_eq (p : Program) : p.unresolved = p.nodes.filter Expr.isUntyped := by
  have hbody : (fun f : Function => f.body.unresolved) =
      fun f => f.body.nodes.filter Expr.isUntyped := by
    funext f
    exact f.body.unresolved_eq
  rw [unresolved, nodes, Stmt.unresolvedList_eq, hbody, List.filter_append, List.filter_flatMap]

def untypedAt? (p : Program) (address : List Nat) : Option Expr :=
  ((Place.program p).exprAt? address).filter Expr.isUntyped

/-- How many expressions have no type. -/
noncomputable def untypedCount (p : Program) : Nat :=
  {address | (p.untypedAt? address).isSome}.ncard

theorem inOrder_unresolved (p : Program) : InOrder p.untypedAt? p.unresolved := by
  rw [unresolved_eq]
  exact InOrder.filter p.lists_nodes Expr.isUntyped

theorem untypedCount_eq (p : Program) : p.untypedCount = p.unresolved.length :=
  p.inOrder_unresolved.ncard_eq

theorem type_ne_unknown {p : Program} (h : p.unresolved = []) {address : List Nat} {e : Expr}
    (he : (Place.program p).exprAt? address = some e) : e.type ≠ .unknown := by
  intro hunknown
  have hnone := (h ▸ p.inOrder_unresolved).eq_none address
  simp [untypedAt?, he, Expr.isUntyped, hunknown] at hnone

end Program

def Visitor.noting : Visitor Empty (Scopes × List Expr) where
  expr e descend := do
    let (scopes, noted) ← Walk.data
    Walk.setData (scopes, noted ++ [e])
    let e' ← descend
    let j ← get
    return e'.withType (j.context.resolve j.data.1 e')

namespace Walk

variable {α β : Type} {nodes nodes' : List Expr} {act : Walk Empty Scopes α}
  {act' : Walk Empty (Scopes × List Expr) α}

/-- A walk that takes notes does what the one without does, and what it notes are the `nodes`, in
some order. -/
def Notes (nodes : List Expr) (act : Walk Empty Scopes α)
    (act' : Walk Empty (Scopes × List Expr) α) : Prop :=
  ∀ c m noted, ∃ a j notes, notes.Perm nodes ∧ outcome act ⟨c, m⟩ = (.ok a, j) ∧
    outcome act' ⟨c, (m, noted)⟩ = (.ok a, ⟨j.context, (j.data, noted ++ notes)⟩)

namespace Notes

theorem pure (a : α) : Notes [] (Pure.pure a) (Pure.pure a) := by
  intro c m noted
  refine ⟨a, ⟨c, m⟩, [], .nil, rfl, ?_⟩
  rw [List.append_nil]
  rfl

theorem perm (h : Notes nodes act act') (hp : nodes.Perm nodes') : Notes nodes' act act' := by
  intro c m noted
  obtain ⟨a, j, notes, hnotes, ho, ho'⟩ := h c m noted
  exact ⟨a, j, notes, hnotes.trans hp, ho, ho'⟩

theorem bind {next : α → Walk Empty Scopes β} {next' : α → Walk Empty (Scopes × List Expr) β}
    (h : Notes nodes act act') (hnext : ∀ a, Notes nodes' (next a) (next' a)) :
    Notes (nodes ++ nodes') (act >>= next) (act' >>= next') := by
  intro c m noted
  obtain ⟨a, j, notes, hnotes, ho, ho'⟩ := h c m noted
  obtain ⟨b, k, notes', hnotes', hb, hb'⟩ := hnext a j.context j.data (noted ++ notes)
  refine ⟨b, k, notes ++ notes', hnotes.append hnotes', ?_, ?_⟩
  · rw [outcome_bind_ok ho]
    exact hb
  · rw [outcome_bind_ok ho', hb', List.append_assoc]

theorem map (f : α → β) (h : Notes nodes act act') :
    Notes nodes (act >>= fun a => Pure.pure (f a)) (act' >>= fun a => Pure.pure (f a)) := by
  have hbind := h.bind fun a => pure (f a)
  rwa [List.append_nil] at hbind

theorem inScope {s : Scope} (h : Notes nodes act act') :
    Notes nodes (Walk.inScope s act) (Walk.inScope s act') := by
  intro c m noted
  obtain ⟨a, j, notes, hnotes, ho, ho'⟩ := h (c.enter s) m noted
  refine ⟨a, j.leave, notes, hnotes, ?_, ?_⟩
  · exact congrArg (fun r => (r.1, r.2.leave)) ho
  · exact congrArg (fun r => (r.1, r.2.leave)) ho'

theorem expr (e : Expr) {act : Walk Empty Scopes Expr}
    {act' : Walk Empty (Scopes × List Expr) Expr} (h : Notes nodes act act') :
    Notes (e :: nodes) (Visitor.annotating.expr e act) (Visitor.noting.expr e act') := by
  intro c m noted
  obtain ⟨a, j, notes, hnotes, ho, ho'⟩ := h c m (noted ++ [e])
  refine ⟨a.withType (j.context.resolve j.data a), j, e :: notes, hnotes.cons e, ?_, ?_⟩
  · exact outcome_bind_ok ho _
  · rw [← List.append_cons] at ho'
    exact outcome_bind_ok ho' _

end Notes

end Walk

namespace Visitor

mutual

theorem notes_visitExpr (e : Expr) :
    Walk.Notes e.nodes (annotating.visitExpr e) (noting.visitExpr e) := by
  cases e with
  | binary tag operator left right =>
    rw [visitExpr, visitExpr]
    exact .expr _ ((notes_visitExpr left).bind fun _ => (notes_visitExpr right).map _)
  | unary tag operator operand =>
    rw [visitExpr, visitExpr]
    exact .expr _ ((notes_visitExpr operand).map _)
  | literal tag value =>
    rw [visitExpr, visitExpr]
    exact .expr _ (.pure _)
  | var tag name =>
    rw [visitExpr, visitExpr]
    exact .expr _ (.pure _)
  | call tag name arguments =>
    rw [visitExpr, visitExpr]
    exact .expr _ ((notes_visitExprs arguments).map _)

theorem notes_visitExprs (es : List Expr) :
    Walk.Notes (Expr.nodesAll es) (annotating.visitExprs es) (noting.visitExprs es) := by
  cases es with
  | nil => exact .pure _
  | cons e es =>
    rw [visitExprs, visitExprs]
    exact (notes_visitExpr e).bind fun _ => (notes_visitExprs es).map _

end

mutual

theorem notes_visitStmt (s : Stmt) :
    Walk.Notes s.nodes (annotating.visitStmt s) (noting.visitStmt s) := by
  cases s with
  | assign depth target value =>
    rw [visitStmt, visitStmt]
    have hwalk := (notes_visitExpr value).bind fun value' => (notes_visitExpr target).map
      fun target' => Stmt.assign depth target' value'
    exact hwalk.perm List.perm_append_comm
  | ifThen depth condition yes =>
    rw [visitStmt, visitStmt]
    exact (notes_visitExpr condition).bind fun _ => (notes_visitBlock yes).map _
  | ifElse depth condition yes no =>
    rw [visitStmt, visitStmt]
    exact (notes_visitExpr condition).bind fun _ =>
      (notes_visitBlock yes).bind fun _ => (notes_visitBlock no).map _
  | loop depth guard body =>
    rw [visitStmt, visitStmt]
    exact (notes_visitExpr guard).bind fun _ => (notes_visitBlock body).map _
  | ret depth value =>
    rw [visitStmt, visitStmt]
    exact (notes_visitExpr value).map _
  | brk depth => exact .pure _
  | cont depth => exact .pure _
  | test depth call expected =>
    rw [visitStmt, visitStmt]
    exact (notes_visitExpr call).bind fun _ => (notes_visitExpr expected).map _

theorem notes_visitBlock (b : Block) :
    Walk.Notes b.nodes (annotating.visitBlock b) (noting.visitBlock b) := by
  cases b with
  | mk depth scope statements =>
    rw [visitBlock, visitBlock]
    exact ((notes_visitStmts statements).map _).inScope

theorem notes_visitStmts (ss : List Stmt) :
    Walk.Notes (Stmt.nodesAll ss) (annotating.visitStmts ss) (noting.visitStmts ss) := by
  cases ss with
  | nil => exact .pure _
  | cons s ss =>
    rw [visitStmts, visitStmts]
    exact (notes_visitStmt s).bind fun _ => (notes_visitStmts ss).map _

end

theorem notes_visitFunction (f : Function) :
    Walk.Notes f.body.nodes (annotating.visitFunction f) (noting.visitFunction f) := by
  have hparameters : Walk.Notes [] (annotating.parameters f) (noting.parameters f) := .pure ()
  have hbody := (notes_visitBlock f.body).map fun body => { f with body := body }
  exact (hparameters.bind fun _ => hbody).inScope

theorem notes_visitFunctions (fs : List Function) :
    Walk.Notes (fs.flatMap fun f => f.body.nodes) (annotating.visitFunctions fs)
      (noting.visitFunctions fs) := by
  induction fs with
  | nil => exact .pure _
  | cons f fs ih => exact (notes_visitFunction f).bind fun _ => ih.map _

theorem notes_visitProgram (p : Program) :
    Walk.Notes p.nodes (annotating.visitProgram p) (noting.visitProgram p) := by
  have hwalk := (notes_visitStmts p.statements).bind fun statements =>
    (notes_visitFunctions p.functions).map fun functions =>
      { p with statements := statements, functions := functions }
  exact hwalk.inScope

end Visitor

namespace Analysis

def annotateNoting (a : Analysis) : Program × List Expr :=
  match (Visitor.noting.visitProgram a.program).complete
      ⟨.ofProgram a.program, (a.scopes, [])⟩ with
  | (p, j) => (p, j.data.2)

theorem annotateNoting_eq (a : Analysis) :
    a.annotateNoting.1 = a.annotate.program ∧ a.annotateNoting.2.Perm a.program.nodes := by
  obtain ⟨p, j, notes, hnotes, ho, ho'⟩ :=
    Visitor.notes_visitProgram a.program (.ofProgram a.program) a.scopes []
  rw [annotateNoting, annotate, Walk.complete_eq ho, Walk.complete_eq ho']
  exact ⟨rfl, hnotes⟩

theorem requireTyped_eq (a : Analysis) :
    a.requireTyped = if a.program.untypedCount = 0 then .ok a
      else .error (.detached (.unresolvedTypes a.program.untypedCount)) := by
  rw [requireTyped, a.program.untypedCount_eq]
  split
  · next h => rw [if_pos h]
  · next h => rw [if_neg h]

end Analysis

theorem analyze_strict_eq {source : String} {fileName : Option String} {a : Analysis}
    (h : analyze source ⟨fileName, false⟩ = .ok a) :
    analyze source ⟨fileName, true⟩ = orFault a.requireTyped := by
  obtain ⟨p, hread, -, -, rfl⟩ := analyze_eq_ok h
  have hlax := analyze_of_readProgram ⟨fileName, false⟩ hread
  have hstrict := analyze_of_readProgram ⟨fileName, true⟩ hread
  rw [hlax] at h
  rw [hstrict]
  cases hhead : p.filled.errors.head? with
  | some e =>
    rw [hhead] at h
    cases h
  | none => rfl

/-- The expressions without a type are listed each once and in the order of the text, with the
target of an assignment before its value; they are looked for at just the nodes that typing comes
to. So where a text is accepted as long as types are not required, requiring them gives the number
of all expressions in its tree that were left without a type, and the text is accepted again if and
only if there are none. -/
theorem strict_counts_untyped :
    (∀ p : Program, InOrder p.untypedAt? p.unresolved) ∧
    (∀ a : Analysis, a.annotateNoting.1 = a.annotate.program ∧
      ∃ nodes, (Place.program a.program).Lists nodes ∧ a.annotateNoting.2.Perm nodes ∧
        a.program.unresolved = nodes.filter Expr.isUntyped) ∧
    ∀ (source : String) (fileName : Option String) (a : Analysis),
      analyze source ⟨fileName, false⟩ = .ok a →
      (a.program.untypedCount ≠ 0 → analyze source ⟨fileName, true⟩ =
        .error (.error (.detached (.unresolvedTypes a.program.untypedCount)))) ∧
      ((∃ b, analyze source ⟨fileName, true⟩ = .ok b) ↔
        a.program.untypedCount = 0) := by
  refine ⟨Program.inOrder_unresolved, fun a => ?_, fun source fileName a h => ?_⟩
  · obtain ⟨hprogram, hnotes⟩ := a.annotateNoting_eq
    exact ⟨hprogram, a.program.nodes, a.program.lists_nodes, hnotes, a.program.unresolved_eq⟩
  · rw [analyze_strict_eq h, a.requireTyped_eq]
    by_cases hcount : a.program.untypedCount = 0
    · rw [if_pos hcount]
      exact ⟨fun hne => absurd hcount hne, fun _ => hcount, fun _ => ⟨a, rfl⟩⟩
    · rw [if_neg hcount]
      exact ⟨fun _ => rfl, nofun, fun hzero => absurd hzero hcount⟩

/-- The sum has no type for want of one for `b`, and so neither has `a`; nor has the `n` in the
function. -/
def looseText : String := "a = b + 1; def f(n) \x7b return n; \x7d"

theorem strict_counts_untyped_looseText :
    ∃ a, analyze looseText ⟨none, false⟩ = .ok a ∧ a.program.untypedCount = 4 ∧
      analyze looseText ⟨none, true⟩ = .error (.error (.detached (.unresolvedTypes 4))) := by
  have hfour : (analyze looseText ⟨none, false⟩).toOption.any fun a =>
      a.program.unresolved.length = 4 := by decide +kernel
  cases ha : analyze looseText ⟨none, false⟩ with
  | error e => simp [ha, Except.toOption] at hfour
  | ok a =>
    have hcount : a.program.untypedCount = 4 := by
      rw [a.program.untypedCount_eq]
      simpa [ha, Except.toOption] using hfour
    obtain ⟨hstrict, -⟩ := strict_counts_untyped.2.2 looseText none a ha
    rw [hcount] at hstrict
    exact ⟨a, rfl, hcount, hstrict (by decide)⟩

end TinyScript
