import TinyScript.Proofs.Typing.Declare
import TinyScript.Proofs.Typing.Repeated
import TinyScript.Typing.Annotate

/-! Giving expressions their types, without the walk: the type of every node is told from the tree
as it was before, and from the scopes around the node. -/

namespace TinyScript

def DataType.orElse (t u : DataType) : DataType := if t.isKnown then t else u

theorem DataType.orElse_orElse (t u : DataType) : (t.orElse u).orElse u = t.orElse u := by
  unfold orElse
  split <;> simp_all

namespace Scopes

def knownType? (m : Scopes) (name : String) (s : Scope) : Option DataType :=
  ((m.get s).table.lookup? name).bind fun symbol =>
    if symbol.type.isKnown then some symbol.type else none

/-- The known type that the innermost scope has for a name, of the scopes that come before a
poisoned one. -/
def visibleType (m : Scopes) (around : List Scope) (name : String) : DataType :=
  ((around.takeWhile fun s => !(m.get s).poisoned).findSome? (m.knownType? name)).getD .unknown

theorem nearestType_eq_visibleType (m : Scopes) (name : String) (around : List Scope) :
    Context.nearestType m name around = m.visibleType around name := by
  unfold visibleType
  induction around with
  | nil => rfl
  | cons s around ih =>
    cases hp : (m.get s).poisoned with
    | true => simp [Context.nearestType, lookup_of_poisoned hp, hp]
    | false =>
      rw [Context.nearestType, lookup_of_ok hp, List.takeWhile_cons_of_pos (by simp [hp]),
        List.findSome?_cons]
      cases hl : (m.get s).table.lookup? name with
      | none => simp [knownType?, hl, ih]
      | some symbol => by_cases hk : symbol.type = .unknown <;> simp [knownType?, hl, hk, ih]

end Scopes

/-- The return type of the last function of a name. -/
def Program.returnType (p : Program) (name : String) : DataType :=
  ((p.functions.filter fun f => f.name = name).getLast?.map Function.returnType).getD .unknown

theorem Context.returnType_ofProgram (p : Program) (name : String) :
    (Context.ofProgram p).returnType name = p.returnType name := by
  have hfind : (Context.ofProgram p).function? name =
      ((p.functions.filter fun f => f.name = name).getLast?.map Function.signature) := by
    simp only [function?, ofProgram, ← List.map_reverse, List.find?_map]
    rw [← List.head?_reverse, ← List.filter_reverse, List.head?_filter]
    rfl
  unfold returnType Program.returnType
  rw [hfind]
  cases (p.functions.filter fun f => f.name = name).getLast? <;> rfl

theorem Program.returnType_congr {p q : Program}
    (h : p.functions.map (fun f => (f.name, f.returnType)) =
      q.functions.map fun f => (f.name, f.returnType)) : p.returnType = q.returnType := by
  have hreturns : ∀ (fs : List Function) name,
      (fs.filter fun f => f.name = name).getLast?.map Function.returnType =
        ((fs.map fun f => (f.name, f.returnType)).filter fun k => k.1 = name).getLast?.map
          Prod.snd := by
    intro fs name
    rw [List.filter_map, List.getLast?_map, Option.map_map]
    rfl
  funext name
  unfold returnType
  rw [hreturns, hreturns, h]

namespace Expr

variable (returns visible : String → DataType)

/-- The type of an expression, where calls and variables have the types given: its own if it is
known, else that of its left or only operand, of the literal, of the variable or of the call. -/
def inferred : Expr → DataType
  | .binary tag _ left _ => tag.type.orElse left.inferred
  | .unary tag _ operand => tag.type.orElse operand.inferred
  | .literal tag value => tag.type.orElse value.type
  | .var tag name => tag.type.orElse (visible name)
  | .call tag name _ => tag.type.orElse (returns name)

mutual

def typed : Expr → Expr
  | .binary tag operator left right =>
    .binary ⟨tag.type.orElse (left.inferred returns visible), tag.depth⟩ operator left.typed
      right.typed
  | .unary tag operator operand =>
    .unary ⟨tag.type.orElse (operand.inferred returns visible), tag.depth⟩ operator operand.typed
  | .literal tag value => .literal ⟨tag.type.orElse value.type, tag.depth⟩ value
  | .var tag name => .var ⟨tag.type.orElse (visible name), tag.depth⟩ name
  | .call tag name arguments =>
    .call ⟨tag.type.orElse (returns name), tag.depth⟩ name (typedAll arguments)

def typedAll : List Expr → List Expr
  | [] => []
  | e :: es => e.typed :: typedAll es

end

@[simp] theorem type_typed (e : Expr) :
    (e.typed returns visible).type = e.inferred returns visible := by
  cases e <;> rw [typed, inferred] <;> rfl

theorem inferred_typed (e : Expr) :
    (e.typed returns visible).inferred returns visible = e.inferred returns visible := by
  cases e with
  | binary tag operator left right =>
    rw [typed, inferred, inferred, inferred_typed left, DataType.orElse_orElse]
  | unary tag operator operand =>
    rw [typed, inferred, inferred, inferred_typed operand, DataType.orElse_orElse]
  | literal tag value => rw [typed, inferred, inferred, DataType.orElse_orElse]
  | var tag name => rw [typed, inferred, inferred, DataType.orElse_orElse]
  | call tag name arguments => rw [typed, inferred, inferred, DataType.orElse_orElse]

mutual

theorem typed_typed (e : Expr) :
    (e.typed returns visible).typed returns visible = e.typed returns visible := by
  cases e with
  | binary tag operator left right =>
    rw [typed, typed, inferred_typed, DataType.orElse_orElse, typed_typed left, typed_typed right]
  | unary tag operator operand =>
    rw [typed, typed, inferred_typed, DataType.orElse_orElse, typed_typed operand]
  | literal tag value => rw [typed, typed, DataType.orElse_orElse]
  | var tag name => rw [typed, typed, DataType.orElse_orElse]
  | call tag name arguments =>
    rw [typed, typed, DataType.orElse_orElse, typedAll_typedAll arguments]

theorem typedAll_typedAll (es : List Expr) :
    typedAll returns visible (typedAll returns visible es) = typedAll returns visible es := by
  cases es with
  | nil => rfl
  | cons e es => rw [typedAll, typedAll, typed_typed e, typedAll_typedAll es]

end

end Expr

mutual

def Stmt.typed (m : Scopes) (returns : String → DataType) (around : List Scope) : Stmt → Stmt
  | .assign depth target value =>
    .assign depth (target.typed returns (m.visibleType around))
      (value.typed returns (m.visibleType around))
  | .ifThen depth condition yes =>
    .ifThen depth (condition.typed returns (m.visibleType around)) (yes.typed m returns around)
  | .ifElse depth condition yes no =>
    .ifElse depth (condition.typed returns (m.visibleType around)) (yes.typed m returns around)
      (no.typed m returns around)
  | .loop depth guard body =>
    .loop depth (guard.typed returns (m.visibleType around)) (body.typed m returns around)
  | .ret depth value => .ret depth (value.typed returns (m.visibleType around))
  | .brk depth => .brk depth
  | .cont depth => .cont depth
  | .test depth call expected =>
    .test depth (call.typed returns (m.visibleType around))
      (expected.typed returns (m.visibleType around))

def Block.typed (m : Scopes) (returns : String → DataType) (around : List Scope) : Block → Block
  | .mk depth scope statements =>
    .mk depth scope (Stmt.typedAll m returns (scope :: around) statements)

def Stmt.typedAll (m : Scopes) (returns : String → DataType) (around : List Scope) :
    List Stmt → List Stmt
  | [] => []
  | s :: ss => s.typed m returns around :: Stmt.typedAll m returns around ss

end

def Function.typed (m : Scopes) (returns : String → DataType) (around : List Scope)
    (f : Function) : Function :=
  { f with body := f.body.typed m returns (f.scope :: around) }

/-- The program with the type of every expression in it, told from what the scopes contain. -/
def Program.typed (m : Scopes) (p : Program) : Program :=
  { p with
    statements := Stmt.typedAll m p.returnType [p.scope] p.statements
    functions := p.functions.map (Function.typed m p.returnType [p.scope]) }

theorem Context.resolve_eq (c : Context) (m : Scopes) (e : Expr) :
    c.resolve m e = e.inferred c.returnType (m.visibleType c.active) := by
  rw [Context.resolve.eq_def]
  cases e with
  | binary tag operator left right => rw [Expr.inferred, ← resolve_eq c m left]; rfl
  | unary tag operator operand => rw [Expr.inferred, ← resolve_eq c m operand]; rfl
  | literal tag value => rfl
  | var tag name =>
    rw [Expr.inferred, ← Scopes.nearestType_eq_visibleType]
    rfl
  | call tag name arguments => rfl

namespace Visitor

theorem outcome_annotate {descend : Walk Empty Scopes Expr} {j : Journey Scopes} {e : Expr}
    (h : outcome descend j = (.ok e, j)) (e' : Expr) :
    outcome (annotating.expr e' descend) j =
      (.ok (e.withType (e.inferred j.context.returnType (j.data.visibleType j.context.active))),
        j) := by
  rw [annotating, outcome_bind_ok h, ← Context.resolve_eq]
  rfl

mutual

theorem outcome_annotateExpr (e : Expr) (j : Journey Scopes) :
    outcome (annotating.visitExpr e) j =
      (.ok (e.typed j.context.returnType (j.data.visibleType j.context.active)), j) := by
  cases e with
  | binary tag operator left right =>
    rw [visitExpr, outcome_annotate]
    rotate_left
    · rw [outcome_bind_ok (outcome_annotateExpr left j),
        outcome_bind_ok (outcome_annotateExpr right j), outcome_pure]
    · rw [Expr.inferred, Expr.inferred_typed]
      rfl
  | unary tag operator operand =>
    rw [visitExpr, outcome_annotate]
    rotate_left
    · rw [outcome_bind_ok (outcome_annotateExpr operand j), outcome_pure]
    · rw [Expr.inferred, Expr.inferred_typed]
      rfl
  | literal tag value =>
    rw [visitExpr, outcome_annotate (outcome_pure _ _)]
    rfl
  | var tag name =>
    rw [visitExpr, outcome_annotate (outcome_pure _ _)]
    rfl
  | call tag name arguments =>
    rw [visitExpr, outcome_annotate]
    rotate_left
    · rw [outcome_bind_ok (outcome_annotateExprs arguments j), outcome_pure]
    · rfl

theorem outcome_annotateExprs (es : List Expr) (j : Journey Scopes) :
    outcome (annotating.visitExprs es) j =
      (.ok (Expr.typedAll j.context.returnType (j.data.visibleType j.context.active) es), j) := by
  cases es with
  | nil => rfl
  | cons e es =>
    rw [visitExprs, outcome_bind_ok (outcome_annotateExpr e j),
      outcome_bind_ok (outcome_annotateExprs es j), outcome_pure]
    rfl

end

mutual

theorem outcome_annotateStmt (s : Stmt) (j : Journey Scopes) :
    outcome (annotating.visitStmt s) j =
      (.ok (s.typed j.data j.context.returnType j.context.active), j) := by
  have he := fun e => outcome_annotateExpr e j
  cases s with
  | assign depth target value =>
    rw [visitStmt]
    change outcome (annotating.visitExpr value >>= _) j = _
    rw [outcome_bind_ok (he value), outcome_bind_ok (he target)]
    rfl
  | ifThen depth condition yes =>
    rw [visitStmt]
    change outcome (annotating.visitExpr condition >>= _) j = _
    rw [outcome_bind_ok (he condition), outcome_bind_ok (outcome_annotateBlock yes j)]
    rfl
  | ifElse depth condition yes no =>
    rw [visitStmt]
    change outcome (annotating.visitExpr condition >>= _) j = _
    rw [outcome_bind_ok (he condition), outcome_bind_ok (outcome_annotateBlock yes j),
      outcome_bind_ok (outcome_annotateBlock no j)]
    rfl
  | loop depth guard body =>
    rw [visitStmt]
    change outcome (annotating.visitExpr guard >>= _) j = _
    rw [outcome_bind_ok (he guard), outcome_bind_ok (outcome_annotateBlock body j)]
    rfl
  | ret depth value =>
    rw [visitStmt]
    change outcome (annotating.visitExpr value >>= _) j = _
    rw [outcome_bind_ok (he value)]
    rfl
  | brk depth => rfl
  | cont depth => rfl
  | test depth call expected =>
    rw [visitStmt]
    change outcome (annotating.visitExpr call >>= _) j = _
    rw [outcome_bind_ok (he call), outcome_bind_ok (he expected)]
    rfl

theorem outcome_annotateBlock (b : Block) (j : Journey Scopes) :
    outcome (annotating.visitBlock b) j =
      (.ok (b.typed j.data j.context.returnType j.context.active), j) := by
  cases b with
  | mk depth scope statements =>
    rw [visitBlock]
    change outcome (Walk.inScope scope _) j = _
    rw [Walk.outcome_inScope, outcome_bind_ok (outcome_annotateStmts statements (j.enter scope))]
    rfl

theorem outcome_annotateStmts (ss : List Stmt) (j : Journey Scopes) :
    outcome (annotating.visitStmts ss) j =
      (.ok (Stmt.typedAll j.data j.context.returnType j.context.active ss), j) := by
  cases ss with
  | nil => rfl
  | cons s ss =>
    rw [visitStmts, outcome_bind_ok (outcome_annotateStmt s j),
      outcome_bind_ok (outcome_annotateStmts ss j)]
    rfl

end

theorem outcome_annotateFunction (f : Function) (j : Journey Scopes) :
    outcome (annotating.visitFunction f) j =
      (.ok (f.typed j.data j.context.returnType j.context.active), j) := by
  have hparameters : outcome (annotating.parameters f) (j.enter f.scope) =
      (.ok (), j.enter f.scope) := rfl
  change outcome (Walk.inScope f.scope _) j = _
  rw [Walk.outcome_inScope, outcome_bind_ok hparameters,
    outcome_bind_ok (outcome_annotateBlock f.body (j.enter f.scope))]
  rfl

theorem outcome_annotateFunctions (fs : List Function) (j : Journey Scopes) :
    outcome (annotating.visitFunctions fs) j =
      (.ok (fs.map (Function.typed j.data j.context.returnType j.context.active)), j) := by
  induction fs with
  | nil => rfl
  | cons f fs ih =>
    rw [visitFunctions, outcome_bind_ok (outcome_annotateFunction f j), outcome_bind_ok ih]
    rfl

theorem outcome_annotateProgram (p : Program) (m : Scopes) :
    outcome (annotating.visitProgram p) ⟨.ofProgram p, m⟩ =
      (.ok (p.typed m), ⟨.ofProgram p, m⟩) := by
  have hreturns : (Context.ofProgram p).returnType = p.returnType :=
    funext (Context.returnType_ofProgram p)
  let j : Journey Scopes := ⟨.ofProgram p, m⟩
  change outcome (Walk.inScope p.scope _) j = _
  rw [Walk.outcome_inScope, outcome_bind_ok (outcome_annotateStmts p.statements (j.enter p.scope)),
    outcome_bind_ok (outcome_annotateFunctions p.functions (j.enter p.scope)), Program.typed,
    ← hreturns]
  rfl

end Visitor

theorem Analysis.program_annotate (a : Analysis) :
    a.annotate.program = a.program.typed a.scopes := by
  have h := Walk.complete_eq (Visitor.outcome_annotateProgram a.program a.scopes)
  rw [annotate, h]

theorem Analysis.annotate_fillScopes (a : Analysis) :
    let c := Context.ofProgram a.program
    let m := (a.program.declare c ⟨a.scopes, []⟩).scopes
    a.fillScopes.2.annotate = ⟨(a.program.settled c ⟨a.scopes, []⟩).typed m, m⟩ := by
  intro c m
  have hfill : a.fillScopes.2 = ⟨a.program.settled c ⟨a.scopes, []⟩, m⟩ :=
    congrArg Prod.snd a.fillScopes_eq
  rw [hfill]
  exact congrArg (Analysis.mk · m) (program_annotate _)

/-- After the types are given, every expression of a program has the type inferred for it from the
program and the scopes before, and nothing else is changed. -/
theorem annotate_eq_typed (a : Analysis) :
    a.annotate = { a with program := a.program.typed a.scopes } := by
  have h := Walk.complete_eq (Visitor.outcome_annotateProgram a.program a.scopes)
  rw [Analysis.annotate, h]

section Again

variable (m : Scopes) (returns : String → DataType)

mutual

theorem Stmt.typed_typed (s : Stmt) (around : List Scope) :
    (s.typed m returns around).typed m returns around = s.typed m returns around := by
  have he := Expr.typed_typed returns (m.visibleType around)
  cases s with
  | assign depth target value => rw [Stmt.typed, Stmt.typed, he target, he value]
  | ifThen depth condition yes =>
    rw [Stmt.typed, Stmt.typed, he condition, yes.typed_typed around]
  | ifElse depth condition yes no =>
    rw [Stmt.typed, Stmt.typed, he condition, yes.typed_typed around, no.typed_typed around]
  | loop depth guard body => rw [Stmt.typed, Stmt.typed, he guard, body.typed_typed around]
  | ret depth value => rw [Stmt.typed, Stmt.typed, he value]
  | brk depth => rfl
  | cont depth => rfl
  | test depth call expected => rw [Stmt.typed, Stmt.typed, he call, he expected]

theorem Block.typed_typed (b : Block) (around : List Scope) :
    (b.typed m returns around).typed m returns around = b.typed m returns around := by
  cases b with
  | mk depth scope statements =>
    rw [Block.typed, Block.typed, Stmt.typedAll_typedAll statements (scope :: around)]

theorem Stmt.typedAll_typedAll (ss : List Stmt) (around : List Scope) :
    Stmt.typedAll m returns around (Stmt.typedAll m returns around ss) =
      Stmt.typedAll m returns around ss := by
  cases ss with
  | nil => rfl
  | cons s ss =>
    rw [Stmt.typedAll, Stmt.typedAll, s.typed_typed around, Stmt.typedAll_typedAll ss around]

end

end Again

theorem Function.map_settledAll {β : Type} {g : Function → β}
    (hg : ∀ f ps, g { f with parameters := ps } = g f) (c : Context) (fs : List Function)
    (d : Declared) : (settledAll c fs d).map g = fs.map g := by
  induction fs generalizing d with
  | nil => rfl
  | cons f fs ih => rw [settledAll, List.map_cons, List.map_cons, ih, settled, hg]

namespace Program

theorem returnType_settled (c : Context) (p : Program) (d : Declared) :
    (p.settled c d).returnType = p.returnType :=
  returnType_congr (Function.map_settledAll (g := fun f => (f.name, f.returnType))
    (fun _ _ => rfl) (c.enter p.scope) p.functions _)

theorem returnType_typed (m : Scopes) (p : Program) : (p.typed m).returnType = p.returnType := by
  apply returnType_congr
  rw [typed, List.map_map]
  rfl

theorem typed_typed (m : Scopes) (p : Program) : (p.typed m).typed m = p.typed m := by
  have hbody : ∀ f ∈ p.functions, Function.typed m p.returnType [p.scope]
      (f.typed m p.returnType [p.scope]) = f.typed m p.returnType [p.scope] := by
    intro f _
    rw [Function.typed, Function.typed, Block.typed_typed]
  rw [typed, returnType_typed]
  simp only [typed, Stmt.typedAll_typedAll, List.map_map, Program.mk.injEq, true_and, and_true]
  exact List.map_congr_left hbody

end Program

/-- Giving the types a second time changes nothing, whatever types and scopes there were at first:
an expression without a type does not get one from those given around it. -/
theorem annotate_idempotent (a : Analysis) : a.annotate.annotate = a.annotate := by
  have hprogram : a.annotate.annotate.program = a.annotate.program := by
    rw [a.annotate.program_annotate, a.program_annotate]
    exact a.program.typed_typed a.scopes
  exact congrArg (Analysis.mk · a.scopes) hprogram

end TinyScript
