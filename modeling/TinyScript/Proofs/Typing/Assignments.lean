import TinyScript.Proofs.Typing.Analyzed
import TinyScript.Proofs.Typing.Steps

/-! The assignments of a program, each with the place where it stands and with what the scopes
contain by then. In the program as analysed they are found again in the same order. -/

namespace TinyScript

/-- An assignment to a variable, as scopes are filled: the function it stands in, the context, and
what there is before it. -/
structure Assigning where
  function? : Option Function
  context : Context
  before : Declared
  name : String
  value : Expr

namespace Assigning

def after (a : Assigning) : Declared :=
  a.before.assign a.context a.name (a.context.resolve a.before.scopes a.value)

/-- The type with which the assignment declares its name in the innermost scope, if it does. -/
def introduces? (a : Assigning) : Option DataType :=
  a.context.innermost?.bind fun s =>
    match a.before.scopes.symbol? s a.name with
    | none => (a.after.scopes.symbol? s a.name).map Symbol.type
    | some _ => none

end Assigning

mutual

def Stmt.assigning (f : Option Function) (c : Context) : Stmt → Declared → List Assigning
  | .assign _ (.var _ name) value, d => [⟨f, c, d, name, value⟩]
  | .assign .., _ => []
  | .ifThen _ _ yes, d => yes.assigning f c d
  | .ifElse _ _ yes no, d => yes.assigning f c d ++ no.assigning f c (yes.declare c d)
  | .loop _ _ body, d => body.assigning f c d
  | .ret .., _ | .brk _, _ | .cont _, _ | .test .., _ => []

def Block.assigning (f : Option Function) (c : Context) : Block → Declared → List Assigning
  | .mk _ scope statements, d => Stmt.assigningAll f (c.enter scope) statements d

def Stmt.assigningAll (f : Option Function) (c : Context) : List Stmt → Declared → List Assigning
  | [], _ => []
  | s :: ss, d => s.assigning f c d ++ Stmt.assigningAll f c ss (s.declare c d)

end

namespace Function

def assigning (c : Context) (f : Function) (d : Declared) : List Assigning :=
  f.body.assigning (some f) (c.enter f.scope) (d.declareParameters f.scope f.parameters)

def assigningAll (c : Context) : List Function → Declared → List Assigning
  | [], _ => []
  | f :: fs, d => f.assigning c d ++ assigningAll c fs (f.declare c d)

end Function

def Program.assigning (p : Program) : List Assigning :=
  let c := (Context.ofProgram p).enter p.scope
  Stmt.assigningAll none c p.statements ⟨{}, []⟩ ++
    Function.assigningAll c p.functions (Stmt.declareAll c p.statements ⟨{}, []⟩)

mutual

def Stmt.assignments : Stmt → List (String × Expr)
  | .assign _ (.var _ name) value => [(name, value)]
  | .assign .. => []
  | .ifThen _ _ yes => yes.assignments
  | .ifElse _ _ yes no => yes.assignments ++ no.assignments
  | .loop _ _ body => body.assignments
  | .ret .. | .brk _ | .cont _ | .test .. => []

def Block.assignments : Block → List (String × Expr)
  | .mk _ _ statements => Stmt.assignmentsAll statements

def Stmt.assignmentsAll : List Stmt → List (String × Expr)
  | [] => []
  | s :: ss => s.assignments ++ Stmt.assignmentsAll ss

end

def Program.assignments (p : Program) : List (String × Expr) :=
  Stmt.assignmentsAll p.statements ++ p.functions.flatMap fun f => f.body.assignments

def Assigning.typed (m : Scopes) (a : Assigning) : String × Expr :=
  (a.name, a.value.typed a.context.returnType (m.visibleType a.context.active))

mutual

theorem Stmt.assignments_typed (s : Stmt) (m : Scopes) (f : Option Function) (c : Context)
    (d : Declared) : (s.typed m c.returnType c.active).assignments =
      (s.assigning f c d).map (Assigning.typed m) := by
  cases s with
  | assign depth target value => cases target <;> rfl
  | ifThen depth condition yes => exact yes.assignments_typed m f c d
  | ifElse depth condition yes no =>
    rw [Stmt.typed, Stmt.assignments, Stmt.assigning, List.map_append,
      yes.assignments_typed m f c d, no.assignments_typed m f c _]
  | loop depth guard body => exact body.assignments_typed m f c d
  | ret _ _ | brk _ | cont _ | test _ _ _ => rfl

theorem Block.assignments_typed (b : Block) (m : Scopes) (f : Option Function) (c : Context)
    (d : Declared) : (b.typed m c.returnType c.active).assignments =
      (b.assigning f c d).map (Assigning.typed m) := by
  cases b with
  | mk depth scope statements =>
    exact Stmt.assignments_typedAll statements m f (c.enter scope) d

theorem Stmt.assignments_typedAll (ss : List Stmt) (m : Scopes) (f : Option Function)
    (c : Context) (d : Declared) :
    Stmt.assignmentsAll (Stmt.typedAll m c.returnType c.active ss) =
      (Stmt.assigningAll f c ss d).map (Assigning.typed m) := by
  cases ss with
  | nil => rfl
  | cons s ss =>
    rw [Stmt.typedAll, Stmt.assignmentsAll, Stmt.assigningAll, List.map_append,
      s.assignments_typed m f c d, Stmt.assignments_typedAll ss m f c _]

end

theorem Function.assignments_typedAll (fs : List Function) (m : Scopes) (c : Context)
    (d : Declared) :
    (fs.flatMap fun f => (f.body.typed m c.returnType (f.scope :: c.active)).assignments) =
      (assigningAll c fs d).map (Assigning.typed m) := by
  induction fs generalizing d with
  | nil => rfl
  | cons f fs ih =>
    have hbody := f.body.assignments_typed m (some f) (c.enter f.scope)
      (d.declareParameters f.scope f.parameters)
    rw [List.flatMap_cons, assigningAll, List.map_append, ← ih]
    exact congrArg (· ++ _) hbody

theorem Program.assignments_analysis (p : Program) :
    p.analysis.program.assignments = p.assigning.map (Assigning.typed p.filled.scopes) := by
  let c := (Context.ofProgram p).enter p.scope
  have hreturns : c.returnType = p.returnType := funext (Context.returnType_ofProgram p)
  have hstatements := Stmt.assignments_typedAll p.statements p.filled.scopes none c ⟨{}, []⟩
  have hfunctions := Function.assignments_typedAll p.functions p.filled.scopes c
    (Stmt.declareAll c p.statements ⟨{}, []⟩)
  rw [hreturns] at hstatements hfunctions
  unfold Program.assignments Program.assigning
  rw [List.map_append, ← hstatements, ← hfunctions, p.statements_analysis,
    ← List.flatMap_map, p.bodies_analysis, List.flatMap_map]
  rfl

theorem Assigning.eq_resolve_of_introduces {a : Assigning} {type : DataType}
    (h : a.introduces? = some type) : type = a.context.resolve a.before.scopes a.value := by
  unfold introduces? at h
  obtain ⟨s, hs, h⟩ := Option.bind_eq_some_iff.1 h
  cases hnone : a.before.scopes.symbol? s a.name with
  | some symbol => simp [hnone] at h
  | none =>
    simp only [hnone] at h
    obtain ⟨symbol, hsymbol, rfl⟩ := Option.map_eq_some_iff.1 h
    unfold after at hsymbol
    generalize hd : a.before.assign a.context a.name _ = d at hsymbol
    have hassigns := a.before.assigns a.context a.name
      (a.context.resolve a.before.scopes a.value)
    rw [hd] at hassigns
    cases hassigns with
    | refused _ _ | kept _ _ _ | nowhere _ => cases hnone.symm.trans hsymbol
    | @refined t _ m ht hold _ hm =>
      have hne : ¬ (s = t ∧ a.name = a.name) := fun he => by simp [← he.1, hnone] at hold
      rw [hm.symbol_of_ne hne, hnone] at hsymbol
      cases hsymbol
    | @declared t rest m hactive _ hm =>
      obtain rfl : t = s := by simpa [Context.innermost?, hactive] using hs
      rw [hm.symbol_self] at hsymbol
      exact congrArg Symbol.type (Option.some.inj hsymbol).symm

end TinyScript
