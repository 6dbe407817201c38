import TinyScript.Proofs.Walk.Sites

/-! What tracing visitors note. They are orderly whatever their reactions, and one that always
descends notes every site. -/

namespace TinyScript

variable {ε σ α β : Type}

namespace Visitor

theorem outcome_note (react : Array Visit → Place → Reaction) (place : Place)
    (j : Journey (Array Visit)) :
    outcome (note react place) j =
      match react j.data place with
      | .abort => (.error (), j)
      | reaction => (.ok (decide (reaction = .descend)),
          { j with data := j.data.push ⟨place, j.context.active⟩ }) := by
  unfold note
  rw [outcome_bind_ok (show outcome Walk.data j = (.ok j.data, j) from rfl)]
  cases react j.data place <;> rfl

theorem orderly_note (react : Array Visit → Place → Reaction) (place : Place) (node : α) :
    Walk.Orderly Array.toList place fun descend =>
      note react place >>= enterIf node descend := by
  intro descend j
  have hnote := outcome_note react place j
  cases hreact : react j.data place with
  | abort =>
    rw [hreact] at hnote
    exact ⟨j.data, .inl rfl, .error (), .inl (outcome_bind_error hnote _)⟩
  | skip =>
    rw [hreact] at hnote
    refine ⟨_, .inr (Array.toList_push ..), .ok node, .inl ?_⟩
    rw [outcome_bind_ok hnote]
    rfl
  | descend =>
    rw [hreact] at hnote
    let k : Journey (Array Visit) := { j with data := j.data.push ⟨place, j.context.active⟩ }
    exact ⟨k.data, .inr (Array.toList_push ..), (outcome descend k).1,
      .inr ⟨(outcome descend k).2.data, rfl, outcome_bind_ok hnote _⟩⟩

theorem orderly_tracing (react : Array Visit → Place → Reaction) :
    (tracing react).Orderly Array.toList where
  program p := orderly_note react (.program p) p
  function f := orderly_note react (.function f) f
  parameters f := by
    intro descend j
    have hnote := outcome_note react (.parameters f) j
    change ∃ d, _ ∧ ∃ result, outcome (note react (.parameters f) >>= fun _ => pure ()) j = _ ∨ _
    cases hreact : react j.data (.parameters f) with
    | abort =>
      rw [hreact] at hnote
      exact ⟨j.data, .inl rfl, .error (), .inl (outcome_bind_error hnote _)⟩
    | skip | descend =>
      rw [hreact] at hnote
      exact ⟨_, .inr (Array.toList_push ..), .ok (), .inl (outcome_bind_ok hnote _)⟩
  block b := orderly_note react (.block b) b
  statement s := orderly_note react (.statement s) s
  expr e := orderly_note react (.expr e) e

end Visitor

def Walk.NotesAll (around : List Scope) (sites : List Visit) (node : α)
    (act : Walk Unit (Array Visit) α) : Prop :=
  ∀ j, j.context.active = around →
    outcome act j = (.ok node, { j with data := j.data ++ sites.toArray })

namespace Walk.NotesAll

variable {around : List Scope} {sites sites' : List Visit} {a : α} {b : β}
  {act : Walk Unit (Array Visit) α}

theorem pure (a : α) : NotesAll around [] a (Pure.pure a) := fun _ _ => by simp

theorem bind {next : α → Walk Unit (Array Visit) β} (h : NotesAll around sites a act)
    (hnext : NotesAll around sites' b (next a)) :
    NotesAll around (sites ++ sites') b (act >>= next) := by
  intro j hj
  rw [outcome_bind_ok (h j hj), hnext]
  · simp
  · exact hj

theorem map (f : α → β) (h : NotesAll around sites a act) :
    NotesAll around sites (f a) (act >>= fun a => Pure.pure (f a)) := by
  have hbind : NotesAll around (sites ++ []) (f a) (act >>= fun a => Pure.pure (f a)) :=
    h.bind (pure (f a))
  rwa [List.append_nil] at hbind

theorem inScope {s : Scope} (h : NotesAll (s :: around) sites a act) :
    NotesAll around sites a (Walk.inScope s act) := by
  intro j hj
  have henter : (j.enter s).context.active = s :: around := congrArg (s :: ·) hj
  rw [Walk.outcome_inScope, h _ henter]
  rfl

theorem hook {place : Place} {node : α} (h : NotesAll around sites node act) :
    NotesAll around (⟨place, around⟩ :: sites) node
      (Visitor.note (fun _ _ => .descend) place >>= Visitor.enterIf node act) := by
  rintro j rfl
  rw [outcome_bind_ok (Visitor.outcome_note (fun _ _ => .descend) place j)]
  change outcome act _ = _
  rw [h]
  · simp
  · rfl

end Walk.NotesAll

open Walk (NotesAll Keeps)

namespace Visitor

def thorough : Visitor Unit (Array Visit) := tracing fun _ _ => .descend

mutual

theorem notesAll_visitExpr (around : List Scope) (e : Expr) :
    NotesAll around (e.sites around) e (thorough.visitExpr e) := by
  cases e with
  | binary tag operator left right =>
    rw [visitExpr]
    exact .hook ((notesAll_visitExpr around left).bind ((notesAll_visitExpr around right).map _))
  | unary tag operator operand =>
    rw [visitExpr]
    exact .hook ((notesAll_visitExpr around operand).map _)
  | literal tag value =>
    rw [visitExpr]
    exact .hook (.pure _)
  | var tag name =>
    rw [visitExpr]
    exact .hook (.pure _)
  | call tag name arguments =>
    rw [visitExpr]
    exact .hook ((notesAll_visitExprs around arguments).map _)

theorem notesAll_visitExprs (around : List Scope) (es : List Expr) :
    NotesAll around (Expr.sitesAll around es) es (thorough.visitExprs es) := by
  cases es with
  | nil => exact .pure _
  | cons e es =>
    rw [visitExprs]
    exact (notesAll_visitExpr around e).bind ((notesAll_visitExprs around es).map _)

end

mutual

theorem notesAll_visitStmt (around : List Scope) (s : Stmt) :
    NotesAll around (s.sites around) s (thorough.visitStmt s) := by
  have he := notesAll_visitExpr around
  cases s with
  | assign depth target value =>
    rw [visitStmt]
    exact .hook ((he value).bind ((he target).map _))
  | ifThen depth condition yes =>
    rw [visitStmt]
    exact .hook ((he condition).bind ((notesAll_visitBlock around yes).map _))
  | ifElse depth condition yes no =>
    rw [visitStmt]
    exact .hook ((he condition).bind
      ((notesAll_visitBlock around yes).bind ((notesAll_visitBlock around no).map _)))
  | loop depth guard body =>
    rw [visitStmt]
    exact .hook ((he guard).bind ((notesAll_visitBlock around body).map _))
  | ret depth value =>
    rw [visitStmt]
    exact .hook ((he value).map _)
  | brk depth =>
    rw [visitStmt]
    exact .hook (.pure _)
  | cont depth =>
    rw [visitStmt]
    exact .hook (.pure _)
  | test depth call expected =>
    rw [visitStmt]
    exact .hook ((he call).bind ((he expected).map _))

theorem notesAll_visitBlock (around : List Scope) (b : Block) :
    NotesAll around (b.sites around) b (thorough.visitBlock b) := by
  cases b with
  | mk depth scope statements =>
    rw [visitBlock]
    exact .hook ((notesAll_visitStmts (scope :: around) statements).map _).inScope

theorem notesAll_visitStmts (around : List Scope) (ss : List Stmt) :
    NotesAll around (Stmt.sitesAll around ss) ss (thorough.visitStmts ss) := by
  cases ss with
  | nil => exact .pure _
  | cons s ss =>
    rw [visitStmts]
    exact (notesAll_visitStmt around s).bind ((notesAll_visitStmts around ss).map _)

end

theorem notesAll_visitFunction (around : List Scope) (f : Function) :
    NotesAll around (f.sites around) f (thorough.visitFunction f) := by
  have hparameters : NotesAll (f.scope :: around) [⟨.parameters f, f.scope :: around⟩] ()
      (thorough.parameters f) := by
    rintro j hj
    rw [← hj]
    exact outcome_bind_ok (outcome_note _ _ j) _
  have hbody := (notesAll_visitBlock (f.scope :: around) f.body).map
    fun body => { f with body := body }
  exact .hook (hparameters.bind hbody).inScope

theorem notesAll_visitFunctions (around : List Scope) (fs : List Function) :
    NotesAll around (Function.sitesAll around fs) fs (thorough.visitFunctions fs) := by
  induction fs with
  | nil => exact .pure _
  | cons f fs ih => exact (notesAll_visitFunction around f).bind (ih.map _)

theorem notesAll_visitProgram (around : List Scope) (p : Program) :
    NotesAll around (p.sites around) p (thorough.visitProgram p) := by
  have hstatements := notesAll_visitStmts (p.scope :: around) p.statements
  have hfunctions := (notesAll_visitFunctions (p.scope :: around) p.functions).map
    fun functions => { p with functions := functions }
  exact .hook (hstatements.bind hfunctions).inScope

end Visitor

theorem Program.places_eq (p : Program) : p.places = (p.sites []).map Visit.place := by
  have hwalk := Visitor.notesAll_visitProgram [] p ⟨.ofProgram p, #[]⟩ rfl
  have htrace : p.trace (fun _ _ => .descend) =
      outcome (Visitor.thorough.visitProgram p) ⟨.ofProgram p, #[]⟩ := rfl
  rw [Program.places, htrace, hwalk]
  simp

/-- A visitor that leaves the active scopes to the walk comes to a node with just the scopes around
it active, on top of those that were active at the start, and it ends or breaks off with the scopes
it started with. The thorough visitor comes to every node. -/
theorem walk_keeps_scopes {v : Visitor ε σ} {seen : σ → List Visit} (hv : v.Orderly seen)
    (around : List Scope) :
    (∀ p : Program, Keeps seen around (p.sites around) (v.visitProgram p)) ∧
    (∀ f : Function, Keeps seen around (f.sites around) (v.visitFunction f)) ∧
    (∀ b : Block, Keeps seen around (b.sites around) (v.visitBlock b)) ∧
    (∀ s : Stmt, Keeps seen around (s.sites around) (v.visitStmt s)) ∧
    ∀ p : Program, NotesAll around (p.sites around) p (Visitor.thorough.visitProgram p) :=
  ⟨Visitor.keeps_visitProgram hv around, Visitor.keeps_visitFunction hv around,
    Visitor.keeps_visitBlock hv around, Visitor.keeps_visitStmt hv around,
    Visitor.notesAll_visitProgram around⟩

def lonelyStatement : Program :=
  ⟨[], [⟨"f", [], .unknown, .mk 2 ⟨0⟩ [.assign 3 (.var (.untyped 3) "x") (.ofLiteral 3 (.int 1))],
    1, ⟨1⟩⟩], 0, ⟨2⟩⟩

def stopAtStatement : Array Visit → Place → Reaction
  | _, .statement _ => .abort
  | _, _ => .descend

/-- Broken off three scopes deep, a walk leaves them all. -/
theorem walk_keeps_scopes_stopped :
    let j : Journey (Array Visit) := ⟨{ functions := [], active := [⟨7⟩] }, #[]⟩
    let ended := outcome ((Visitor.tracing stopAtStatement).visitProgram lonelyStatement) j
    ended.1.isOk = false ∧ ended.2.context = j.context ∧
      ended.2.data.toList.map Visit.active =
        [[⟨7⟩], [⟨2⟩, ⟨7⟩], [⟨1⟩, ⟨2⟩, ⟨7⟩], [⟨1⟩, ⟨2⟩, ⟨7⟩]] := by
  intro j ended
  have hkeeps := (walk_keeps_scopes (Visitor.orderly_tracing stopAtStatement) [⟨7⟩]).1
    lonelyStatement j rfl
  exact ⟨rfl, hkeeps.1, rfl⟩

end TinyScript
