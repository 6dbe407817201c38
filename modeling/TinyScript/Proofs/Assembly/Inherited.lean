import TinyScript.Proofs.Assembly.Step

/-! What holds of every piece that is made of pieces for which it holds, holds of the statements and
the functions of a program, whatever the events were. -/

namespace TinyScript

/-- A property of finished pieces that each kind of piece takes over from its parts. -/
structure Inherited (P : Node → Prop) : Prop where
  var (d : Nat) (name : String) : P (.expr (.var (.untyped d) name))
  literal (d : Nat) (value : Literal) : P (.expr (.ofLiteral d value))
  unary {operand : Expr} (d : Nat) (operator : UnaryOp) :
    P (.expr operand) → P (.expr (.unary (.untyped d) operator operand))
  binary {left right : Expr} (d : Nat) (operator : BinaryOp) :
    P (.expr left) → P (.expr right) → P (.expr (.binary (.untyped d) operator left right))
  call {arguments : List Expr} (d : Nat) (name : String) :
    (∀ e ∈ arguments, P (.expr e)) → P (.expr (.call (.untyped d) name arguments))
  withDepth {e : Expr} (d : Nat) : P (.expr e) → P (.expr (e.withDepth d))
  assign {target value : Expr} (d : Nat) :
    P (.expr target) → P (.expr value) → P (.statement (.assign d target value))
  ifThen {condition : Expr} {yes : Block} (d : Nat) :
    P (.expr condition) → P (.block yes) → P (.statement (.ifThen d condition yes))
  ifElse {condition : Expr} {yes no : Block} (d : Nat) :
    P (.expr condition) → P (.block yes) → P (.block no) →
      P (.statement (.ifElse d condition yes no))
  loop {guard : Expr} {body : Block} (d : Nat) :
    P (.expr guard) → P (.block body) → P (.statement (.loop d guard body))
  ret {value : Expr} (d : Nat) : P (.expr value) → P (.statement (.ret d value))
  brk (d : Nat) : P (.statement (.brk d))
  cont (d : Nat) : P (.statement (.cont d))
  test {call expected : Expr} (d : Nat) :
    P (.expr call) → P (.expr expected) → P (.statement (.test d call expected))
  block {ss : List Stmt} (d : Nat) (scope : Scope) :
    (∀ s ∈ ss, P (.statement s)) → P (.block (.mk d scope ss))
  function {body : Block} (name : String) (parameters : List Parameter) (result : DataType)
    (d : Nat) (scope : Scope) :
    P (.block body) → P (.function ⟨name, parameters, result, body, d, scope⟩)

structure Program.Pieces (P : Node → Prop) (p : Program) : Prop where
  statements : ∀ s ∈ p.statements, P (.statement s)
  functions : ∀ f ∈ p.functions, P (.function f)

namespace Assembly

structure Pieces (P : Node → Prop) (a : Assembly) : Prop where
  pending : ∀ id n, a.pending.get? id = some n → P n
  blocks : ∀ b ∈ a.blocks, ∀ s ∈ b.statements, P (.statement s)
  program : ∀ p, a.program = some p → p.Pieces P

variable {P : Node → Prop}

theorem pieces_start : Pieces P {} where
  pending _ _ h := by cases h
  blocks _ h := by cases h
  program _ h := by cases h

def Hands (P : Node → Prop) {α : Type} (act : AssembleM α) (has : α → Prop) : Prop :=
  ∀ ⦃a : Assembly⦄, a.Pieces P → Leads act a (fun x b => b.Pieces P ∧ has x) fun _ _ => True

namespace Hands

variable {α β : Type} {has : α → Prop} {has' : β → Prop}

theorem pure {x : α} (h : has x) : Hands P (Pure.pure x) has := fun _ ha => ⟨ha, h⟩

theorem fail (cause : Cause) : Hands P (Assembly.fail cause) has := fun _ _ => trivial

theorem bind {act : AssembleM α} {next : α → AssembleM β} (h : Hands P act has)
    (hnext : ∀ x, has x → Hands P (next x) has') : Hands P (act >>= next) has' := fun _ ha =>
  Leads.bind ((h ha).mono (fun x _ hb => hnext x hb.2 hb.1) fun _ _ => id)

end Hands

theorem hands_freshScope : Hands P freshScope fun _ => True := fun _ ha =>
  ⟨⟨ha.pending, ha.blocks, ha.program⟩, trivial⟩

theorem hands_keep (id : Serial) {node : Node} (h : P node) :
    Hands P (keep id node) fun _ => True := by
  refine fun a ha => ⟨⟨fun id' n hn => ?_, ha.blocks, ha.program⟩, trivial⟩
  change (a.pending.insert id node).get? id' = some n at hn
  rw [Keyed.get?_insert] at hn
  split at hn
  · exact Option.some.inj hn ▸ h
  · exact ha.pending id' n hn

theorem hands_take (id : Serial) : Hands P (take id) P := by
  intro a ha
  refine Leads.bind (leads_get ?_)
  cases hnode : a.pending.get? id with
  | none => exact trivial
  | some node =>
    refine ⟨⟨fun id' n hn => ?_, ha.blocks, ha.program⟩, ha.pending id node hnode⟩
    change (a.pending.erase id).get? id' = some n at hn
    rw [Keyed.get?_erase] at hn
    split at hn
    · cases hn
    · exact ha.pending id' n hn

theorem hands_takeExpr (id : Serial) : Hands P (takeExpr id) fun e => P (.expr e) := by
  refine (hands_take id).bind fun node h => ?_
  cases node with
  | expr e => exact .pure h
  | _ => exact .fail _

theorem hands_takeStmt (id : Serial) : Hands P (takeStmt id) fun s => P (.statement s) := by
  refine (hands_take id).bind fun node h => ?_
  cases node with
  | statement s => exact .pure h
  | _ => exact .fail _

theorem hands_takeBlock (id : Serial) : Hands P (takeBlock id) fun b => P (.block b) := by
  refine (hands_take id).bind fun node h => ?_
  cases node with
  | block b => exact .pure h
  | _ => exact .fail _

theorem hands_takeFunction (id : Serial) :
    Hands P (takeFunction id) fun f => P (.function f) := by
  refine (hands_take id).bind fun node h => ?_
  cases node with
  | function f => exact .pure h
  | _ => exact .fail _

theorem hands_takeAll {α : Type} {claim : Serial → AssembleM α} {has : α → Prop}
    (h : ∀ id, Hands P (claim id) has) (ids : List Serial) :
    Hands P (takeAll claim ids) fun xs => ∀ x ∈ xs, has x := by
  induction ids with
  | nil => exact .pure (List.forall_mem_nil _)
  | cons id ids ih =>
    exact (h id).bind fun x hx => ih.bind fun xs hxs => .pure (List.forall_mem_cons.2 ⟨hx, hxs⟩)

theorem hands_addStmt (id : Serial) {s : Stmt} (h : P (.statement s)) :
    Hands P (addStmt id s) fun _ => True := by
  intro a ha
  refine Leads.bind (leads_get ?_)
  cases hblocks : a.blocks with
  | nil => exact hands_keep id h ha
  | cons b bs =>
    have hopen := ha.blocks
    rw [hblocks] at hopen
    obtain ⟨hb, hbs⟩ := List.forall_mem_cons.1 hopen
    have hpush : ∀ s' ∈ (b.push s).statements, P (.statement s') :=
      List.forall_mem_append.2 ⟨hb, List.forall_mem_singleton.2 h⟩
    exact ⟨⟨ha.pending, List.forall_mem_cons.2 ⟨hpush, hbs⟩, ha.program⟩, trivial⟩

theorem hands_openBlock (id : Serial) (d : Nat) : Hands P (openBlock id d) fun _ => True := by
  refine hands_freshScope.bind fun scope _ a ha => ?_
  exact ⟨⟨ha.pending, List.forall_mem_cons.2 ⟨List.forall_mem_nil _, ha.blocks⟩, ha.program⟩,
    trivial⟩

theorem hands_closeBlock (hP : Inherited P) (id : Serial) :
    Hands P (closeBlock id) fun _ => True := by
  intro a ha
  refine Leads.bind (leads_get ?_)
  cases hblocks : a.blocks with
  | nil => exact trivial
  | cons b bs =>
    have hopen := ha.blocks
    rw [hblocks] at hopen
    obtain ⟨hb, hbs⟩ := List.forall_mem_cons.1 hopen
    refine Leads.bind ?_
    change Leads (if b.id = id then _ else _) { a with blocks := bs } _ _
    split
    · exact hands_keep id (hP.block _ _ hb) ⟨ha.pending, hbs, ha.program⟩
    · exact trivial

theorem hands_program (d : Nat) (ss fs : List Serial) :
    Hands P (buildProgram d ss fs) fun _ => True := by
  refine hands_freshScope.bind fun scope _ => ?_
  refine (hands_takeAll hands_takeStmt ss).bind fun ss' hss => ?_
  refine (hands_takeAll hands_takeFunction fs).bind fun fs' hfs a ha => ?_
  refine ⟨⟨ha.pending, ha.blocks, fun p hp => ?_⟩, trivial⟩
  obtain rfl := Option.some.inj hp
  exact ⟨hss, hfs⟩

theorem hands_function (hP : Inherited P) (id : Serial) (d : Nat) (name : Token)
    (parameters : List (Token × Option DataType)) (result : Option DataType) (body : Serial) :
    Hands P (buildFunction id d name parameters result body) fun _ => True :=
  (hands_takeBlock body).bind fun _ hb => hands_freshScope.bind fun _ _ =>
    hands_keep id (hP.function _ _ _ _ _ hb)

theorem hands_assignment (hP : Inherited P) (id : Serial) (d : Nat) (target value : Serial) :
    Hands P (buildAssignment id d target value) fun _ => True := by
  refine (hands_takeExpr target).bind fun e he => ?_
  cases e with
  | var tag name =>
    exact (hands_takeExpr value).bind fun _ hv => hands_addStmt id (hP.assign d he hv)
  | _ => exact .fail _

theorem hands_conditional (hP : Inherited P) (id : Serial) (d : Nat) (condition : Serial)
    (blocks : List Serial) : Hands P (buildConditional id d condition blocks) fun _ => True := by
  refine (hands_takeExpr condition).bind fun e he => ?_
  match blocks with
  | [] => exact .fail _
  | [yes] => exact (hands_takeBlock yes).bind fun _ hy => hands_addStmt id (hP.ifThen d he hy)
  | [yes, no] =>
    exact (hands_takeBlock yes).bind fun _ hy => (hands_takeBlock no).bind fun _ hn =>
      hands_addStmt id (hP.ifElse d he hy hn)
  | yes :: no :: _ :: _ =>
    exact (hands_takeBlock yes).bind fun _ _ => (hands_takeBlock no).bind fun _ _ => .fail _

theorem hands_test (hP : Inherited P) (id : Serial) (d : Nat) (call expected : Serial) :
    Hands P (buildTest id d call expected) fun _ => True := by
  refine (hands_takeExpr call).bind fun e he => ?_
  cases e with
  | call tag name arguments =>
    exact (hands_takeExpr expected).bind fun _ hx => hands_addStmt id (hP.test d he hx)
  | _ => exact .fail _

theorem hands_literal (hP : Inherited P) (id : Serial) (d : Nat) (token : Token) :
    Hands P (handle ⟨id, d, .literal token⟩) fun _ => True := by
  intro a ha
  change Leads (liftExcept (literal token) >>= fun v => keep id (.expr (.ofLiteral d v))) a _ _
  cases literal token with
  | ok v => exact hands_keep id (hP.literal d v) ha
  | error f => exact trivial

theorem hands_handle (hP : Inherited P) (e : Event) : Hands P (handle e) fun _ => True := by
  obtain ⟨id, d, kind⟩ := e
  cases kind with
  | enterBlock => exact hands_openBlock id d
  | exitBlock => exact hands_closeBlock hP id
  | program ss fs => exact hands_program d ss fs
  | literal token => exact hands_literal hP id d token
  | function name parameters result body =>
    exact hands_function hP id d name parameters result body
  | assignment target value => exact hands_assignment hP id d target value
  | conditional condition blocks => exact hands_conditional hP id d condition blocks
  | test call expected => exact hands_test hP id d call expected
  | loop guard body =>
    exact (hands_takeExpr guard).bind fun _ hg => (hands_takeBlock body).bind fun _ hb =>
      hands_addStmt id (hP.loop d hg hb)
  | ret value => exact (hands_takeExpr value).bind fun _ hv => hands_addStmt id (hP.ret d hv)
  | brk => exact hands_addStmt id (hP.brk d)
  | cont => exact hands_addStmt id (hP.cont d)
  | expr inner => exact (hands_takeExpr inner).bind fun _ he => hands_keep id (hP.withDepth d he)
  | unary operator operand =>
    exact (hands_takeExpr operand).bind fun _ ho => hands_keep id (hP.unary d _ ho)
  | binary operator left right =>
    exact (hands_takeExpr left).bind fun _ hl => (hands_takeExpr right).bind fun _ hr =>
      hands_keep id (hP.binary d _ hl hr)
  | call name arguments =>
    exact (hands_takeAll hands_takeExpr arguments).bind fun _ hes =>
      hands_keep id (hP.call d _ hes)
  | var name => exact hands_keep id (hP.var d name.value)

theorem Pieces.acceptAll (hP : Inherited P) {a b : Assembly} {es : List Event} (h : a.Pieces P)
    (hb : a.acceptAll es = .ok b) : b.Pieces P := by
  induction es generalizing a with
  | nil =>
    obtain rfl := Except.ok.inj hb
    exact h
  | cons e es ih =>
    obtain ⟨c, hc, hb⟩ := exists_of_acceptAll_cons hb
    exact ih ((hands_handle hP e h).ok_of hc).1 hb

end Assembly

theorem Inherited.pieces {P : Node → Prop} (hP : Inherited P) {es : List Event} {p : Program}
    (h : Program.ofEvents es = .ok p) : p.Pieces P := by
  obtain ⟨a, ha, -, hprogram⟩ := Program.exists_assembly_of_ofEvents h
  exact (Assembly.pieces_start.acceptAll hP ha).program p hprogram

end TinyScript
