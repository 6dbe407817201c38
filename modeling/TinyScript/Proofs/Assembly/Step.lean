import TinyScript.Proofs.Assembly.Run

/-! What one event can do, whatever has been built before it: only the two ends of a block change
which blocks are open, only the last event of a program sets the program, and the ways to fail are
that something is out of order or that a literal is no literal. -/

namespace TinyScript

def Event.openAfter (e : Event) (ids : List Serial) : List Serial :=
  match e.kind with
  | .enterBlock => e.id :: ids
  | .exitBlock => ids.tail
  | _ => ids

/-- The blocks that are entered and not left in a stream, innermost first. -/
def openBlocks (es : List Event) : List Serial := es.foldl (fun ids e => e.openAfter ids) []

def Fault.Disordered : Fault → Prop
  | .error e =>
    match e.cause with
    | .missingConstruct _ | .unexpectedConstruct _ _ | .unbalancedBlock _ => True
    | _ => False
  | .misplacedLiteral _ => False

namespace Assembly

def openIds (a : Assembly) : List Serial := a.blocks.map OpenBlock.id

def Quiet {α : Type} (act : AssembleM α) : Prop :=
  ∀ a, Leads act a (fun _ b => b.openIds = a.openIds ∧ b.program = a.program)
    fun f _ => f.Disordered

namespace Quiet

variable {α β : Type}

theorem pure (x : α) : Quiet (Pure.pure x) := fun _ => ⟨rfl, rfl⟩

theorem bind {act : AssembleM α} {next : α → AssembleM β} (h : Quiet act)
    (hnext : ∀ x, Quiet (next x)) : Quiet (act >>= next) := by
  refine fun a => Leads.bind ((h a).mono (fun x b hb => ?_) fun _ _ => id)
  refine (hnext x b).mono (fun _ c hc => ?_) fun _ _ => id
  exact ⟨hc.1.trans hb.1, hc.2.trans hb.2⟩

theorem unexpected (expected found : String) :
    Quiet (fail (α := α) (.unexpectedConstruct expected found)) := fun _ => trivial

end Quiet

theorem quiet_keep (id : Serial) (node : Node) : Quiet (keep id node) := fun _ => ⟨rfl, rfl⟩

theorem quiet_freshScope : Quiet freshScope := fun _ => ⟨rfl, rfl⟩

theorem leads_get {a : Assembly} {P : Assembly → Assembly → Prop} {Q : Fault → Assembly → Prop}
    (h : P a a) : Leads (get : AssembleM Assembly) a P Q := h

theorem quiet_take (id : Serial) : Quiet (take id) := by
  intro a
  refine Leads.bind (leads_get ?_)
  cases a.pending.get? id with
  | none => exact trivial
  | some node => exact ⟨rfl, rfl⟩

theorem quiet_takeExpr (id : Serial) : Quiet (takeExpr id) := by
  refine (quiet_take id).bind fun node => ?_
  cases node with
  | expr e => exact .pure e
  | _ => exact .unexpected _ _

theorem quiet_takeStmt (id : Serial) : Quiet (takeStmt id) := by
  refine (quiet_take id).bind fun node => ?_
  cases node with
  | statement s => exact .pure s
  | _ => exact .unexpected _ _

theorem quiet_takeBlock (id : Serial) : Quiet (takeBlock id) := by
  refine (quiet_take id).bind fun node => ?_
  cases node with
  | block b => exact .pure b
  | _ => exact .unexpected _ _

theorem quiet_takeFunction (id : Serial) : Quiet (takeFunction id) := by
  refine (quiet_take id).bind fun node => ?_
  cases node with
  | function f => exact .pure f
  | _ => exact .unexpected _ _

theorem quiet_takeAll {α : Type} {claim : Serial → AssembleM α} (h : ∀ id, Quiet (claim id))
    (ids : List Serial) : Quiet (takeAll claim ids) := by
  induction ids with
  | nil => exact .pure []
  | cons id ids ih => exact (h id).bind fun x => ih.bind fun xs => .pure (x :: xs)

theorem quiet_addStmt (id : Serial) (s : Stmt) : Quiet (addStmt id s) := by
  intro a
  refine Leads.bind (leads_get ?_)
  cases hb : a.blocks with
  | nil => exact quiet_keep id _ a
  | cons b bs =>
    refine ⟨?_, rfl⟩
    simp [openIds, hb, OpenBlock.push]

theorem quiet_assignment (id : Serial) (d : Nat) (target value : Serial) :
    Quiet (buildAssignment id d target value) := by
  refine (quiet_takeExpr target).bind fun e => ?_
  cases e with
  | var tag name => exact (quiet_takeExpr value).bind fun _ => quiet_addStmt id _
  | _ => exact .unexpected _ _

theorem quiet_conditional (id : Serial) (d : Nat) (condition : Serial) (blocks : List Serial) :
    Quiet (buildConditional id d condition blocks) := by
  refine (quiet_takeExpr condition).bind fun e => ?_
  match blocks with
  | [] => exact .unexpected _ _
  | [yes] => exact (quiet_takeBlock yes).bind fun _ => quiet_addStmt id _
  | [yes, no] =>
    exact (quiet_takeBlock yes).bind fun _ => (quiet_takeBlock no).bind fun _ => quiet_addStmt id _
  | yes :: no :: _ :: _ =>
    exact (quiet_takeBlock yes).bind fun _ => (quiet_takeBlock no).bind fun _ => .unexpected _ _

theorem quiet_test (id : Serial) (d : Nat) (call expected : Serial) :
    Quiet (buildTest id d call expected) := by
  refine (quiet_takeExpr call).bind fun e => ?_
  cases e with
  | call tag name arguments => exact (quiet_takeExpr expected).bind fun _ => quiet_addStmt id _
  | _ => exact .unexpected _ _

theorem quiet_function (id : Serial) (d : Nat) (name : Token)
    (parameters : List (Token × Option DataType)) (result : Option DataType) (body : Serial) :
    Quiet (buildFunction id d name parameters result body) :=
  (quiet_takeBlock body).bind fun _ => quiet_freshScope.bind fun _ => quiet_keep id _

def Took (e : Event) (a b : Assembly) : Prop :=
  b.openIds = e.openAfter a.openIds ∧
    ((∀ ss fs, e.kind ≠ .program ss fs) → b.program = a.program) ∧
    ∀ t, e.kind = .literal t → ∃ v, literal t = .ok v

def Refused (e : Event) (f : Fault) : Prop :=
  f.Disordered ∨ ∃ t, e.kind = .literal t ∧ literal t = .error f

theorem Quiet.leads {act : AssembleM Unit} (h : Quiet act) {e : Event}
    (hopen : ∀ ids, e.openAfter ids = ids) (hkind : ∀ t, e.kind ≠ .literal t) (a : Assembly) :
    Leads act a (fun _ b => Took e a b) fun f _ => Refused e f :=
  (h a).mono (fun _ _ hb => ⟨hb.1.trans (hopen _).symm, fun _ => hb.2, fun t ht =>
    absurd ht (hkind t)⟩) fun _ _ => .inl

theorem leads_exitBlock (id : Serial) (d : Nat) (a : Assembly) :
    Leads (closeBlock id) a (fun _ b => Took ⟨id, d, .exitBlock⟩ a b)
      fun f _ => Refused ⟨id, d, .exitBlock⟩ f := by
  refine Leads.bind (leads_get ?_)
  cases hb : a.blocks with
  | nil => exact .inl trivial
  | cons b bs =>
    refine Leads.bind ?_
    change Leads (if b.id = id then _ else _) { a with blocks := bs } _ _
    split
    · exact ⟨by simp [openIds, Event.openAfter, hb], fun _ => rfl, by simp⟩
    · exact .inl trivial

theorem leads_program (id : Serial) (d : Nat) (ss fs : List Serial) (a : Assembly) :
    Leads (buildProgram d ss fs) a (fun _ b => Took ⟨id, d, .program ss fs⟩ a b)
      fun f _ => Refused ⟨id, d, .program ss fs⟩ f := by
  refine Leads.bind ((quiet_freshScope a).mono (fun scope b hb => ?_) fun _ _ => .inl)
  refine Leads.bind ((quiet_takeAll quiet_takeStmt ss b).mono (fun ss' c hc => ?_) fun _ _ => .inl)
  refine Leads.bind
    ((quiet_takeAll quiet_takeFunction fs c).mono (fun fs' d hd => ?_) fun _ _ => .inl)
  exact ⟨hd.1.trans (hc.1.trans hb.1), fun h => absurd rfl (h ss fs), by simp⟩

theorem leads_literal (id : Serial) (d : Nat) (token : Token) (a : Assembly) :
    Leads (handle ⟨id, d, .literal token⟩) a (fun _ b => Took ⟨id, d, .literal token⟩ a b)
      fun f _ => Refused ⟨id, d, .literal token⟩ f := by
  change Leads (liftExcept (literal token) >>= fun v => keep id (.expr (.ofLiteral d v))) a _ _
  cases hv : literal token with
  | ok v =>
    refine ⟨rfl, fun _ => rfl, ?_⟩
    rintro _ ⟨⟩
    exact ⟨v, hv⟩
  | error f => exact .inr ⟨token, rfl, hv⟩

theorem leads_handle (e : Event) (a : Assembly) :
    Leads (handle e) a (fun _ b => Took e a b) fun f _ => Refused e f := by
  obtain ⟨id, d, kind⟩ := e
  cases kind with
  | enterBlock => exact ⟨rfl, fun _ => rfl, by simp⟩
  | exitBlock => exact leads_exitBlock id d a
  | program ss fs => exact leads_program id d ss fs a
  | literal token => exact leads_literal id d token a
  | function name parameters result body =>
    exact (quiet_function id d name parameters result body).leads (fun _ => rfl) (by simp) a
  | assignment target value =>
    exact (quiet_assignment id d target value).leads (fun _ => rfl) (by simp) a
  | conditional condition blocks =>
    exact (quiet_conditional id d condition blocks).leads (fun _ => rfl) (by simp) a
  | test call expected => exact (quiet_test id d call expected).leads (fun _ => rfl) (by simp) a
  | loop guard body =>
    exact ((quiet_takeExpr guard).bind fun _ => (quiet_takeBlock body).bind fun _ =>
      quiet_addStmt id _).leads (fun _ => rfl) (by simp) a
  | ret value =>
    exact ((quiet_takeExpr value).bind fun _ => quiet_addStmt id _).leads (fun _ => rfl)
      (by simp) a
  | brk | cont => exact (quiet_addStmt id _).leads (fun _ => rfl) (by simp) a
  | expr inner | unary _ inner =>
    exact ((quiet_takeExpr inner).bind fun _ => quiet_keep id _).leads (fun _ => rfl) (by simp) a
  | binary operator left right =>
    exact ((quiet_takeExpr left).bind fun _ => (quiet_takeExpr right).bind fun _ =>
      quiet_keep id _).leads (fun _ => rfl) (by simp) a
  | call name arguments =>
    exact ((quiet_takeAll quiet_takeExpr arguments).bind fun _ => quiet_keep id _).leads
      (fun _ => rfl) (by simp) a
  | var name => exact (quiet_keep id _).leads (fun _ => rfl) (by simp) a

end Assembly

theorem Program.exists_assembly_of_ofEvents {es : List Event} {p : Program}
    (h : Program.ofEvents es = .ok p) :
    ∃ a, Assembly.acceptAll {} es = .ok a ∧ a.blocks = [] ∧ a.program = some p := by
  cases ha : Assembly.acceptAll {} es with
  | error f => simp [ofEvents, ha, bind, Except.bind] at h
  | ok a =>
    refine ⟨a, rfl, ?_⟩
    simp only [ofEvents, ha, bind, Except.bind] at h
    split at h
    · next q hfinish =>
      obtain rfl := Except.ok.inj h
      unfold Assembly.finish at hfinish
      split at hfinish
      · cases hfinish
      · cases hfinish
      · next hblocks hq =>
        exact ⟨List.getLast?_eq_none_iff.1 hblocks, hq.trans (congrArg some (Except.ok.inj hfinish))⟩
    · cases h

end TinyScript
