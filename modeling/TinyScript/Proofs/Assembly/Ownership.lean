import Mathlib.Data.List.Flatten
import Mathlib.Data.List.Nodup
import TinyScript.Proofs.Assembly.Step
import TinyScript.Proofs.Typing.Steps

/-! Scopes have one owner. A scope is given out once, to a block, a function or the program, and it
goes with its piece from what is waiting into the whole that claims the piece. Whatever the events
were, no two parts of the program that comes of them share a scope. -/

namespace TinyScript

theorem Stmt.scopesAll_eq_flatMap (ss : List Stmt) :
    Stmt.scopesAll ss = ss.flatMap Stmt.scopes := by
  induction ss with
  | nil => rfl
  | cons s ss ih => rw [Stmt.scopesAll, ih, List.flatMap_cons]

def Node.owned : Node → List Scope
  | .function f => f.scopes
  | .block b => b.scopes
  | .statement s => s.scopes
  | .expr _ => []

def OpenBlock.owned (b : OpenBlock) : List Scope := b.close.scopes

theorem OpenBlock.count_owned_push (b : OpenBlock) (stmt : Stmt) (s : Scope) :
    (b.push stmt).owned.count s = b.owned.count s + stmt.scopes.count s := by
  simp only [owned, close, push, Block.scopes, Stmt.scopesAll_eq_flatMap, List.count_cons,
    List.flatMap_append, List.count_append, List.flatMap_singleton]
  omega

def Program.owned (p : Program) : List Scope :=
  p.functions.flatMap Function.scopes ++ (Stmt.scopesAll p.statements ++ [p.scope])

namespace Keyed

variable {κ α : Type} [DecidableEq κ]

def countIn (scopes : α → List Scope) (m : Keyed κ α) (s : Scope) : Nat :=
  (m.entries.flatMap fun p => scopes p.2).count s

theorem countIn_erase_le (scopes : α → List Scope) (m : Keyed κ α) (k : κ) (s : Scope) :
    (m.erase k).countIn scopes s ≤ m.countIn scopes s :=
  ((List.filter_sublist).flatMap _).count_le s

theorem countIn_insert_le (scopes : α → List Scope) (m : Keyed κ α) (k : κ) (a : α) (s : Scope) :
    (m.insert k a).countIn scopes s ≤ (scopes a).count s + m.countIn scopes s := by
  have herase := m.countIn_erase_le scopes k s
  simp only [countIn, insert, List.flatMap_cons, List.count_append] at herase ⊢
  omega

theorem countIn_erase_of_get? (scopes : α → List Scope) {m : Keyed κ α} {k : κ} {a : α}
    (h : m.get? k = some a) (s : Scope) :
    (scopes a).count s + (m.erase k).countIn scopes s ≤ m.countIn scopes s := by
  obtain ⟨entries⟩ := m
  induction entries with
  | nil => cases h
  | cons p entries ih =>
    by_cases hp : p.1 = k
    · have ha : p.2 = a := by simpa [get?, hp] using h
      have hrest := countIn_erase_le scopes ⟨entries⟩ k s
      simp only [countIn, erase, ne_eq, hp, not_true, decide_false, Bool.false_eq_true,
        not_false_eq_true, List.filter_cons_of_neg, List.flatMap_cons, List.count_append, ha]
        at hrest ⊢
      omega
    · have hrest := ih (by simpa [get?, hp] using h)
      simp only [countIn, erase, ne_eq, hp, not_false_eq_true, decide_true,
        List.filter_cons_of_pos, List.flatMap_cons, List.count_append] at hrest ⊢
      omega

end Keyed

namespace Assembly

def countOf (a : Assembly) (s : Scope) : Nat :=
  a.pending.countIn Node.owned s + (a.blocks.flatMap OpenBlock.owned).count s +
    (a.program.elim [] Program.owned).count s

/-- Only scopes that were given out are found, each once; the `held` are counted in. -/
def Owns (held : List Scope) (a : Assembly) : Prop :=
  ∀ s, held.count s + a.countOf s ≤ if s.id < a.nextScope then 1 else 0

theorem owns_start : Owns [] {} := fun _ => Nat.zero_le _

theorem Owns.mono {held held' : List Scope} {a b : Assembly} (h : Owns held a)
    (hnext : b.nextScope = a.nextScope)
    (hcount : ∀ s, held'.count s + b.countOf s ≤ held.count s + a.countOf s) : Owns held' b := by
  intro s
  rw [hnext]
  exact Nat.le_trans (hcount s) (h s)

/-- A step that needs the scopes `spent`, and from which those `gained` come out. -/
def Yields {α : Type} (act : AssembleM α) (spent : List Scope) (gained : α → List Scope) : Prop :=
  ∀ ⦃a : Assembly⦄ ⦃held : List Scope⦄, Owns (spent ++ held) a →
    Leads act a (fun x b => Owns (gained x ++ held) b) fun _ _ => True

namespace Yields

variable {α β : Type} {spent : List Scope} {gained : α → List Scope}

theorem pure (x : α) (h : spent = gained x) : Yields (Pure.pure x) spent gained := by
  subst h
  exact fun _ _ howns => howns

theorem fail (cause : Cause) : Yields (Assembly.fail cause) spent gained := fun _ _ _ => trivial

theorem bind {act : AssembleM α} {next : α → AssembleM β} {last : β → List Scope}
    (h : Yields act [] gained) (hnext : ∀ x, Yields (next x) (spent ++ gained x) last) :
    Yields (act >>= next) spent last := by
  intro a held howns
  have hclaim : Leads act a (fun x b => Owns (gained x ++ (spent ++ held)) b) fun _ _ => True :=
    h howns
  refine Leads.bind (hclaim.mono (fun x b hb => ?_) fun _ _ => id)
  refine hnext x (hb.mono rfl fun s => ?_)
  simp only [List.count_append]
  omega

end Yields

theorem yields_freshScope : Yields freshScope [] fun s => [s] := by
  intro a held h s
  have hs := h s
  simp only [List.nil_append, List.singleton_append, List.count_cons, beq_iff_eq] at hs ⊢
  change _ + countOf a s ≤ if s.id < a.nextScope + 1 then 1 else 0
  by_cases hnew : (⟨a.nextScope⟩ : Scope) = s
  · subst hnew
    simp only [Nat.lt_irrefl, if_false, if_true, Nat.lt_succ_self] at hs ⊢
    omega
  · have hid : s.id ≠ a.nextScope := by
      rintro hid
      exact hnew (by rw [← hid])
    rw [if_neg hnew]
    split at hs <;> split <;> omega

theorem yields_keep (id : Serial) (node : Node) : Yields (keep id node) node.owned fun _ => [] := by
  intro a held h
  refine h.mono rfl fun s => ?_
  have hinsert := a.pending.countIn_insert_le Node.owned id node s
  simp only [countOf, List.nil_append, List.count_append]
  omega

theorem yields_take (id : Serial) : Yields (take id) [] Node.owned := by
  intro a held h
  refine Leads.bind (leads_get ?_)
  cases hnode : a.pending.get? id with
  | none => exact trivial
  | some node =>
    refine h.mono rfl fun s => ?_
    have herase := Keyed.countIn_erase_of_get? Node.owned hnode s
    simp only [countOf, List.nil_append, List.count_append]
    omega

theorem yields_takeExpr (id : Serial) : Yields (takeExpr id) [] fun _ => [] := by
  refine (yields_take id).bind fun node => ?_
  cases node with
  | expr e => exact .pure e rfl
  | _ => exact .fail _

theorem yields_takeStmt (id : Serial) : Yields (takeStmt id) [] Stmt.scopes := by
  refine (yields_take id).bind fun node => ?_
  cases node with
  | statement s => exact .pure s rfl
  | _ => exact .fail _

theorem yields_takeBlock (id : Serial) : Yields (takeBlock id) [] Block.scopes := by
  refine (yields_take id).bind fun node => ?_
  cases node with
  | block b => exact .pure b rfl
  | _ => exact .fail _

theorem yields_takeFunction (id : Serial) : Yields (takeFunction id) [] Function.scopes := by
  refine (yields_take id).bind fun node => ?_
  cases node with
  | function f => exact .pure f rfl
  | _ => exact .fail _

theorem yields_takeAll {α : Type} {claim : Serial → AssembleM α} {scopes : α → List Scope}
    (h : ∀ id, Yields (claim id) [] scopes) (ids : List Serial) :
    Yields (takeAll claim ids) [] fun xs => xs.flatMap scopes := by
  induction ids with
  | nil => exact .pure [] rfl
  | cons id ids ih => exact (h id).bind fun x => ih.bind fun xs => .pure (x :: xs) rfl

theorem yields_addStmt (id : Serial) (stmt : Stmt) :
    Yields (addStmt id stmt) stmt.scopes fun _ => [] := by
  intro a held h
  refine Leads.bind (leads_get ?_)
  cases hblocks : a.blocks with
  | nil => exact yields_keep id (.statement stmt) h
  | cons b bs =>
    refine h.mono rfl fun s => ?_
    have hpush := b.count_owned_push stmt s
    simp only [countOf, hblocks, List.nil_append, List.flatMap_cons, List.count_append, hpush]
    omega

theorem yields_openBlock (id : Serial) (d : Nat) : Yields (openBlock id d) [] fun _ => [] := by
  refine yields_freshScope.bind fun scope a held h => ?_
  refine h.mono rfl fun s => ?_
  simp only [countOf, List.nil_append, List.flatMap_cons, List.count_append, OpenBlock.owned,
    OpenBlock.close, Block.scopes, Stmt.scopesAll]
  omega

theorem yields_closeBlock (id : Serial) : Yields (closeBlock id) [] fun _ => [] := by
  intro a held h
  refine Leads.bind (leads_get ?_)
  cases hblocks : a.blocks with
  | nil => exact trivial
  | cons b bs =>
    have hclosed : Owns (b.close.scopes ++ held) { a with blocks := bs } := by
      refine h.mono rfl fun s => ?_
      simp only [countOf, hblocks, OpenBlock.owned, List.nil_append, List.flatMap_cons,
        List.count_append]
      omega
    refine Leads.bind ?_
    change Leads (if b.id = id then _ else _) { a with blocks := bs } _ _
    split
    · exact yields_keep id (.block b.close) hclosed
    · exact trivial

theorem yields_program (d : Nat) (ss fs : List Serial) :
    Yields (buildProgram d ss fs) [] fun _ => [] := by
  refine yields_freshScope.bind fun scope => ?_
  refine (yields_takeAll yields_takeStmt ss).bind fun ss' => ?_
  refine (yields_takeAll yields_takeFunction fs).bind fun fs' => fun a held h => ?_
  refine h.mono rfl fun s => ?_
  simp only [countOf, Option.elim, Program.owned, Stmt.scopesAll_eq_flatMap, List.nil_append,
    List.count_append]
  omega

theorem yields_conditional (id : Serial) (d : Nat) (condition : Serial) (blocks : List Serial) :
    Yields (buildConditional id d condition blocks) [] fun _ => [] := by
  refine (yields_takeExpr condition).bind fun e => ?_
  match blocks with
  | [] => exact .fail _
  | [yes] => exact (yields_takeBlock yes).bind fun _ => yields_addStmt id _
  | [yes, no] =>
    exact (yields_takeBlock yes).bind fun _ => (yields_takeBlock no).bind fun _ =>
      yields_addStmt id _
  | yes :: no :: _ :: _ =>
    exact (yields_takeBlock yes).bind fun _ => (yields_takeBlock no).bind fun _ => .fail _

theorem yields_assignment (id : Serial) (d : Nat) (target value : Serial) :
    Yields (buildAssignment id d target value) [] fun _ => [] := by
  refine (yields_takeExpr target).bind fun e => ?_
  cases e with
  | var tag name => exact (yields_takeExpr value).bind fun _ => yields_addStmt id _
  | _ => exact .fail _

theorem yields_test (id : Serial) (d : Nat) (call expected : Serial) :
    Yields (buildTest id d call expected) [] fun _ => [] := by
  refine (yields_takeExpr call).bind fun e => ?_
  cases e with
  | call tag name arguments => exact (yields_takeExpr expected).bind fun _ => yields_addStmt id _
  | _ => exact .fail _

theorem yields_function (id : Serial) (d : Nat) (name : Token)
    (parameters : List (Token × Option DataType)) (result : Option DataType) (body : Serial) :
    Yields (buildFunction id d name parameters result body) [] fun _ => [] := by
  refine (yields_takeBlock body).bind fun b => ?_
  refine yields_freshScope.bind fun scope a held h => ?_
  refine yields_keep id _ (h.mono rfl fun s => ?_)
  simp only [Node.owned, Function.scopes, List.nil_append, List.count_append, List.count_cons,
    List.count_nil]
  omega

theorem yields_literal (id : Serial) (d : Nat) (token : Token) :
    Yields (handle ⟨id, d, .literal token⟩) [] fun _ => [] := by
  intro a held h
  change Leads (liftExcept (literal token) >>= fun v => keep id (.expr (.ofLiteral d v))) a _ _
  cases literal token with
  | ok v => exact yields_keep id (.expr (.ofLiteral d v)) h
  | error f => exact trivial

theorem yields_handle (e : Event) : Yields (handle e) [] fun _ => [] := by
  obtain ⟨id, d, kind⟩ := e
  cases kind with
  | enterBlock => exact yields_openBlock id d
  | exitBlock => exact yields_closeBlock id
  | program ss fs => exact yields_program d ss fs
  | literal token => exact yields_literal id d token
  | function name parameters result body => exact yields_function id d name parameters result body
  | assignment target value => exact yields_assignment id d target value
  | conditional condition blocks => exact yields_conditional id d condition blocks
  | test call expected => exact yields_test id d call expected
  | loop guard body =>
    exact (yields_takeExpr guard).bind fun _ => (yields_takeBlock body).bind fun _ =>
      yields_addStmt id _
  | ret value => exact (yields_takeExpr value).bind fun _ => yields_addStmt id _
  | brk => exact yields_addStmt id (.brk d)
  | cont => exact yields_addStmt id (.cont d)
  | expr inner => exact (yields_takeExpr inner).bind fun _ => yields_keep id (.expr _)
  | unary _ operand => exact (yields_takeExpr operand).bind fun _ => yields_keep id (.expr _)
  | binary operator left right =>
    exact (yields_takeExpr left).bind fun _ => (yields_takeExpr right).bind fun _ =>
      yields_keep id (.expr _)
  | call name arguments =>
    refine (yields_takeAll yields_takeExpr arguments).bind fun es => ?_
    have hnone : es.flatMap (fun _ => ([] : List Scope)) = [] := by simp
    rw [hnone]
    exact yields_keep id (.expr _)
  | var name => exact yields_keep id (.expr _)

theorem Owns.acceptAll {a b : Assembly} {es : List Event} (h : Owns [] a)
    (hb : a.acceptAll es = .ok b) : Owns [] b := by
  induction es generalizing a with
  | nil =>
    obtain rfl := Except.ok.inj hb
    exact h
  | cons e es ih =>
    obtain ⟨c, hc, hb⟩ := exists_of_acceptAll_cons hb
    exact ih ((yields_handle e h).ok_of hc) hb

end Assembly

theorem Program.distinct_of_ofEvents {es : List Event} {p : Program}
    (h : Program.ofEvents es = .ok p) : p.Distinct := by
  obtain ⟨a, ha, -, hprogram⟩ := exists_assembly_of_ofEvents h
  have howns := Assembly.owns_start.acceptAll ha
  refine List.nodup_iff_count_le_one.2 fun s => ?_
  have hs := howns s
  simp only [Assembly.countOf, hprogram, Option.elim, Program.owned] at hs
  split at hs <;> omega

end TinyScript
