import TinyScript.Proofs.Assembly.Program
import TinyScript.Proofs.Stream.Construct

/-! What one event does where the pieces it names are waiting: it claims them, and puts what it
makes of them where it belongs. Which scopes the pieces have does not matter. -/

namespace TinyScript

namespace Node

variable {n : Node}

theorem unscoped_eq_expr {e : Expr} (h : n.unscoped = .expr e) : n = .expr e := by
  cases n with
  | expr e' => exact h
  | _ => cases h

theorem unscoped_eq_block {b : Block} (h : n.unscoped = .block b) :
    ∃ b', n = .block b' ∧ b'.unscoped = b := by
  cases n with
  | block b' => exact ⟨b', rfl, Node.block.inj h⟩
  | _ => cases h

theorem unscoped_eq_statement {s : Stmt} (h : n.unscoped = .statement s) :
    ∃ s', n = .statement s' ∧ s'.unscoped = s := by
  cases n with
  | statement s' => exact ⟨s', rfl, Node.statement.inj h⟩
  | _ => cases h

theorem unscoped_eq_function {f : Function} (h : n.unscoped = .function f) :
    ∃ f', n = .function f' ∧ f'.unscoped = f := by
  cases n with
  | function f' => exact ⟨f', rfl, Node.function.inj h⟩
  | _ => cases h

end Node

theorem Token.Writes.literal_eq {t : Token} {v : Literal} (h : t.Writes v) :
    Assembly.literal t = .ok v := by
  cases h with
  | bool h => simp [Assembly.literal, h]
  | int h hn => simp [Assembly.literal, h, hn]
  | str h => simp [Assembly.literal, h]

namespace Assembly

variable {a : Assembly}

def Holds (a : Assembly) (id : Serial) (m : Node) : Prop :=
  ∃ n, a.pending.get? id = some n ∧ n.unscoped = m

theorem Holds.withoutAll {id : Serial} {ids : List Serial} {m : Node} (h : a.Holds id m)
    (hid : id ∉ ids) : (a.withoutAll ids).Holds id m := by
  obtain ⟨n, hn, hm⟩ := h
  exact ⟨n, (Keyed.get?_eraseAll hid).trans hn, hm⟩

theorem withoutAll_nil (a : Assembly) : a.withoutAll [] = a := by simp [Assembly.withoutAll]

theorem without_eq_withoutAll (a : Assembly) (id : Serial) : a.without id = a.withoutAll [id] := by
  rw [← without_withoutAll, withoutAll_nil]

theorem Holds.without {id id' : Serial} {m : Node} (h : a.Holds id m) (hid : id ≠ id') :
    (a.without id').Holds id m := by
  rw [without_eq_withoutAll]
  exact h.withoutAll (by simpa using hid)

theorem Holds.takeExpr {id : Serial} {e : Expr} (h : a.Holds id (.expr e)) :
    outcome (takeExpr id) a = (.ok e, a.without id) := by
  obtain ⟨n, hn, hm⟩ := h
  exact outcome_takeExpr (Node.unscoped_eq_expr hm ▸ hn)

theorem Holds.takeBlock {id : Serial} {b : Block} (h : a.Holds id (.block b)) :
    ∃ b', b'.unscoped = b ∧ outcome (takeBlock id) a = (.ok b', a.without id) := by
  obtain ⟨n, hn, hm⟩ := h
  obtain ⟨b', rfl, hb⟩ := Node.unscoped_eq_block hm
  exact ⟨b', hb, outcome_takeBlock hn⟩

theorem exists_entries {α : Type} {node : α → Node} (strip : α → α)
    (hnode : ∀ {n x}, n.unscoped = node x → ∃ y, n = node y ∧ strip y = x) {ids : List Serial}
    {xs : List α} (h : List.Forall₂ a.Holds ids (xs.map node)) :
    ∃ l : List (Serial × α), l.map Prod.fst = ids ∧ (l.map Prod.snd).map strip = xs ∧
      ∀ p ∈ l, a.pending.get? p.1 = some (node p.2) := by
  induction ids generalizing xs with
  | nil =>
    have hxs : xs = [] := by simpa using h
    exact ⟨[], rfl, by simp [hxs], by simp⟩
  | cons id ids ih =>
    cases xs with
    | nil => cases h
    | cons x xs =>
      obtain ⟨⟨n, hn, hx⟩, hrest⟩ := List.forall₂_cons.1 h
      obtain ⟨y, rfl, hy⟩ := hnode hx
      obtain ⟨l, hids, hxs, hl⟩ := ih hrest
      exact ⟨(id, y) :: l, by simp [hids], by simp [hy, hxs], List.forall_mem_cons.2 ⟨hn, hl⟩⟩

def stored (a : Assembly) (id : Serial) : Node → Assembly
  | .statement s =>
    match a.blocks with
    | b :: bs => { a with blocks := b.push s :: bs }
    | [] => { a with pending := a.pending.insert id (.statement s) }
  | n => { a with pending := a.pending.insert id n }

theorem nextScope_stored (a : Assembly) (id : Serial) (n : Node) :
    (a.stored id n).nextScope = a.nextScope := by
  obtain ⟨pending, blocks, program, nextScope⟩ := a
  cases n with
  | statement s => cases blocks <;> rfl
  | _ => rfl

theorem outcome_addStmt_stored (a : Assembly) (id : Serial) (s : Stmt) :
    outcome (addStmt id s) a = (.ok (), a.stored id (.statement s)) := by
  obtain ⟨pending, blocks, program, nextScope⟩ := a
  cases blocks <;> rfl

theorem openIds_stored (a : Assembly) (id : Serial) (n : Node) :
    (a.stored id n).openIds = a.openIds := by
  obtain ⟨pending, blocks, program, nextScope⟩ := a
  cases n with
  | statement s => cases blocks <;> rfl
  | _ => rfl

theorem Holds.stored {id id' : Serial} {m : Node} (h : a.Holds id m) (hid : id ≠ id') (n : Node) :
    (a.stored id' n).Holds id m := by
  obtain ⟨n', hn', hm⟩ := h
  have hinsert : (a.pending.insert id' n).get? id = some n' := by
    rw [Keyed.get?_insert, if_neg hid, hn']
  obtain ⟨pending, blocks, program, nextScope⟩ := a
  cases n with
  | statement s =>
    cases blocks with
    | nil => exact ⟨n', hinsert, hm⟩
    | cons b bs => exact ⟨n', hn', hm⟩
  | _ => exact ⟨n', hinsert, hm⟩

theorem stored_eq_of_waits {n : Node} (h : n.construct = .statement → a.blocks = []) (id : Serial) :
    a.stored id n = { a with pending := a.pending.insert id n } := by
  cases n with
  | statement s =>
    have hblocks := h rfl
    simp [Assembly.stored, hblocks]
  | _ => rfl

theorem outcome_closeBlock {b : OpenBlock} {bs : List OpenBlock} (h : a.blocks = b :: bs) :
    outcome (closeBlock b.id) a =
      (.ok (), { a with blocks := bs, pending := a.pending.insert b.id (.block b.close) }) := by
  obtain ⟨pending, blocks, program, nextScope⟩ := a
  obtain rfl : blocks = b :: bs := h
  rw [closeBlock, outcome_bind_ok (outcome_get _)]
  simp only [outcome_bind_ok (outcome_set _ _), if_true]
  rfl

def Completes (e : Event) (a : Assembly) (m : Node) : Prop :=
  ∃ n k, n.unscoped = m ∧
    outcome (handle e) a = (.ok (), ((a.withoutAll e.named).withScopes k).stored e.id n)

section Completes

variable {i d : Nat}

theorem holds_two {x y : Serial} {m n : Node} (h : List.Forall₂ a.Holds [x, y] [m, n])
    (hnodup : [x, y].Nodup) : a.Holds x m ∧ a.Holds y n ∧ y ≠ x := by
  obtain ⟨hx, hy⟩ := List.forall₂_cons.1 h
  have hne : x ≠ y := by simpa using hnodup
  exact ⟨hx, (List.forall₂_cons.1 hy).1, hne.symm⟩

theorem completes_function {name : Token} {parameters : List (Token × Option DataType)}
    {result : Option DataType} {body : Serial} {b : Block} (h : a.Holds body (.block b)) :
    Completes ⟨i, d, .function name parameters result body⟩ a (.function ⟨name.value,
      parameters.map fun p => ⟨p.1.value, p.2.getD .unknown⟩, result.getD .unknown, b, d,
      ⟨0⟩⟩) := by
  obtain ⟨b', rfl, htake⟩ := h.takeBlock
  refine ⟨.function ⟨name.value, parameters.map parameter, result.getD .unknown, b', d,
    ⟨a.nextScope⟩⟩, 1, rfl, ?_⟩
  change outcome (buildFunction i d name parameters result body) a = _
  rw [buildFunction, outcome_bind_ok htake, without_eq_withoutAll]
  rfl

theorem completes_assignment {target value : Serial} {tag : Tag} {name : String} {v : Expr}
    (htarget : a.Holds target (.expr (.var tag name))) (hvalue : a.Holds value (.expr v))
    (hne : value ≠ target) :
    Completes ⟨i, d, .assignment target value⟩ a (.statement (.assign d (.var tag name) v)) := by
  refine ⟨.statement (.assign d (.var tag name) v), 0, rfl, ?_⟩
  change outcome (buildAssignment i d target value) a = _
  rw [buildAssignment, outcome_bind_ok htarget.takeExpr,
    outcome_bind_ok (hvalue.without hne).takeExpr, without_eq_withoutAll, without_withoutAll]
  exact outcome_addStmt_stored _ i _

theorem completes_ifThen {condition yes : Serial} {c : Expr} {y : Block}
    (hcondition : a.Holds condition (.expr c)) (hyes : a.Holds yes (.block y))
    (hne : yes ≠ condition) :
    Completes ⟨i, d, .conditional condition [yes]⟩ a (.statement (.ifThen d c y)) := by
  obtain ⟨y', rfl, htake⟩ := (hyes.without hne).takeBlock
  refine ⟨.statement (.ifThen d c y'), 0, rfl, ?_⟩
  change outcome (buildConditional i d condition [yes]) a = _
  rw [buildConditional, outcome_bind_ok hcondition.takeExpr, outcome_bind_ok htake,
    without_eq_withoutAll, without_withoutAll]
  exact outcome_addStmt_stored _ i _

theorem completes_ifElse {condition yes no : Serial} {c : Expr} {y n : Block}
    (hcondition : a.Holds condition (.expr c)) (hyes : a.Holds yes (.block y))
    (hno : a.Holds no (.block n)) (hnodup : [condition, yes, no].Nodup) :
    Completes ⟨i, d, .conditional condition [yes, no]⟩ a (.statement (.ifElse d c y n)) := by
  simp only [List.nodup_cons, List.mem_cons, List.not_mem_nil, or_false, not_or] at hnodup
  obtain ⟨⟨hcy, hcn⟩, hyn, -⟩ := hnodup
  obtain ⟨y', rfl, hy⟩ := (hyes.without (Ne.symm hcy)).takeBlock
  obtain ⟨n', rfl, hn⟩ := ((hno.without (Ne.symm hcn)).without (Ne.symm hyn)).takeBlock
  refine ⟨.statement (.ifElse d c y' n'), 0, rfl, ?_⟩
  change outcome (buildConditional i d condition [yes, no]) a = _
  rw [buildConditional, outcome_bind_ok hcondition.takeExpr, outcome_bind_ok hy, outcome_bind_ok hn,
    without_eq_withoutAll, without_withoutAll, without_withoutAll]
  exact outcome_addStmt_stored _ i _

theorem completes_loop {guard body : Serial} {g : Expr} {b : Block}
    (hguard : a.Holds guard (.expr g)) (hbody : a.Holds body (.block b)) (hne : body ≠ guard) :
    Completes ⟨i, d, .loop guard body⟩ a (.statement (.loop d g b)) := by
  obtain ⟨b', rfl, htake⟩ := (hbody.without hne).takeBlock
  refine ⟨.statement (.loop d g b'), 0, rfl, ?_⟩
  rw [handle, outcome_bind_ok hguard.takeExpr, outcome_bind_ok htake, without_eq_withoutAll,
    without_withoutAll]
  exact outcome_addStmt_stored _ i _

theorem completes_ret {value : Serial} {v : Expr} (h : a.Holds value (.expr v)) :
    Completes ⟨i, d, .ret value⟩ a (.statement (.ret d v)) := by
  refine ⟨.statement (.ret d v), 0, rfl, ?_⟩
  rw [handle, outcome_bind_ok h.takeExpr, without_eq_withoutAll]
  exact outcome_addStmt_stored _ i _

theorem completes_test {call expected : Serial} {tag : Tag} {name : String} {arguments : List Expr}
    {v : Expr} (hcall : a.Holds call (.expr (.call tag name arguments)))
    (hexpected : a.Holds expected (.expr v)) (hne : expected ≠ call) :
    Completes ⟨i, d, .test call expected⟩ a
      (.statement (.test d (.call tag name arguments) v)) := by
  refine ⟨.statement (.test d (.call tag name arguments) v), 0, rfl, ?_⟩
  change outcome (buildTest i d call expected) a = _
  rw [buildTest, outcome_bind_ok hcall.takeExpr,
    outcome_bind_ok (hexpected.without hne).takeExpr, without_eq_withoutAll, without_withoutAll]
  exact outcome_addStmt_stored _ i _

theorem completes_expr {inner : Serial} {v : Expr} (h : a.Holds inner (.expr v)) :
    Completes ⟨i, d, .expr inner⟩ a (.expr (v.withDepth d)) := by
  refine ⟨.expr (v.withDepth d), 0, rfl, ?_⟩
  rw [handle, outcome_bind_ok h.takeExpr, without_eq_withoutAll]
  rfl

theorem completes_binary {operator : Token} {left right : Serial} {l r : Expr}
    (hleft : a.Holds left (.expr l)) (hright : a.Holds right (.expr r)) (hne : right ≠ left) :
    Completes ⟨i, d, .binary operator left right⟩ a
      (.expr (.binary (.untyped d) (.ofSymbol operator.value) l r)) := by
  refine ⟨.expr (.binary (.untyped d) (.ofSymbol operator.value) l r), 0, rfl, ?_⟩
  rw [handle, outcome_bind_ok hleft.takeExpr, outcome_bind_ok (hright.without hne).takeExpr,
    without_eq_withoutAll, without_withoutAll]
  rfl

theorem completes_unary {operator : Token} {operand : Serial} {v : Expr}
    (h : a.Holds operand (.expr v)) :
    Completes ⟨i, d, .unary operator operand⟩ a
      (.expr (.unary (.untyped d) (.ofSymbol operator.value) v)) := by
  refine ⟨.expr (.unary (.untyped d) (.ofSymbol operator.value) v), 0, rfl, ?_⟩
  rw [handle, outcome_bind_ok h.takeExpr, without_eq_withoutAll]
  rfl

theorem named_call (name : Token) (arguments : List Serial) :
    Event.named ⟨i, d, .call name arguments⟩ = arguments := by
  simp [Event.named, EventKind.parts, Function.comp_def]

theorem completes_call {name : Token} {arguments : List Serial} {vs : List Expr}
    (h : List.Forall₂ a.Holds arguments (vs.map .expr)) (hnodup : arguments.Nodup) :
    Completes ⟨i, d, .call name arguments⟩ a (.expr (.call (.untyped d) name.value vs)) := by
  obtain ⟨l, rfl, hvs, hl⟩ := exists_entries (fun e => e)
    (fun h => ⟨_, Node.unscoped_eq_expr h, rfl⟩) h
  rw [List.map_id'] at hvs
  refine ⟨.expr (.call (.untyped d) name.value vs), 0, rfl, ?_⟩
  rw [handle, outcome_bind_ok (outcome_takeAll outcome_takeExpr l hnodup a hl), hvs, named_call]
  rfl

theorem completes_of_stored {e : Event} {n : Node} (hnamed : e.named = [])
    (h : outcome (handle e) a = (.ok (), a.stored e.id n)) : Completes e a n.unscoped := by
  refine ⟨n, 0, rfl, ?_⟩
  rw [hnamed, withoutAll_nil]
  exact h

theorem completes_literal {token : Token} {v : Literal} (h : token.Writes v) :
    Completes ⟨i, d, .literal token⟩ a (.expr (.ofLiteral d v)) := by
  have hvalue : outcome (liftExcept (literal token) : AssembleM Literal) a = (.ok v, a) := by
    rw [h.literal_eq]
    rfl
  have hstored : outcome (handle ⟨i, d, .literal token⟩) a =
      (.ok (), a.stored i (.expr (.ofLiteral d v))) := by
    rw [handle, outcome_bind_ok hvalue]
    rfl
  exact completes_of_stored rfl hstored

end Completes

theorem acceptAll_concat {b c : Assembly} {es : List Event} {e : Event} (h : a.acceptAll es = .ok b)
    (he : outcome (handle e) b = (.ok (), c)) : a.acceptAll (es ++ [e]) = .ok c := by
  have haccept : b.accept e = (.ok (), c) := he
  rw [acceptAll_append, h]
  change b.acceptAll [e] = .ok c
  rw [acceptAll, haccept]
  rfl

end Assembly

theorem Program.ofEvents_of_acceptAll {es : List Event} {a : Assembly} {p : Program}
    (h : Assembly.acceptAll {} es = .ok a) (hblocks : a.blocks = []) (hp : a.program = some p) :
    Program.ofEvents es = .ok p := by
  have hfinish : a.finish = .ok p := by simp [Assembly.finish, hblocks, hp]
  simp only [Program.ofEvents, h, bind, Except.bind, hfinish]

open Assembly

theorem Event.Makes.completes {a : Assembly} {e : Event} {ms : List Node} {m : Node}
    (h : e.Makes ms m) (hparts : List.Forall₂ a.Holds e.named ms) (hnodup : e.named.Nodup) :
    Completes e a m := by
  obtain ⟨i, d, kind⟩ := e
  cases h with
  | function h =>
    cases h
    exact completes_function (List.forall₂_cons.1 hparts).1
  | assignment h =>
    cases h
    obtain ⟨htarget, hvalue, hne⟩ := holds_two hparts hnodup
    exact completes_assignment htarget hvalue hne
  | ifThen h =>
    cases h
    obtain ⟨hcondition, hyes, hne⟩ := holds_two hparts hnodup
    exact completes_ifThen hcondition hyes hne
  | ifElse h =>
    cases h
    obtain ⟨hcondition, hparts⟩ := List.forall₂_cons.1 hparts
    obtain ⟨hyes, hparts⟩ := List.forall₂_cons.1 hparts
    exact completes_ifElse hcondition hyes (List.forall₂_cons.1 hparts).1 hnodup
  | loop h =>
    cases h
    obtain ⟨hguard, hbody, hne⟩ := holds_two hparts hnodup
    exact completes_loop hguard hbody hne
  | ret h =>
    cases h
    exact completes_ret (List.forall₂_cons.1 hparts).1
  | brk h =>
    cases h
    exact completes_of_stored (n := .statement (.brk d)) rfl (outcome_addStmt_stored a i _)
  | cont h =>
    cases h
    exact completes_of_stored (n := .statement (.cont d)) rfl (outcome_addStmt_stored a i _)
  | test h =>
    cases h
    obtain ⟨hcall, hexpected, hne⟩ := holds_two hparts hnodup
    exact completes_test hcall hexpected hne
  | expr h =>
    cases h
    exact completes_expr (List.forall₂_cons.1 hparts).1
  | binary h =>
    cases h
    obtain ⟨hleft, hright, hne⟩ := holds_two hparts hnodup
    exact completes_binary hleft hright hne
  | unary h =>
    cases h
    exact completes_unary (List.forall₂_cons.1 hparts).1
  | call h hms =>
    cases h
    rw [named_call] at hparts hnodup
    exact completes_call (hms ▸ hparts) hnodup
  | @var name h =>
    cases h
    exact completes_of_stored (n := .expr (.var (.untyped d) name.value)) rfl rfl
  | literal h hv =>
    cases h
    exact completes_literal hv

end TinyScript
