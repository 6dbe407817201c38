import TinyScript.Grammar.Goal
import TinyScript.Proofs.Derivation.UniqueProgram
import TinyScript.Proofs.Reading.TypeName

/-! What each goal of the grammar yields when it is read: the tokens and events of a derivation of
its nonterminal. A way to read goals is sound if every reading yields this, or breaks off within
it. -/

namespace TinyScript

namespace Level

def power : Level → Power
  | logical => .logical
  | relational => .relational
  | additive => .additive
  | multiplicative => .multiplicative
  | unary => .unary
  | primary => .primary

end Level

namespace Power

def above : Power → Level
  | lowest => .logical
  | logical => .relational
  | relational => .additive
  | additive => .multiplicative
  | multiplicative => .unary
  | unary => .unary
  | primary => .unary

theorem le_iff {p q : Power} : p ≤ q ↔ p.rank ≤ q.rank := Iff.rfl

theorem rank_above_le (p : Power) : p.above.rank ≤ p.rank + 1 := by cases p <;> decide

end Power

namespace Level

@[simp] theorem rank_power (l : Level) : l.power.rank = l.rank := by cases l <;> rfl

theorem above_power {l : Level} (op : Leaf l.kinds) : l.power.above = l.next := by
  cases l with
  | unary | primary => exact absurd op.mem List.not_mem_nil
  | _ => rfl

end Level

theorem TokenKind.exists_level {k : TokenKind} (h : k.joinRank ≠ 0) :
    ∃ l : Level, k ∈ l.kinds ∧ l.power = Grammar.standard.power k := by
  cases k with
  | or | and => exact ⟨.logical, by decide, rfl⟩
  | less | lessEquals | greater | greaterEquals | equals | notEquals =>
    exact ⟨.relational, by decide, rfl⟩
  | plus | dash => exact ⟨.additive, by decide, rfl⟩
  | star | slash | percent => exact ⟨.multiplicative, by decide, rfl⟩
  | _ => exact absurd rfl h

namespace ExprTree

structure Alike {l m : Level} (e : ExprTree (.level l)) (e' : ExprTree (.level m)) : Prop where
  tokens : e.tokens = e'.tokens
  count : e.count = e'.count
  events : e.events = e'.events

theorem exists_alike {l m : Level} (h : m.rank ≤ l.rank) (e : ExprTree (.level l)) :
    ∃ e' : ExprTree (.level m), Alike e' e := by
  obtain ⟨k, hk⟩ := Nat.exists_eq_add_of_le h
  induction k generalizing m with
  | zero =>
    have hlm : l = m := by cases l <;> cases m <;> first | rfl | exact absurd hk (by decide)
    subst hlm
    exact ⟨e, rfl, rfl, rfl⟩
  | succ k ih =>
    have hm : m ≠ .primary := by
      rintro rfl
      cases l <;> simp only [Level.rank] at hk <;> omega
    have hr := Level.rank_next hm
    obtain ⟨e', ht, hn, he⟩ := ih (m := m.next) (by omega) (by omega)
    refine ⟨.tighter hm e', ht, hn, ?_⟩
    rw [← he]
    rfl

end ExprTree

/-- The yield of a construct: its tokens, its events, how many numbers they take, and its own. -/
structure Yield where
  tokens : List Token
  events : List Event
  count : Nat
  root : Nat

def Yield.after (ts : List Token) (es : List Event) (n : Nat) (y : Yield) : Yield :=
  ⟨ts ++ y.tokens, es ++ y.events, n + y.count, y.root⟩

/-- The operators stronger than `power` that go on from the expression `left` at the token `t`: put
after any tree of the number `left` that is as tight as `t` at least, they make a larger tree. -/
def Extends (power : Power) (left i d : Nat) (t : Token) (y : Yield) : Prop :=
  ∀ (l : Level) (e : ExprTree (.level l)) (j : Nat), power.above.rank ≤ l.rank →
    t.kind.joinRank ≤ l.rank → e.root j = left → j + e.count = i →
    ∃ e' : ExprTree (.level power.above), e'.tokens = e.tokens ++ y.tokens ∧
      e'.events j d = e.events j d ++ y.events ∧ e'.count = e.count + y.count ∧ y.root = e'.root j

namespace Goal

def Yields (goal : Goal) (i d : Nat) (t : Token) (y : Yield) : Prop :=
  match goal with
  | .rule .fullExpr => ∃ e : FullExpr, y = ⟨e.tokens, e.fullEvents i d, e.count + 1, i + e.count⟩
  | .rule .primary | .rule .negation | .rule .grouping =>
    ∃ e : ExprTree (.level .unary), y = ⟨e.tokens, e.events i d, e.count, e.root i⟩
  | .rule .statement =>
    ∃ s : StmtTree .statement, y = ⟨s.tokens, s.events i (d + 1), s.count, s.root i⟩
  | .rule .block => ∃ b : StmtTree .block, y = ⟨b.tokens, b.events i (d + 1), b.count, i⟩
  | .rule .function =>
    ∃ f : FunctionTree, y = ⟨f.tokens, f.events i (d + 1), f.count, i + f.body.count⟩
  | .rule .assignment | .rule .conditional | .rule .loop | .rule .ret | .rule .brk | .rule .cont
  | .rule .test => ∃ s : StmtTree .statement, y = ⟨s.tokens, s.events i d, s.count, s.root i⟩
  | .expr power =>
    ∃ e : ExprTree (.level power.above), y = ⟨e.tokens, e.events i (d + 1), e.count, e.root i⟩
  | .operators power left => Extends power left i d t y
  | .binary left power => ∃ (l : Level) (op : Leaf l.kinds) (right : ExprTree (.level l.next)),
      l.power = power ∧ y = ⟨op.token :: right.tokens, right.events i (d + 1) ++
        [⟨i + right.count, d, .binary op.token left (right.root i)⟩], right.count + 1,
        i + right.count⟩
  | .call name => ∃ (opening : Leaf [.openParen]) (arguments : ExprTree .arguments)
      (closing : Leaf [.closeParen]),
      y = ⟨opening.token :: (arguments.tokens ++ [closing.token]), arguments.events i d ++
        [⟨i + arguments.count, d, .call name (arguments.ids i)⟩], arguments.count + 1,
        i + arguments.count⟩
  | .arguments name done => ∃ (arguments : ExprTree .arguments) (closing : Leaf [.closeParen]),
      (arguments = .none ↔ t.kind = .closeParen) ∧
      y = ⟨arguments.tokens ++ [closing.token], arguments.events i d ++
        [⟨i + arguments.count, d, .call name (done ++ arguments.ids i)⟩], arguments.count + 1,
        i + arguments.count⟩
  | .statements block => ∃ (body : StmtTree .body) (closing : Leaf [.closeCurly]),
      y = ⟨body.tokens ++ [closing.token], body.events i (d + 1) ++ [⟨block, d, .exitBlock⟩],
        body.count, block⟩
  | .parameters name done => ∃ (parameters : ParametersTree) (closing : Leaf [.closeParen])
      (result : AnnotationTree .arrow) (body : StmtTree .block),
      (parameters = .none ↔ t.kind = .closeParen) ∧
      y = ⟨parameters.tokens ++ closing.token :: (result.tokens ++ body.tokens),
        body.events i (d + 1) ++ [⟨i + body.count, d,
          .function name (done ++ parameters.entries) result.type? i⟩], body.count + 1,
        i + body.count⟩
  | .program ss fs => ∃ items : List ItemTree,
      y = ⟨items.flatMap ItemTree.tokens, ItemTree.eventsAll items i (d + 1) ++
        [⟨i + ItemTree.countAll items, d, .program (ss ++ ItemTree.statementIds items i)
          (fs ++ ItemTree.functionIds items i)⟩], ItemTree.countAll items + 1,
        i + ItemTree.countAll items⟩

def Ready : Goal → Token → Prop
  | .rule .negation, t => t.kind ∈ [TokenKind.not, .dash]
  | .rule .grouping, t => t.kind ∈ [TokenKind.openParen]
  | .binary _ power, t => ∃ l : Level, t.kind ∈ l.kinds ∧ l.power = power
  | _, _ => True

def Ends : Goal → Token → Prop
  | .expr power, t | .operators power _, t | .binary _ power, t => t.kind.joinRank ≤ power.rank
  | .program _ _, t => t.kind = .eof
  | _, _ => True

def weight : Goal → Nat
  | .rule .fullExpr => 2
  | .rule .statement => 1
  | .rule _ => 0
  | .expr _ => 1
  | .operators _ _ => 1
  | .binary _ _ => 0
  | .call _ => 0
  | .arguments _ _ => 3
  | .statements _ => 2
  | .parameters _ _ => 0
  | .program _ _ => 2

theorem weight_lt (goal : Goal) : goal.weight < 64 := by
  unfold weight
  split <;> decide

/-- How many goals within goals are sure to be enough. -/
def cost (goal : Goal) (r : Reader) : Nat := 64 * r.upcoming.length + goal.weight

def Done (goal : Goal) (r : Reader) (id : Nat) (r' : Reader) : Prop :=
  ∃ y, goal.Yields r.nextId r.depth r.current y ∧ r.Passed r' y.tokens y.events y.count ∧
    id = y.root ∧ goal.Ends r'.current

/-- The events of a yield that may come from a reading that breaks off: the event of a program is
recorded when nothing can go wrong any more. -/
@[simp] def unfinished : Goal → Yield → List Event
  | .program _ _, y => y.events.dropLast
  | _, y => y.events

def Cut (goal : Goal) (room : Nat) (r : Reader) (e : Error) (r' : Reader) : Prop :=
  ∃ y, goal.Yields r.nextId r.depth r.current y ∧
    Reader.Halted (goal.cost r < room) r r' (goal.unfinished y) e

def ReadBy (goal : Goal) (room : Nat) (act : ReadM Serial) : Prop :=
  ∀ ⦃r : Reader⦄, r.Closed → goal.Ready r.current →
    Leads act r (fun id r' => goal.Done r id r') fun e r' => goal.Cut room r e r'

end Goal

theorem Goal.cost_lt (goal : Goal) {sub : Goal} {r₀ r : Reader} {ts : List Token} {es : List Event}
    {n room : Nat} (p : Reader.Passed r₀ r ts es n) (hw : ts ≠ [] ∨ sub.weight < goal.weight)
    (h : goal.cost r₀ < room + 1) : sub.cost r < room := by
  have hlen := p.length_upcoming
  have := sub.weight_lt
  unfold Goal.cost at h ⊢
  rcases hw with hts | hlt
  · have := List.length_pos_iff.2 hts
    omega
  · omega

namespace Reader

theorem leads_read {room : Nat} {read : Goal → ReadM Serial}
    (hread : ∀ sub : Goal, sub.ReadBy room (read sub)) (goal : Goal) {sub : Goal} {r₀ r : Reader}
    {ts : List Token} {es : List Event} {n : Nat} {ok : Serial → Reader → Prop}
    {bad : Error → Reader → Prop} (hc : r₀.Closed) (p : Passed r₀ r ts es n)
    (hw : ts ≠ [] ∨ sub.weight < goal.weight) (hr : sub.Ready r.current)
    (hok : ∀ y r', sub.Yields (r₀.nextId + n) r₀.depth r.current y →
      Passed r₀ r' (ts ++ y.tokens) (es ++ y.events) (n + y.count) → sub.Ends r'.current →
      ok y.root r')
    (hbad : ∀ y e r', sub.Yields (r₀.nextId + n) r₀.depth r.current y →
      Halted (goal.cost r₀ < room + 1) r₀ r' (es ++ sub.unfinished y) e → bad e r') :
    Leads (read sub) r ok bad := by
  refine (hread sub (p.closed hc) hr).mono ?_ ?_
  · rintro id r' ⟨y, hy, q, rfl, he⟩
    rw [p.nextId, p.depth] at hy
    exact hok y r' hy (p.trans q) he
  · rintro e r' ⟨y, hy, hh⟩
    rw [p.nextId, p.depth] at hy
    exact hbad y e r' hy (.after p hh (goal.cost_lt p hw))

theorem leads_rest {room : Nat} {read : Goal → ReadM Serial}
    (hread : ∀ sub : Goal, sub.ReadBy room (read sub)) {goal sub : Goal} {r₀ r : Reader}
    {ts : List Token} {es : List Event} {n : Nat} (hc : r₀.Closed) (p : Passed r₀ r ts es n)
    (hts : ts ≠ []) (hr : sub.Ready r.current) (hends : ∀ t, sub.Ends t → goal.Ends t)
    (h : ∀ y, sub.Yields (r₀.nextId + n) r₀.depth r.current y →
      goal.Yields r₀.nextId r₀.depth r₀.current (y.after ts es n) ∧
        es ++ sub.unfinished y <+: goal.unfinished (y.after ts es n)) :
    Leads (read sub) r (fun id r' => goal.Done r₀ id r')
      fun e r' => goal.Cut (room + 1) r₀ e r' := by
  refine leads_read hread goal hc p (.inl hts) hr ?_ ?_
  · intro y r' hy q he
    exact ⟨_, (h y hy).1, q, rfl, hends _ he⟩
  · intro y e r' hy hh
    exact ⟨_, (h y hy).1, hh.mono (h y hy).2⟩

end Reader

end TinyScript
