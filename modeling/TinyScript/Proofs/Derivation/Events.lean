import TinyScript.Event
import TinyScript.Proofs.Derivation.Tree

/-! The flat form of a derivation: the events of its constructs, parts before wholes, numbered from
`i` on and tagged with their depths. The root of an expression or a statement is its last event; a
block is numbered by its first. -/

namespace TinyScript

namespace ExprTree

def count : {p : ExprPart} → ExprTree p → Nat
  | _, join left _ right => left.count + right.count + 1
  | _, tighter _ inner => inner.count
  | _, sign _ operand => operand.count + 1
  | _, literal _ => 1
  | _, var _ => 1
  | _, call inner => inner.count
  | _, grouping _ inner _ => inner.count
  | _, apply _ _ arguments _ => arguments.count + 1
  | _, none => 0
  | _, some items => items.count
  | _, last item => item.count + 1
  | _, more item _ rest => item.count + 1 + rest.count

def root {p : ExprPart} (e : ExprTree p) (i : Nat) : Nat := i + (e.count - 1)

def ids : {p : ExprPart} → ExprTree p → Nat → List Nat
  | _, some items, i => items.ids i
  | _, last item, i => [i + item.count]
  | _, more item _ rest, i => (i + item.count) :: rest.ids (i + item.count + 1)
  | _, _, _ => []

/-- The events of a tree whose root is at depth `d`. -/
def events : {p : ExprPart} → ExprTree p → Nat → Nat → List Event
  | _, join left operator right, i, d =>
    left.events i d ++ (right.events (i + left.count) (d + 1) ++
      [⟨i + left.count + right.count, d,
        .binary operator.token (left.root i) (right.root (i + left.count))⟩])
  | _, tighter _ inner, i, d => inner.events i d
  | _, sign operator operand, i, d =>
    operand.events i (d + 1) ++
      [⟨i + operand.count, d, .unary operator.token (operand.root i)⟩]
  | _, literal value, i, d => [⟨i, d, .literal value.token⟩]
  | _, var name, i, d => [⟨i, d, .var name.token⟩]
  | _, call inner, i, d => inner.events i d
  | _, grouping _ inner _, i, d => inner.events i (d + 1)
  | _, apply name _ arguments _, i, d =>
    arguments.events i d ++ [⟨i + arguments.count, d, .call name.token (arguments.ids i)⟩]
  | _, none, _, _ => []
  | _, some items, i, d => items.events i d
  | _, last item, i, d =>
    item.events i (d + 1) ++ [⟨i + item.count, d, .expr (item.root i)⟩]
  | _, more item _ rest, i, d =>
    item.events i (d + 1) ++ ⟨i + item.count, d, .expr (item.root i)⟩ ::
      rest.events (i + item.count + 1) d

def fullEvents (e : FullExpr) (i d : Nat) : List Event :=
  e.events i (d + 1) ++ [⟨i + e.count, d, .expr (e.root i)⟩]

theorem count_pos {p : ExprPart} (e : ExprTree p) (hp : p ≠ .arguments) : 0 < e.count := by
  induction e with
  | tighter _ _ ih | call _ ih | grouping _ _ _ ih => exact ih (by simp)
  | none | some => exact absurd rfl hp
  | _ => simp only [count]; omega

end ExprTree

namespace StmtTree

def count : {p : StmtPart} → StmtTree p → Nat
  | _, assign _ _ value _ => 1 + value.count + 1 + 1
  | _, ifThen _ _ condition _ yes => condition.count + 1 + yes.count + 1
  | _, ifElse _ _ condition _ yes _ no => condition.count + 1 + yes.count + no.count + 1
  | _, loop _ _ guard _ body => guard.count + 1 + body.count + 1
  | _, ret _ value _ => value.count + 1 + 1
  | _, brk _ _ => 1
  | _, cont _ _ => 1
  | _, test _ call _ expected _ => call.count + 1 + expected.count + 1 + 1
  | _, braces _ body _ => body.count + 1
  | _, nil => 0
  | _, cons first rest => first.count + rest.count

def root (s : StmtTree .statement) (i : Nat) : Nat := i + (s.count - 1)

/-- The events of a tree whose root, or whose statements, are at depth `d`. -/
def events : {p : StmtPart} → StmtTree p → Nat → Nat → List Event
  | _, assign name _ value _, i, d =>
    ⟨i, d, .var name.token⟩ :: (value.fullEvents (i + 1) d ++
      [⟨i + 1 + value.count + 1, d, .assignment i (i + 1 + value.count)⟩])
  | _, ifThen _ _ condition _ yes, i, d =>
    condition.fullEvents i d ++ (yes.events (i + condition.count + 1) (d + 1) ++
      [⟨i + condition.count + 1 + yes.count, d,
        .conditional (i + condition.count) [i + condition.count + 1]⟩])
  | _, ifElse _ _ condition _ yes _ no, i, d =>
    condition.fullEvents i d ++ (yes.events (i + condition.count + 1) (d + 1) ++
      (no.events (i + condition.count + 1 + yes.count) (d + 1) ++
        [⟨i + condition.count + 1 + yes.count + no.count, d, .conditional (i + condition.count)
          [i + condition.count + 1, i + condition.count + 1 + yes.count]⟩]))
  | _, loop _ _ guard _ body, i, d =>
    guard.fullEvents i d ++ (body.events (i + guard.count + 1) (d + 1) ++
      [⟨i + guard.count + 1 + body.count, d, .loop (i + guard.count) (i + guard.count + 1)⟩])
  | _, ret _ value _, i, d =>
    value.fullEvents i d ++ [⟨i + value.count + 1, d, .ret (i + value.count)⟩]
  | _, brk _ _, i, d => [⟨i, d, .brk⟩]
  | _, cont _ _, i, d => [⟨i, d, .cont⟩]
  | _, test _ call _ expected _, i, d =>
    call.events i d ++ ⟨i + call.count, d, .expr (call.root i)⟩ ::
      (expected.fullEvents (i + call.count + 1) d ++
        [⟨i + call.count + 1 + expected.count + 1, d,
          .test (i + call.count) (i + call.count + 1 + expected.count)⟩])
  | _, braces _ body _, i, d =>
    ⟨i, d, .enterBlock⟩ :: (body.events (i + 1) (d + 1) ++ [⟨i, d, .exitBlock⟩])
  | _, nil, _, _ => []
  | _, cons first rest, i, d => first.events i d ++ rest.events (i + first.count) d

theorem count_pos (s : StmtTree .statement) : 0 < s.count := by
  cases s <;> simp only [count] <;> omega

theorem block_count_pos (b : StmtTree .block) : 0 < b.count := by
  cases b
  simp only [count]
  omega

end StmtTree

def AnnotationTree.type? {mark : TokenKind} : AnnotationTree mark → Option DataType
  | none => Option.none
  | some _ type => Option.some type.type

def ParameterTree.entry (p : ParameterTree) : Token × Option DataType :=
  (p.name.token, p.type.type?)

def ParameterItems.entries : ParameterItems → List (Token × Option DataType)
  | last item => [item.entry]
  | more item _ rest => item.entry :: rest.entries

def ParametersTree.entries : ParametersTree → List (Token × Option DataType)
  | none => []
  | some items => items.entries

namespace FunctionTree

def count (f : FunctionTree) : Nat := f.body.count + 1

def events (f : FunctionTree) (i d : Nat) : List Event :=
  f.body.events i (d + 1) ++
    [⟨i + f.body.count, d, .function f.name.token f.parameters.entries f.result.type? i⟩]

end FunctionTree

namespace ItemTree

def count : ItemTree → Nat
  | statement s => s.count
  | function f => f.count

def events : ItemTree → Nat → Nat → List Event
  | statement s => s.events
  | function f => f.events

def countAll : List ItemTree → Nat
  | [] => 0
  | item :: items => item.count + countAll items

def eventsAll : List ItemTree → Nat → Nat → List Event
  | [], _, _ => []
  | item :: items, i, d => item.events i d ++ eventsAll items (i + item.count) d

def statementIds : List ItemTree → Nat → List Nat
  | [], _ => []
  | statement s :: items, i => s.root i :: statementIds items (i + s.count)
  | function f :: items, i => statementIds items (i + f.count)

def functionIds : List ItemTree → Nat → List Nat
  | [], _ => []
  | statement s :: items, i => functionIds items (i + s.count)
  | function f :: items, i => (i + f.body.count) :: functionIds items (i + f.count)

end ItemTree

namespace ProgramTree

def lastEvent (p : ProgramTree) : Event :=
  ⟨ItemTree.countAll p.items, 0,
    .program (ItemTree.statementIds p.items 0) (ItemTree.functionIds p.items 0)⟩

def events (p : ProgramTree) : List Event := ItemTree.eventsAll p.items 0 1 ++ [p.lastEvent]

end ProgramTree

end TinyScript
