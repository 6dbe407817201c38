import TinyScript.Assembly
import TinyScript.Proofs.Derivation.Events

/-! The program that a derivation stands for. Statements and functions each keep the order they are
written in. Blocks take scopes in the order they open, a function takes its own after its body, and
the program takes the last. A number out of range is taken for zero here; assembling it fails. -/

namespace TinyScript

/-- A number that no integer literal can hold. -/
def Token.unreadable (t : Token) : Bool := t.kind = .number && (Text.int64? t.value).isNone

/-- The value of a literal, zero for a number out of range. -/
def Token.literalValue (t : Token) : Literal :=
  match t.kind with
  | .number => .int ((Text.int64? t.value).getD 0)
  | .string => .str t.value
  | _ => .bool (Text.sameLetters t.value "true")

abbrev ExprPart.Meaning : ExprPart → Type
  | .level _ | .call => Expr
  | .arguments | .items => List Expr

namespace ExprTree

def meaning : {p : ExprPart} → ExprTree p → Nat → p.Meaning
  | _, join left operator right, d =>
    Expr.binary (.untyped d) (.ofSymbol operator.token.value) (left.meaning d)
      (right.meaning (d + 1))
  | _, tighter _ inner, d => inner.meaning d
  | _, sign operator operand, d =>
    Expr.unary (.untyped d) (.ofSymbol operator.token.value) (operand.meaning (d + 1))
  | _, literal value, d => Expr.ofLiteral d value.token.literalValue
  | _, var name, d => Expr.var (.untyped d) name.token.value
  | _, call inner, d => inner.meaning d
  | _, grouping _ inner _, d => inner.meaning (d + 1)
  | _, apply name _ arguments _, d => Expr.call (.untyped d) name.token.value (arguments.meaning d)
  | _, none, _ => []
  | _, some items, d => items.meaning d
  | _, last item, d => [Expr.withDepth d (item.meaning (d + 1))]
  | _, more item _ rest, d => Expr.withDepth d (item.meaning (d + 1)) :: rest.meaning d

def fullMeaning (e : FullExpr) (d : Nat) : Expr := Expr.withDepth d (e.meaning (d + 1))

end ExprTree

abbrev StmtPart.Meaning : StmtPart → Type
  | .statement => Stmt
  | .block => Block
  | .body => List Stmt

namespace StmtTree

def scopes : {p : StmtPart} → StmtTree p → Nat
  | _, ifThen _ _ _ _ yes => yes.scopes
  | _, ifElse _ _ _ _ yes _ no => yes.scopes + no.scopes
  | _, loop _ _ _ _ body => body.scopes
  | _, braces _ body _ => 1 + body.scopes
  | _, cons first rest => first.scopes + rest.scopes
  | _, _ => 0

/-- The statements of a tree at depth `d`, with scopes from `k` on. -/
def meaning : {p : StmtPart} → StmtTree p → Nat → Nat → p.Meaning
  | _, assign name _ value _, d, _ =>
    Stmt.assign d (.var (.untyped d) name.token.value) (value.fullMeaning d)
  | _, ifThen _ _ condition _ yes, d, k =>
    Stmt.ifThen d (condition.fullMeaning d) (yes.meaning (d + 1) k)
  | _, ifElse _ _ condition _ yes _ no, d, k =>
    Stmt.ifElse d (condition.fullMeaning d) (yes.meaning (d + 1) k)
      (no.meaning (d + 1) (k + yes.scopes))
  | _, loop _ _ guard _ body, d, k => Stmt.loop d (guard.fullMeaning d) (body.meaning (d + 1) k)
  | _, ret _ value _, d, _ => Stmt.ret d (value.fullMeaning d)
  | _, brk _ _, d, _ => Stmt.brk d
  | _, cont _ _, d, _ => Stmt.cont d
  | _, test _ call _ expected _, d, _ => Stmt.test d (call.meaning d) (expected.fullMeaning d)
  | _, braces _ body _, d, k => Block.mk d ⟨k⟩ (body.meaning (d + 1) (k + 1))
  | _, nil, _, _ => []
  | _, cons first rest, d, k => first.meaning d k :: rest.meaning d (k + first.scopes)

end StmtTree

namespace FunctionTree

def scopes (f : FunctionTree) : Nat := f.body.scopes + 1

def meaning (f : FunctionTree) (d k : Nat) : Function :=
  ⟨f.name.token.value, f.parameters.entries.map Assembly.parameter,
    f.result.type?.getD .unknown, f.body.meaning (d + 1) k, d, ⟨k + f.body.scopes⟩⟩

end FunctionTree

namespace ItemTree

def scopes : ItemTree → Nat
  | statement s => s.scopes
  | function f => f.scopes

def scopesAll : List ItemTree → Nat
  | [] => 0
  | item :: items => item.scopes + scopesAll items

def statements : List ItemTree → Nat → Nat → List Stmt
  | [], _, _ => []
  | statement s :: items, d, k => s.meaning d k :: statements items d (k + s.scopes)
  | function f :: items, d, k => statements items d (k + f.scopes)

def functions : List ItemTree → Nat → Nat → List Function
  | [], _, _ => []
  | statement s :: items, d, k => functions items d (k + s.scopes)
  | function f :: items, d, k => f.meaning d k :: functions items d (k + f.scopes)

end ItemTree

def ProgramTree.meaning (p : ProgramTree) : Program :=
  ⟨ItemTree.statements p.items 1 0, ItemTree.functions p.items 1 0, 0, ⟨ItemTree.scopesAll p.items⟩⟩

end TinyScript
