import TinyScript.DataType
import TinyScript.Token.Basic

/-! The surface grammar as derivation trees: one family of trees per group of nonterminals, one
constructor per production, and the tokens at the leaves of a tree from left to right. Expressions
are stratified into levels, and the operators of a level group to the left. -/

namespace TinyScript

/-- A token of one of the given kinds. -/
@[ext] structure Leaf (kinds : List TokenKind) where
  token : Token
  mem : token.kind ∈ kinds
deriving DecidableEq, Repr

namespace Leaf

instance (k : TokenKind) (ks : List TokenKind) : Inhabited (Leaf (k :: ks)) :=
  ⟨⟨⟨k, "", default⟩, List.mem_cons_self⟩⟩

@[simp] theorem kind_eq {k : TokenKind} (leaf : Leaf [k]) : leaf.token.kind = k :=
  List.mem_singleton.1 leaf.mem

theorem kind_ne {kinds : List TokenKind} {k : TokenKind} (leaf : Leaf kinds) (h : k ∉ kinds) :
    leaf.token.kind ≠ k := fun he => h (he ▸ leaf.mem)

end Leaf

@[ext] structure Word (text : String) where
  token : Token
  isName : token.kind = .identifier
  isText : token.value = text
deriving DecidableEq, Repr

inductive Primitive
  | int | bool | str
deriving DecidableEq, Repr

namespace Primitive

def name : Primitive → String
  | int => "int"
  | bool => "bool"
  | str => "str"

def type : Primitive → DataType
  | int => .int
  | bool => .bool
  | str => .str

end Primitive

/-- The families of collections that a type can be written with. -/
inductive Container
  | list | set
deriving DecidableEq, Repr

namespace Container

def name : Container → String
  | list => "list"
  | set => "set"

def family : Container → Family
  | list => .list
  | set => .set

end Container

inductive TypeTree
  | primitive (p : Primitive) (name : Word p.name)
  | collection (c : Container) (name : Word c.name) (opening : Leaf [.less]) (element : TypeTree)
      (closing : Leaf [.greater])

namespace TypeTree

def tokens : TypeTree → List Token
  | primitive _ name => [name.token]
  | collection _ name opening element closing =>
    name.token :: opening.token :: (element.tokens ++ [closing.token])

def type : TypeTree → DataType
  | primitive p _ => p.type
  | collection c _ _ element _ => .collection c.family element.type

end TypeTree

/-- The levels of an expression, loosest first. -/
inductive Level
  | logical | relational | additive | multiplicative | unary | primary
deriving DecidableEq, Repr

namespace Level

/-- The level of the operands on the right of a level's operators. -/
def next : Level → Level
  | logical => relational
  | relational => additive
  | additive => multiplicative
  | multiplicative => unary
  | unary => primary
  | primary => primary

def kinds : Level → List TokenKind
  | logical => [.or, .and]
  | relational => [.less, .lessEquals, .greater, .greaterEquals, .equals, .notEquals]
  | additive => [.plus, .dash]
  | multiplicative => [.star, .slash, .percent]
  | unary => []
  | primary => []

end Level

inductive ExprPart
  | level (level : Level)
  | call
  | arguments
  | items
deriving DecidableEq, Repr

inductive ExprTree : ExprPart → Type
  | join {l : Level} (left : ExprTree (.level l)) (operator : Leaf l.kinds)
      (right : ExprTree (.level l.next)) : ExprTree (.level l)
  | tighter {l : Level} (h : l ≠ .primary) (inner : ExprTree (.level l.next)) :
      ExprTree (.level l)
  | sign (operator : Leaf [.not, .dash]) (operand : ExprTree (.level .unary)) :
      ExprTree (.level .unary)
  | literal (value : Leaf [.number, .string, .bool]) : ExprTree (.level .primary)
  | var (name : Leaf [.identifier]) : ExprTree (.level .primary)
  | call (inner : ExprTree .call) : ExprTree (.level .primary)
  | grouping (opening : Leaf [.openParen]) (inner : ExprTree (.level .logical))
      (closing : Leaf [.closeParen]) : ExprTree (.level .primary)
  | apply (name : Leaf [.identifier]) (opening : Leaf [.openParen])
      (arguments : ExprTree .arguments) (closing : Leaf [.closeParen]) : ExprTree .call
  | none : ExprTree .arguments
  | some (items : ExprTree .items) : ExprTree .arguments
  | last (item : ExprTree (.level .logical)) : ExprTree .items
  | more (item : ExprTree (.level .logical)) (comma : Leaf [.comma]) (rest : ExprTree .items) :
      ExprTree .items

abbrev FullExpr := ExprTree (.level .logical)

namespace ExprTree

def tokens : {p : ExprPart} → ExprTree p → List Token
  | _, join left operator right => left.tokens ++ operator.token :: right.tokens
  | _, tighter _ inner => inner.tokens
  | _, sign operator operand => operator.token :: operand.tokens
  | _, literal value => [value.token]
  | _, var name => [name.token]
  | _, call inner => inner.tokens
  | _, grouping opening inner closing => opening.token :: (inner.tokens ++ [closing.token])
  | _, apply name opening arguments closing =>
    name.token :: opening.token :: (arguments.tokens ++ [closing.token])
  | _, none => []
  | _, some items => items.tokens
  | _, last item => item.tokens
  | _, more item comma rest => item.tokens ++ comma.token :: rest.tokens

end ExprTree

inductive StmtPart
  | statement
  | block
  | body
deriving DecidableEq, Repr

inductive StmtTree : StmtPart → Type
  | assign (name : Leaf [.identifier]) (mark : Leaf [.assignment]) (value : FullExpr)
      (stop : Leaf [.semicolon]) : StmtTree .statement
  | ifThen (word : Leaf [.ifWord]) (opening : Leaf [.openParen]) (condition : FullExpr)
      (closing : Leaf [.closeParen]) (yes : StmtTree .block) : StmtTree .statement
  | ifElse (word : Leaf [.ifWord]) (opening : Leaf [.openParen]) (condition : FullExpr)
      (closing : Leaf [.closeParen]) (yes : StmtTree .block) (otherwise : Leaf [.elseWord])
      (no : StmtTree .block) : StmtTree .statement
  | loop (word : Leaf [.whileWord]) (opening : Leaf [.openParen]) (guard : FullExpr)
      (closing : Leaf [.closeParen]) (body : StmtTree .block) : StmtTree .statement
  | ret (word : Leaf [.returnWord]) (value : FullExpr) (stop : Leaf [.semicolon]) :
      StmtTree .statement
  | brk (word : Leaf [.breakWord]) (stop : Leaf [.semicolon]) : StmtTree .statement
  | cont (word : Leaf [.continueWord]) (stop : Leaf [.semicolon]) : StmtTree .statement
  | test (word : Leaf [.testWord]) (call : ExprTree .call) (mark : Leaf [.equals])
      (expected : FullExpr) (stop : Leaf [.semicolon]) : StmtTree .statement
  | braces (opening : Leaf [.openCurly]) (body : StmtTree .body) (closing : Leaf [.closeCurly]) :
      StmtTree .block
  | nil : StmtTree .body
  | cons (first : StmtTree .statement) (rest : StmtTree .body) : StmtTree .body

namespace StmtTree

def tokens : {p : StmtPart} → StmtTree p → List Token
  | _, assign name mark value stop =>
    name.token :: mark.token :: (value.tokens ++ [stop.token])
  | _, ifThen word opening condition closing yes =>
    word.token :: opening.token :: (condition.tokens ++ closing.token :: yes.tokens)
  | _, ifElse word opening condition closing yes otherwise no =>
    word.token :: opening.token ::
      (condition.tokens ++ closing.token :: (yes.tokens ++ otherwise.token :: no.tokens))
  | _, loop word opening guard closing body =>
    word.token :: opening.token :: (guard.tokens ++ closing.token :: body.tokens)
  | _, ret word value stop => word.token :: (value.tokens ++ [stop.token])
  | _, brk word stop => [word.token, stop.token]
  | _, cont word stop => [word.token, stop.token]
  | _, test word call mark expected stop =>
    word.token :: (call.tokens ++ mark.token :: (expected.tokens ++ [stop.token]))
  | _, braces opening body closing => opening.token :: (body.tokens ++ [closing.token])
  | _, nil => []
  | _, cons first rest => first.tokens ++ rest.tokens

end StmtTree

inductive AnnotationTree (mark : TokenKind)
  | none
  | some (mark : Leaf [mark]) (type : TypeTree)

def AnnotationTree.tokens {mark : TokenKind} : AnnotationTree mark → List Token
  | none => []
  | some mark type => mark.token :: type.tokens

structure ParameterTree where
  name : Leaf [.identifier]
  type : AnnotationTree .colon

def ParameterTree.tokens (p : ParameterTree) : List Token := p.name.token :: p.type.tokens

inductive ParameterItems
  | last (item : ParameterTree)
  | more (item : ParameterTree) (comma : Leaf [.comma]) (rest : ParameterItems)

def ParameterItems.tokens : ParameterItems → List Token
  | last item => item.tokens
  | more item comma rest => item.tokens ++ comma.token :: rest.tokens

inductive ParametersTree
  | none
  | some (items : ParameterItems)

def ParametersTree.tokens : ParametersTree → List Token
  | none => []
  | some items => items.tokens

structure FunctionTree where
  word : Leaf [.defWord]
  name : Leaf [.identifier]
  opening : Leaf [.openParen]
  parameters : ParametersTree
  closing : Leaf [.closeParen]
  result : AnnotationTree .arrow
  body : StmtTree .block

def FunctionTree.tokens (f : FunctionTree) : List Token :=
  f.word.token :: f.name.token :: f.opening.token ::
    (f.parameters.tokens ++ f.closing.token :: (f.result.tokens ++ f.body.tokens))

inductive ItemTree
  | statement (statement : StmtTree .statement)
  | function (function : FunctionTree)

def ItemTree.tokens : ItemTree → List Token
  | statement s => s.tokens
  | function f => f.tokens

structure ProgramTree where
  items : List ItemTree

def ProgramTree.tokens (p : ProgramTree) : List Token := p.items.flatMap ItemTree.tokens

end TinyScript
