import TinyScript.Proofs.Derivation.UniqueExpr
import TinyScript.Token.Pattern
import TinyScript.Tree.Program

/-! Programs as source text: the kinds and values of the tokens that write a tree, with parentheses
only where an operand is looser than its place, and the text of those tokens with a space between
any two. `expressible` says which trees a text can stand for, and `bare` forgets how deep the parts
of a tree stand and which scopes they have. -/

namespace TinyScript

abbrev Lexeme := TokenKind × String

def Token.lexeme (t : Token) : Lexeme := (t.kind, t.value)

def TokenKind.spelling : TokenKind → String
  | openCurly => "\x7b"
  | closeCurly => "\x7d"
  | openParen => "("
  | closeParen => ")"
  | assignment => "="
  | equals => "=="
  | not => "!"
  | notEquals => "!="
  | less => "<"
  | lessEquals => "<="
  | greater => ">"
  | greaterEquals => ">="
  | or => "||"
  | and => "&&"
  | semicolon => ";"
  | colon => ":"
  | comma => ","
  | arrow => "->"
  | plus => "+"
  | dash => "-"
  | slash => "/"
  | star => "*"
  | percent => "%"
  | defWord => "def"
  | ifWord => "if"
  | elseWord => "else"
  | whileWord => "while"
  | returnWord => "return"
  | breakWord => "break"
  | continueWord => "continue"
  | testWord => "test"
  | eof | number | string | bool | identifier => ""

def fixed (k : TokenKind) : Lexeme := (k, k.spelling)

/-- The inside of a string literal: a quote or a backslash takes a backslash before it. -/
def Text.escape : List Char → List Char
  | [] => []
  | c :: cs => if c = '"' ∨ c = '\\' then '\\' :: c :: escape cs else c :: escape cs

def Lexeme.text : Lexeme → List Char
  | (.string, value) => '"' :: (Text.escape value.toList ++ ['"'])
  | (_, value) => value.toList

/-- The text of some tokens, with a space between any two. -/
def spell : List Lexeme → List Char
  | [] => []
  | [l] => l.text
  | l :: ls => l.text ++ ' ' :: spell ls

def commas : List (List Lexeme) → List Lexeme
  | [] => []
  | [item] => item
  | item :: items => item ++ fixed .comma :: commas items

/-- Something in a place that needs operators of the level `need` or tighter. -/
def enclose (need own : Level) (ls : List Lexeme) : List Lexeme :=
  if need.rank ≤ own.rank then ls else fixed .openParen :: (ls ++ [fixed .closeParen])

namespace BinaryOp

def kind : BinaryOp → TokenKind
  | add => .plus
  | sub => .dash
  | mul => .star
  | div => .slash
  | gt => .greater
  | ge => .greaterEquals
  | lt => .less
  | le => .lessEquals
  | eq => .equals
  | ne => .notEquals
  | or => .or
  | and => .and
  | invalid => .percent

def level : BinaryOp → Level
  | or | and => .logical
  | gt | ge | lt | le | eq | ne => .relational
  | add | sub => .additive
  | mul | div | invalid => .multiplicative

end BinaryOp

def UnaryOp.kind : UnaryOp → TokenKind
  | not => .not
  | neg | invalid => .dash

namespace DataType

def lexemes : DataType → List Lexeme
  | bool => [(.identifier, "bool")]
  | int => [(.identifier, "int")]
  | str => [(.identifier, "str")]
  | unknown => []
  | collection family element =>
    (.identifier, family.name) :: fixed .less :: (element.lexemes ++ [fixed .greater])

def lexemesAfter (mark : TokenKind) (t : DataType) : List Lexeme :=
  if t.isKnown then fixed mark :: t.lexemes else []

end DataType

def Literal.lexeme : Literal → Lexeme
  | bool b => (.bool, (bool b).render)
  | int n => (.number, (int n).render)
  | str s => (.string, s)

namespace Expr

def level : Expr → Level
  | binary _ operator _ _ => operator.level
  | unary .. => .unary
  | literal .. | var .. | call .. => .primary

mutual

def lexemes : Expr → List Lexeme
  | binary _ operator left right =>
    enclose operator.level left.level left.lexemes ++
      fixed operator.kind :: enclose operator.level.next right.level right.lexemes
  | unary _ operator operand =>
    fixed operator.kind :: enclose .unary operand.level operand.lexemes
  | literal _ value => [value.lexeme]
  | var _ name => [(.identifier, name)]
  | call _ name arguments =>
    (.identifier, name) :: fixed .openParen ::
      (commas (lexemesAll arguments) ++ [fixed .closeParen])

def lexemesAll : List Expr → List (List Lexeme)
  | [] => []
  | e :: es => e.lexemes :: lexemesAll es

end

end Expr

mutual

def Stmt.lexemes : Stmt → List Lexeme
  | .assign _ target value =>
    target.lexemes ++ fixed .assignment :: (value.lexemes ++ [fixed .semicolon])
  | .ifThen _ condition yes =>
    fixed .ifWord :: fixed .openParen :: (condition.lexemes ++ fixed .closeParen :: yes.lexemes)
  | .ifElse _ condition yes no =>
    fixed .ifWord :: fixed .openParen :: (condition.lexemes ++
      fixed .closeParen :: (yes.lexemes ++ fixed .elseWord :: no.lexemes))
  | .loop _ guard body =>
    fixed .whileWord :: fixed .openParen :: (guard.lexemes ++ fixed .closeParen :: body.lexemes)
  | .ret _ value => fixed .returnWord :: (value.lexemes ++ [fixed .semicolon])
  | .brk _ => [fixed .breakWord, fixed .semicolon]
  | .cont _ => [fixed .continueWord, fixed .semicolon]
  | .test _ call expected =>
    fixed .testWord :: (call.lexemes ++ fixed .equals :: (expected.lexemes ++ [fixed .semicolon]))

def Block.lexemes : Block → List Lexeme
  | .mk _ _ statements => fixed .openCurly :: (Stmt.lexemesAll statements ++ [fixed .closeCurly])

def Stmt.lexemesAll : List Stmt → List Lexeme
  | [] => []
  | s :: ss => s.lexemes ++ Stmt.lexemesAll ss

end

def Parameter.lexemes (p : Parameter) : List Lexeme :=
  (.identifier, p.name) :: p.type.lexemesAfter .colon

def Function.lexemes (f : Function) : List Lexeme :=
  fixed .defWord :: (.identifier, f.name) :: fixed .openParen ::
    (commas (f.parameters.map Parameter.lexemes) ++
      fixed .closeParen :: (f.returnType.lexemesAfter .arrow ++ f.body.lexemes))

def Program.lexemes (p : Program) : List Lexeme :=
  Stmt.lexemesAll p.statements ++ p.functions.flatMap Function.lexemes

def Program.source (p : Program) : String := String.ofList (spell p.lexemes)

/-! Trees that a text can stand for. -/

def isName (name : String) : Bool :=
  (match name.toList with
    | c :: cs => Pattern.isWordStart c && cs.all Pattern.isWordPart
    | [] => false) && TokenKind.ofReserved? name = none

namespace DataType

def writable : DataType → Bool
  | bool | int | str => true
  | unknown | collection .map _ => false
  | collection .list element | collection .set element => element.writable

def expressible (t : DataType) : Bool := t = unknown || t.writable

theorem writable_of_isKnown {t : DataType} (h : t.expressible) (hk : t.isKnown) : t.writable := by
  simpa [expressible, (isKnown_iff t).1 hk] using h

end DataType

def Literal.expressible : Literal → Bool
  | int n => 0 ≤ n.toInt
  | bool _ | str _ => true

namespace Expr

mutual

/-- Names are names, numbers are not negative, operators are valid, and the type of a literal is its
own while that of any other expression is unknown. -/
def expressible : Expr → Bool
  | binary tag operator left right =>
    tag.type = .unknown && operator ≠ .invalid && left.expressible && right.expressible
  | unary tag operator operand =>
    tag.type = .unknown && operator ≠ .invalid && operand.expressible
  | literal tag value => tag.type = value.type && value.expressible
  | var tag name => tag.type = .unknown && isName name
  | call tag name arguments => tag.type = .unknown && isName name && expressibleAll arguments

def expressibleAll : List Expr → Bool
  | [] => true
  | e :: es => e.expressible && expressibleAll es

end

end Expr

mutual

/-- Assignments are to variables, and calls are tested. -/
def Stmt.expressible : Stmt → Bool
  | .assign _ (.var tag name) value => (Expr.var tag name).expressible && value.expressible
  | .assign _ _ _ => false
  | .ifThen _ condition yes => condition.expressible && yes.expressible
  | .ifElse _ condition yes no => condition.expressible && yes.expressible && no.expressible
  | .loop _ guard body => guard.expressible && body.expressible
  | .ret _ value => value.expressible
  | .brk _ | .cont _ => true
  | .test _ (.call tag name arguments) expected =>
    (Expr.call tag name arguments).expressible && expected.expressible
  | .test _ _ _ => false

def Block.expressible : Block → Bool
  | .mk _ _ statements => Stmt.expressibleAll statements

def Stmt.expressibleAll : List Stmt → Bool
  | [] => true
  | s :: ss => s.expressible && Stmt.expressibleAll ss

end

def Parameter.expressible (p : Parameter) : Bool := isName p.name && p.type.expressible

def Function.expressible (f : Function) : Bool :=
  isName f.name && f.parameters.all Parameter.expressible && f.returnType.expressible &&
    f.body.expressible

def Program.expressible (p : Program) : Bool :=
  Stmt.expressibleAll p.statements && p.functions.all Function.expressible

/-! Trees without their depths and scopes. -/

namespace Expr

mutual

def bare : Expr → Expr
  | binary tag operator left right => binary ⟨tag.type, 0⟩ operator left.bare right.bare
  | unary tag operator operand => unary ⟨tag.type, 0⟩ operator operand.bare
  | literal tag value => literal ⟨tag.type, 0⟩ value
  | var tag name => var ⟨tag.type, 0⟩ name
  | call tag name arguments => call ⟨tag.type, 0⟩ name (bareAll arguments)

def bareAll : List Expr → List Expr
  | [] => []
  | e :: es => e.bare :: bareAll es

end

@[simp] theorem bare_withDepth (d : Nat) (e : Expr) : (e.withDepth d).bare = e.bare := by
  cases e <;> rfl

end Expr

mutual

def Stmt.bare : Stmt → Stmt
  | .assign _ target value => .assign 0 target.bare value.bare
  | .ifThen _ condition yes => .ifThen 0 condition.bare yes.bare
  | .ifElse _ condition yes no => .ifElse 0 condition.bare yes.bare no.bare
  | .loop _ guard body => .loop 0 guard.bare body.bare
  | .ret _ value => .ret 0 value.bare
  | .brk _ => .brk 0
  | .cont _ => .cont 0
  | .test _ call expected => .test 0 call.bare expected.bare

def Block.bare : Block → Block
  | .mk _ _ statements => .mk 0 ⟨0⟩ (Stmt.bareAll statements)

def Stmt.bareAll : List Stmt → List Stmt
  | [] => []
  | s :: ss => s.bare :: Stmt.bareAll ss

end

def Function.bare (f : Function) : Function :=
  { f with body := f.body.bare, depth := 0, scope := ⟨0⟩ }

def Program.bare (p : Program) : Program :=
  ⟨Stmt.bareAll p.statements, p.functions.map Function.bare, 0, ⟨0⟩⟩

end TinyScript
