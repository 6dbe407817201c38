import TinyScript.Token.Kind

/-! The tables that steer reading: which rule a kind of token opens, as a statement or within an
expression, how strongly it binds between two operands, and whether it can open a type. -/

namespace TinyScript

/-- How strongly an operator holds its operands, weakest first. -/
inductive Power
  | lowest | logical | relational | additive | multiplicative | unary | primary
deriving DecidableEq, Repr

namespace Power

def rank : Power → Nat
  | lowest => 0
  | logical => 1
  | relational => 2
  | additive => 3
  | multiplicative => 4
  | unary => 5
  | primary => 6

instance : LE Power := ⟨fun p q => p.rank ≤ q.rank⟩

instance (p q : Power) : Decidable (p ≤ q) := inferInstanceAs (Decidable (p.rank ≤ q.rank))

end Power

inductive Rule
  | fullExpr | primary | negation | grouping
  | statement | block | function
  | assignment | conditional | loop | ret | brk | cont | test
deriving DecidableEq, Repr

structure Grammar where
  statement? : TokenKind → Option Rule
  opening? : TokenKind → Option Rule
  joining? : TokenKind → Option Power
  opensType : TokenKind → Bool

namespace Grammar

def empty : Grammar where
  statement? := fun _ => none
  opening? := fun _ => none
  joining? := fun _ => none
  opensType := fun _ => false

def addStatement (g : Grammar) (kind : TokenKind) (rule : Rule) : Grammar :=
  { g with statement? := fun k => if k = kind then some rule else g.statement? k }

def addOpening (g : Grammar) (kind : TokenKind) (rule : Rule) : Grammar :=
  { g with opening? := fun k => if k = kind then some rule else g.opening? k }

def addJoining (g : Grammar) (kind : TokenKind) (power : Power) : Grammar :=
  { g with joining? := fun k => if k = kind then some power else g.joining? k }

def addType (g : Grammar) (kind : TokenKind) : Grammar :=
  { g with opensType := fun k => k = kind || g.opensType k }

/-- The entries of `h`, and those of `g` where `h` has none. -/
def extend (g h : Grammar) : Grammar where
  statement? := fun k => (h.statement? k).or (g.statement? k)
  opening? := fun k => (h.opening? k).or (g.opening? k)
  joining? := fun k => (h.joining? k).or (g.joining? k)
  opensType := fun k => h.opensType k || g.opensType k

def standardStatement? : TokenKind → Option Rule
  | .identifier => some .assignment
  | .ifWord => some .conditional
  | .whileWord => some .loop
  | .returnWord => some .ret
  | .breakWord => some .brk
  | .continueWord => some .cont
  | .testWord => some .test
  | _ => none

def standardOpening? : TokenKind → Option Rule
  | .number | .string | .bool | .identifier => some .primary
  | .dash | .not => some .negation
  | .openParen => some .grouping
  | _ => none

def standardJoining? : TokenKind → Option Power
  | .and | .or => some .logical
  | .less | .lessEquals | .greater | .greaterEquals | .equals | .notEquals => some .relational
  | .plus | .dash => some .additive
  | .star | .slash | .percent => some .multiplicative
  | _ => none

def standard : Grammar where
  statement? := standardStatement?
  opening? := standardOpening?
  joining? := standardJoining?
  opensType := fun k => k = .identifier

def power (g : Grammar) (kind : TokenKind) : Power := (g.joining? kind).getD .lowest

end Grammar

end TinyScript
