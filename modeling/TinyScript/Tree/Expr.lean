import TinyScript.DataType
import TinyScript.Operator

/-! Expressions. Each node has a tag: the type found for it so far, and how deep it stands. -/

namespace TinyScript

inductive Literal
  | bool (value : Bool)
  | int (value : Int64)
  | str (value : String)
deriving DecidableEq, Repr

namespace Literal

def type : Literal → DataType
  | bool _ => .bool
  | int _ => .int
  | str _ => .str

def render : Literal → String
  | bool true => "true"
  | bool false => "false"
  | int n => toString n.toInt
  | str s => s

end Literal

structure Tag where
  type : DataType
  depth : Nat
deriving DecidableEq, Repr

def Tag.untyped (depth : Nat) : Tag := ⟨.unknown, depth⟩

inductive Expr
  | binary (tag : Tag) (operator : BinaryOp) (left right : Expr)
  | unary (tag : Tag) (operator : UnaryOp) (operand : Expr)
  | literal (tag : Tag) (value : Literal)
  | var (tag : Tag) (name : String)
  | call (tag : Tag) (name : String) (arguments : List Expr)
deriving Repr

namespace Expr

def tag : Expr → Tag
  | binary tag .. | unary tag .. | literal tag _ | var tag _ | call tag .. => tag

def withTag (tag : Tag) : Expr → Expr
  | binary _ operator left right => binary tag operator left right
  | unary _ operator operand => unary tag operator operand
  | literal _ value => literal tag value
  | var _ name => var tag name
  | call _ name arguments => call tag name arguments

def type (e : Expr) : DataType := e.tag.type

def depth (e : Expr) : Nat := e.tag.depth

def withType (type : DataType) (e : Expr) : Expr := e.withTag ⟨type, e.depth⟩

def withDepth (depth : Nat) (e : Expr) : Expr := e.withTag ⟨e.type, depth⟩

def ofLiteral (depth : Nat) (value : Literal) : Expr := literal ⟨value.type, depth⟩ value

def name : Expr → String
  | binary .. => "binary expression"
  | unary .. => "unary expression"
  | literal .. => "literal"
  | var .. => "variable"
  | call .. => "function call"

@[simp] theorem tag_withTag (tag : Tag) (e : Expr) : (e.withTag tag).tag = tag := by
  cases e <;> rfl

@[simp] theorem withTag_tag (e : Expr) : e.withTag e.tag = e := by cases e <;> rfl

mutual

def same : Expr → Expr → Bool
  | binary s o l r, binary t p m q => s = t && o = p && same l m && same r q
  | unary s o a, unary t p b => s = t && o = p && same a b
  | literal s a, literal t b => s = t && a = b
  | var s a, var t b => s = t && a = b
  | call s a as, call t b bs => s = t && a = b && sameList as bs
  | _, _ => false

def sameList : List Expr → List Expr → Bool
  | [], [] => true
  | a :: as, b :: bs => same a b && sameList as bs
  | _, _ => false

end

mutual

theorem same_iff (a b : Expr) : same a b = true ↔ a = b := by
  cases a <;> cases b <;>
    simp only [same, Bool.and_eq_true, decide_eq_true_eq, reduceCtorEq, binary.injEq, unary.injEq,
      literal.injEq, var.injEq, call.injEq, and_assoc, Bool.false_eq_true]
  · next l r _ _ m q => rw [same_iff l m, same_iff r q]
  · next a _ _ b => rw [same_iff a b]
  · next as _ _ bs => rw [sameList_iff as bs]

theorem sameList_iff (as bs : List Expr) : sameList as bs = true ↔ as = bs := by
  cases as with
  | nil => cases bs <;> simp only [sameList, reduceCtorEq, Bool.false_eq_true]
  | cons a as =>
    cases bs with
    | nil => simp only [sameList, reduceCtorEq, Bool.false_eq_true]
    | cons b bs =>
      simp only [sameList, Bool.and_eq_true, List.cons.injEq]
      rw [same_iff a b, sameList_iff as bs]

end

instance : DecidableEq Expr := fun a b => decidable_of_iff (same a b = true) (same_iff a b)

end Expr

end TinyScript
