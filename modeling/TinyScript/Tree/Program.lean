import TinyScript.Scope.Store
import TinyScript.Tree.Expr

/-! Programs as trees: statements, blocks of statements, functions. Programs, functions and blocks
each have a scope. -/

namespace TinyScript

mutual

inductive Stmt
  | assign (depth : Nat) (target value : Expr)
  | ifThen (depth : Nat) (condition : Expr) (yes : Block)
  | ifElse (depth : Nat) (condition : Expr) (yes no : Block)
  | loop (depth : Nat) (guard : Expr) (body : Block)
  | ret (depth : Nat) (value : Expr)
  | brk (depth : Nat)
  | cont (depth : Nat)
  | test (depth : Nat) (call expected : Expr)
deriving Repr

inductive Block
  | mk (depth : Nat) (scope : Scope) (statements : List Stmt)
deriving Repr

end

namespace Block

def depth : Block → Nat
  | mk depth _ _ => depth

def scope : Block → Scope
  | mk _ scope _ => scope

def statements : Block → List Stmt
  | mk _ _ statements => statements

end Block

namespace Stmt

def depth : Stmt → Nat
  | assign depth .. | ifThen depth .. | ifElse depth .. | loop depth .. | ret depth _ | brk depth
  | cont depth | test depth .. => depth

def name : Stmt → String
  | assign .. => "assignment"
  | ifThen .. | ifElse .. => "conditional"
  | loop .. => "while loop"
  | ret .. => "return"
  | brk _ => "break"
  | cont _ => "continue"
  | test .. => "test"

/-- The name that an assignment is to, if its target is a variable. -/
def targetName? : Stmt → Option String
  | assign _ (.var _ name) _ => some name
  | _ => none

end Stmt

mutual

def Stmt.same : Stmt → Stmt → Bool
  | .assign c t v, .assign d u w => c = d && t = u && v = w
  | .ifThen c e a, .ifThen d f b => c = d && e = f && a.same b
  | .ifElse c e a a', .ifElse d f b b' => c = d && e = f && a.same b && a'.same b'
  | .loop c e a, .loop d f b => c = d && e = f && a.same b
  | .ret c v, .ret d w => c = d && v = w
  | .brk c, .brk d => c = d
  | .cont c, .cont d => c = d
  | .test c t v, .test d u w => c = d && t = u && v = w
  | _, _ => false

def Block.same : Block → Block → Bool
  | .mk c s as, .mk d t bs => c = d && s = t && Stmt.sameList as bs

def Stmt.sameList : List Stmt → List Stmt → Bool
  | [], [] => true
  | a :: as, b :: bs => a.same b && Stmt.sameList as bs
  | _, _ => false

end

mutual

theorem Stmt.same_iff (a b : Stmt) : a.same b = true ↔ a = b := by
  cases a <;> cases b <;>
    simp only [Stmt.same, Bool.and_eq_true, decide_eq_true_eq, reduceCtorEq, Stmt.assign.injEq,
      Stmt.ifThen.injEq, Stmt.ifElse.injEq, Stmt.loop.injEq, Stmt.ret.injEq, Stmt.brk.injEq,
      Stmt.cont.injEq, Stmt.test.injEq, and_assoc, Bool.false_eq_true]
  · next a _ _ b => rw [a.same_iff b]
  · next a a' _ _ b b' => rw [a.same_iff b, a'.same_iff b']
  · next a _ _ b => rw [a.same_iff b]

theorem Block.same_iff (a b : Block) : a.same b = true ↔ a = b := by
  obtain ⟨c, s, as⟩ := a
  obtain ⟨d, t, bs⟩ := b
  simp only [Block.same, Bool.and_eq_true, decide_eq_true_eq, Block.mk.injEq, and_assoc]
  rw [Stmt.sameList_iff as bs]

theorem Stmt.sameList_iff (as bs : List Stmt) : Stmt.sameList as bs = true ↔ as = bs := by
  cases as with
  | nil => cases bs <;> simp only [Stmt.sameList, reduceCtorEq, Bool.false_eq_true]
  | cons a as =>
    cases bs with
    | nil => simp only [Stmt.sameList, reduceCtorEq, Bool.false_eq_true]
    | cons b bs =>
      simp only [Stmt.sameList, Bool.and_eq_true, List.cons.injEq]
      rw [a.same_iff b, Stmt.sameList_iff as bs]

end

instance : DecidableEq Stmt := fun a b => decidable_of_iff (a.same b = true) (a.same_iff b)

instance : DecidableEq Block := fun a b => decidable_of_iff (a.same b = true) (a.same_iff b)

structure Parameter where
  name : String
  type : DataType
deriving DecidableEq, Repr

structure Function where
  name : String
  parameters : List Parameter
  returnType : DataType
  body : Block
  depth : Nat
  scope : Scope
deriving DecidableEq, Repr

structure Program where
  statements : List Stmt
  functions : List Function
  depth : Nat
  scope : Scope
deriving DecidableEq, Repr

namespace Program

def function? (p : Program) (name : String) : Option Function :=
  p.functions.find? fun f => f.name = name

end Program

end TinyScript
