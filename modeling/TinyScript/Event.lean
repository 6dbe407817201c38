import TinyScript.DataType
import TinyScript.Token.Basic

/-! The flat form of a program: one event per construct, each after the constructs it is made of
and naming them by number. A block is the exception, with one event at either end. -/

namespace TinyScript

/-- The number of a construct within its stream. -/
abbrev Serial := Nat

inductive EventKind
  | enterBlock
  | exitBlock
  | program (statements functions : List Serial)
  | function (name : Token) (parameters : List (Token × Option DataType))
      (returnType : Option DataType) (body : Serial)
  | assignment (target value : Serial)
  | conditional (condition : Serial) (blocks : List Serial)
  | loop (guard body : Serial)
  | ret (value : Serial)
  | brk
  | cont
  | test (call expected : Serial)
  | expr (inner : Serial)
  | binary (operator : Token) (left right : Serial)
  | unary (operator : Token) (operand : Serial)
  | call (name : Token) (arguments : List Serial)
  | var (name : Token)
  | literal (token : Token)
deriving DecidableEq, Repr

namespace EventKind

def name : EventKind → String
  | enterBlock => "enter block"
  | exitBlock => "exit block"
  | program .. => "program"
  | function .. => "function"
  | assignment .. => "assignment"
  | conditional .. => "conditional"
  | loop .. => "while loop"
  | ret _ => "return"
  | brk => "break"
  | cont => "continue"
  | test .. => "test"
  | expr _ => "expression"
  | binary .. => "binary expression"
  | unary .. => "unary expression"
  | call .. => "function call"
  | var _ => "variable"
  | literal _ => "literal"

end EventKind

structure Event where
  id : Serial
  depth : Nat
  kind : EventKind
deriving DecidableEq, Repr

end TinyScript
