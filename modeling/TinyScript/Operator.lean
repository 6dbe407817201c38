/-! Operators of expressions and the symbols that write them. A symbol that writes none gives the
operator `invalid`, so that an expression can be held before its operator is judged. -/

namespace TinyScript

inductive BinaryOp
  | add | sub | mul | div | gt | ge | lt | le | eq | ne | or | and | invalid
deriving DecidableEq, Repr

namespace BinaryOp

def symbol : BinaryOp → String
  | add => "+"
  | sub => "-"
  | mul => "*"
  | div => "/"
  | gt => ">"
  | ge => ">="
  | lt => "<"
  | le => "<="
  | eq => "=="
  | ne => "!="
  | or => "||"
  | and => "&&"
  | invalid => "<invalid>"

def ofSymbol : String → BinaryOp
  | "+" => add
  | "-" => sub
  | "*" => mul
  | "/" => div
  | ">" => gt
  | ">=" => ge
  | "<" => lt
  | "<=" => le
  | "==" => eq
  | "!=" => ne
  | "||" => or
  | "&&" => and
  | _ => invalid

theorem ofSymbol_symbol (op : BinaryOp) : ofSymbol op.symbol = op := by cases op <;> rfl

end BinaryOp

inductive UnaryOp
  | not | neg | invalid
deriving DecidableEq, Repr

namespace UnaryOp

def symbol : UnaryOp → String
  | not => "!"
  | neg => "-"
  | invalid => "<invalid>"

def ofSymbol : String → UnaryOp
  | "!" => not
  | "-" => neg
  | _ => invalid

theorem ofSymbol_symbol (op : UnaryOp) : ofSymbol op.symbol = op := by cases op <;> rfl

end UnaryOp

end TinyScript
