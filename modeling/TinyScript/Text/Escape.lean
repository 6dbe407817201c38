/-! The inside of a string literal. A backslash before one of `n t r \ " 0` stands with it for a
single character; any other backslash stands for itself. -/

namespace TinyScript.Text

def escaped? (c : Char) : Option Char :=
  match c with
  | 'n' => some '\n'
  | 't' => some '\t'
  | 'r' => some '\r'
  | '\\' => some '\\'
  | '"' => some '"'
  | '0' => some '\x00'
  | _ => none

def unescape : List Char → List Char
  | '\\' :: c :: cs =>
    match escaped? c with
    | some d => d :: unescape cs
    | none => '\\' :: unescape (c :: cs)
  | c :: cs => c :: unescape cs
  | [] => []

end TinyScript.Text
