import TinyScript.Text.Attaching
import TinyScript.Text.Ignorable
import TinyScript.Text.Unprintable

/-! Text as it stands in a message: between double quotes, with every character that would not
show up as itself written as an escape. -/

namespace TinyScript.Text

def hexDigits (n : Nat) : List Char := Nat.toDigits 16 n

def codeEscape (c : Char) : List Char :=
  ['\\', 'u', '\x7b'] ++ hexDigits c.toNat ++ ['\x7d']

def isVisible (c : Char) : Bool := !isAttaching c && !isIgnorable c && !isUnprintable c

def quotedChar (c : Char) : List Char :=
  match c with
  | '\x00' => ['\\', '0']
  | '\t' => ['\\', 't']
  | '\r' => ['\\', 'r']
  | '\n' => ['\\', 'n']
  | '"' => ['\\', '"']
  | '\\' => ['\\', '\\']
  | c => if isVisible c then [c] else codeEscape c

def quoted (s : String) : String :=
  String.ofList ('"' :: s.toList.flatMap quotedChar ++ ['"'])

end TinyScript.Text
