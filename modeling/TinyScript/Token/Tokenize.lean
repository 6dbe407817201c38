import TinyScript.Error
import TinyScript.Text.Bytes
import TinyScript.Token.Basic
import TinyScript.Token.Pattern

/-! From a text to its tokens. The token list ends with an end-of-text token; a place where no
pattern matches is an error that names the character there. -/

namespace TinyScript

def defaultFile : String := "shell"

namespace Token

def ofMatch? (file : String) (offset : Nat) (p : Pattern) (text : List Char) : Option Token :=
  (p.lexeme? text).map fun l =>
    ⟨l.1, l.2, .atBytes file offset (offset + Text.byteLength text)⟩

/-- The tokens of the text `cs`, whose first character is `offset` bytes into `file`. -/
def scan (file : String) (offset : Nat) (cs : List Char) : Except Error (List Token) :=
  match h : Pattern.first? cs with
  | some (p, text, rest) =>
    have := Pattern.first?_length_lt h
    (scan file (offset + Text.byteLength text) rest).map fun tokens =>
      (ofMatch? file offset p text).toList ++ tokens
  | none =>
    match cs with
    | [] => .ok [eofAt (.atByte file offset)]
    | c :: _ => .error ⟨.unrecognisedToken (String.singleton c), .atByte file offset⟩
termination_by cs.length

end Token

def tokenize (source : String) (file : Option String) : Except Error (List Token) :=
  Token.scan (file.getD defaultFile) 0 source.toList

end TinyScript
