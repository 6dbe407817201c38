import TinyScript.Source.Position
import TinyScript.Token.Kind

/-! Tokens: a kind, the text it stands for, and where it was found. -/

namespace TinyScript

structure Token where
  kind : TokenKind
  value : String
  span : Span
deriving DecidableEq, Repr, Inhabited

namespace Token

def eofAt (p : Position) : Token := ⟨.eof, "EOF", .point p⟩

def render (t : Token) : String :=
  "Token \x7b\nkind: " ++ t.kind.name ++ ",\nvalue: " ++ t.value ++ "\x7d"

end Token

end TinyScript
