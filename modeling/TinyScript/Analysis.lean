import TinyScript.Assembly
import TinyScript.Grammar.Goal
import TinyScript.Token.Tokenize
import TinyScript.Typing.Annotate
import TinyScript.Typing.Unresolved

/-! From the text of a program to its typed tree. -/

namespace TinyScript

structure Settings where
  fileName : Option String := none
  strict : Bool := false
deriving DecidableEq, Repr

def Settings.displayName (s : Settings) : String := s.fileName.getD defaultFile

def orFault {α : Type} : Except Error α → Except Fault α
  | .ok a => .ok a
  | .error e => .error (.error e)

def readProgram (source : String) (fileName : Option String) : Except Fault Program := do
  let tokens ← orFault (tokenize source fileName)
  let events ← orFault (parse tokens (fileName.getD defaultFile)).1
  Program.ofEvents events

def Analysis.requireTyped (a : Analysis) : Except Error Analysis :=
  match a.program.unresolved.length with
  | 0 => .ok a
  | count => .error (.detached (.unresolvedTypes count))

/-- The typed tree of a text, or the first thing wrong with it. -/
def analyze (source : String) (settings : Settings) : Except Fault Analysis := do
  let program ← readProgram source settings.fileName
  match Analysis.fillScopes { program } with
  | (some e, _) => .error (.error e)
  | (none, declared) =>
    if settings.strict then orFault declared.annotate.requireTyped
    else .ok declared.annotate

end TinyScript
