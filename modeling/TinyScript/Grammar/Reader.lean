import TinyScript.Error
import TinyScript.Event

/-! The state of reading: a place in the token list, the numbering and nesting of constructs, and
the events recorded so far. What was recorded stays when reading fails. -/

namespace TinyScript

structure Reader where
  current : Token
  upcoming : List Token
  nextId : Serial := 0
  depth : Nat := 0
  events : Array Event := #[]
deriving Repr

abbrev ReadM := ExceptT Error (StateM Reader)

namespace Reader

/-- The tokens after `last`, closed by an end-of-text token unless they have one. -/
def closed (last : Token) : List Token → List Token
  | [] => if last.kind = .eof then [] else [.eofAt last.span.stop]
  | t :: ts => t :: closed t ts

def ofTokens (tokens : List Token) (file : String) : Reader :=
  match tokens with
  | [] => { current := .eofAt ⟨0, file⟩, upcoming := [] }
  | t :: ts => { current := t, upcoming := closed t ts }

def next (r : Reader) : Reader :=
  match r.upcoming with
  | [] => r
  | t :: ts => { r with current := t, upcoming := ts }

def position (r : Reader) : Position := r.current.span.start

def hasTokens (r : Reader) : Bool := r.current.kind ≠ .eof

def mismatch (r : Reader) : Error := ⟨.unexpectedToken r.current.value, r.position⟩

def unexpected (r : Reader) (message : String) : Error :=
  ⟨.unexpectedTokenDetailed r.current.value message, r.position⟩

def deeper (r : Reader) : Reader := { r with depth := r.depth + 1 }

def shallower (r : Reader) : Reader := { r with depth := r.depth - 1 }

def record (r : Reader) (id : Serial) (kind : EventKind) : Reader :=
  { r with events := r.events.push ⟨id, r.depth, kind⟩ }

def peek : ReadM TokenKind := return (← get).current.kind

def advance : ReadM Token := do
  let r ← get
  set r.next
  return r.current

def fail {α : Type} : ReadM α := do throw (← get).mismatch

def reject {α : Type} (message : String) : ReadM α := do throw ((← get).unexpected message)

def expectOr (kind : TokenKind) (error : Option Error) : ReadM Token := do
  let r ← get
  if r.current.kind = kind then advance else throw (error.getD r.mismatch)

def expect (kind : TokenKind) : ReadM Token := expectOr kind none

def require (kind : TokenKind) (message : String) : ReadM Token := do
  expectOr kind (some ((← get).unexpected message))

def freshId : ReadM Serial := do
  let r ← get
  set { r with nextId := r.nextId + 1 }
  return r.nextId

def emitAs (id : Serial) (kind : EventKind) : ReadM Unit := modify (·.record id kind)

def emit (kind : EventKind) : ReadM Serial := do
  let id ← freshId
  emitAs id kind
  return id

/-- Reads one level deeper, and comes back up whatever the outcome. -/
def nested {α : Type} (act : ReadM α) : ReadM α := ExceptT.mk do
  modify deeper
  let outcome ← act.run
  modify shallower
  return outcome

end Reader

end TinyScript
