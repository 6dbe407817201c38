import TinyScript.Keyed
import TinyScript.Scope.Table

/-! Scopes are identities: a tree holds which scope it is, and a store holds what every scope
contains. A scope that the store has not heard of is empty. A poisoned scope refuses every use. -/

namespace TinyScript

structure Scope where
  id : Nat
deriving DecidableEq, Repr

structure ScopeState where
  table : SymbolTable := {}
  poisoned : Bool := false
deriving DecidableEq, Repr

structure Scopes where
  states : Keyed Scope ScopeState := {}
deriving Repr

namespace Scopes

def get (m : Scopes) (s : Scope) : ScopeState := (m.states.get? s).getD {}

def put (m : Scopes) (s : Scope) (state : ScopeState) : Scopes := ⟨m.states.insert s state⟩

theorem get_put (m : Scopes) (s t : Scope) (state : ScopeState) :
    (m.put s state).get t = if t = s then state else m.get t := by
  unfold get put
  rw [Keyed.get?_insert]
  split <;> rfl

@[simp] theorem get_empty (s : Scope) : ({} : Scopes).get s = {} := rfl

def table (m : Scopes) (s : Scope) : Except Error SymbolTable :=
  if (m.get s).poisoned then .error (.detached .scopeUnavailable) else .ok (m.get s).table

def setTable (m : Scopes) (s : Scope) (table : SymbolTable) : Scopes :=
  m.put s { m.get s with table := table }

def lookup (m : Scopes) (s : Scope) (name : String) : Except Error (Option Symbol) := do
  return (← m.table s).lookup? name

def declare (m : Scopes) (s : Scope) (name : String) (type : DataType) : Except Error Scopes := do
  let t ← (← m.table s).declare name type
  return m.setTable s t

def setType (m : Scopes) (s : Scope) (name : String) (type : DataType) :
    Except Error (Scopes × Bool) := do
  match (← m.table s).setType? name type with
  | some t => return (m.setTable s t, true)
  | none => return (m, false)

def poison (m : Scopes) (s : Scope) : Scopes := m.put s { m.get s with poisoned := true }

end Scopes

end TinyScript
