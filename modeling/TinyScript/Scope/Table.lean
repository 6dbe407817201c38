import TinyScript.DataType
import TinyScript.Error

/-! The symbols of one scope, each name at most once. -/

namespace TinyScript

structure Symbol where
  name : String
  type : DataType
deriving DecidableEq, Repr

namespace Symbol

def retype (name : String) (type : DataType) (s : Symbol) : Symbol :=
  if s.name = name then ⟨name, type⟩ else s

theorem name_retype (name : String) (type : DataType) (s : Symbol) :
    (retype name type s).name = s.name := by
  unfold retype
  split
  · next h => exact h.symm
  · rfl

end Symbol

structure SymbolTable where
  symbols : List Symbol := []
deriving DecidableEq, Repr

namespace SymbolTable

def lookup? (t : SymbolTable) (name : String) : Option Symbol :=
  t.symbols.find? fun s => s.name = name

def declare (t : SymbolTable) (name : String) (type : DataType) : Except Error SymbolTable :=
  match t.lookup? name with
  | some _ => .error (.detached (.variableAlreadyDeclared name))
  | none => .ok ⟨t.symbols ++ [⟨name, type⟩]⟩

theorem lookup?_name {t : SymbolTable} {name : String} {s : Symbol}
    (h : t.lookup? name = some s) : s.name = name := by
  simpa using List.find?_some h

theorem lookup?_declare {t u : SymbolTable} {name : String} {type : DataType}
    (h : t.declare name type = .ok u) (other : String) :
    u.lookup? other = if other = name then some ⟨name, type⟩ else t.lookup? other := by
  unfold declare at h
  split at h
  · cases h
  · next hn =>
    cases h
    unfold lookup? at hn ⊢
    rw [List.find?_append]
    by_cases ho : other = name
    · subst ho
      rw [hn, if_pos rfl]
      simp
    · have hne : ¬name = other := fun e => ho e.symm
      rw [if_neg ho]
      simp [hne]

def setType? (t : SymbolTable) (name : String) (type : DataType) : Option SymbolTable :=
  match t.lookup? name with
  | some _ => some ⟨t.symbols.map (Symbol.retype name type)⟩
  | none => none

theorem find?_retype (name : String) (type : DataType) (other : String) (l : List Symbol) :
    (l.map (Symbol.retype name type)).find? (fun s => s.name = other) =
      (l.find? fun s => s.name = other).map (Symbol.retype name type) := by
  rw [List.find?_map]
  congr 2
  funext s
  simp only [Function.comp_apply, Symbol.name_retype]

theorem lookup?_setType? {t u : SymbolTable} {name : String} {type : DataType}
    (h : t.setType? name type = some u) (other : String) :
    u.lookup? other = if other = name then some ⟨name, type⟩ else t.lookup? other := by
  unfold setType? at h
  split at h
  · next s hs =>
    cases h
    have hu : lookup? ⟨t.symbols.map (Symbol.retype name type)⟩ other =
        (t.lookup? other).map (Symbol.retype name type) := find?_retype name type other t.symbols
    rw [hu]
    split
    · next ho =>
      subst ho
      rw [hs, Option.map_some, Symbol.retype, if_pos (lookup?_name hs)]
    · next ho =>
      cases hl : t.lookup? other with
      | none => rfl
      | some a =>
        have ha : ¬a.name = name := fun e => ho ((lookup?_name hl).symm.trans e)
        rw [Option.map_some, Symbol.retype, if_neg ha]
  · cases h

end SymbolTable

end TinyScript
