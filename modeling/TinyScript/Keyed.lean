/-! Finite maps as lists of entries, at most one of which is found under each key. -/

namespace TinyScript

structure Keyed (κ α : Type) where
  entries : List (κ × α) := []
deriving DecidableEq, Repr

namespace Keyed

variable {κ α : Type} [DecidableEq κ]

def get? (m : Keyed κ α) (k : κ) : Option α :=
  (m.entries.find? fun p => p.1 = k).map Prod.snd

def erase (m : Keyed κ α) (k : κ) : Keyed κ α := ⟨m.entries.filter fun p => p.1 ≠ k⟩

def insert (m : Keyed κ α) (k : κ) (a : α) : Keyed κ α := ⟨(k, a) :: (m.erase k).entries⟩

@[simp] theorem get?_empty (k : κ) : ({} : Keyed κ α).get? k = none := rfl

theorem get?_erase (m : Keyed κ α) (k l : κ) :
    (m.erase k).get? l = if l = k then none else m.get? l := by
  unfold get? erase
  rw [List.find?_filter]
  by_cases h : l = k
  · subst h
    simp
  · rw [if_neg h]
    congr 2
    funext p
    by_cases hp : p.1 = l
    · simp [hp, h]
    · simp [hp]

theorem get?_insert (m : Keyed κ α) (k l : κ) (a : α) :
    (m.insert k a).get? l = if l = k then some a else m.get? l := by
  by_cases h : l = k
  · subst h
    simp [get?, insert]
  · have hk : ¬k = l := fun e => h e.symm
    have he := get?_erase m k l
    rw [if_neg h] at he
    rw [if_neg h, ← he]
    simp [get?, insert, hk]

end Keyed

end TinyScript
