import Mathlib.Data.List.Forall2
import TinyScript.Proofs.Typing.Assign

/-! Filling scopes only refines, whatever they contain before and whatever goes wrong. A scope can
get names, and a symbol or a parameter without a type can get one; all else stays, and a poisoned
scope stays altogether. Scopes may be shared here, and need not be those of one program. -/

namespace TinyScript

/-- What can become of the symbol that a scope has for a name. -/
inductive Symbol.Change : Option Symbol → Option Symbol → Prop
  | same (symbol : Option Symbol) : Change symbol symbol
  | declared (symbol : Symbol) : Change none (some symbol)
  | typed (name : String) {type : DataType} (h : type ≠ .unknown) :
      Change (some ⟨name, .unknown⟩) (some ⟨name, type⟩)

theorem Symbol.Change.trans {o o₁ o₂ : Option Symbol} (h : Change o o₁) (h' : Change o₁ o₂) :
    Change o o₂ := by
  cases h with
  | same => exact h'
  | declared symbol => cases h' <;> exact .declared _
  | typed name hk =>
    cases h' with
    | same => exact .typed name hk
    | typed => exact absurd rfl hk

namespace Scopes

variable {m m₁ m₂ : Scopes} {s : Scope} {name : String} {type : DataType}

/-- From `m` to `m'` scopes have at most got names, and types for symbols that had none; nothing
has changed in a poisoned scope. -/
structure Extends (m m' : Scopes) : Prop where
  poisoned : ∀ s, (m'.get s).poisoned = (m.get s).poisoned
  frozen : ∀ s, (m.get s).poisoned = true → (m'.get s).table = (m.get s).table
  change : ∀ s name, Symbol.Change (m.symbol? s name) (m'.symbol? s name)

namespace Extends

theorem refl (m : Scopes) : m.Extends m := ⟨fun _ => rfl, fun _ _ => rfl, fun _ _ => .same _⟩

theorem trans (h : m.Extends m₁) (h' : m₁.Extends m₂) : m.Extends m₂ where
  poisoned s := (h'.poisoned s).trans (h.poisoned s)
  frozen s hs := by rw [h'.frozen s ((h.poisoned s).trans hs), h.frozen s hs]
  change s name := (h.change s name).trans (h'.change s name)

theorem of_enters (h : m.Enters s name type m₁) (hp : (m.get s).poisoned = false)
    (hsame : ∀ t ≠ s, m₁.get t = m.get t)
    (hs : ∀ symbol, m.symbol? s name = some symbol → symbol.type = .unknown) :
    m.Extends m₁ where
  poisoned := h.poisoned
  frozen t ht := by
    have hne : t ≠ s := fun he => by simp [he, hp] at ht
    rw [hsame t hne]
  change t other := by
    by_cases hentry : t = s ∧ other = name
    · obtain ⟨rfl, rfl⟩ := hentry
      rw [h.symbol_self]
      cases hsymbol : m.symbol? t other with
      | none => exact .declared _
      | some symbol =>
        obtain ⟨_, _⟩ := symbol
        obtain rfl := symbol?_name hsymbol
        obtain rfl := hs _ hsymbol
        by_cases hk : type = .unknown
        · exact hk ▸ .same _
        · exact .typed _ hk
    · rw [h.symbol_of_ne hentry]
      exact .same _

end Extends

theorem get_setTable_of_ne (m : Scopes) (table : SymbolTable) :
    ∀ t ≠ s, (m.setTable s table).get t = m.get t :=
  fun t hne => (get_setTable m s table t).trans (if_neg hne)

end Scopes

namespace Declared

theorem extends_declare (d : Declared) (s : Scope) (name : String) (type : DataType) :
    d.scopes.Extends (d.update (d.scopes.declare s name type)).scopes := by
  cases hp : (d.scopes.get s).poisoned with
  | true =>
    simp only [Scopes.declare, Scopes.table, hp, if_true, bind, Except.bind]
    exact .refl _
  | false =>
    cases hsymbol : d.scopes.symbol? s name with
    | some symbol =>
      rw [Scopes.declare_of_some hp hsymbol]
      exact .refl _
    | none =>
      obtain ⟨table, hdeclare, henters⟩ := Scopes.declare_enters hp hsymbol type
      rw [hdeclare]
      exact .of_enters henters hp (Scopes.get_setTable_of_ne _ _)
        fun symbol hsome => by simp [hsymbol] at hsome

theorem extends_declareParameters (d : Declared) (s : Scope) (ps : List Parameter) :
    d.scopes.Extends (d.declareParameters s ps).scopes := by
  induction ps generalizing d with
  | nil => exact .refl _
  | cons p ps ih => exact (d.extends_declare s p.name p.type).trans (ih _)

theorem extends_assign (d : Declared) (c : Context) (name : String) (type : DataType) :
    d.scopes.Extends (d.assign c name type).scopes := by
  have hfound := Context.found_nearestBinding d.scopes name c.active
  unfold assign Context.binding
  match Context.nearestBinding d.scopes name c.active, hfound with
  | .error e, _ => exact .refl _
  | .ok (some (s, symbol)), ⟨_, hp, hsymbol⟩ =>
    simp only
    split
    · next hrefine =>
      simp only [Bool.and_eq_true, Bool.not_eq_true'] at hrefine
      obtain ⟨table, hset, henters⟩ := Scopes.setType_enters hp hsymbol type
      rw [hset]
      refine .of_enters henters hp (Scopes.get_setTable_of_ne _ _) fun other hother => ?_
      obtain rfl : symbol = other := Option.some.inj (hsymbol.symm.trans hother)
      simpa [DataType.isKnown] using hrefine.1
    · exact .refl _
  | .ok none, _ =>
    simp only
    cases c.innermost? with
    | none => exact .refl _
    | some s => exact d.extends_declare s name type

theorem scopes_settle (d : Declared) (s : Scope) (p : Parameter) :
    (d.settle s p).2.scopes = d.scopes := by
  unfold settle
  split
  · rfl
  · split <;> rfl

theorem scopes_settleAll (d : Declared) (s : Scope) (ps : List Parameter) :
    (d.settleAll s ps).2.scopes = d.scopes := by
  induction ps generalizing d with
  | nil => rfl
  | cons p ps ih =>
    have hrest : ((d.settle s p).2.settleAll s ps).2.scopes = (d.settle s p).2.scopes := ih _
    exact hrest.trans (d.scopes_settle s p)

end Declared

mutual

theorem Stmt.extends_declare (s : Stmt) (c : Context) (d : Declared) :
    d.scopes.Extends (s.declare c d).scopes := by
  cases s with
  | assign depth target value =>
    cases target with
    | var tag name => exact d.extends_assign c name _
    | _ => exact .refl _
  | ifThen depth condition yes => exact yes.extends_declare c d
  | ifElse depth condition yes no =>
    exact (yes.extends_declare c d).trans (no.extends_declare c _)
  | loop depth guard body => exact body.extends_declare c d
  | ret _ _ | brk _ | cont _ | test _ _ _ => exact .refl _

theorem Block.extends_declare (b : Block) (c : Context) (d : Declared) :
    d.scopes.Extends (b.declare c d).scopes := by
  cases b with
  | mk depth scope statements => exact Stmt.extends_declareAll statements (c.enter scope) d

theorem Stmt.extends_declareAll (ss : List Stmt) (c : Context) (d : Declared) :
    d.scopes.Extends (Stmt.declareAll c ss d).scopes := by
  cases ss with
  | nil => exact .refl _
  | cons s ss => exact (s.extends_declare c d).trans (Stmt.extends_declareAll ss c _)

end

inductive Parameter.Change : Parameter → Parameter → Prop
  | same (p : Parameter) : Change p p
  | typed (name : String) {type : DataType} (h : type ≠ .unknown) :
      Change ⟨name, .unknown⟩ ⟨name, type⟩

theorem Declared.change_settle (d : Declared) (s : Scope) (p : Parameter) :
    Parameter.Change p (d.settle s p).1 := by
  obtain ⟨name, type⟩ := p
  unfold settle
  split
  · exact .same _
  · next hunknown =>
    obtain rfl : type = .unknown := by simpa [DataType.isKnown] using hunknown
    split
    · next symbol _ =>
      by_cases hk : symbol.type = .unknown
      · exact hk ▸ .same _
      · exact .typed name hk
    · exact .same _
    · exact .same _

theorem Declared.change_settleAll (d : Declared) (s : Scope) (ps : List Parameter) :
    List.Forall₂ Parameter.Change ps (d.settleAll s ps).1 := by
  induction ps generalizing d with
  | nil => exact .nil
  | cons p ps ih => exact .cons (d.change_settle s p) (ih _)

namespace Function

structure Refines (f f' : Function) : Prop where
  parameters : List.Forall₂ Parameter.Change f.parameters f'.parameters
  rest : f' = { f with parameters := f'.parameters }

theorem refines_settled (c : Context) (f : Function) (d : Declared) :
    f.Refines (f.settled c d) :=
  ⟨(f.within c d).change_settleAll f.scope f.parameters, rfl⟩

theorem refines_settledAll (c : Context) (fs : List Function) (d : Declared) :
    List.Forall₂ Refines fs (settledAll c fs d) := by
  induction fs generalizing d with
  | nil => exact .nil
  | cons f fs ih => exact .cons (f.refines_settled c d) (ih _)

theorem extends_declare (c : Context) (f : Function) (d : Declared) :
    d.scopes.Extends (f.declare c d).scopes := by
  have hbody := f.body.extends_declare (c.enter f.scope) (d.declareParameters f.scope f.parameters)
  rw [declare, Declared.scopes_settleAll]
  exact (d.extends_declareParameters f.scope f.parameters).trans hbody

theorem extends_declareAll (c : Context) (fs : List Function) (d : Declared) :
    d.scopes.Extends (declareAll c fs d).scopes := by
  induction fs generalizing d with
  | nil => exact .refl _
  | cons f fs ih => exact (f.extends_declare c d).trans (ih _)

end Function

namespace Program

structure Refines (p p' : Program) : Prop where
  functions : List.Forall₂ Function.Refines p.functions p'.functions
  rest : p' = { p with functions := p'.functions }

theorem refines_settled (c : Context) (p : Program) (d : Declared) : p.Refines (p.settled c d) :=
  ⟨Function.refines_settledAll (c.enter p.scope) p.functions _, rfl⟩

theorem extends_declare (c : Context) (p : Program) (d : Declared) :
    d.scopes.Extends (p.declare c d).scopes :=
  (Stmt.extends_declareAll p.statements (c.enter p.scope) d).trans
    (Function.extends_declareAll (c.enter p.scope) p.functions _)

end Program

/-- Filling the scopes of a program, with or without success, does nothing to them but declare names
and give types to symbols that had none, and nothing to the program but give types to parameters
that had none. -/
theorem fillScopes_only_refines (a : Analysis) :
    a.scopes.Extends a.fillScopes.2.scopes ∧ a.program.Refines a.fillScopes.2.program := by
  rw [Analysis.fillScopes_eq]
  exact ⟨a.program.extends_declare _ ⟨a.scopes, []⟩, a.program.refines_settled _ _⟩

end TinyScript
