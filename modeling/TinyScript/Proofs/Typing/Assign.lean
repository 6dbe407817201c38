import TinyScript.Proofs.Typing.Declare

/-! What one assignment does. It makes at most one entry in a table: it gives a type to a symbol
that had none, or declares a name in the innermost active scope that no active scope has. -/

namespace TinyScript

namespace Scopes

variable {m : Scopes} {s : Scope}

theorem lookup_of_ok (h : (m.get s).poisoned = false) (name : String) :
    m.lookup s name = .ok ((m.get s).table.lookup? name) := by
  simp [lookup, table, h, pure, Except.pure, bind, Except.bind]

theorem lookup_of_poisoned (h : (m.get s).poisoned = true) (name : String) :
    m.lookup s name = .error (.detached .scopeUnavailable) := by
  simp [lookup, table, h, bind, Except.bind]

theorem declare_of_poisoned (h : (m.get s).poisoned = true) (name : String) (type : DataType) :
    m.declare s name type = .error (.detached .scopeUnavailable) := by
  simp [declare, table, h, bind, Except.bind]

theorem declare_of_some (h : (m.get s).poisoned = false) {name : String} {symbol : Symbol}
    (hs : (m.get s).table.lookup? name = some symbol) (type : DataType) :
    m.declare s name type = .error (.detached (.variableAlreadyDeclared name)) := by
  simp [declare, table, h, SymbolTable.declare, hs, bind, Except.bind]

theorem declare_of_none (h : (m.get s).poisoned = false) {name : String}
    (hn : (m.get s).table.lookup? name = none) (type : DataType) :
    ∃ t, (m.get s).table.declare name type = .ok t ∧
      m.declare s name type = .ok (m.setTable s t) := by
  refine ⟨⟨(m.get s).table.symbols ++ [⟨name, type⟩]⟩, ?_, ?_⟩
  · simp [SymbolTable.declare, hn]
  · simp [declare, table, h, SymbolTable.declare, hn, pure, Except.pure, bind, Except.bind]

theorem get_setTable (m : Scopes) (s : Scope) (t : SymbolTable) (s' : Scope) :
    (m.setTable s t).get s' = if s' = s then { m.get s with table := t } else m.get s' :=
  get_put m s s' _

def Clean (m : Scopes) : Prop := ∀ s, (m.get s).poisoned = false

theorem Clean.setTable (h : m.Clean) (s : Scope) (t : SymbolTable) : (m.setTable s t).Clean := by
  intro s'
  rw [get_setTable]
  split
  · exact h s
  · exact h s'

def symbol? (m : Scopes) (s : Scope) (name : String) : Option Symbol :=
  (m.get s).table.lookup? name

def Has (m : Scopes) (s : Scope) (name : String) : Prop := m.symbol? s name ≠ none

structure Enters (m : Scopes) (s : Scope) (name : String) (type : DataType) (m' : Scopes) :
    Prop where
  poisoned : ∀ t, (m'.get t).poisoned = (m.get t).poisoned
  symbol : ∀ t other, m'.symbol? t other =
    if t = s ∧ other = name then some ⟨name, type⟩ else m.symbol? t other

variable {m₁ : Scopes} {name : String} {type : DataType}

theorem symbol?_name {symbol : Symbol} (h : m.symbol? s name = some symbol) :
    symbol.name = name := SymbolTable.lookup?_name h

theorem enters_setTable {t : SymbolTable} (h : ∀ other, t.lookup? other =
      if other = name then some ⟨name, type⟩ else (m.get s).table.lookup? other) :
    m.Enters s name type (m.setTable s t) where
  poisoned u := by
    rw [get_setTable]
    split
    · next hu => rw [hu]
    · rfl
  symbol u other := by
    unfold symbol?
    rw [get_setTable]
    by_cases hu : u = s
    · subst hu
      simp [h]
    · simp [hu]

theorem declare_enters (hp : (m.get s).poisoned = false) (hn : m.symbol? s name = none)
    (type : DataType) : ∃ t, m.declare s name type = .ok (m.setTable s t) ∧
      m.Enters s name type (m.setTable s t) := by
  obtain ⟨t, ht, hdeclare⟩ := declare_of_none hp hn type
  exact ⟨t, hdeclare, enters_setTable (SymbolTable.lookup?_declare ht)⟩

theorem setType_enters (hp : (m.get s).poisoned = false) {symbol : Symbol}
    (hs : m.symbol? s name = some symbol) (type : DataType) :
    ∃ t, m.setType s name type = .ok (m.setTable s t, true) ∧
      m.Enters s name type (m.setTable s t) := by
  unfold symbol? at hs
  let t : SymbolTable := ⟨(m.get s).table.symbols.map (Symbol.retype name type)⟩
  have ht : (m.get s).table.setType? name type = some t := by simp [SymbolTable.setType?, hs, t]
  have hset : m.setType s name type = .ok (m.setTable s t, true) := by
    simp [setType, table, hp, ht, pure, Except.pure, bind, Except.bind]
  exact ⟨t, hset, enters_setTable (SymbolTable.lookup?_setType? ht)⟩

namespace Enters

theorem symbol_self (h : m.Enters s name type m₁) : m₁.symbol? s name = some ⟨name, type⟩ := by
  rw [h.symbol, if_pos ⟨rfl, rfl⟩]

theorem symbol_of_ne (h : m.Enters s name type m₁) {t : Scope} {other : String}
    (hne : ¬ (t = s ∧ other = name)) : m₁.symbol? t other = m.symbol? t other := by
  rw [h.symbol, if_neg hne]

theorem eq_of_has (h : m.Enters s name type m₁) {t : Scope} {other : String}
    (hhas : m₁.Has t other) (hnot : ¬ m.Has t other) : t = s ∧ other = name := by
  by_cases hsame : t = s ∧ other = name
  · exact hsame
  · exact absurd (by rwa [Has, ← h.symbol_of_ne hsame]) hnot

end Enters

end Scopes

namespace Context

def Found (m : Scopes) (name : String) (scopes : List Scope) :
    Except Error (Option (Scope × Symbol)) → Prop
  | .error e => e = .detached .scopeUnavailable ∧ ∃ s ∈ scopes, (m.get s).poisoned = true
  | .ok (some (s, symbol)) => s ∈ scopes ∧ (m.get s).poisoned = false ∧
      (m.get s).table.lookup? name = some symbol
  | .ok none => ∀ s ∈ scopes, (m.get s).poisoned = false ∧ (m.get s).table.lookup? name = none

theorem found_nearestBinding (m : Scopes) (name : String) (scopes : List Scope) :
    Found m name scopes (nearestBinding m name scopes) := by
  induction scopes with
  | nil => simp [nearestBinding, Found]
  | cons s scopes ih =>
    cases hp : (m.get s).poisoned with
    | true =>
      rw [nearestBinding, Scopes.lookup_of_poisoned hp]
      exact ⟨rfl, s, List.mem_cons_self, hp⟩
    | false =>
      rw [nearestBinding, Scopes.lookup_of_ok hp]
      cases hl : (m.get s).table.lookup? name with
      | some symbol => exact ⟨List.mem_cons_self, hp, hl⟩
      | none =>
        simp only
        match nearestBinding m name scopes, ih with
        | .error e, ⟨he, t, ht, hpt⟩ => exact ⟨he, t, List.mem_cons_of_mem s ht, hpt⟩
        | .ok (some (t, symbol)), ⟨ht, h⟩ => exact ⟨List.mem_cons_of_mem s ht, h⟩
        | .ok none, h => exact List.forall_mem_cons.2 ⟨⟨hp, hl⟩, h⟩

end Context

inductive Declared.Assigns (d : Declared) (c : Context) (name : String) (type : DataType) :
    Declared → Prop
  | refused {s : Scope} (hs : s ∈ c.active) (hp : (d.scopes.get s).poisoned = true) :
      Assigns d c name type (d.report (.detached .scopeUnavailable))
  | kept {s : Scope} {symbol : Symbol} (hs : s ∈ c.active)
      (hsymbol : d.scopes.symbol? s name = some symbol)
      (h : symbol.type ≠ .unknown ∨ type = .unknown) : Assigns d c name type d
  | refined {s : Scope} {symbol : Symbol} {t : SymbolTable} (hs : s ∈ c.active)
      (hsymbol : d.scopes.symbol? s name = some symbol) (hunknown : symbol.type = .unknown)
      (ht : d.scopes.Enters s name type (d.scopes.setTable s t)) :
      Assigns d c name type { d with scopes := d.scopes.setTable s t }
  | declared {s : Scope} {rest : List Scope} {t : SymbolTable} (hactive : c.active = s :: rest)
      (hnone : ∀ u ∈ c.active, ¬ d.scopes.Has u name)
      (ht : d.scopes.Enters s name type (d.scopes.setTable s t)) :
      Assigns d c name type { d with scopes := d.scopes.setTable s t }
  | nowhere (hactive : c.active = []) : Assigns d c name type d

theorem Declared.assigns (d : Declared) (c : Context) (name : String) (type : DataType) :
    d.Assigns c name type (d.assign c name type) := by
  have hfound := Context.found_nearestBinding d.scopes name c.active
  unfold assign Context.binding
  match Context.nearestBinding d.scopes name c.active, hfound with
  | .error e, ⟨he, s, hs, hp⟩ => exact he ▸ .refused hs hp
  | .ok (some (s, symbol)), ⟨hs, hp, hl⟩ =>
    simp only
    split
    · next hrefine =>
      simp only [Bool.and_eq_true, Bool.not_eq_true', DataType.isKnown_iff] at hrefine
      obtain ⟨t, hset, ht⟩ := Scopes.setType_enters hp hl type
      rw [hset]
      exact .refined hs hl (by simpa [DataType.isKnown] using hrefine.1) ht
    · next hkeep =>
      refine .kept hs hl ?_
      by_cases hk : symbol.type = .unknown
      · exact .inr (by simpa [DataType.isKnown, hk] using hkeep)
      · exact .inl hk
  | .ok none, hnone =>
    simp only [Context.innermost?]
    cases hactive : c.active with
    | nil => exact .nowhere hactive
    | cons s rest =>
      obtain ⟨hp, hl⟩ := hnone s (hactive ▸ List.mem_cons_self)
      obtain ⟨t, hdeclare, ht⟩ := Scopes.declare_enters hp hl type
      simp only [List.head?_cons, hdeclare]
      exact .declared hactive (fun u hu hhas => hhas (hnone u hu).2) ht

/-- An assignment is stopped by a poisoned scope, or it changes the table of at most one active
scope. -/
theorem Declared.assign_cases (d : Declared) (c : Context) (name : String) (type : DataType) :
    (d.assign c name type = d.report (.detached .scopeUnavailable) ∧
        ∃ s ∈ c.active, (d.scopes.get s).poisoned = true) ∨
      d.assign c name type = d ∨
      ∃ s ∈ c.active, ∃ t, d.assign c name type = { d with scopes := d.scopes.setTable s t } := by
  generalize hd' : d.assign c name type = d'
  have hassigns := d.assigns c name type
  rw [hd'] at hassigns
  cases hassigns with
  | refused hs hp => exact .inl ⟨rfl, _, hs, hp⟩
  | kept _ _ _ | nowhere _ => exact .inr (.inl rfl)
  | refined hs _ _ _ => exact .inr (.inr ⟨_, hs, _, rfl⟩)
  | @declared s rest t hactive _ _ =>
    exact .inr (.inr ⟨s, hactive ▸ List.mem_cons_self, t, rfl⟩)

end TinyScript
