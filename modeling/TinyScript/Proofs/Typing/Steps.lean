import Mathlib.Logic.Relation
import Mathlib.Data.List.Nodup
import TinyScript.Proofs.Typing.Repeated

/-! Filling the scopes, one step at a time. A step makes at most one entry: it gives a type to a
symbol that had none, or declares a name that its scope did not have. An assignment declares a name
in the innermost active scope, and only if no active scope has it. -/

namespace TinyScript

namespace Scopes

structure Refines (m m' : Scopes) : Prop where
  poisoned : ∀ s, (m'.get s).poisoned = (m.get s).poisoned
  symbol : ∀ s name symbol, m.symbol? s name = some symbol →
    ∃ symbol', m'.symbol? s name = some symbol' ∧ (symbol.type ≠ .unknown → symbol' = symbol)

variable {m m₁ m₂ : Scopes} {s : Scope} {name : String} {type : DataType}

theorem Enters.refines (h : m.Enters s name type m₁)
    (hs : ∀ symbol, m.symbol? s name = some symbol → symbol.type = .unknown) :
    m.Refines m₁ where
  poisoned := h.poisoned
  symbol t other symbol ht := by
    by_cases hne : t = s ∧ other = name
    · obtain ⟨rfl, rfl⟩ := hne
      exact ⟨_, h.symbol_self, fun hk => absurd (hs symbol ht) hk⟩
    · exact ⟨symbol, (h.symbol_of_ne hne).trans ht, fun _ => rfl⟩

namespace Refines

theorem refl (m : Scopes) : m.Refines m :=
  ⟨fun _ => rfl, fun _ _ symbol h => ⟨symbol, h, fun _ => rfl⟩⟩

theorem trans (h : m.Refines m₁) (h' : m₁.Refines m₂) : m.Refines m₂ where
  poisoned s := (h'.poisoned s).trans (h.poisoned s)
  symbol s name symbol hs := by
    obtain ⟨symbol₁, hs₁, hk₁⟩ := h.symbol s name symbol hs
    obtain ⟨symbol₂, hs₂, hk₂⟩ := h'.symbol s name symbol₁ hs₁
    refine ⟨symbol₂, hs₂, fun hk => ?_⟩
    have h₁ := hk₁ hk
    rw [hk₂ (h₁ ▸ hk), h₁]

theorem clean (h : m.Refines m₁) (hm : m.Clean) : m₁.Clean :=
  fun s => (h.poisoned s).trans (hm s)

theorem has (h : m.Refines m₁) (hs : m.Has s name) : m₁.Has s name := by
  obtain ⟨symbol, hsymbol⟩ := Option.ne_none_iff_exists'.1 hs
  obtain ⟨symbol', hsymbol', -⟩ := h.symbol s name symbol hsymbol
  simp [Has, hsymbol']

end Refines

end Scopes

namespace Declared

/-- A step while the scopes `around` are active, and perhaps others within them: something is
reported, a name is assigned to, or a parameter is declared in a scope that is not among them. -/
inductive Step (around : List Scope) : Declared → Declared → Prop
  | report (d : Declared) (e : Error) : Step around d (d.report e)
  | assign (d : Declared) {c : Context} (hc : around <:+ c.active) (hnodup : c.active.Nodup)
      (name : String) (type : DataType) : Step around d (d.assign c name type)
  | parameter (d : Declared) {s : Scope} (hs : s ∉ around) (p : Parameter) :
      Step around d (d.update (d.scopes.declare s p.name p.type))

abbrev Runs (around : List Scope) : Declared → Declared → Prop :=
  Relation.ReflTransGen (Step around)

variable {around : List Scope} {d d' : Declared}

theorem update_declare (d : Declared) (s : Scope) (name : String) (type : DataType) :
    (d.update (d.scopes.declare s name type)).scopes = d.scopes ∨
      d.scopes.symbol? s name = none ∧
        d.scopes.Enters s name type (d.update (d.scopes.declare s name type)).scopes := by
  cases hp : (d.scopes.get s).poisoned with
  | true => rw [Scopes.declare_of_poisoned hp]; exact .inl rfl
  | false =>
    cases hsymbol : d.scopes.symbol? s name with
    | some symbol => rw [Scopes.declare_of_some hp hsymbol]; exact .inl rfl
    | none =>
      obtain ⟨m, hm, henters⟩ := Scopes.declare_enters hp hsymbol type
      rw [hm]
      exact .inr ⟨rfl, henters⟩

/-- What a step does to the scopes: nothing, or one entry. The entry gives a type to a symbol
without one, or it is a new name; a new name in one of the scopes `around` goes to the innermost of
them, and none of them had it. -/
theorem Step.effect (h : Step around d d') :
    d'.scopes = d.scopes ∨ ∃ s name type, d.scopes.Enters s name type d'.scopes ∧
      ((∃ symbol, d.scopes.symbol? s name = some symbol ∧ symbol.type = .unknown) ∨
        d.scopes.symbol? s name = none ∧
          (s ∈ around → around.head? = some s ∧ ∀ t ∈ around, ¬ d.scopes.Has t name)) := by
  cases h with
  | report e => exact .inl rfl
  | @assign c hc hnodup name type =>
    generalize hd' : d.assign c name type = d'
    have hassigns := d.assigns c name type
    rw [hd'] at hassigns
    cases hassigns with
    | refused _ _ | kept _ _ _ | nowhere _ => exact .inl rfl
    | @refined s symbol m hs hsymbol hunknown hm =>
      exact .inr ⟨s, name, type, hm, .inl ⟨symbol, hsymbol, hunknown⟩⟩
    | @declared s rest m hactive hnone hm =>
      have hs : d.scopes.symbol? s name = none :=
        not_not.1 (hnone s (hactive ▸ List.mem_cons_self))
      refine .inr ⟨s, name, type, hm, .inr ⟨hs, fun haround => ?_⟩⟩
      rw [hactive] at hc hnodup
      rcases List.suffix_cons_iff.1 hc with rfl | hrest
      · exact ⟨rfl, hactive ▸ hnone⟩
      · exact absurd (hrest.subset haround) (List.nodup_cons.1 hnodup).1
  | @parameter s hs p =>
    rcases d.update_declare s p.name p.type with hsame | ⟨hnone, henters⟩
    · exact .inl hsame
    · exact .inr ⟨s, p.name, p.type, henters, .inr ⟨hnone, fun hmem => absurd hmem hs⟩⟩

theorem Step.refines (h : Step around d d') : d.scopes.Refines d'.scopes := by
  rcases h.effect with hsame | ⟨s, name, type, henters, ⟨symbol, hsymbol, hunknown⟩ | ⟨hnone, -⟩⟩
  · rw [hsame]
    exact .refl _
  · refine henters.refines fun other hother => ?_
    obtain rfl : symbol = other := Option.some.inj (hsymbol.symm.trans hother)
    exact hunknown
  · exact henters.refines fun other hother => by simp [hnone] at hother

theorem Step.mono {outer : List Scope} (houter : outer <:+ around) (h : Step around d d') :
    Step outer d d' := by
  cases h with
  | report e => exact .report d e
  | assign hc hnodup name type => exact .assign d (houter.trans hc) hnodup name type
  | parameter hs p => exact .parameter d (fun hmem => hs (houter.subset hmem)) p

namespace Runs

theorem mono {outer : List Scope} (houter : outer <:+ around) (h : Runs around d d') :
    Runs outer d d' := Relation.ReflTransGen.mono (fun _ _ => Step.mono houter) _ _ h

theorem refines (h : Runs around d d') : d.scopes.Refines d'.scopes := by
  induction h with
  | refl => exact .refl _
  | tail _ hstep ih => exact ih.trans hstep.refines

end Runs

theorem runs_declareParameters {s : Scope} (hs : s ∉ around) (d : Declared)
    (ps : List Parameter) : Runs around d (d.declareParameters s ps) := by
  induction ps generalizing d with
  | nil => exact .refl
  | cons p ps ih => exact .head (.parameter d hs p) (ih _)

theorem symbol_declareParameters {s : Scope} {d : Declared}
    (hp : (d.scopes.get s).poisoned = false) (ps : List Parameter) (name : String) :
    (d.declareParameters s ps).scopes.symbol? s name =
      (d.scopes.symbol? s name).or
        ((ps.find? fun p => p.name = name).map fun p => ⟨p.name, p.type⟩) := by
  induction ps generalizing d with
  | nil => simp [declareParameters]
  | cons p ps ih =>
    rw [declareParameters]
    cases hsymbol : d.scopes.symbol? s p.name with
    | some symbol =>
      have hrest := ih (d := d.report (.detached (.variableAlreadyDeclared p.name))) hp
      rw [Scopes.declare_of_some hp hsymbol, update, hrest]
      by_cases hname : p.name = name
      · simp [report, ← hname, hsymbol]
      · simp [report, hname]
    | none =>
      obtain ⟨m, hm, henters⟩ := Scopes.declare_enters hp hsymbol p.type
      rw [hm, update, ih ((henters.poisoned s).trans hp)]
      by_cases hname : p.name = name
      · simp [← hname, henters.symbol_self, hsymbol]
      · rw [henters.symbol_of_ne fun h => hname h.2.symm]
        simp [hname]

theorem runs_settleAll (around : List Scope) (s : Scope) (d : Declared) (ps : List Parameter) :
    Runs around d (d.settleAll s ps).2 := by
  induction ps generalizing d with
  | nil => exact .refl
  | cons p ps ih =>
    have hone : Runs around d (d.settle s p).2 := by
      unfold settle
      split
      · exact .refl
      · split
        · exact .refl
        · exact .refl
        · next e _ => exact .single (.report d e)
    exact hone.trans (ih _)

end Declared

open Declared (Runs)

theorem nodup_parts {ss ss' around : List Scope} (h : (ss ++ ss' ++ around).Nodup) :
    (ss ++ around).Nodup ∧ (ss' ++ around).Nodup :=
  ⟨h.sublist ((List.sublist_append_left _ _).append_right _),
    h.sublist ((List.sublist_append_right _ _).append_right _)⟩

mutual

theorem Stmt.runs_declare (s : Stmt) {c : Context} (h : (s.scopes ++ c.active).Nodup)
    (d : Declared) : Runs c.active d (s.declare c d) := by
  cases s with
  | assign depth target value =>
    cases target with
    | var tag name => exact .single (.assign d (List.suffix_refl _) h name _)
    | _ => exact .refl
  | ifThen depth condition yes => exact (yes.runs_declare h d).mono (List.suffix_cons _ _)
  | ifElse depth condition yes no =>
    obtain ⟨hyes, hno⟩ := nodup_parts h
    exact ((yes.runs_declare hyes d).mono (List.suffix_cons _ _)).trans
      ((no.runs_declare hno _).mono (List.suffix_cons _ _))
  | loop depth guard body => exact (body.runs_declare h d).mono (List.suffix_cons _ _)
  | ret _ _ | brk _ | cont _ | test _ _ _ => exact .refl

theorem Block.runs_declare (b : Block) {c : Context} (h : (b.scopes ++ c.active).Nodup)
    (d : Declared) : Runs (b.scope :: c.active) d (b.declare c d) := by
  cases b with
  | mk depth scope statements =>
    exact Stmt.runs_declareAll statements (c := c.enter scope) (List.perm_middle.symm.nodup h) d

theorem Stmt.runs_declareAll (ss : List Stmt) {c : Context}
    (h : (Stmt.scopesAll ss ++ c.active).Nodup) (d : Declared) :
    Runs c.active d (Stmt.declareAll c ss d) := by
  cases ss with
  | nil => exact .refl
  | cons s ss =>
    obtain ⟨hs, hss⟩ := nodup_parts h
    exact (s.runs_declare hs d).trans (Stmt.runs_declareAll ss hss _)

end

namespace Function

variable {c : Context}

theorem runs_declare (f : Function) (h : (f.scopes ++ c.active).Nodup) (d : Declared) :
    Runs c.active d (f.declare c d) := by
  have hscope : f.scope ∉ c.active := fun hmem =>
    (List.nodup_cons.1 h).1 (List.mem_append_right _ hmem)
  have hbody := f.body.runs_declare (c := c.enter f.scope) (List.perm_middle.symm.nodup h)
    (d.declareParameters f.scope f.parameters)
  exact ((Declared.runs_declareParameters hscope d f.parameters).trans
    (hbody.mono ((List.suffix_cons _ _).trans (List.suffix_cons _ _)))).trans
    (Declared.runs_settleAll _ _ _ _)

end Function

/-- No two of the program, its functions and its blocks share a scope. -/
def Program.Distinct (p : Program) : Prop :=
  (p.functions.flatMap Function.scopes ++ (Stmt.scopesAll p.statements ++ [p.scope])).Nodup

theorem Program.Distinct.apart {p : Program} (h : p.Distinct) : p.Apart := by
  obtain ⟨hfunctions, -, hdisjoint⟩ := List.nodup_append'.1 h
  refine ⟨fun f hf => ?_, ?_⟩
  · have hmem : f.scope ∈ p.functions.flatMap Function.scopes :=
      List.mem_flatMap.2 ⟨f, hf, List.mem_cons_self⟩
    have hnot := List.disjoint_left.1 hdisjoint hmem
    simp only [List.mem_append, List.mem_singleton, not_or] at hnot
    exact ⟨hnot.2, hnot.1⟩
  · refine (List.nodup_flatMap.1 hfunctions).2.imp fun hgf hmem => ?_
    exact List.disjoint_left.1 hgf hmem List.mem_cons_self

end TinyScript
