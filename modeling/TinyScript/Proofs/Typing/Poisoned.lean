import TinyScript.Proofs.Typing.Annotate
import TinyScript.Proofs.Walk.Nesting

/-! What happens inside a poisoned scope. Every search ends there, so nothing is entered in a scope
inside it and no name has a visible type. -/

namespace TinyScript

namespace Scopes

variable {m : Scopes} {s : Scope} {around : List Scope}

/-- A search through the scopes comes to a poisoned one before it finds anything. -/
def Shut (m : Scopes) : List Scope → Prop
  | [] => False
  | s :: rest => (m.get s).poisoned = true ∨ (m.get s).table = {} ∧ m.Shut rest

namespace Shut

theorem nearestBinding (h : m.Shut around) (name : String) :
    Context.nearestBinding m name around = .error (.detached .scopeUnavailable) := by
  induction around with
  | nil => cases h
  | cons s around ih =>
    cases hp : (m.get s).poisoned with
    | true => rw [Context.nearestBinding, lookup_of_poisoned hp]
    | false =>
      obtain ⟨htable, hrest⟩ := h.resolve_left (by simp [hp])
      rw [Context.nearestBinding, lookup_of_ok hp, htable]
      exact ih hrest

theorem visibleType (h : m.Shut around) (name : String) : m.visibleType around name = .unknown := by
  rw [← nearestType_eq_visibleType]
  induction around with
  | nil => cases h
  | cons s around ih =>
    cases hp : (m.get s).poisoned with
    | true => rw [Context.nearestType, lookup_of_poisoned hp]
    | false =>
      obtain ⟨htable, hrest⟩ := h.resolve_left (by simp [hp])
      rw [Context.nearestType, lookup_of_ok hp, htable]
      exact ih hrest

end Shut

theorem get_poison (m : Scopes) (s t : Scope) :
    (m.poison s).get t = if t = s then { m.get s with poisoned := true } else m.get t :=
  get_put m s t _

end Scopes

theorem Declared.scopes_assign_of_shut {c : Context} {d : Declared} (h : d.scopes.Shut c.active)
    (name : String) (type : DataType) : (d.assign c name type).scopes = d.scopes := by
  unfold assign Context.binding
  rw [h.nearestBinding]
  rfl

theorem Declared.scopes_declareParameters_of_poisoned {d : Declared} {s : Scope}
    (h : (d.scopes.get s).poisoned = true) (ps : List Parameter) :
    (d.declareParameters s ps).scopes = d.scopes := by
  induction ps generalizing d with
  | nil => rfl
  | cons p ps ih =>
    rw [declareParameters, Scopes.declare_of_poisoned h]
    exact ih h

mutual

theorem Stmt.scopes_declare_of_shut (s : Stmt) {c : Context} {d : Declared}
    (h : d.scopes.Shut c.active) (hempty : ∀ t ∈ s.scopes, (d.scopes.get t).table = {}) :
    (s.declare c d).scopes = d.scopes := by
  cases s with
  | assign depth target value =>
    cases target with
    | var tag name => exact Declared.scopes_assign_of_shut h name _
    | _ => rfl
  | ifThen depth condition yes => exact yes.scopes_declare_of_shut h hempty
  | ifElse depth condition yes no =>
    obtain ⟨hyes, hno⟩ := List.forall_mem_append.1 hempty
    have hfirst := yes.scopes_declare_of_shut h hyes
    rw [← hfirst] at h hno
    exact (no.scopes_declare_of_shut h hno).trans hfirst
  | loop depth guard body => exact body.scopes_declare_of_shut h hempty
  | ret _ _ | brk _ | cont _ | test _ _ _ => rfl

theorem Block.scopes_declare_of_shut (b : Block) {c : Context} {d : Declared}
    (h : d.scopes.Shut c.active) (hempty : ∀ t ∈ b.scopes, (d.scopes.get t).table = {}) :
    (b.declare c d).scopes = d.scopes := by
  cases b with
  | mk depth scope statements =>
    obtain ⟨hscope, hinner⟩ := List.forall_mem_cons.1 hempty
    have hshut : d.scopes.Shut (c.enter scope).active := .inr ⟨hscope, h⟩
    exact Stmt.scopes_declareAll_of_shut statements hshut hinner

theorem Stmt.scopes_declareAll_of_shut (ss : List Stmt) {c : Context} {d : Declared}
    (h : d.scopes.Shut c.active) (hempty : ∀ t ∈ Stmt.scopesAll ss, (d.scopes.get t).table = {}) :
    (Stmt.declareAll c ss d).scopes = d.scopes := by
  cases ss with
  | nil => rfl
  | cons s ss =>
    obtain ⟨hs, hss⟩ := List.forall_mem_append.1 hempty
    have hfirst := s.scopes_declare_of_shut h hs
    rw [← hfirst] at h hss
    exact (Stmt.scopes_declareAll_of_shut ss h hss).trans hfirst

end

theorem Scopes.shut_of_reached {m : Scopes} {s : Scope} {sites : List Visit}
    (hp : (m.get s).poisoned = true) (hempty : ∀ v ∈ sites, ∀ t, v.place.scope? = some t →
      s ∈ v.active → (m.get t).table = {}) {scopes : List Scope} (h : Reached sites [] scopes)
    (hs : s ∈ scopes) : m.Shut scopes := by
  induction h with
  | around => cases hs
  | @enter v t hv ht _ ih =>
    by_cases hin : s ∈ v.active
    · exact .inr ⟨hempty v hv t ht hin, ih hin⟩
    · obtain rfl := (List.mem_cons.1 hs).resolve_right hin
      exact .inl hp

end TinyScript
