import Mathlib.Data.Set.Function
import TinyScript.Proofs.Typing.Annotate
import TinyScript.Proofs.Typing.Refinement

/-! What a part of a program reads and what it changes while scopes are filled. It reads the scopes
around it and its own, so from stores that are equal there it goes on to stores that are equal
there. It changes its own scopes, and of the others only one that is around it and has a symbol
without a type. -/

namespace TinyScript

namespace Scopes

variable {m m' : Scopes} {s : Scope} {S : Set Scope}

theorem lookup_congr (h : m.get s = m'.get s) (name : String) :
    m.lookup s name = m'.lookup s name := by
  unfold lookup table
  rw [h]

theorem nearestBinding_congr {around : List Scope} (h : ∀ t ∈ around, m.get t = m'.get t)
    (name : String) :
    Context.nearestBinding m name around = Context.nearestBinding m' name around := by
  induction around with
  | nil => rfl
  | cons s around ih =>
    obtain ⟨hs, haround⟩ := List.forall_mem_cons.1 h
    rw [Context.nearestBinding, Context.nearestBinding, lookup_congr hs, ih haround]

theorem nearestType_congr {around : List Scope} (h : ∀ t ∈ around, m.get t = m'.get t)
    (name : String) : Context.nearestType m name around = Context.nearestType m' name around := by
  induction around with
  | nil => rfl
  | cons s around ih =>
    obtain ⟨hs, haround⟩ := List.forall_mem_cons.1 h
    rw [Context.nearestType, Context.nearestType, lookup_congr hs, ih haround]

theorem visibleType_congr {around : List Scope} (h : ∀ t ∈ around, m.get t = m'.get t) :
    m.visibleType around = m'.visibleType around := by
  funext name
  rw [← nearestType_eq_visibleType, ← nearestType_eq_visibleType, nearestType_congr h]

theorem eqOn_setTable (h : Set.EqOn m.get m'.get S) (hs : s ∈ S) (table : SymbolTable) :
    Set.EqOn (m.setTable s table).get (m'.setTable s table).get S := by
  intro t ht
  rw [get_setTable, get_setTable, h hs, h ht]

end Scopes

structure Context.Alike (c c' : Context) : Prop where
  active : c'.active = c.active
  returns : c'.returnType = c.returnType

theorem Context.Alike.refl (c : Context) : c.Alike c := ⟨rfl, rfl⟩

theorem Context.Alike.enter {c c' : Context} (h : c.Alike c') (s : Scope) :
    (c.enter s).Alike (c'.enter s) := ⟨congrArg (s :: ·) h.active, h.returns⟩

namespace Declared

variable {c c' : Context} {d d' : Declared} {s : Scope} {S : Set Scope}

theorem eqOn_declare (h : Set.EqOn d.scopes.get d'.scopes.get S) (hs : s ∈ S) (name : String)
    (type : DataType) :
    Set.EqOn (d.update (d.scopes.declare s name type)).scopes.get
      (d'.update (d'.scopes.declare s name type)).scopes.get S := by
  have hget := h hs
  cases hp : (d.scopes.get s).poisoned with
  | true =>
    have hp' : (d'.scopes.get s).poisoned = true := hget ▸ hp
    rw [Scopes.declare_of_poisoned hp, Scopes.declare_of_poisoned hp']
    exact h
  | false =>
    have hp' : (d'.scopes.get s).poisoned = false := hget ▸ hp
    cases hl : (d.scopes.get s).table.lookup? name with
    | some symbol =>
      rw [Scopes.declare_of_some hp hl, Scopes.declare_of_some hp' (hget ▸ hl)]
      exact h
    | none =>
      obtain ⟨table, htable, hdeclare⟩ := Scopes.declare_of_none hp hl type
      obtain ⟨table', htable', hdeclare'⟩ := Scopes.declare_of_none hp' (hget ▸ hl) type
      obtain rfl : table = table' := by
        rw [hget] at htable
        exact Except.ok.inj (htable.symm.trans htable')
      rw [hdeclare, hdeclare']
      exact Scopes.eqOn_setTable h hs table

theorem eqOn_setType (h : Set.EqOn d.scopes.get d'.scopes.get S) (hs : s ∈ S) (name : String)
    (type : DataType) :
    Set.EqOn (d.update ((d.scopes.setType s name type).map Prod.fst)).scopes.get
      (d'.update ((d'.scopes.setType s name type).map Prod.fst)).scopes.get S := by
  unfold Scopes.setType Scopes.table
  rw [h hs]
  cases hp : (d'.scopes.get s).poisoned with
  | true => exact h
  | false =>
    simp only [Bool.false_eq_true, if_false, bind, Except.bind]
    cases (d'.scopes.get s).table.setType? name type with
    | none => exact h
    | some table => exact Scopes.eqOn_setTable h hs table

theorem eqOn_assign (hc : c.Alike c') (hactive : ∀ t ∈ c.active, t ∈ S)
    (h : Set.EqOn d.scopes.get d'.scopes.get S) (name : String) (type : DataType) :
    Set.EqOn (d.assign c name type).scopes.get (d'.assign c' name type).scopes.get S := by
  have hbinding : c'.binding d'.scopes name = c.binding d.scopes name := by
    unfold Context.binding
    rw [hc.active, Scopes.nearestBinding_congr fun t ht => h (hactive t ht)]
  have hfound := Context.found_nearestBinding d.scopes name c.active
  unfold assign Context.innermost?
  rw [hbinding, hc.active]
  change Context.Found d.scopes name c.active (c.binding d.scopes name) at hfound
  match c.binding d.scopes name, hfound with
  | .error e, _ => exact h
  | .ok (some (s, symbol)), ⟨hs, _⟩ =>
    simp only
    split
    · exact eqOn_setType h (hactive s hs) name type
    · exact h
  | .ok none, _ =>
    simp only
    cases hhead : c.active.head? with
    | none => exact h
    | some s => exact eqOn_declare h (hactive s (List.mem_of_mem_head? hhead)) name type

theorem eqOn_declareParameters (h : Set.EqOn d.scopes.get d'.scopes.get S) (hs : s ∈ S)
    (ps : List Parameter) :
    Set.EqOn (d.declareParameters s ps).scopes.get (d'.declareParameters s ps).scopes.get S := by
  induction ps generalizing d d' with
  | nil => exact h
  | cons p ps ih => exact ih (eqOn_declare h hs p.name p.type)

theorem settle_congr (h : d.scopes.get s = d'.scopes.get s) (p : Parameter) :
    (d.settle s p).1 = (d'.settle s p).1 := by
  unfold settle
  rw [Scopes.lookup_congr h]
  split
  · rfl
  · split <;> rfl

theorem settleAll_congr (h : d.scopes.get s = d'.scopes.get s) (ps : List Parameter) :
    (d.settleAll s ps).1 = (d'.settleAll s ps).1 := by
  induction ps generalizing d d' with
  | nil => rfl
  | cons p ps ih =>
    have hrest : (d.settle s p).2.scopes.get s = (d'.settle s p).2.scopes.get s := by
      rw [scopes_settle, scopes_settle, h]
    exact congrArg₂ List.cons (settle_congr h p) (ih hrest)

end Declared

section Reads

variable {S : Set Scope}

mutual

theorem Stmt.eqOn_declare (s : Stmt) {c c' : Context} {d d' : Declared} (hc : c.Alike c')
    (hS : ∀ t ∈ c.active ++ s.scopes, t ∈ S) (h : Set.EqOn d.scopes.get d'.scopes.get S) :
    Set.EqOn (s.declare c d).scopes.get (s.declare c' d').scopes.get S := by
  obtain ⟨hactive, hscopes⟩ := List.forall_mem_append.1 hS
  cases s with
  | assign depth target value =>
    cases target with
    | var tag name =>
      have htype : c'.resolve d'.scopes value = c.resolve d.scopes value := by
        rw [Context.resolve_eq, Context.resolve_eq, hc.returns, hc.active,
          Scopes.visibleType_congr fun t ht => h (hactive t ht)]
      change Set.EqOn _ (d'.assign c' name (c'.resolve d'.scopes value)).scopes.get S
      rw [htype]
      exact Declared.eqOn_assign hc hactive h name _
    | _ => exact h
  | ifThen depth condition yes => exact yes.eqOn_declare hc hS h
  | ifElse depth condition yes no =>
    obtain ⟨hyes, hno⟩ := List.forall_mem_append.1 hscopes
    have hfirst := yes.eqOn_declare hc (List.forall_mem_append.2 ⟨hactive, hyes⟩) h
    exact no.eqOn_declare hc (List.forall_mem_append.2 ⟨hactive, hno⟩) hfirst
  | loop depth guard body => exact body.eqOn_declare hc hS h
  | ret _ _ | brk _ | cont _ | test _ _ _ => exact h

theorem Block.eqOn_declare (b : Block) {c c' : Context} {d d' : Declared} (hc : c.Alike c')
    (hS : ∀ t ∈ c.active ++ b.scopes, t ∈ S) (h : Set.EqOn d.scopes.get d'.scopes.get S) :
    Set.EqOn (b.declare c d).scopes.get (b.declare c' d').scopes.get S := by
  cases b with
  | mk depth scope statements =>
    obtain ⟨hactive, hscopes⟩ := List.forall_mem_append.1 hS
    obtain ⟨hscope, hinner⟩ := List.forall_mem_cons.1 hscopes
    have hS' : ∀ t ∈ (c.enter scope).active ++ Stmt.scopesAll statements, t ∈ S :=
      List.forall_mem_append.2 ⟨List.forall_mem_cons.2 ⟨hscope, hactive⟩, hinner⟩
    exact Stmt.eqOn_declareAll statements (hc.enter scope) hS' h

theorem Stmt.eqOn_declareAll (ss : List Stmt) {c c' : Context} {d d' : Declared}
    (hc : c.Alike c') (hS : ∀ t ∈ c.active ++ Stmt.scopesAll ss, t ∈ S)
    (h : Set.EqOn d.scopes.get d'.scopes.get S) :
    Set.EqOn (Stmt.declareAll c ss d).scopes.get (Stmt.declareAll c' ss d').scopes.get S := by
  cases ss with
  | nil => exact h
  | cons s ss =>
    obtain ⟨hactive, hscopes⟩ := List.forall_mem_append.1 hS
    obtain ⟨hs, hss⟩ := List.forall_mem_append.1 hscopes
    have hfirst := s.eqOn_declare hc (List.forall_mem_append.2 ⟨hactive, hs⟩) h
    exact Stmt.eqOn_declareAll ss hc (List.forall_mem_append.2 ⟨hactive, hss⟩) hfirst

end

namespace Function

variable {c c' : Context} {d d' : Declared} {f : Function}

theorem eqOn_within (hc : c.Alike c') (hS : ∀ t ∈ c.active ++ f.scopes, t ∈ S)
    (h : Set.EqOn d.scopes.get d'.scopes.get S) :
    Set.EqOn (f.within c d).scopes.get (f.within c' d').scopes.get S := by
  obtain ⟨hactive, hscopes⟩ := List.forall_mem_append.1 hS
  obtain ⟨hscope, hbody⟩ := List.forall_mem_cons.1 hscopes
  have hparameters := Declared.eqOn_declareParameters h hscope f.parameters
  refine f.body.eqOn_declare (hc.enter f.scope) ?_ hparameters
  exact List.forall_mem_append.2 ⟨List.forall_mem_cons.2 ⟨hscope, hactive⟩, hbody⟩

theorem scopes_declare (c : Context) (f : Function) (d : Declared) :
    (f.declare c d).scopes = (f.within c d).scopes := Declared.scopes_settleAll _ _ _

theorem eqOn_declare (hc : c.Alike c') (hS : ∀ t ∈ c.active ++ f.scopes, t ∈ S)
    (h : Set.EqOn d.scopes.get d'.scopes.get S) :
    Set.EqOn (f.declare c d).scopes.get (f.declare c' d').scopes.get S := by
  rw [scopes_declare, scopes_declare]
  exact eqOn_within hc hS h

theorem settled_congr (hc : c.Alike c')
    (h : ∀ t ∈ c.active ++ f.scopes, d.scopes.get t = d'.scopes.get t) :
    f.settled c d = f.settled c' d' := by
  have hscope : f.scope ∈ c.active ++ f.scopes := List.mem_append_right _ List.mem_cons_self
  have hwithin := eqOn_within (S := {t | t ∈ c.active ++ f.scopes}) hc (fun _ ht => ht) h
  rw [settled, settled, Declared.settleAll_congr (hwithin hscope)]

end Function

section Typed

variable {m m' : Scopes} (returns : String → DataType)

mutual

theorem Stmt.typed_congr (h : m.get = m'.get) (s : Stmt) (around : List Scope) :
    s.typed m returns around = s.typed m' returns around := by
  have hvisible : m.visibleType around = m'.visibleType around :=
    Scopes.visibleType_congr fun t _ => congrFun h t
  cases s with
  | assign depth target value => rw [Stmt.typed, Stmt.typed, hvisible]
  | ifThen depth condition yes => rw [Stmt.typed, Stmt.typed, hvisible, yes.typed_congr h around]
  | ifElse depth condition yes no =>
    rw [Stmt.typed, Stmt.typed, hvisible, yes.typed_congr h around, no.typed_congr h around]
  | loop depth guard body => rw [Stmt.typed, Stmt.typed, hvisible, body.typed_congr h around]
  | ret depth value => rw [Stmt.typed, Stmt.typed, hvisible]
  | brk depth => rfl
  | cont depth => rfl
  | test depth call expected => rw [Stmt.typed, Stmt.typed, hvisible]

theorem Block.typed_congr (h : m.get = m'.get) (b : Block) (around : List Scope) :
    b.typed m returns around = b.typed m' returns around := by
  cases b with
  | mk depth scope statements =>
    rw [Block.typed, Block.typed, Stmt.typedAll_congr h statements (scope :: around)]

theorem Stmt.typedAll_congr (h : m.get = m'.get) (ss : List Stmt) (around : List Scope) :
    Stmt.typedAll m returns around ss = Stmt.typedAll m' returns around ss := by
  cases ss with
  | nil => rfl
  | cons s ss =>
    rw [Stmt.typedAll, Stmt.typedAll, s.typed_congr h around, Stmt.typedAll_congr h ss around]

end

theorem Function.typed_congr (h : m.get = m'.get) (around : List Scope) :
    Function.typed m returns around = Function.typed m' returns around := by
  funext f
  rw [typed, typed, f.body.typed_congr returns h]

end Typed

end Reads

def Scopes.FullyTyped (m : Scopes) (s : Scope) : Prop :=
  ∀ symbol ∈ (m.get s).table.symbols, symbol.type ≠ .unknown

instance (m : Scopes) (s : Scope) : Decidable (m.FullyTyped s) :=
  inferInstanceAs (Decidable (∀ symbol ∈ (m.get s).table.symbols, symbol.type ≠ .unknown))

section Changes

variable {t : Scope}

theorem Declared.get_declare (d : Declared) {s : Scope} (ht : t ≠ s) (name : String)
    (type : DataType) :
    (d.update (d.scopes.declare s name type)).scopes.get t = d.scopes.get t := by
  cases hp : (d.scopes.get s).poisoned with
  | true => rw [Scopes.declare_of_poisoned hp]; rfl
  | false =>
    cases hl : (d.scopes.get s).table.lookup? name with
    | some symbol => rw [Scopes.declare_of_some hp hl]; rfl
    | none =>
      obtain ⟨table, -, hdeclare⟩ := Scopes.declare_of_none hp hl type
      rw [hdeclare]
      exact Scopes.get_setTable_of_ne _ _ t ht

theorem Declared.get_declareParameters (d : Declared) {s : Scope} (ht : t ≠ s)
    (ps : List Parameter) : (d.declareParameters s ps).scopes.get t = d.scopes.get t := by
  induction ps generalizing d with
  | nil => rfl
  | cons p ps ih => exact (ih _).trans (d.get_declare ht p.name p.type)

/-- An assignment leaves a scope alone that is not the innermost one, unless the scope is around it
and has a symbol without a type. -/
theorem Declared.get_assign {c : Context} {d : Declared} (hhead : c.active.head? ≠ some t)
    (ht : t ∈ c.active → d.scopes.FullyTyped t) (name : String) (type : DataType) :
    (d.assign c name type).scopes.get t = d.scopes.get t := by
  generalize hd' : d.assign c name type = d'
  have hassigns := d.assigns c name type
  rw [hd'] at hassigns
  cases hassigns with
  | refused _ _ | kept _ _ _ | nowhere _ => rfl
  | @refined s symbol table hs hsymbol hunknown _ =>
    have hne : t ≠ s := by
      rintro rfl
      exact ht hs symbol (List.mem_of_find?_eq_some hsymbol) hunknown
    exact Scopes.get_setTable_of_ne _ _ t hne
  | @declared s rest table hactive _ _ =>
    have hne : t ≠ s := by
      rintro rfl
      exact hhead (by rw [hactive, List.head?_cons])
    exact Scopes.get_setTable_of_ne _ _ t hne

theorem Scopes.FullyTyped.congr {m m' : Scopes} (h : m.FullyTyped t) (hget : m'.get t = m.get t) :
    m'.FullyTyped t := by
  unfold FullyTyped
  rw [hget]
  exact h

mutual

theorem Stmt.get_declare (s : Stmt) {c : Context} {d : Declared}
    (hhead : c.active.head? ≠ some t) (ht : t ∈ c.active → d.scopes.FullyTyped t)
    (hs : t ∉ s.scopes) : (s.declare c d).scopes.get t = d.scopes.get t := by
  cases s with
  | assign depth target value =>
    cases target with
    | var tag name => exact Declared.get_assign hhead ht name _
    | _ => rfl
  | ifThen depth condition yes => exact yes.get_declare ht hs
  | ifElse depth condition yes no =>
    rw [Stmt.scopes, List.mem_append, not_or] at hs
    have hyes := yes.get_declare ht hs.1
    have hno := no.get_declare (fun hmem => (ht hmem).congr hyes) hs.2
    exact hno.trans hyes
  | loop depth guard body => exact body.get_declare ht hs
  | ret _ _ | brk _ | cont _ | test _ _ _ => rfl

theorem Block.get_declare (b : Block) {c : Context} {d : Declared}
    (ht : t ∈ c.active → d.scopes.FullyTyped t) (hb : t ∉ b.scopes) :
    (b.declare c d).scopes.get t = d.scopes.get t := by
  cases b with
  | mk depth scope statements =>
    obtain ⟨hne, hinner⟩ := List.ne_and_not_mem_of_not_mem_cons hb
    have hhead : (c.enter scope).active.head? ≠ some t := by
      intro heq
      exact hne (Option.some.inj heq).symm
    refine Stmt.get_declareAll statements hhead (fun hmem => ?_) hinner
    exact ht ((List.mem_cons.1 hmem).resolve_left hne)

theorem Stmt.get_declareAll (ss : List Stmt) {c : Context} {d : Declared}
    (hhead : c.active.head? ≠ some t) (ht : t ∈ c.active → d.scopes.FullyTyped t)
    (hss : t ∉ Stmt.scopesAll ss) : (Stmt.declareAll c ss d).scopes.get t = d.scopes.get t := by
  cases ss with
  | nil => rfl
  | cons s ss =>
    rw [Stmt.scopesAll, List.mem_append, not_or] at hss
    have hfirst := s.get_declare hhead ht hss.1
    have hrest := Stmt.get_declareAll ss hhead (fun hmem => (ht hmem).congr hfirst) hss.2
    exact hrest.trans hfirst

end

theorem Function.get_declare (f : Function) {c : Context} {d : Declared}
    (ht : t ∈ c.active → d.scopes.FullyTyped t) (hf : t ∉ f.scopes) :
    (f.declare c d).scopes.get t = d.scopes.get t := by
  obtain ⟨hne, hbody⟩ := List.ne_and_not_mem_of_not_mem_cons hf
  have hparameters := d.get_declareParameters hne f.parameters
  rw [scopes_declare, within, f.body.get_declare (fun hmem => ?_) hbody, hparameters]
  exact (ht ((List.mem_cons.1 hmem).resolve_left hne)).congr hparameters

end Changes

end TinyScript
