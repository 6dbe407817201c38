import Mathlib.Data.List.Nodup
import TinyScript.Proofs.Typing.Repeated
import TinyScript.Proofs.Walk.Sites

/-! Where names are assigned to. The writes of a walk are the assignments to variables it comes to,
each as the innermost scope around it with the name. A write within a block is in a scope of the
block; the others are those of the statements that stand there themselves. -/

namespace TinyScript

def Visit.write? (v : Visit) : Option (Scope × String) :=
  match v.place with
  | .statement s => s.targetName?.bind fun x => v.active.head?.map (·, x)
  | _ => none

def writesAt (visits : List Visit) : List (Scope × String) := visits.filterMap Visit.write?

def Program.writes (p : Program) : List (Scope × String) := writesAt (p.sites [])

/-- The names that statements assign to themselves, and not in a block within them. -/
def targets (ss : List Stmt) : List String := ss.filterMap Stmt.targetName?

@[simp] theorem writesAt_nil : writesAt [] = [] := rfl

@[simp] theorem writesAt_append (vs vs' : List Visit) :
    writesAt (vs ++ vs') = writesAt vs ++ writesAt vs' := List.filterMap_append

@[simp] theorem writesAt_cons (v : Visit) (vs : List Visit) :
    writesAt (v :: vs) = v.write?.toList ++ writesAt vs := by
  rw [writesAt, List.filterMap_cons]
  cases v.write? <;> rfl

def Visit.Idle (v : Visit) : Prop := v.write? = none ∧ ∀ b, v.place ≠ .block b

theorem writesAt_eq_nil {vs : List Visit} (h : ∀ v ∈ vs, v.Idle) : writesAt vs = [] :=
  List.filterMap_eq_nil_iff.2 fun v hv => (h v hv).1

theorem Expr.idle_sites (around : List Scope) (e : Expr) : ∀ v ∈ e.sites around, v.Idle := by
  intro v hv
  obtain ⟨e', rfl⟩ := e.isExpr_sites around v hv
  exact ⟨rfl, by simp⟩

theorem Stmt.idle_visit {s : Stmt} (h : s.targetName? = none) (around : List Scope) :
    Visit.Idle ⟨.statement s, around⟩ := by
  refine ⟨?_, by simp⟩
  simp only [Visit.write?, h, Option.bind_none]

@[simp] theorem Expr.writesAt_sites (around : List Scope) (e : Expr) :
    writesAt (e.sites around) = [] := writesAt_eq_nil (e.idle_sites around)

theorem Stmt.write?_eq_some {s : Stmt} {around : List Scope} {t : Scope} {x : String} :
    Visit.write? ⟨.statement s, around⟩ = some (t, x) ↔
      around.head? = some t ∧ s.targetName? = some x := by
  simp only [Visit.write?, Option.bind_eq_some_iff, Option.map_eq_some_iff, Prod.mk.injEq]
  grind

mutual

theorem Stmt.mem_writesAt (s : Stmt) (around : List Scope) {t : Scope} {x : String}
    (h : (t, x) ∈ writesAt (s.sites around)) :
    t ∈ s.scopes ∨ around.head? = some t ∧ s.targetName? = some x := by
  cases s with
  | assign depth target value =>
    right
    simpa [Stmt.sites, Stmt.write?_eq_some] using h
  | ifThen depth condition yes =>
    left
    apply yes.mem_writesAt around
    simpa [Stmt.sites, Visit.write?, Stmt.targetName?] using h
  | ifElse depth condition yes no =>
    left
    apply List.mem_append.2
    have hblocks : (t, x) ∈ writesAt (yes.sites around) ∨ (t, x) ∈ writesAt (no.sites around) := by
      simpa [Stmt.sites, Visit.write?, Stmt.targetName?] using h
    rcases hblocks with hyes | hno
    · exact .inl (yes.mem_writesAt around hyes)
    · exact .inr (no.mem_writesAt around hno)
  | loop depth guard body =>
    left
    apply body.mem_writesAt around
    simpa [Stmt.sites, Visit.write?, Stmt.targetName?] using h
  | ret depth value | brk depth | cont depth | test depth call expected =>
    simp [Stmt.sites, Visit.write?, Stmt.targetName?] at h

theorem Block.mem_writesAt (b : Block) (around : List Scope) {t : Scope} {x : String}
    (h : (t, x) ∈ writesAt (b.sites around)) : t ∈ b.scopes := by
  cases b with
  | mk depth scope statements =>
    have hinner : (t, x) ∈ writesAt (Stmt.sitesAll (scope :: around) statements) := by
      simpa [Block.sites, Visit.write?] using h
    rcases Stmt.mem_writesAt_sitesAll statements (scope :: around) hinner with hscopes | ⟨hhead, -⟩
    · exact List.mem_cons_of_mem scope hscopes
    · exact Option.some.inj hhead ▸ List.mem_cons_self

theorem Stmt.mem_writesAt_sitesAll (ss : List Stmt) (around : List Scope) {t : Scope} {x : String}
    (h : (t, x) ∈ writesAt (Stmt.sitesAll around ss)) :
    t ∈ Stmt.scopesAll ss ∨ around.head? = some t ∧ x ∈ targets ss := by
  cases ss with
  | nil => simp [Stmt.sitesAll] at h
  | cons s ss =>
    rw [Stmt.sitesAll, writesAt_append, List.mem_append] at h
    rcases h with hfirst | hrest
    · rcases s.mem_writesAt around hfirst with hscopes | ⟨hhead, hname⟩
      · exact .inl (List.mem_append_left _ hscopes)
      · exact .inr ⟨hhead, List.mem_filterMap.2 ⟨s, List.mem_cons_self, hname⟩⟩
    · rcases Stmt.mem_writesAt_sitesAll ss around hrest with hscopes | ⟨hhead, hname⟩
      · exact .inl (List.mem_append_right _ hscopes)
      · obtain ⟨s', hs', hx⟩ := List.mem_filterMap.1 hname
        exact .inr ⟨hhead, List.mem_filterMap.2 ⟨s', List.mem_cons_of_mem s hs', hx⟩⟩

end

theorem Function.mem_writesAt (f : Function) (around : List Scope) {t : Scope} {x : String}
    (h : (t, x) ∈ writesAt (f.sites around)) : t ∈ f.scopes :=
  List.mem_cons_of_mem _ (f.body.mem_writesAt (f.scope :: around) h)

theorem Function.mem_writesAt_sitesAll (fs : List Function) (around : List Scope) {t : Scope}
    {x : String} (h : (t, x) ∈ writesAt (Function.sitesAll around fs)) :
    t ∈ fs.flatMap Function.scopes := by
  induction fs with
  | nil => cases h
  | cons f fs ih =>
    rw [Function.sitesAll, writesAt_append, List.mem_append] at h
    rw [List.flatMap_cons, List.mem_append]
    exact h.imp (f.mem_writesAt around) ih

theorem Block.writesAt_sites (depth : Nat) (scope : Scope) (statements : List Stmt)
    (around : List Scope) : writesAt ((Block.mk depth scope statements).sites around) =
      writesAt (Stmt.sitesAll (scope :: around) statements) := rfl

theorem Block.write_notMem {b : Block} {around : List Scope} (h : (b.scopes ++ around).Nodup)
    {t : Scope} (ht : t ∈ around) (x : String) : (t, x) ∉ writesAt (b.sites around) := fun hmem =>
  (List.nodup_append'.1 h).2.2 (b.mem_writesAt around hmem) ht

theorem Stmt.write_mem (s : Stmt) (scope : Scope) (around : List Scope) {x : String}
    (h : s.targetName? = some x) : (scope, x) ∈ writesAt (s.sites (scope :: around)) := by
  cases s with
  | assign depth target value =>
    rw [Stmt.sites, writesAt_cons]
    exact List.mem_append_left _ (Option.mem_toList.2 (Stmt.write?_eq_some.2 ⟨rfl, h⟩))
  | _ => cases h

theorem Stmt.write_mem_iff (ss : List Stmt) {scope : Scope} (h : scope ∉ Stmt.scopesAll ss)
    (around : List Scope) (x : String) :
    (scope, x) ∈ writesAt (Stmt.sitesAll (scope :: around) ss) ↔ x ∈ targets ss := by
  constructor
  · intro hmem
    rcases Stmt.mem_writesAt_sitesAll ss (scope :: around) hmem with hscopes | ⟨-, hname⟩
    · exact absurd hscopes h
    · exact hname
  · clear h
    intro hname
    induction ss with
    | nil => cases hname
    | cons s ss ih =>
      rw [Stmt.sitesAll, writesAt_append, List.mem_append]
      obtain ⟨s', hs', hx⟩ := List.mem_filterMap.1 hname
      rcases List.mem_cons.1 hs' with rfl | hmem
      · exact .inl (s'.write_mem scope around hx)
      · exact .inr (ih (List.mem_filterMap.2 ⟨s', hmem, hx⟩))

theorem Block.write_mem_iff {b : Block} {around : List Scope} (h : (b.scopes ++ around).Nodup)
    (x : String) : (b.scope, x) ∈ writesAt (b.sites around) ↔ x ∈ targets b.statements := by
  cases b with
  | mk depth scope statements =>
    have hscope : scope ∉ Stmt.scopesAll statements := fun hmem =>
      (List.nodup_cons.1 h).1 (List.mem_append_left _ hmem)
    exact Stmt.write_mem_iff statements hscope around x

end TinyScript
