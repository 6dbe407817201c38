import TinyScript.Proofs.Places
import TinyScript.Proofs.Typing.Steps
import TinyScript.Proofs.Walk.Sites

/-! How the sites of a tree lie in each other. The scopes around a site are those around the tree
and, one after the other, those of sites the node is within. In a program with scopes of its own
everywhere, a scope tells the one site that brings it. -/

namespace TinyScript

def scopesAt (visits : List Visit) : List Scope := visits.flatMap fun v => v.place.scope?.toList

@[simp] theorem scopesAt_nil : scopesAt [] = [] := rfl

@[simp] theorem scopesAt_cons (v : Visit) (vs : List Visit) :
    scopesAt (v :: vs) = v.place.scope?.toList ++ scopesAt vs := List.flatMap_cons

@[simp] theorem scopesAt_append (vs vs' : List Visit) :
    scopesAt (vs ++ vs') = scopesAt vs ++ scopesAt vs' := List.flatMap_append

theorem mem_scopesAt {vs : List Visit} {t : Scope} :
    t ∈ scopesAt vs ↔ ∃ v ∈ vs, v.place.scope? = some t := by
  simp [scopesAt, List.mem_flatMap]

@[simp] theorem Expr.scopesAt_sites (around : List Scope) (e : Expr) :
    scopesAt (e.sites around) = [] := by
  refine List.flatMap_eq_nil_iff.2 fun v hv => ?_
  obtain ⟨e', rfl⟩ := e.isExpr_sites around v hv
  rfl

mutual

theorem Stmt.scopesAt_sites (s : Stmt) (around : List Scope) :
    scopesAt (s.sites around) = s.scopes := by
  cases s with
  | ifThen depth condition yes =>
    simp [Stmt.sites, Stmt.scopes, Place.scope?, yes.scopesAt_sites around]
  | ifElse depth condition yes no =>
    simp [Stmt.sites, Stmt.scopes, Place.scope?, yes.scopesAt_sites around,
      no.scopesAt_sites around]
  | loop depth guard body =>
    simp [Stmt.sites, Stmt.scopes, Place.scope?, body.scopesAt_sites around]
  | assign _ _ _ | ret _ _ | brk _ | cont _ | test _ _ _ =>
    simp [Stmt.sites, Stmt.scopes, Place.scope?]

theorem Block.scopesAt_sites (b : Block) (around : List Scope) :
    scopesAt (b.sites around) = b.scopes := by
  cases b with
  | mk depth scope statements =>
    rw [Block.sites, scopesAt_cons, Stmt.scopesAt_sitesAll statements (scope :: around)]
    rfl

theorem Stmt.scopesAt_sitesAll (ss : List Stmt) (around : List Scope) :
    scopesAt (Stmt.sitesAll around ss) = Stmt.scopesAll ss := by
  cases ss with
  | nil => rfl
  | cons s ss =>
    rw [Stmt.sitesAll, scopesAt_append, s.scopesAt_sites around, Stmt.scopesAt_sitesAll ss around]
    rfl

end

theorem Function.scopesAt_sites (f : Function) (around : List Scope) :
    scopesAt (f.sites around) = f.scopes := by
  rw [Function.sites, scopesAt_cons, scopesAt_cons, f.body.scopesAt_sites]
  rfl

theorem Function.scopesAt_sitesAll (fs : List Function) (around : List Scope) :
    scopesAt (Function.sitesAll around fs) = fs.flatMap Function.scopes := by
  induction fs with
  | nil => rfl
  | cons f fs ih => rw [Function.sitesAll, scopesAt_append, f.scopesAt_sites, ih, List.flatMap_cons]

theorem Program.perm_scopesAt (p : Program) : (scopesAt (p.sites [])).Perm
    (p.functions.flatMap Function.scopes ++ (Stmt.scopesAll p.statements ++ [p.scope])) := by
  rw [Program.sites, scopesAt_cons, scopesAt_append, Stmt.scopesAt_sitesAll,
    Function.scopesAt_sitesAll]
  have hperm : List.Perm
      (p.scope :: (Stmt.scopesAll p.statements ++ p.functions.flatMap Function.scopes))
      (p.functions.flatMap Function.scopes ++ (Stmt.scopesAll p.statements ++ [p.scope])) :=
    (List.perm_append_comm.cons p.scope).trans (List.perm_middle.symm.trans
      ((List.perm_append_singleton p.scope _).symm.append_left _))
  exact hperm

theorem Program.Distinct.nodup_scopesAt {p : Program} (h : p.Distinct) :
    (scopesAt (p.sites [])).Nodup := p.perm_scopesAt.nodup_iff.2 h

theorem Program.Distinct.eq_of_scope? {p : Program} (h : p.Distinct) {v w : Visit}
    (hv : v ∈ p.sites []) (hw : w ∈ p.sites []) {t : Scope} (hvt : v.place.scope? = some t)
    (hwt : w.place.scope? = some t) : v = w :=
  eq_of_mem_of_nodup_flatMap h.nodup_scopesAt hv hw (Option.mem_toList.2 hvt)
    (Option.mem_toList.2 hwt)

inductive Reached (sites : List Visit) (around : List Scope) : List Scope → Prop
  | around : Reached sites around around
  | enter {v : Visit} {t : Scope} (hv : v ∈ sites) (ht : v.place.scope? = some t)
      (h : Reached sites around v.active) : Reached sites around (t :: v.active)

namespace Reached

variable {sites sites' : List Visit} {around scopes : List Scope}

theorem mono (h : Reached sites around scopes) (hsites : sites ⊆ sites') :
    Reached sites' around scopes := by
  induction h with
  | around => exact .around
  | enter hv ht _ ih => exact .enter (hsites hv) ht ih

theorem suffix (h : Reached sites around scopes) : around <:+ scopes := by
  induction h with
  | around => exact List.suffix_refl around
  | enter _ _ _ ih => exact ih.trans (List.suffix_cons _ _)

theorem within {place : Place} {t : Scope} (h : Reached sites (t :: around) scopes)
    (ht : place.scope? = some t) : Reached (⟨place, around⟩ :: sites) around scopes := by
  induction h with
  | around => exact .enter List.mem_cons_self ht .around
  | enter hv ht' _ ih => exact .enter (List.mem_cons_of_mem _ hv) ht' ih

end Reached

def AllReached (around : List Scope) (sites : List Visit) : Prop :=
  ∀ v ∈ sites, Reached sites around v.active

namespace AllReached

variable {sites sites' : List Visit} {around : List Scope}

theorem append (h : AllReached around sites) (h' : AllReached around sites') :
    AllReached around (sites ++ sites') :=
  List.forall_mem_append.2 ⟨fun v hv => (h v hv).mono (List.subset_append_left _ _),
    fun v hv => (h' v hv).mono (List.subset_append_right _ _)⟩

theorem cons (place : Place) (h : AllReached around sites) :
    AllReached around (⟨place, around⟩ :: sites) :=
  List.forall_mem_cons.2 ⟨.around, fun v hv => (h v hv).mono (List.subset_cons_self _ _)⟩

theorem within {place : Place} {t : Scope} (ht : place.scope? = some t)
    (h : AllReached (t :: around) sites) : AllReached around (⟨place, around⟩ :: sites) :=
  List.forall_mem_cons.2 ⟨.around, fun v hv => (h v hv).within ht⟩

theorem expr (e : Expr) (around : List Scope) : AllReached around (e.sites around) := by
  intro v hv
  obtain ⟨e', rfl⟩ := e.isExpr_sites around v hv
  exact .around

end AllReached

open AllReached

mutual

theorem Stmt.allReached (s : Stmt) (around : List Scope) : AllReached around (s.sites around) := by
  cases s with
  | assign depth target value => exact ((expr value around).append (expr target around)).cons _
  | ifThen depth condition yes =>
    exact ((expr condition around).append (yes.allReached around)).cons _
  | ifElse depth condition yes no =>
    exact ((expr condition around).append
      ((yes.allReached around).append (no.allReached around))).cons _
  | loop depth guard body => exact ((expr guard around).append (body.allReached around)).cons _
  | ret depth value => exact (expr value around).cons _
  | brk depth => exact List.forall_mem_singleton.2 .around
  | cont depth => exact List.forall_mem_singleton.2 .around
  | test depth call expected => exact ((expr call around).append (expr expected around)).cons _

theorem Block.allReached (b : Block) (around : List Scope) :
    AllReached around (b.sites around) := by
  cases b with
  | mk depth scope statements =>
    exact .within rfl (Stmt.allReached_sitesAll statements (scope :: around))

theorem Stmt.allReached_sitesAll (ss : List Stmt) (around : List Scope) :
    AllReached around (Stmt.sitesAll around ss) := by
  cases ss with
  | nil => exact List.forall_mem_nil _
  | cons s ss => exact (s.allReached around).append (Stmt.allReached_sitesAll ss around)

end

theorem Function.allReached (f : Function) (around : List Scope) :
    AllReached around (f.sites around) :=
  .within rfl ((f.body.allReached (f.scope :: around)).cons _)

theorem Function.allReached_sitesAll (fs : List Function) (around : List Scope) :
    AllReached around (Function.sitesAll around fs) := by
  induction fs with
  | nil => exact List.forall_mem_nil _
  | cons f fs ih => exact (f.allReached around).append ih

theorem Program.allReached (p : Program) (around : List Scope) :
    AllReached around (p.sites around) :=
  .within rfl ((Stmt.allReached_sitesAll p.statements _).append
    (Function.allReached_sitesAll p.functions _))

end TinyScript
