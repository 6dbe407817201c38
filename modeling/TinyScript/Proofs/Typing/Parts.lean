import TinyScript.Proofs.Typing.Steps

/-! Scopes are filled part by part: the statements of a program and then its functions, the blocks
of a statement, the statements of a block. No two parts share a scope, so those of a part are empty
until its turn comes, and stay as it leaves them. -/

namespace TinyScript

namespace Declared

structure Does (c : Context) (ss : List Scope) (d d' : Declared) : Prop where
  runs : Runs c.active d d'
  same : ∀ s ∉ c.active ++ ss, d'.scopes.get s = d.scopes.get s

/-- A part with the scopes `ss` is to come: they are empty, and different from those around it. -/
structure Opens (c : Context) (ss : List Scope) (d : Declared) : Prop where
  clean : d.scopes.Clean
  nodup : (ss ++ c.active).Nodup
  empty : ∀ s ∈ ss, d.scopes.get s = {}

variable {c : Context} {ss ss' around : List Scope} {d d' d'' : Declared} {s : Scope}

theorem notMem_of_nodup (h : (ss ++ ss' ++ around).Nodup) :
    (∀ s ∈ ss, s ∉ around ++ ss') ∧ ∀ s ∈ ss', s ∉ around ++ ss := by
  rw [List.nodup_append', List.nodup_append'] at h
  obtain ⟨⟨-, -, hparts⟩, -, haround⟩ := h
  simp only [List.disjoint_left, List.mem_append] at hparts haround ⊢
  grind

theorem Does.append (h : Does c ss d d') (h' : Does c ss' d' d'') : Does c (ss ++ ss') d d'' where
  runs := h.runs.trans h'.runs
  same s hs := by
    simp only [List.mem_append, not_or] at hs
    rw [h'.same s (by simp [hs]), h.same s (by simp [hs])]

namespace Opens

theorem active (h : Opens c ss d) : c.active.Nodup :=
  h.nodup.sublist (List.sublist_append_right _ _)

theorem left (h : Opens c (ss ++ ss') d) : Opens c ss d :=
  ⟨h.clean, (nodup_parts h.nodup).1, fun s hs => h.empty s (List.mem_append_left _ hs)⟩

theorem right (h : Opens c (ss ++ ss') d) (hd : Does c ss d d') : Opens c ss' d' where
  clean := hd.runs.refines.clean h.clean
  nodup := (nodup_parts h.nodup).2
  empty s hs := by
    rw [hd.same s ((notMem_of_nodup h.nodup).2 s hs)]
    exact h.empty s (List.mem_append_right _ hs)

theorem notMem_active (h : Opens c (s :: ss) d) : s ∉ c.active := fun hmem =>
  (List.nodup_cons.1 h.nodup).1 (List.mem_append_right _ hmem)

theorem nodup_enter (h : Opens c (s :: ss) d) : (ss ++ (c.enter s).active).Nodup :=
  List.perm_middle.symm.nodup h.nodup

theorem enter (h : Opens c (s :: ss) d) : Opens (c.enter s) ss d :=
  ⟨h.clean, h.nodup_enter, fun t ht => h.empty t (List.mem_cons_of_mem s ht)⟩

end Opens

end Declared

open Declared (Does Opens)

variable {c : Context} {d : Declared}

theorem Stmt.does_declare {s : Stmt} (h : Opens c s.scopes d) : Does c s.scopes d (s.declare c d) :=
  ⟨s.runs_declare h.nodup d, (s.fills_declare c h.clean).same⟩

theorem Block.does_declare {b : Block} (h : Opens c b.scopes d) :
    Does c b.scopes d (b.declare c d) :=
  ⟨(b.runs_declare h.nodup d).mono (List.suffix_cons _ _), (b.fills_declare c h.clean).same⟩

theorem Stmt.does_declareAll {ss : List Stmt} (h : Opens c (Stmt.scopesAll ss) d) :
    Does c (Stmt.scopesAll ss) d (Stmt.declareAll c ss d) :=
  ⟨Stmt.runs_declareAll ss h.nodup d, (Stmt.fills_declareAll ss c h.clean).same⟩

namespace Function

theorem does_declareParameters {f : Function} (h : Opens c f.scopes d) :
    Does c [f.scope] d (d.declareParameters f.scope f.parameters) := by
  have hempty := h.empty f.scope List.mem_cons_self
  have hseen : ∀ n, n ∈ [] ↔ ((d.scopes.get f.scope).table.lookup? n).isSome := by
    simp [hempty, SymbolTable.lookup?]
  have hfills := Declared.fills_declareParameters f.parameters h.clean hseen
  exact ⟨Declared.runs_declareParameters h.notMem_active d f.parameters,
    (hfills.mono (List.subset_append_right _ _)).same⟩

theorem opens_body {f : Function} (h : Opens c f.scopes d) :
    Opens (c.enter f.scope) f.body.scopes (d.declareParameters f.scope f.parameters) := by
  have hparts : Opens c ([f.scope] ++ f.body.scopes) d := h
  have hbody := hparts.right (does_declareParameters h)
  exact ⟨hbody.clean, h.nodup_enter, hbody.empty⟩

theorem does_declare {f : Function} (h : Opens c f.scopes d) : Does c f.scopes d (f.declare c d) :=
  ⟨f.runs_declare h.nodup d, (f.fills_declare c h.clean (h.empty _ List.mem_cons_self)).same⟩

theorem does_declareAll {fs : List Function} (h : Opens c (fs.flatMap scopes) d) :
    Does c (fs.flatMap scopes) d (declareAll c fs d) := by
  induction fs generalizing d with
  | nil => exact ⟨.refl, fun _ _ => rfl⟩
  | cons f fs ih =>
    have hone := does_declare (Opens.left h)
    exact hone.append (ih (Opens.right h hone))

end Function

theorem Program.Distinct.opens {p : Program} (h : p.Distinct) :
    Opens ((Context.ofProgram p).enter p.scope)
      (Stmt.scopesAll p.statements ++ p.functions.flatMap Function.scopes) ⟨{}, []⟩ where
  clean _ := rfl
  nodup := by
    rw [Program.Distinct, ← List.append_assoc] at h
    exact (List.perm_append_comm.append_right [p.scope]).nodup h
  empty s _ := Scopes.get_empty s

end TinyScript
