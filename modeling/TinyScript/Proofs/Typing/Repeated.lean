import TinyScript.Proofs.Typing.Assign

/-! What can go wrong when scopes are filled. An assignment declares a name only where no active
scope has it, so it never declares a name twice; where no scope is poisoned and every function has a
scope to itself, what goes wrong is that a parameter has the name of one before it. -/

namespace TinyScript

namespace Declared

/-- From `d` to `d'` the errors `es` were noted, and only the scopes in `ss` may have changed. -/
structure Fills (ss : List Scope) (es : List Error) (d d' : Declared) : Prop where
  errors : d'.errors = d.errors ++ es
  clean : d'.scopes.Clean
  same : ∀ s ∉ ss, d'.scopes.get s = d.scopes.get s

namespace Fills

variable {ss ss' : List Scope} {es es' : List Error} {d d₁ d₂ : Declared}

theorem refl (h : d.scopes.Clean) : Fills ss [] d d :=
  ⟨(List.append_nil _).symm, h, fun _ _ => rfl⟩

theorem trans (h : Fills ss es d d₁) (h' : Fills ss es' d₁ d₂) : Fills ss (es ++ es') d d₂ :=
  ⟨by rw [h'.errors, h.errors, List.append_assoc], h'.clean,
    fun s hs => (h'.same s hs).trans (h.same s hs)⟩

theorem mono (h : Fills ss es d d₁) (hss : ss ⊆ ss') : Fills ss' es d d₁ :=
  ⟨h.errors, h.clean, fun s hs => h.same s fun hm => hs (hss hm)⟩

end Fills

theorem fills_setTable {d : Declared} (h : d.scopes.Clean) {ss : List Scope} {s : Scope}
    (hs : s ∈ ss) (t : SymbolTable) :
    Fills ss [] d { d with scopes := d.scopes.setTable s t } where
  errors := (List.append_nil _).symm
  clean := h.setTable s t
  same s' hs' := by
    have hne : s' ≠ s := fun he => hs' (he ▸ hs)
    rw [Scopes.get_setTable, if_neg hne]

theorem fills_report {d : Declared} (h : d.scopes.Clean) (ss : List Scope) (e : Error) :
    Fills ss [e] d (d.report e) := ⟨rfl, h, fun _ _ => rfl⟩

theorem fills_assign {d : Declared} (h : d.scopes.Clean) (c : Context) (name : String)
    (type : DataType) : Fills c.active [] d (d.assign c name type) := by
  rcases d.assign_cases c name type with ⟨-, s, -, hp⟩ | he | ⟨s, hs, t, he⟩
  · simp [h s] at hp
  · rw [he]
    exact .refl h
  · rw [he]
    exact fills_setTable h hs t

theorem settleAll_snd {d : Declared} (h : d.scopes.Clean) (s : Scope) (ps : List Parameter) :
    (d.settleAll s ps).2 = d := by
  have hone : ∀ p, (d.settle s p).2 = d := by
    intro p
    rw [settle, Scopes.lookup_of_ok (h s)]
    split
    · rfl
    · cases (d.scopes.get s).table.lookup? p.name <;> rfl
  induction ps with
  | nil => rfl
  | cons p ps ih => simp only [settleAll, hone, ih]

end Declared

/-- The names that come again in a list, each time they do; `seen` come before the list. -/
def repeatedNames (seen : List String) : List String → List String
  | [] => []
  | n :: ns => if n ∈ seen then n :: repeatedNames seen ns else repeatedNames (n :: seen) ns

theorem repeatedNames_eq_nil {seen ns : List String} :
    repeatedNames seen ns = [] ↔ ns.Nodup ∧ ∀ n ∈ ns, n ∉ seen := by
  induction ns generalizing seen with
  | nil => simp [repeatedNames]
  | cons n ns ih =>
    rw [repeatedNames]
    split
    · next h => simp [h]
    · next h =>
      rw [ih]
      simp only [List.nodup_cons, List.mem_cons, not_or]
      grind

namespace Declared

theorem fills_declareParameters (ps : List Parameter) {d : Declared} (h : d.scopes.Clean)
    {s : Scope} {seen : List String}
    (hseen : ∀ n, n ∈ seen ↔ ((d.scopes.get s).table.lookup? n).isSome) :
    Fills [s] ((repeatedNames seen (ps.map Parameter.name)).map fun n =>
      .detached (.variableAlreadyDeclared n)) d (d.declareParameters s ps) := by
  induction ps generalizing d seen with
  | nil => exact .refl h
  | cons p ps ih =>
    cases hl : (d.scopes.get s).table.lookup? p.name with
    | some symbol =>
      have hmem : p.name ∈ seen := (hseen p.name).2 (by simp [hl])
      rw [declareParameters, Scopes.declare_of_some (h s) hl, List.map_cons, repeatedNames,
        if_pos hmem]
      have hrest := ih (d := d.report (.detached (.variableAlreadyDeclared p.name))) h hseen
      exact (fills_report h [s] _).trans hrest
    | none =>
      have hmem : p.name ∉ seen := fun hm => by simpa [hl] using (hseen p.name).1 hm
      obtain ⟨t, ht, hdeclare⟩ := Scopes.declare_of_none (h s) hl p.type
      have hseen' : ∀ n, n ∈ p.name :: seen ↔
          (((d.scopes.setTable s t).get s).table.lookup? n).isSome := by
        intro n
        rw [Scopes.get_setTable, if_pos rfl, SymbolTable.lookup?_declare ht, List.mem_cons, hseen]
        split <;> simp [*]
      rw [declareParameters, hdeclare, List.map_cons, repeatedNames, if_neg hmem]
      exact (fills_setTable h List.mem_cons_self t).trans (ih (h.setTable s t) hseen')

end Declared

mutual

def Stmt.scopes : Stmt → List Scope
  | .ifThen _ _ yes => yes.scopes
  | .ifElse _ _ yes no => yes.scopes ++ no.scopes
  | .loop _ _ body => body.scopes
  | .assign .. | .ret .. | .brk _ | .cont _ | .test .. => []

def Block.scopes : Block → List Scope
  | .mk _ scope statements => scope :: Stmt.scopesAll statements

def Stmt.scopesAll : List Stmt → List Scope
  | [] => []
  | s :: ss => s.scopes ++ Stmt.scopesAll ss

end

mutual

theorem Stmt.fills_declare (s : Stmt) (c : Context) {d : Declared} (h : d.scopes.Clean) :
    Declared.Fills (c.active ++ s.scopes) [] d (s.declare c d) := by
  cases s with
  | assign depth target value =>
    cases target with
    | var tag name => exact (Declared.fills_assign h c name _).mono (by simp)
    | _ => exact .refl h
  | ifThen depth condition yes => exact yes.fills_declare c h
  | ifElse depth condition yes no =>
    have hyes := yes.fills_declare c h
    have hno := no.fills_declare c hyes.clean
    exact (hyes.mono (by simp [Stmt.scopes])).trans (hno.mono (by simp [Stmt.scopes]))
  | loop depth guard body => exact body.fills_declare c h
  | ret _ _ | brk _ | cont _ | test _ _ _ => exact .refl h

theorem Block.fills_declare (b : Block) (c : Context) {d : Declared} (h : d.scopes.Clean) :
    Declared.Fills (c.active ++ b.scopes) [] d (b.declare c d) := by
  cases b with
  | mk depth scope statements =>
    have hss := Stmt.fills_declareAll statements (c.enter scope) h
    refine hss.mono fun s hs => ?_
    simp only [Context.enter, List.cons_append, List.mem_cons, List.mem_append,
      Block.scopes] at hs ⊢
    grind

theorem Stmt.fills_declareAll (ss : List Stmt) (c : Context) {d : Declared}
    (h : d.scopes.Clean) :
    Declared.Fills (c.active ++ Stmt.scopesAll ss) [] d (Stmt.declareAll c ss d) := by
  cases ss with
  | nil => exact .refl h
  | cons s ss =>
    have hs := s.fills_declare c h
    have hss := Stmt.fills_declareAll ss c hs.clean
    exact (hs.mono (by simp [Stmt.scopesAll])).trans (hss.mono (by simp [Stmt.scopesAll]))

end

namespace Function

def scopes (f : Function) : List Scope := f.scope :: f.body.scopes

def repeated (f : Function) : List String := repeatedNames [] (f.parameters.map Parameter.name)

def errors (f : Function) : List Error :=
  f.repeated.map fun n => .detached (.variableAlreadyDeclared n)

theorem fills_declare (f : Function) (c : Context) {d : Declared} (h : d.scopes.Clean)
    (hf : d.scopes.get f.scope = {}) :
    Declared.Fills (c.active ++ f.scopes) f.errors d (f.declare c d) := by
  have hseen : ∀ n, n ∈ [] ↔ ((d.scopes.get f.scope).table.lookup? n).isSome := by
    simp [hf, SymbolTable.lookup?]
  have hparameters := Declared.fills_declareParameters f.parameters h hseen
  have hbody := f.body.fills_declare (c.enter f.scope) hparameters.clean
  have hwithin : Declared.Fills (c.active ++ f.scopes) (f.errors ++ []) d (f.within c d) :=
    (hparameters.mono (by simp [scopes])).trans (hbody.mono fun s hs => by
      simp only [Context.enter, List.cons_append, List.mem_cons, List.mem_append, scopes] at hs ⊢
      grind)
  rw [List.append_nil] at hwithin
  rwa [declare, Declared.settleAll_snd hwithin.clean]

theorem fills_declareAll (fs : List Function) (c : Context) {d : Declared} (h : d.scopes.Clean)
    (hfs : ∀ f ∈ fs, d.scopes.get f.scope = {}) (hactive : ∀ f ∈ fs, f.scope ∉ c.active)
    (hapart : fs.Pairwise fun g f => f.scope ∉ g.scopes) :
    Declared.Fills (c.active ++ fs.flatMap scopes) (fs.flatMap errors) d
      (declareAll c fs d) := by
  induction fs generalizing d with
  | nil => exact .refl h
  | cons f fs ih =>
    obtain ⟨hf, hfs⟩ := List.forall_mem_cons.1 hfs
    obtain ⟨-, hactive⟩ := List.forall_mem_cons.1 hactive
    obtain ⟨hfirst, hapart⟩ := List.pairwise_cons.1 hapart
    have hone := f.fills_declare c h hf
    -- `f` has changed its own scopes only, so that of `g` is still empty
    have hrest := ih hone.clean (fun g hg => by
      rw [hone.same, hfs g hg]
      simp [hactive g hg, hfirst g hg]) hactive hapart
    exact (hone.mono (by simp)).trans (hrest.mono (by simp))

end Function

namespace Program

def Apart (p : Program) : Prop :=
  (∀ f ∈ p.functions, f.scope ≠ p.scope ∧ f.scope ∉ Stmt.scopesAll p.statements) ∧
    p.functions.Pairwise fun g f => f.scope ∉ g.scopes

theorem errors_declare {p : Program} (h : p.Apart) {c : Context} (hc : c.active = []) :
    (p.declare c ⟨{}, []⟩).errors = p.functions.flatMap Function.errors := by
  have hclean : Scopes.Clean {} := fun _ => rfl
  have hactive : (c.enter p.scope).active = [p.scope] := by rw [Context.enter, hc]
  have hss := Stmt.fills_declareAll p.statements (c.enter p.scope) (d := ⟨{}, []⟩) hclean
  have hfs := Function.fills_declareAll p.functions (c.enter p.scope) hss.clean
    (fun f hf => by
      rw [hss.same, Scopes.get_empty]
      simpa [hactive] using h.1 f hf)
    (fun f hf => by simpa [hactive] using (h.1 f hf).1) h.2
  rw [declare, hfs.errors, hss.errors, List.append_nil, List.nil_append]

end Program

end TinyScript
