import TinyScript.Proofs.Typing.Definite
import TinyScript.Proofs.Typing.Parts
import TinyScript.Proofs.Typing.Untyped

/-! Definite programs are fully typed: where every variable is surely assigned before it is read and
every call is of a function with a return type, requiring types changes nothing. -/

namespace TinyScript

open Declared (Opens)

theorem Sure.of_subset {c : Context} {d : Declared} {sure sure' : List String}
    (h : Sure c d sure) (hsub : sure' ⊆ sure) : Sure c d sure' :=
  ⟨h.clean, fun x hx => h.sees x (hsub hx)⟩

theorem Stmt.sure_declareAll {ss : List Stmt} {c : Context} {d : Declared} {sure : List String}
    (h : Sure c d sure) (hnodup : (Stmt.scopesAll ss ++ c.active).Nodup) (hactive : c.active ≠ [])
    (hdefinite : Stmt.definiteAll sure ss)
    (hcalls : ∀ f ∈ Stmt.callsAll ss, c.returnType f ≠ .unknown) :
    Sure c (Stmt.declareAll c ss d) (ss.filterMap Stmt.targetName? ++ sure) := by
  induction ss generalizing d sure with
  | nil => exact h
  | cons s ss ih =>
    simp only [Stmt.definiteAll, Bool.and_eq_true] at hdefinite
    simp only [Stmt.callsAll, List.forall_mem_append] at hcalls
    obtain ⟨hfirst, hrest⟩ := nodup_parts hnodup
    have hone := Stmt.sure_declare h hfirst hactive hdefinite.1 hcalls.1
    refine (ih hone hrest hdefinite.2 hcalls.2).of_subset fun x hx => ?_
    simp only [List.mem_append, List.mem_filterMap, List.mem_cons, Option.mem_toList] at hx ⊢
    grind

namespace Function

variable {c : Context} {d : Declared} {sure : List String}

theorem find?_parameter {f : Function} (hnames : (f.parameters.map Parameter.name).Nodup)
    {q : Parameter} (hq : q ∈ f.parameters) :
    f.parameters.find? (fun p => p.name = q.name) = some q := by
  cases hr : f.parameters.find? fun p => p.name = q.name with
  | none => simpa using List.find?_eq_none.1 hr q hq
  | some r =>
    have hrq : r.name = q.name := by simpa using List.find?_some hr
    rw [List.inj_on_of_nodup_map hnames (List.mem_of_find?_eq_some hr) hq hrq]

theorem sure_parameters {f : Function} (h : Sure c d sure) (hopens : Opens c f.scopes d)
    (hnames : (f.parameters.map Parameter.name).Nodup) :
    Sure (c.enter f.scope) (d.declareParameters f.scope f.parameters) (f.annotated ++ sure) := by
  have hbefore := (h.refines (does_declareParameters hopens).runs.refines).enter f.scope
  refine ⟨hbefore.clean, fun x hx => ?_⟩
  rcases List.mem_append.1 hx with hx | hx
  · obtain ⟨q, hq, rfl⟩ := List.mem_map.1 hx
    obtain ⟨hq, hk⟩ := List.mem_filter.1 hq
    have hsymbol := Declared.symbol_declareParameters (h.clean f.scope) f.parameters q.name
    have hempty : d.scopes.symbol? f.scope q.name = none := by
      rw [Scopes.symbol?, hopens.empty f.scope List.mem_cons_self]
      rfl
    rw [hempty, find?_parameter hnames hq] at hsymbol
    exact ⟨f.scope, List.mem_cons_self, _, hsymbol, (DataType.isKnown_iff _).1 hk⟩
  · exact hbefore.sees x hx

theorem unresolved_typed {f : Function} (h : Sure c d sure) (hopens : Opens c f.scopes d)
    (hnames : (f.parameters.map Parameter.name).Nodup)
    (hdefinite : f.body.definite (f.annotated ++ sure))
    (hcalls : ∀ g ∈ f.body.calls, c.returnType g ≠ .unknown) {m : Scopes}
    (hm : (f.declare c d).scopes.Refines m) :
    (f.body.typed m c.returnType (f.scope :: c.active)).unresolved = [] := by
  have hwithin : (f.within c d).scopes.Refines m :=
    (Declared.runs_settleAll [] f.scope _ f.parameters).refines.trans hm
  exact f.body.unresolved_typed (sure_parameters h hopens hnames) hopens.nodup_enter hdefinite
    hcalls hwithin

theorem unresolved_typedAll (fs : List Function) (h : Sure c d sure)
    (hopens : Opens c (fs.flatMap scopes) d)
    (hnames : ∀ f ∈ fs, (f.parameters.map Parameter.name).Nodup)
    (hdefinite : ∀ f ∈ fs, f.body.definite (f.annotated ++ sure))
    (hcalls : ∀ f ∈ fs, ∀ g ∈ f.body.calls, c.returnType g ≠ .unknown) {m : Scopes}
    (hm : (declareAll c fs d).scopes.Refines m) :
    ∀ f ∈ fs, (f.body.typed m c.returnType (f.scope :: c.active)).unresolved = [] := by
  induction fs generalizing d with
  | nil => exact List.forall_mem_nil _
  | cons f fs ih =>
    have hfirst : Opens c f.scopes d := Opens.left hopens
    have hf := does_declare hfirst
    have hrest := Opens.right hopens hf
    have hlater := (does_declareAll hrest).runs.refines.trans hm
    obtain ⟨hnamesFirst, hnames⟩ := List.forall_mem_cons.1 hnames
    obtain ⟨hdefiniteFirst, hdefinite⟩ := List.forall_mem_cons.1 hdefinite
    obtain ⟨hcallsFirst, hcalls⟩ := List.forall_mem_cons.1 hcalls
    exact List.forall_mem_cons.2
      ⟨unresolved_typed h hfirst hnamesFirst hdefiniteFirst hcallsFirst hlater,
        ih (h.refines hf.runs.refines) hrest hnames hdefinite hcalls hm⟩

end Function

theorem Program.unresolved_analysis {p : Program} (hp : p.Distinct)
    (hnames : ∀ f ∈ p.functions, (f.parameters.map Parameter.name).Nodup)
    (hdefinite : p.definite) (hcalls : ∀ f ∈ p.calls, p.returnType f ≠ .unknown) :
    p.analysis.program.unresolved = [] := by
  let c := (Context.ofProgram p).enter p.scope
  have hreturns : c.returnType = p.returnType := funext (Context.returnType_ofProgram p)
  have hopens := hp.opens
  have hfunctions := hopens.right (Stmt.does_declareAll hopens.left)
  have hstart : Sure c ⟨{}, []⟩ [] := ⟨hopens.clean, List.forall_mem_nil _⟩
  simp only [Program.definite, Bool.and_eq_true, List.all_eq_true] at hdefinite
  simp only [Program.calls, List.forall_mem_append, List.mem_flatMap, ← hreturns] at hcalls
  have hstatements := Stmt.unresolved_typedAll p.statements hstart hopens.left.nodup
    (List.cons_ne_nil _ _) hdefinite.1 hcalls.1 (Function.does_declareAll hfunctions).runs.refines
  have hsure := Stmt.sure_declareAll hstart hopens.left.nodup (List.cons_ne_nil _ _) hdefinite.1
    hcalls.1
  rw [List.append_nil] at hsure
  have hbodies := Function.unresolved_typedAll p.functions hsure hfunctions hnames hdefinite.2
    (fun f hf g hg => hcalls.2 g ⟨f, hf, hg⟩) (.refl _)
  rw [hreturns] at hstatements hbodies
  unfold Program.unresolved
  rw [p.statements_analysis, ← List.flatMap_map, p.bodies_analysis]
  refine List.append_eq_nil_iff.2 ⟨hstatements, ?_⟩
  rw [List.flatMap_map]
  exact List.flatMap_eq_nil_iff.2 hbodies

/-- An accepted text is accepted as well when types are required, if every variable in it is surely
assigned before it is read and every function that is called has a return type; no expression is left
without a type, at whatever address of the tree it stands. -/
theorem strict_of_definite {source : String} {fileName : Option String} {p : Program}
    {a : Analysis} (hread : readProgram source fileName = .ok p)
    (hok : analyze source ⟨fileName, false⟩ = .ok a) (hvariables : p.definite)
    (hcalls : ∀ f ∈ p.calls, p.returnType f ≠ .unknown) :
    analyze source ⟨fileName, true⟩ = .ok a ∧ a.program.unresolved = [] ∧
      ∀ address e, (Place.program a.program).exprAt? address = some e → e.type ≠ .unknown := by
  obtain ⟨q, hread', hdistinct, hnames, rfl⟩ := analyze_eq_ok hok
  obtain rfl : p = q := Except.ok.inj (hread.symm.trans hread')
  have htyped := Program.unresolved_analysis hdistinct hnames hvariables hcalls
  have hloose := analyze_of_readProgram ⟨fileName, false⟩ hread
  have hstrict := analyze_of_readProgram ⟨fileName, true⟩ hread
  rw [hok] at hloose
  refine ⟨?_, htyped, fun address e => Program.type_ne_unknown htyped⟩
  rw [hstrict]
  cases herrors : p.filled.errors.head? with
  | some e => simp [herrors] at hloose
  | none => simp [Analysis.requireTyped, htyped, orFault]

/-- A text in which a parameter without a type and a variable of a block are assigned to in time. -/
def definiteText : String :=
  "x = 1; def f(n: int, p) -> int \x7b if (n < x) \x7b y = f(n, 2); p = y; \x7d p = n; " ++
    "return p + x; \x7d z = f(x, 3);"

theorem strict_definiteText : ∃ p a, readProgram definiteText none = .ok p ∧
    analyze definiteText ⟨none, false⟩ = .ok a ∧ p.definite ∧ p.calls = ["f", "f"] ∧
    (∀ f ∈ p.calls, p.returnType f ≠ .unknown) ∧
    analyze definiteText ⟨none, true⟩ = .ok a ∧ a.program.unresolved = [] ∧
    ∀ address e, (Place.program a.program).exprAt? address = some e → e.type ≠ .unknown := by
  have hread : (readProgram definiteText none).toOption.any (fun p =>
      p.definite && (p.calls = ["f", "f"]) && (p.calls.all fun f => p.returnType f ≠ .unknown) &&
        p.filled.errors.isEmpty) := by decide +kernel
  cases hp : readProgram definiteText none with
  | error e => simp [hp, Except.toOption] at hread
  | ok p =>
    simp only [hp, Except.toOption, Option.any_some, Bool.and_eq_true, decide_eq_true_eq,
      List.all_eq_true, List.isEmpty_iff] at hread
    obtain ⟨⟨⟨hdefinite, hcalls⟩, hreturns⟩, herrors⟩ := hread
    have hok : analyze definiteText ⟨none, false⟩ = .ok p.analysis := by
      rw [analyze_of_readProgram ⟨none, false⟩ hp, herrors]
      rfl
    have hstrict := strict_of_definite hp hok hdefinite hreturns
    exact ⟨p, _, rfl, hok, hdefinite, hcalls, hreturns, hstrict⟩

end TinyScript
