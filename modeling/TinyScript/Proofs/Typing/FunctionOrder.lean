import Mathlib.Data.Set.Function
import TinyScript.Proofs.Assembly.Ownership
import TinyScript.Proofs.Places
import TinyScript.Proofs.Typing.Analyzed
import TinyScript.Proofs.Typing.Locality
import TinyScript.Proofs.Typing.Parts

/-! Functions in another order. Where every symbol in the program's scope has a type by the time the
functions come, a function changes no scope but its own, so each of them finds what it would find if
it were the first. -/

namespace TinyScript

namespace Function

/-- Functions with scopes of their own, to come where every symbol around them has a type. -/
structure Independent (c : Context) (fs : List Function) (d : Declared) : Prop where
  nodup : (fs.flatMap scopes ++ c.active).Nodup
  typed : ∀ t ∈ c.active, d.scopes.FullyTyped t

variable {c c' : Context} {d d' : Declared} {f : Function} {fs fs' : List Function} {t : Scope}

namespace Independent

theorem notMem (h : Independent c (f :: fs) d) (ht : t ∈ c.active ++ fs.flatMap scopes) :
    t ∉ f.scopes := fun hmem => (Declared.notMem_of_nodup h.nodup).1 t hmem ht

theorem get_first (h : Independent c (f :: fs) d) (ht : t ∈ c.active ++ fs.flatMap scopes) :
    (f.declare c d).scopes.get t = d.scopes.get t := f.get_declare (h.typed t) (h.notMem ht)

theorem rest (h : Independent c (f :: fs) d) : Independent c fs (f.declare c d) where
  nodup := (nodup_parts h.nodup).2
  typed t ht := (h.typed t ht).congr (h.get_first (List.mem_append_left _ ht))

end Independent

theorem get_declareAll_of_notMem (h : Independent c fs d) (ht : t ∉ fs.flatMap scopes) :
    (declareAll c fs d).scopes.get t = d.scopes.get t := by
  induction fs generalizing d with
  | nil => rfl
  | cons f fs ih =>
    rw [List.flatMap_cons, List.mem_append, not_or] at ht
    have hfirst := f.get_declare (h.typed t) ht.1
    exact (ih h.rest ht.2).trans hfirst

theorem get_declareAll (h : Independent c fs d) (hf : f ∈ fs) (ht : t ∈ f.scopes) :
    (declareAll c fs d).scopes.get t = (f.declare c d).scopes.get t := by
  induction fs generalizing d with
  | nil => cases hf
  | cons g fs ih =>
    rcases List.mem_cons.1 hf with rfl | hf
    · have hlater : t ∉ fs.flatMap scopes := fun hmem =>
        h.notMem (List.mem_append_right _ hmem) ht
      exact get_declareAll_of_notMem h.rest hlater
    · have hsame : Set.EqOn (g.declare c d).scopes.get d.scopes.get
          {t | t ∈ c.active ++ f.scopes} := by
        intro u hu
        refine h.get_first ?_
        rcases List.mem_append.1 hu with hu | hu
        · exact List.mem_append_left _ hu
        · exact List.mem_append_right _ (List.mem_flatMap.2 ⟨f, hf, hu⟩)
      have hmem : t ∈ c.active ++ f.scopes := List.mem_append_right _ ht
      exact (ih h.rest hf).trans (eqOn_declare (.refl c) (fun _ hu => hu) hsame hmem)

theorem settledAll_eq_map (h : Independent c fs d) :
    settledAll c fs d = fs.map fun f => f.settled c d := by
  induction fs generalizing d with
  | nil => rfl
  | cons g fs ih =>
    rw [settledAll, List.map_cons, ih h.rest]
    refine congrArg (g.settled c d :: ·) (List.map_congr_left fun f hf => ?_)
    refine settled_congr (.refl c) fun u hu => h.get_first ?_
    rcases List.mem_append.1 hu with hu | hu
    · exact List.mem_append_left _ hu
    · exact List.mem_append_right _ (List.mem_flatMap.2 ⟨f, hf, hu⟩)

section Reordered

variable (h : Independent c fs d) (hc : c.Alike c') (hget : d.scopes.get = d'.scopes.get)
  (hperm : fs.Perm fs')

include h hc hget hperm

theorem Independent.reordered : Independent c' fs' d' where
  nodup := by
    rw [hc.active]
    exact ((hperm.flatMap_right scopes).append_right _).nodup h.nodup
  typed t ht := by
    rw [hc.active] at ht
    exact (h.typed t ht).congr (congrFun hget t).symm

theorem get_declareAll_reordered :
    (declareAll c fs d).scopes.get = (declareAll c' fs' d').scopes.get := by
  have h' := h.reordered hc hget hperm
  funext t
  by_cases ht : t ∈ fs.flatMap scopes
  · obtain ⟨f, hf, hmem⟩ := List.mem_flatMap.1 ht
    rw [get_declareAll h hf hmem, get_declareAll h' (hperm.mem_iff.1 hf) hmem]
    exact eqOn_declare hc (fun _ _ => Set.mem_univ _) (fun u _ => congrFun hget u)
      (Set.mem_univ t)
  · have ht' : t ∉ fs'.flatMap scopes := mt (hperm.flatMap_right scopes).mem_iff.2 ht
    rw [get_declareAll_of_notMem h ht, get_declareAll_of_notMem h' ht', hget]

theorem settledAll_reordered : (settledAll c fs d).Perm (settledAll c' fs' d') := by
  have hsettled : ∀ f ∈ fs, f.settled c d = f.settled c' d' := fun f _ =>
    settled_congr hc fun u _ => congrFun hget u
  rw [settledAll_eq_map h, settledAll_eq_map (h.reordered hc hget hperm),
    List.map_congr_left hsettled]
  exact hperm.map _

end Reordered

end Function

namespace Program

variable {p : Program} {fs : List Function}

theorem returnType_reordered (hnames : (p.functions.map Function.name).Nodup)
    (hperm : p.functions.Perm fs) : { p with functions := fs }.returnType = p.returnType := by
  funext name
  unfold returnType
  rw [filter_eq_of_perm hperm hnames name]

theorem alike_reordered (hnames : (p.functions.map Function.name).Nodup)
    (hperm : p.functions.Perm fs) (s : Scope) :
    ((Context.ofProgram p).enter s).Alike ((Context.ofProgram { p with functions := fs }).enter s)
    where
  active := rfl
  returns := by
    funext name
    change (Context.ofProgram _).returnType name = (Context.ofProgram p).returnType name
    rw [Context.returnType_ofProgram, Context.returnType_ofProgram,
      returnType_reordered hnames hperm]

theorem function?_of_perm {p q : Program} (hnames : (p.functions.map Function.name).Nodup)
    (hperm : p.functions.Perm q.functions) (name : String) :
    p.function? name = q.function? name := by
  unfold function?
  rw [← List.head?_filter, ← List.head?_filter, filter_eq_of_perm hperm hnames name]

theorem Distinct.reordered (h : p.Distinct) (hperm : p.functions.Perm fs) :
    Distinct { p with functions := fs } :=
  ((hperm.flatMap_right Function.scopes).append_right _).nodup h

/-- What the scopes of a program contain when its statements have been declared and its functions
are still to come. -/
def outset (p : Program) : Scopes :=
  ((Visitor.declaring.visitStmts p.statements).complete
    ⟨(Context.ofProgram p).enter p.scope, ⟨{}, []⟩⟩).2.data.scopes

theorem outset_eq (p : Program) : p.outset =
    (Stmt.declareAll ((Context.ofProgram p).enter p.scope) p.statements ⟨{}, []⟩).scopes := by
  rw [outset, Walk.complete_eq (Visitor.outcome_visitStmts p.statements _)]

theorem Distinct.independent (h : p.Distinct) (htyped : p.outset.FullyTyped p.scope) :
    Function.Independent ((Context.ofProgram p).enter p.scope) p.functions
      (Stmt.declareAll ((Context.ofProgram p).enter p.scope) p.statements ⟨{}, []⟩) where
  nodup := h.sublist ((List.sublist_append_right _ _).append_left _)
  typed t ht := by
    obtain rfl := List.mem_singleton.1 ht
    rwa [outset_eq] at htyped

theorem Distinct.errors_eq_nil_iff (h : p.Distinct) :
    p.filled.errors.head? = none ↔ ∀ f ∈ p.functions, f.errors = [] := by
  rw [filled, errors_declare h.apart rfl, List.head?_eq_none_iff, List.flatMap_eq_nil_iff]

section Reordered

variable (h : p.Distinct) (hnames : (p.functions.map Function.name).Nodup)
  (htyped : p.outset.FullyTyped p.scope) (hperm : p.functions.Perm fs)

include hnames hperm

theorem get_statements_reordered :
    (Stmt.declareAll ((Context.ofProgram p).enter p.scope) p.statements ⟨{}, []⟩).scopes.get =
      (Stmt.declareAll ((Context.ofProgram { p with functions := fs }).enter p.scope)
        p.statements ⟨{}, []⟩).scopes.get :=
  (Set.eqOn_univ _ _).1 (Stmt.eqOn_declareAll p.statements (alike_reordered hnames hperm p.scope)
    (fun _ _ => Set.mem_univ _) fun _ _ => rfl)

include h htyped

theorem get_filled_reordered :
    p.filled.scopes.get = { p with functions := fs }.filled.scopes.get :=
  Function.get_declareAll_reordered (h.independent htyped) (alike_reordered hnames hperm p.scope)
    (get_statements_reordered hnames hperm) hperm

theorem statements_analysis_reordered :
    p.analysis.program.statements = { p with functions := fs }.analysis.program.statements := by
  rw [statements_analysis, statements_analysis, returnType_reordered hnames hperm]
  exact Stmt.typedAll_congr _ (get_filled_reordered h hnames htyped hperm) _ _

theorem functions_analysis_reordered :
    p.analysis.program.functions.Perm { p with functions := fs }.analysis.program.functions := by
  have hget := get_filled_reordered h hnames htyped hperm
  have hsettled := Function.settledAll_reordered (h.independent htyped)
    (alike_reordered hnames hperm p.scope) (get_statements_reordered hnames hperm) hperm
  unfold analysis typed
  rw [returnType_settled, returnType_settled, returnType_reordered hnames hperm]
  simp only [Function.typed_congr _ hget]
  exact hsettled.map _

end Reordered

theorem names_analysis (p : Program) :
    p.analysis.program.functions.map Function.name = p.functions.map Function.name := by
  unfold analysis typed settled
  rw [List.map_map]
  exact Function.map_settledAll (fun _ _ => rfl) _ _ _

end Program

/-- The functions of a program that was just built from events can be put in any order, if they
have different names and every symbol in the program's scope has a type once the statements outside
functions are declared. Filling the scopes then succeeds or not as before; and when they are filled
and the types given, the statements, every scope and every function are the same. -/
theorem functions_in_any_order {es : List Event} {p : Program} (h : Program.ofEvents es = .ok p)
    (hnames : (p.functions.map Function.name).Nodup) (htyped : p.outset.FullyTyped p.scope)
    {fs : List Function} (hperm : p.functions.Perm fs) :
    let a := Analysis.fillScopes { program := p }
    let b := Analysis.fillScopes { program := { p with functions := fs } }
    (a.1 = none ↔ b.1 = none) ∧
    a.2.annotate.program.statements = b.2.annotate.program.statements ∧
    a.2.annotate.program.functions.Perm b.2.annotate.program.functions ∧
    (∀ name, a.2.annotate.program.function? name = b.2.annotate.program.function? name) ∧
    a.2.annotate.scopes.get = b.2.annotate.scopes.get := by
  have hdistinct := Program.distinct_of_ofEvents h
  have hfunctions := Program.functions_analysis_reordered hdistinct hnames htyped hperm
  intro a b
  have ha : a.2.annotate = p.analysis := Analysis.annotate_fillScopes _
  have hb : b.2.annotate = { p with functions := fs }.analysis := Analysis.annotate_fillScopes _
  rw [ha, hb]
  refine ⟨?_, Program.statements_analysis_reordered hdistinct hnames htyped hperm, hfunctions,
    fun name => ?_, Program.get_filled_reordered hdistinct hnames htyped hperm⟩
  · have ha : a.1 = p.filled.errors.head? := congrArg Prod.fst (Analysis.fillScopes_eq _)
    have hb : b.1 = { p with functions := fs }.filled.errors.head? :=
      congrArg Prod.fst (Analysis.fillScopes_eq _)
    rw [ha, hb, hdistinct.errors_eq_nil_iff, (hdistinct.reordered hperm).errors_eq_nil_iff]
    simp only [hperm.mem_iff]
  · rw [← Program.names_analysis] at hnames
    exact Program.function?_of_perm hnames hfunctions name

/-- A text is kept under a name. One function gives it to its parameter, the other calls that
function with it. -/
def callingEvents : List Event :=
  let name (s : String) : Token := ⟨.identifier, s, default⟩
  let text : Token := ⟨.string, "", default⟩
  [⟨0, 1, .var (name "x")⟩, ⟨1, 1, .literal text⟩, ⟨2, 1, .assignment 0 1⟩,
    ⟨3, 2, .enterBlock⟩, ⟨4, 3, .var (name "n")⟩, ⟨5, 3, .var (name "x")⟩, ⟨6, 3, .assignment 4 5⟩,
    ⟨3, 2, .exitBlock⟩, ⟨7, 1, .function (name "f") [(name "n", none)] none 3⟩,
    ⟨8, 2, .enterBlock⟩, ⟨9, 3, .var (name "y")⟩, ⟨10, 3, .var (name "x")⟩,
    ⟨11, 3, .call (name "f") [10]⟩, ⟨12, 3, .assignment 9 11⟩, ⟨8, 2, .exitBlock⟩,
    ⟨13, 1, .function (name "g") [] none 8⟩, ⟨14, 0, .program [2] [7, 13]⟩]

def callingProgram : Program where
  statements := [.assign 1 (.var (.untyped 1) "x") (.ofLiteral 1 (.str ""))]
  functions :=
    [{ name := "f", parameters := [⟨"n", .unknown⟩], returnType := .unknown, depth := 1,
       scope := ⟨1⟩
       body := .mk 2 ⟨0⟩ [.assign 3 (.var (.untyped 3) "n") (.var (.untyped 3) "x")] },
     { name := "g", parameters := [], returnType := .unknown, depth := 1, scope := ⟨3⟩
       body := .mk 2 ⟨2⟩
        [.assign 3 (.var (.untyped 3) "y") (.call (.untyped 3) "f" [.var (.untyped 3) "x"])] }]
  depth := 0
  scope := ⟨4⟩

/-- The two functions are the same if the one that calls stands first. -/
theorem callingProgram_reversed :
    Program.ofEvents callingEvents = .ok callingProgram ∧
    (callingProgram.functions.map Function.name).Nodup ∧
    callingProgram.outset.FullyTyped callingProgram.scope ∧
    let a := Analysis.fillScopes { program := callingProgram }
    let b := Analysis.fillScopes
      { program := { callingProgram with functions := callingProgram.functions.reverse } }
    (∀ name, a.2.annotate.program.function? name = b.2.annotate.program.function? name) ∧
    a.2.annotate.scopes.get = b.2.annotate.scopes.get := by
  have hevents : Program.ofEvents callingEvents = .ok callingProgram := by decide +kernel
  have hnames : (callingProgram.functions.map Function.name).Nodup := by decide
  have htyped : callingProgram.outset.FullyTyped callingProgram.scope := by
    rw [Program.outset_eq]
    decide +kernel
  obtain ⟨-, -, -, hfunctions, hscopes⟩ := functions_in_any_order hevents hnames htyped
    (List.reverse_perm callingProgram.functions).symm
  exact ⟨hevents, hnames, htyped, hfunctions, hscopes⟩

end TinyScript
