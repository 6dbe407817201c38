import TinyScript.Proofs.Assembly.Ownership
import TinyScript.Proofs.Typing.Records

/-! What each scope of a program has when all are filled. A function's scope has its parameters, the
program's scope what is assigned to at the top level, and a block's scope what was not known around
the block. The scopes of a program that was just built are all different and empty. -/

namespace TinyScript

open Declared (Awaits Opens Records)

variable {given : Scope → String → Prop}

namespace Function

def parameterNames (f : Function) : List String := f.parameters.map Parameter.name

variable {c : Context} {past : List (Scope × String)} {d : Declared} {f : Function}

theorem has_declareParameters (h : Opens c f.scopes d) (t : Scope) (x : String) :
    (d.declareParameters f.scope f.parameters).scopes.Has t x ↔
      d.scopes.Has t x ∨ t = f.scope ∧ x ∈ f.parameterNames := by
  have hempty := h.empty f.scope List.mem_cons_self
  by_cases ht : t = f.scope
  · subst ht
    have hsymbol := Declared.symbol_declareParameters (h.clean f.scope) f.parameters x
    have hnot : ¬ d.scopes.Has f.scope x := Scopes.not_has_of_get hempty
    rw [not_not.1 hnot, Option.none_or] at hsymbol
    simp only [hnot, false_or, true_and, parameterNames, List.mem_map]
    rw [Scopes.Has, hsymbol]
    simp
  · have hseen : ∀ n, n ∈ [] ↔ ((d.scopes.get f.scope).table.lookup? n).isSome := by
      simp [hempty, SymbolTable.lookup?]
    have hfills := Declared.fills_declareParameters f.parameters h.clean hseen
    have hsame := hfills.same t (by simpa using ht)
    rw [Scopes.has_congr hsame]
    simp [ht]

theorem declare_eq_within (h : Opens c f.scopes d) : f.declare c d = f.within c d := by
  have hbody := Block.does_declare (opens_body h)
  exact Declared.settleAll_snd (hbody.runs.refines.clean (opens_body h).clean) _ _

theorem has_declare (h : Opens c f.scopes d) {t : Scope} (ht : t ∈ f.scope :: c.active)
    (x : String) : (f.declare c d).scopes.Has t x ↔
      (d.declareParameters f.scope f.parameters).scopes.Has t x := by
  have hnodup := (opens_body h).nodup
  have hscope : (f.body.scope :: f.scope :: c.active).Nodup := by
    refine hnodup.sublist ?_
    cases f.body with
    | mk depth scope statements => exact (List.sublist_append_right _ _).cons_cons scope
  rw [declare_eq_within h]
  exact (f.body.runs_declare hnodup _).has_iff hscope ht x

theorem awaits_body (h : Awaits given c f.scopes past d)
    (hf : ∀ x, given f.scope x ↔ x ∈ f.parameterNames) :
    Awaits given (c.enter f.scope) f.body.scopes past
      (d.declareParameters f.scope f.parameters) where
  toOpens := opens_body h.toOpens
  tracks x := by
    have hempty : ¬ d.scopes.Has f.scope x :=
      Scopes.not_has_of_get (h.empty f.scope List.mem_cons_self)
    have hpast := h.unwritten f.scope List.mem_cons_self x
    have htracks := h.tracks x
    have hnot : f.scope ∉ c.active := h.notMem_active
    simp only [Context.enter, has_declareParameters h.toOpens, List.mem_cons, exists_eq_or_imp,
      hempty, hf, hpast, or_false, false_or, true_and]
    grind
  unwritten s hs := h.unwritten s (List.mem_cons_of_mem _ hs)

theorem records_declare (h : Awaits given c f.scopes past d)
    (hf : ∀ x, given f.scope x ↔ x ∈ f.parameterNames)
    (hgiven : ∀ t ∈ f.body.scopes, ∀ x, ¬ given t x) :
    Records given c f.scopes (f.sites c.active) past d (f.declare c d) := by
  have hbody := f.body.records_declare (awaits_body h hf) hgiven
  have hown := fun s x (hmem : (s, x) ∈ writesAt (f.sites c.active)) =>
    f.mem_writesAt c.active hmem
  have hnot : ∀ t ∈ c.active, t ∉ f.scopes := fun t ht hmem =>
    (List.nodup_append'.1 h.nodup).2.2 hmem ht
  refine ⟨does_declare h.toOpens, fun x => ?_, fun s x hmem => .inl (hown s x hmem), ?_⟩
  · have hhas : (∃ t ∈ c.active, (f.declare c d).scopes.Has t x) ↔
        ∃ t ∈ c.active, d.scopes.Has t x := by
      refine exists_congr fun t => and_congr_right fun ht => ?_
      have hne : t ≠ f.scope := fun heq => hnot t ht (heq ▸ List.mem_cons_self)
      rw [has_declare h.toOpens (List.mem_cons_of_mem _ ht), has_declareParameters h.toOpens]
      simp [hne]
    rw [hhas, h.tracks x]
    refine exists_congr fun t => and_congr_right fun ht => ?_
    rw [List.mem_append, or_iff_left fun hmem => hnot t ht (hown t x hmem)]
  · intro b around hmem
    have hinner : ⟨.block b, around⟩ ∈ f.body.sites (f.scope :: c.active) := by
      simpa [sites] using hmem
    obtain ⟨hscope, hrest⟩ := hbody.blocks b around hinner
    rw [declare_eq_within h.toOpens]
    exact ⟨List.mem_cons_of_mem _ hscope, hrest⟩

theorem records_declareAll {fs : List Function}
    (h : Awaits given c (fs.flatMap scopes) past d)
    (hfs : ∀ f ∈ fs, ∀ x, given f.scope x ↔ x ∈ f.parameterNames)
    (hgiven : ∀ f ∈ fs, ∀ t ∈ f.body.scopes, ∀ x, ¬ given t x) :
    Records given c (fs.flatMap scopes) (sitesAll c.active fs) past d (declareAll c fs d) := by
  induction fs generalizing past d with
  | nil => exact .idle h (List.forall_mem_nil _)
  | cons f fs ih =>
    obtain ⟨hf, hfs⟩ := List.forall_mem_cons.1 hfs
    obtain ⟨hgivenFirst, hgivenRest⟩ := List.forall_mem_cons.1 hgiven
    have hfirst := records_declare (Awaits.left h) hf hgivenFirst
    exact Records.append h hfirst fun hrest => ih hrest hfs hgivenRest

theorem has_declareAll {fs : List Function} (h : Opens c (fs.flatMap scopes) d) (hf : f ∈ fs)
    (x : String) : (declareAll c fs d).scopes.Has f.scope x ↔ x ∈ f.parameterNames := by
  induction fs generalizing d with
  | nil => cases hf
  | cons g fs ih =>
    have hopens : Opens c (g.scopes ++ fs.flatMap scopes) d := h
    have hrest := hopens.right (does_declare hopens.left)
    rcases List.mem_cons.1 hf with rfl | hf
    · have hscope := (Declared.notMem_of_nodup hopens.nodup).1 f.scope List.mem_cons_self
      have hempty : ¬ d.scopes.Has f.scope x :=
        Scopes.not_has_of_get (hopens.empty f.scope List.mem_cons_self)
      rw [declareAll, Scopes.has_congr ((does_declareAll hrest).same f.scope hscope),
        has_declare hopens.left List.mem_cons_self, has_declareParameters hopens.left]
      simp [hempty]
    · exact ih hrest hf

end Function

namespace Program

def Gives (p : Program) (s : Scope) (x : String) : Prop :=
  ∃ f ∈ p.functions, f.scope = s ∧ x ∈ f.parameterNames

variable {p : Program}

theorem Distinct.eq_of_mem_scopes (h : p.Distinct) {f g : Function} (hf : f ∈ p.functions)
    (hg : g ∈ p.functions) {s : Scope} : s ∈ f.scopes → s ∈ g.scopes → f = g :=
  eq_of_mem_of_nodup_flatMap (List.nodup_append'.1 h).1 hf hg

theorem Distinct.gives_iff (h : p.Distinct) {f : Function} (hf : f ∈ p.functions) (x : String) :
    p.Gives f.scope x ↔ x ∈ f.parameterNames := by
  constructor
  · rintro ⟨g, hg, hscope, hx⟩
    have hscopes : g.scope ∈ f.scopes := hscope ▸ List.mem_cons_self
    rwa [h.eq_of_mem_scopes hg hf List.mem_cons_self hscopes] at hx
  · intro hx
    exact ⟨f, hf, rfl, hx⟩

theorem not_gives {s : Scope} (h : ∀ f ∈ p.functions, f.scope ≠ s) (x : String) :
    ¬ p.Gives s x := by
  rintro ⟨f, hf, hscope, -⟩
  exact h f hf hscope

theorem Distinct.scope_ne_of_body (h : p.Distinct) {f g : Function} (hf : f ∈ p.functions)
    (hg : g ∈ p.functions) {t : Scope} (ht : t ∈ f.body.scopes) : g.scope ≠ t := by
  rintro rfl
  obtain rfl := h.eq_of_mem_scopes hg hf List.mem_cons_self (List.mem_cons_of_mem _ ht)
  have hnodup := (List.nodup_flatMap.1 (List.nodup_append'.1 h).1).1 g hg
  exact (List.nodup_cons.1 hnodup).1 ht

theorem Distinct.scope_ne (h : p.Distinct) {f : Function} (hf : f ∈ p.functions) {t : Scope}
    (ht : t ∈ Stmt.scopesAll p.statements ++ [p.scope]) : f.scope ≠ t := by
  rintro rfl
  have hmem : f.scope ∈ p.functions.flatMap Function.scopes :=
    List.mem_flatMap.2 ⟨f, hf, List.mem_cons_self⟩
  exact (List.nodup_append'.1 h).2.2 hmem ht

theorem Distinct.write_mem_iff (h : p.Distinct) (x : String) :
    (p.scope, x) ∈ writesAt (Stmt.sitesAll [p.scope] p.statements) ∨
      (p.scope, x) ∈ writesAt (Function.sitesAll [p.scope] p.functions) ↔
        x ∈ targets p.statements := by
  obtain ⟨-, hrest, hdisjoint⟩ := List.nodup_append'.1 h
  have hscope : p.scope ∉ Stmt.scopesAll p.statements := fun hmem =>
    (List.nodup_append'.1 hrest).2.2 hmem List.mem_cons_self
  rw [Stmt.write_mem_iff p.statements hscope, or_iff_left]
  intro hmem
  have hfunctions := Function.mem_writesAt_sitesAll p.functions [p.scope] hmem
  exact hdisjoint hfunctions (List.mem_append_right _ List.mem_cons_self)

theorem Distinct.awaits (h : p.Distinct) :
    Awaits p.Gives ((Context.ofProgram p).enter p.scope)
      (Stmt.scopesAll p.statements ++ p.functions.flatMap Function.scopes) [] ⟨{}, []⟩ where
  toOpens := h.opens
  tracks x := by
    have hscope := not_gives
      (fun f hf => h.scope_ne hf (List.mem_append_right _ List.mem_cons_self)) x
    have hempty : ¬ Scopes.Has {} p.scope x := Scopes.not_has_of_get (Scopes.get_empty _)
    change (∃ s ∈ [p.scope], Scopes.Has {} s x) ↔ ∃ s ∈ [p.scope], p.Gives s x ∨ (s, x) ∈ []
    simp [hscope, hempty]
  unwritten _ _ _ hmem := by cases hmem

theorem Distinct.records (h : p.Distinct) :
    Records p.Gives ((Context.ofProgram p).enter p.scope)
      (Stmt.scopesAll p.statements ++ p.functions.flatMap Function.scopes)
      (Stmt.sitesAll [p.scope] p.statements ++ Function.sitesAll [p.scope] p.functions) []
      ⟨{}, []⟩ (p.declare (.ofProgram p) ⟨{}, []⟩) := by
  have hstatements : ∀ t ∈ Stmt.scopesAll p.statements, ∀ x, ¬ p.Gives t x := fun t ht =>
    not_gives fun f hf => h.scope_ne hf (List.mem_append_left _ ht)
  have hbodies : ∀ f ∈ p.functions, ∀ t ∈ f.body.scopes, ∀ x, ¬ p.Gives t x := fun f hf t ht =>
    not_gives fun g hg => h.scope_ne_of_body hf hg ht
  have hfirst := Stmt.records_declareAll p.statements (Awaits.left h.awaits) hstatements
  exact Records.append h.awaits hfirst fun hrest =>
    Function.records_declareAll hrest (fun f hf => h.gives_iff hf) hbodies

end Program

/-- What the scopes of a program have that was just built from events, when they have been filled:
the program's scope the names assigned to at the top level, a function's scope its parameters, and a
block's scope the names assigned to in it, unless the name is a parameter of the function around the
block, or was assigned to in a scope around the block before it was first assigned to in it. -/
theorem filled_scopes_have {es : List Event} {p : Program} (h : Program.ofEvents es = .ok p)
    (x : String) :
    let m := (Analysis.fillScopes { program := p }).2.scopes
    (m.Has p.scope x ↔ x ∈ targets p.statements) ∧
    (∀ f ∈ p.functions, m.Has f.scope x ↔ x ∈ f.parameterNames) ∧
    ∀ b around, ⟨.block b, around⟩ ∈ p.sites [] →
      (m.Has b.scope x ↔ x ∈ targets b.statements ∧
        (∀ f ∈ p.functions, f.scope ∈ around → x ∉ f.parameterNames) ∧
        ∀ s ∈ around, (s, x) ∉ upTo (b.scope, x) p.writes) := by
  have hdistinct := Program.distinct_of_ofEvents h
  have hrecords := hdistinct.records
  intro m
  have hm : m = (p.declare (.ofProgram p) ⟨{}, []⟩).scopes := by
    have hfill := Analysis.fillScopes_eq { program := p }
    simp only [m, hfill]
  rw [hm]
  refine ⟨?_, fun f hf => ?_, fun b around hmem => ?_⟩
  · have htracks := hrecords.tracks x
    have hgives := Program.not_gives (fun f hf => hdistinct.scope_ne hf
      (List.mem_append_right _ List.mem_cons_self)) x
    change (∃ s ∈ [p.scope], _) ↔ ∃ s ∈ [p.scope], _ at htracks
    simp only [List.mem_singleton, exists_eq_left, hgives, false_or, List.nil_append,
      writesAt_append, List.mem_append] at htracks
    rw [htracks, hdistinct.write_mem_iff x]
  · have hopens := Opens.right hdistinct.opens (Stmt.does_declareAll hdistinct.opens.left)
    exact Function.has_declareAll hopens hf x
  · have hsite := (List.mem_cons.1 hmem).resolve_left (by simp)
    obtain ⟨-, -, hgets⟩ := hrecords.blocks b around hsite
    rw [hgets x]
    refine and_congr_right fun _ => ?_
    constructor
    · intro hnone
      exact ⟨fun f hf hscope hx => (hnone f.scope hscope).1 ⟨f, hf, rfl, hx⟩,
        fun s hs => (hnone s hs).2⟩
    · rintro ⟨hparameters, hlog⟩ s hs
      refine ⟨?_, hlog s hs⟩
      rintro ⟨f, hf, rfl, hx⟩
      exact hparameters f hf hs hx

def nestedEvents : List Event :=
  let name (s : String) : Token := ⟨.identifier, s, default⟩
  let text : Token := ⟨.string, "", default⟩
  [⟨0, 1, .var (name "x")⟩, ⟨1, 1, .literal text⟩, ⟨2, 1, .assignment 0 1⟩,
    ⟨3, 2, .enterBlock⟩, ⟨4, 3, .var (name "n")⟩, ⟨5, 4, .enterBlock⟩,
    ⟨6, 5, .var (name "x")⟩, ⟨7, 5, .literal text⟩, ⟨8, 5, .assignment 6 7⟩,
    ⟨9, 5, .var (name "y")⟩, ⟨10, 5, .literal text⟩, ⟨11, 5, .assignment 9 10⟩,
    ⟨5, 4, .exitBlock⟩, ⟨12, 3, .conditional 4 [5]⟩, ⟨13, 3, .var (name "y")⟩,
    ⟨14, 3, .literal text⟩, ⟨15, 3, .assignment 13 14⟩, ⟨3, 2, .exitBlock⟩,
    ⟨16, 1, .function (name "f") [(name "n", none)] none 3⟩, ⟨17, 0, .program [2] [16]⟩]

def clearing (depth : Nat) (name : String) : Stmt :=
  .assign depth (.var (.untyped depth) name) (.ofLiteral depth (.str ""))

def nestedBlock : Block := .mk 4 ⟨1⟩ [clearing 5 "x", clearing 5 "y"]

def nestedProgram : Program where
  statements := [clearing 1 "x"]
  functions :=
    [{ name := "f", parameters := [⟨"n", .unknown⟩], returnType := .unknown, depth := 1,
       scope := ⟨2⟩
       body := .mk 2 ⟨0⟩ [.ifThen 3 (.var (.untyped 3) "n") nestedBlock, clearing 3 "y"] }]
  depth := 0
  scope := ⟨3⟩

/-- The block within has a name that the body assigns to later, and not one that the program assigns
to before. -/
theorem nestedProgram_has :
    Program.ofEvents nestedEvents = .ok nestedProgram ∧
    ⟨.block nestedBlock, [⟨0⟩, ⟨2⟩, ⟨3⟩]⟩ ∈ nestedProgram.sites [] ∧
    (Analysis.fillScopes { program := nestedProgram }).2.scopes.Has nestedBlock.scope "y" ∧
    ¬ (Analysis.fillScopes { program := nestedProgram }).2.scopes.Has nestedBlock.scope "x" := by
  have hevents : Program.ofEvents nestedEvents = .ok nestedProgram := by decide +kernel
  have hsite : ⟨.block nestedBlock, [⟨0⟩, ⟨2⟩, ⟨3⟩]⟩ ∈ nestedProgram.sites [] := by
    simp [nestedProgram, nestedBlock, Program.sites, Function.sitesAll, Function.sites, Block.sites,
      Stmt.sitesAll, Stmt.sites]
  have hblock := fun x => (filled_scopes_have hevents x).2.2 nestedBlock _ hsite
  refine ⟨hevents, hsite, (hblock "y").2 (by decide), fun hhas => ?_⟩
  exact absurd ((hblock "x").1 hhas) (by decide)

end TinyScript
