import Mathlib.Data.Set.Function
import TinyScript.Proofs.Assembly.Ownership
import TinyScript.Proofs.Typing.Locality
import TinyScript.Proofs.Typing.Poisoned
import TinyScript.Proofs.Typing.Variables

/-! A poisoned scope keeps what is inside it from the rest of a program: nothing is entered in a
scope inside and no variable there gets a type, and the rest goes on as it would if nothing were
inside. -/

namespace TinyScript

mutual

def Stmt.emptied (s : Scope) : Stmt → Stmt
  | .ifThen depth condition yes => .ifThen depth condition (yes.emptied s)
  | .ifElse depth condition yes no => .ifElse depth condition (yes.emptied s) (no.emptied s)
  | .loop depth guard body => .loop depth guard (body.emptied s)
  | .assign depth target value => .assign depth target value
  | .ret depth value => .ret depth value
  | .brk depth => .brk depth
  | .cont depth => .cont depth
  | .test depth call expected => .test depth call expected

def Block.emptied (s : Scope) : Block → Block
  | .mk depth scope statements =>
    .mk depth scope (if scope = s then [] else Stmt.emptiedAll s statements)

def Stmt.emptiedAll (s : Scope) : List Stmt → List Stmt
  | [] => []
  | st :: ss => st.emptied s :: Stmt.emptiedAll s ss

end

/-- The function with nothing left in its body if the scope is the function's, else in the block of
the scope. -/
def Function.emptied (s : Scope) (f : Function) : Function :=
  { f with body := if f.scope = s then .mk f.body.depth f.body.scope [] else f.body.emptied s }

def Program.emptied (s : Scope) (p : Program) : Program :=
  { p with statements := Stmt.emptiedAll s p.statements
           functions := p.functions.map (Function.emptied s) }

/-- A part of a program that is not inside the scope `s`: none of the scopes around it is among
those `I` inside `s`, and of the scopes it brings just those are that come with `s` around them. On
the scopes that are not inside, and perhaps on others, two stores are compared. -/
structure Outside (I S : Set Scope) (s : Scope) (around : List Scope) (sites : List Visit) :
    Prop where
  mem : s ∈ I
  rest : ∀ t, t ∉ I → t ∈ S
  around : ∀ t ∈ around, t ∉ I
  brings : ∀ v ∈ sites, ∀ t, v.place.scope? = some t → (t ∈ I ↔ s ∈ t :: v.active)

namespace Outside

variable {I S : Set Scope} {s t : Scope} {around : List Scope} {sites sites' : List Visit}
  {place : Place}

theorem mono (h : Outside I S s around sites) (hsites : sites' ⊆ sites) :
    Outside I S s around sites' :=
  ⟨h.mem, h.rest, h.around, fun v hv => h.brings v (hsites hv)⟩

theorem left (h : Outside I S s around (sites ++ sites')) : Outside I S s around sites :=
  h.mono (List.subset_append_left _ _)

theorem right (h : Outside I S s around (sites ++ sites')) : Outside I S s around sites' :=
  h.mono (List.subset_append_right _ _)

theorem tail {v : Visit} (h : Outside I S s around (v :: sites)) : Outside I S s around sites :=
  h.mono (List.subset_cons_self _ _)

theorem notMem (h : Outside I S s around sites) : s ∉ around := fun hs => h.around s hs h.mem

theorem enter (h : Outside I S s around (⟨place, around⟩ :: sites)) (ht : place.scope? = some t)
    (hne : t ≠ s) : Outside I S s (t :: around) sites where
  mem := h.mem
  rest := h.rest
  around := by
    refine List.forall_mem_cons.2 ⟨fun hmem => ?_, h.around⟩
    rcases List.mem_cons.1 ((h.brings _ List.mem_cons_self t ht).1 hmem) with heq | hs
    · exact hne heq.symm
    · exact h.notMem hs
  brings := h.tail.brings

theorem inside (h : Outside I S s around (⟨place, around⟩ :: sites))
    (hreached : AllReached (s :: around) sites) : ∀ t ∈ scopesAt sites, t ∈ I := by
  intro t ht
  obtain ⟨v, hv, hvt⟩ := mem_scopesAt.1 ht
  have hs : s ∈ v.active := (hreached v hv).suffix.subset List.mem_cons_self
  exact (h.tail.brings v hv t hvt).2 (List.mem_cons_of_mem t hs)

theorem visibleType_eq (h : Outside I S s around sites) {m m' : Scopes}
    (hm : Set.EqOn m.get m'.get S) : m.visibleType around = m'.visibleType around :=
  Scopes.visibleType_congr fun t ht => hm (h.rest t (h.around t ht))

end Outside

/-- Inside the poisoned scope `s` there is nothing, and elsewhere the stores are equal. -/
structure Contained (I S : Set Scope) (s : Scope) (d d' : Declared) : Prop where
  poisoned : (d.scopes.get s).poisoned = true
  empty : ∀ t ∈ I, (d.scopes.get t).table = {}
  same : Set.EqOn d.scopes.get d'.scopes.get S

section Contained

variable {I S : Set Scope} {s : Scope}

namespace Contained

variable {c : Context} {d d' d₁ : Declared}

theorem of_scopes_eq (h : Contained I S s d d') (heq : d₁.scopes = d.scopes) :
    Contained I S s d₁ d' := by
  constructor <;> rw [heq]
  · exact h.poisoned
  · exact h.empty
  · exact h.same

theorem of_get_eq {d₁' : Declared} (h : Contained I S s d d') (hs : s ∈ I)
    (hget : ∀ t ∈ I, d₁.scopes.get t = d.scopes.get t)
    (hsame : Set.EqOn d₁.scopes.get d₁'.scopes.get S) : Contained I S s d₁ d₁' where
  poisoned := (congrArg ScopeState.poisoned (hget s hs)).trans h.poisoned
  empty t ht := (congrArg ScopeState.table (hget t ht)).trans (h.empty t ht)
  same := hsame

theorem plain {st : Stmt} (h : Contained I S s d d')
    (ho : Outside I S s c.active (st.sites c.active)) (hplain : st.scopes = []) :
    Contained I S s (st.declare c d) (st.declare c d') := by
  have hactive : ∀ t ∈ c.active ++ st.scopes, t ∈ S := by
    rw [hplain, List.append_nil]
    exact fun t ht => ho.rest t (ho.around t ht)
  refine h.of_get_eq ho.mem (fun t ht => ?_) (st.eqOn_declare (.refl c) hactive h.same)
  have hmem : t ∉ c.active := fun hmem => ho.around t hmem ht
  refine st.get_declare (fun hhead => hmem (List.mem_of_mem_head? hhead)) (absurd · hmem) ?_
  rw [hplain]
  exact List.not_mem_nil

end Contained

mutual

theorem Stmt.contained_declare (st : Stmt) {c : Context} {d d' : Declared}
    (ho : Outside I S s c.active (st.sites c.active)) (h : Contained I S s d d') :
    Contained I S s (st.declare c d) ((st.emptied s).declare c d') := by
  cases st with
  | assign depth target value => exact h.plain ho rfl
  | ifThen depth condition yes => exact yes.contained_declare ho.tail.right h
  | ifElse depth condition yes no =>
    have hfirst := yes.contained_declare ho.tail.right.left h
    exact no.contained_declare ho.tail.right.right hfirst
  | loop depth guard body => exact body.contained_declare ho.tail.right h
  | ret _ _ | brk _ | cont _ | test _ _ _ => exact h

theorem Block.contained_declare (b : Block) {c : Context} {d d' : Declared}
    (ho : Outside I S s c.active (b.sites c.active)) (h : Contained I S s d d') :
    Contained I S s (b.declare c d) ((b.emptied s).declare c d') := by
  cases b with
  | mk depth scope statements =>
    rw [Block.emptied, Block.declare, Block.declare]
    by_cases hscope : scope = s
    · subst hscope
      rw [if_pos rfl]
      have hinside := ho.inside (Stmt.allReached_sitesAll statements _)
      rw [Stmt.scopesAt_sitesAll] at hinside
      exact h.of_scopes_eq (Stmt.scopes_declareAll_of_shut statements (.inl h.poisoned)
        fun t ht => h.empty t (hinside t ht))
    · rw [if_neg hscope]
      exact Stmt.contained_declareAll statements (ho.enter rfl hscope) h

theorem Stmt.contained_declareAll (ss : List Stmt) {c : Context} {d d' : Declared}
    (ho : Outside I S s c.active (Stmt.sitesAll c.active ss)) (h : Contained I S s d d') :
    Contained I S s (Stmt.declareAll c ss d) (Stmt.declareAll c (Stmt.emptiedAll s ss) d') := by
  cases ss with
  | nil => exact h
  | cons st ss =>
    exact Stmt.contained_declareAll ss ho.right (st.contained_declare ho.left h)

end

namespace Function

variable {c : Context} {d d' : Declared} {f : Function}

theorem contained_within (ho : Outside I S s c.active (f.sites c.active))
    (h : Contained I S s d d') :
    Contained I S s (f.within c d) ((f.emptied s).within c d') := by
  by_cases hscope : f.scope = s
  · have hbody : (f.emptied s).within c d' = d'.declareParameters f.scope f.parameters := by
      simp [within, emptied, hscope, Block.declare, Stmt.declareAll]
    have hpoisoned : (d.scopes.get f.scope).poisoned = true := hscope ▸ h.poisoned
    have hrefused := Declared.scopes_declareParameters_of_poisoned hpoisoned f.parameters
    have hinside := ho.inside (hscope ▸ (f.body.allReached _).cons _)
    rw [scopesAt_cons, f.body.scopesAt_sites] at hinside
    have hsilent : (f.within c d).scopes = d.scopes := by
      refine (f.body.scopes_declare_of_shut ?_ fun t ht => ?_).trans hrefused
      · rw [hrefused]
        exact .inl hpoisoned
      · rw [hrefused]
        exact h.empty t (hinside t ht)
    rw [hbody]
    refine Contained.of_scopes_eq ⟨h.poisoned, h.empty, fun t ht => ?_⟩ hsilent
    by_cases hts : t = f.scope
    · have hpoisoned' : (d'.scopes.get f.scope).poisoned = true := by
        rw [hts] at ht
        exact h.same ht ▸ hpoisoned
      rw [Declared.scopes_declareParameters_of_poisoned hpoisoned']
      exact h.same ht
    · rw [d'.get_declareParameters hts]
      exact h.same ht
  · have hemptied : (f.emptied s).within c d' =
        (f.body.emptied s).declare (c.enter f.scope)
          (d'.declareParameters f.scope f.parameters) := by
      simp [within, emptied, hscope]
    have hinner := ho.enter rfl hscope
    have hnotMem : f.scope ∉ I := hinner.around f.scope List.mem_cons_self
    have hparameters : Contained I S s (d.declareParameters f.scope f.parameters)
        (d'.declareParameters f.scope f.parameters) := by
      refine h.of_get_eq ho.mem (fun t ht => d.get_declareParameters ?_ f.parameters)
        (Declared.eqOn_declareParameters h.same (ho.rest _ hnotMem) f.parameters)
      rintro rfl
      exact hnotMem ht
    rw [hemptied]
    exact f.body.contained_declare hinner.tail hparameters

theorem contained_declare (ho : Outside I S s c.active (f.sites c.active))
    (h : Contained I S s d d') :
    Contained I S s (f.declare c d) ((f.emptied s).declare c d') := by
  have hwithin := contained_within ho h
  refine ⟨?_, ?_, ?_⟩ <;> rw [scopes_declare]
  · exact hwithin.poisoned
  · exact hwithin.empty
  · rw [scopes_declare]
    exact hwithin.same

theorem contained_declareAll (fs : List Function)
    (ho : Outside I S s c.active (sitesAll c.active fs)) (h : Contained I S s d d') :
    Contained I S s (declareAll c fs d) (declareAll c (fs.map (emptied s)) d') := by
  induction fs generalizing d d' with
  | nil => exact h
  | cons f fs ih => exact ih ho.right (contained_declare ho.left h)

end Function

section Typed

variable {m m' : Scopes} (returns : String → DataType)

mutual

theorem Stmt.emptied_typed (hm : Set.EqOn m.get m'.get S) (st : Stmt) {around : List Scope}
    (ho : Outside I S s around (st.sites around)) :
    (st.typed m returns around).emptied s = (st.emptied s).typed m' returns around := by
  have hvisible := ho.visibleType_eq hm
  cases st with
  | assign depth target value =>
    rw [Stmt.typed, Stmt.emptied, Stmt.emptied, Stmt.typed, hvisible]
  | ifThen depth condition yes =>
    rw [Stmt.typed, Stmt.emptied, Stmt.emptied, Stmt.typed, hvisible,
      yes.emptied_typed hm ho.tail.right]
  | ifElse depth condition yes no =>
    rw [Stmt.typed, Stmt.emptied, Stmt.emptied, Stmt.typed, hvisible,
      yes.emptied_typed hm ho.tail.right.left, no.emptied_typed hm ho.tail.right.right]
  | loop depth guard body =>
    rw [Stmt.typed, Stmt.emptied, Stmt.emptied, Stmt.typed, hvisible,
      body.emptied_typed hm ho.tail.right]
  | ret depth value => rw [Stmt.typed, Stmt.emptied, Stmt.emptied, Stmt.typed, hvisible]
  | brk depth => rfl
  | cont depth => rfl
  | test depth call expected =>
    rw [Stmt.typed, Stmt.emptied, Stmt.emptied, Stmt.typed, hvisible]

theorem Block.emptied_typed (hm : Set.EqOn m.get m'.get S) (b : Block) {around : List Scope}
    (ho : Outside I S s around (b.sites around)) :
    (b.typed m returns around).emptied s = (b.emptied s).typed m' returns around := by
  cases b with
  | mk depth scope statements =>
    rw [Block.typed, Block.emptied, Block.emptied, Block.typed]
    by_cases hscope : scope = s
    · rw [if_pos hscope, if_pos hscope]
      rfl
    · rw [if_neg hscope, if_neg hscope,
        Stmt.emptiedAll_typedAll hm statements (ho.enter rfl hscope)]

theorem Stmt.emptiedAll_typedAll (hm : Set.EqOn m.get m'.get S) (ss : List Stmt)
    {around : List Scope} (ho : Outside I S s around (Stmt.sitesAll around ss)) :
    Stmt.emptiedAll s (Stmt.typedAll m returns around ss) =
      Stmt.typedAll m' returns around (Stmt.emptiedAll s ss) := by
  cases ss with
  | nil => rfl
  | cons st ss =>
    rw [Stmt.typedAll, Stmt.emptiedAll, Stmt.emptiedAll, Stmt.typedAll,
      st.emptied_typed hm ho.left, Stmt.emptiedAll_typedAll hm ss ho.right]

end

namespace Function

variable {c : Context} {d d' : Declared}

theorem emptied_typed (hm : Set.EqOn m.get m'.get S) {f : Function}
    (ho : Outside I S s c.active (f.sites c.active)) (h : Contained I S s d d')
    (hf : f.scope ∈ S) :
    ((f.settled c d).typed m returns c.active).emptied s =
      ((f.emptied s).settled c d').typed m' returns c.active := by
  have hparameters : ((f.within c d).settleAll f.scope f.parameters).1 =
      (((f.emptied s).within c d').settleAll f.scope f.parameters).1 :=
    Declared.settleAll_congr ((contained_within ho h).same hf) f.parameters
  unfold settled typed
  rw [hparameters]
  by_cases hscope : f.scope = s
  · cases hbody : f.body with
    | mk depth scope statements =>
      simp [emptied, hscope, hbody, Block.typed, Stmt.typedAll, Block.depth, Block.scope]
  · have hbody := f.body.emptied_typed returns hm (ho.enter rfl hscope).tail
    simp [emptied, hscope, hbody]

theorem emptied_typedAll (hm : Set.EqOn m.get m'.get S) {keep : Scope → Bool} {fs : List Function}
    (ho : Outside I S s c.active (sitesAll c.active fs)) (h : Contained I S s d d')
    (hkeep : ∀ f ∈ fs, keep f.scope → f.scope ∈ S) :
    (((settledAll c fs d).map (typed m returns c.active)).map (emptied s)).filter
        (fun f => keep f.scope) =
      ((settledAll c (fs.map (emptied s)) d').map (typed m' returns c.active)).filter
        fun f => keep f.scope := by
  induction fs generalizing d d' with
  | nil => rfl
  | cons f fs ih =>
    obtain ⟨hf, hfs⟩ := List.forall_mem_cons.1 hkeep
    have hrest := ih ho.right (contained_declare ho.left h) hfs
    simp only [settledAll, List.map_cons, List.filter_cons]
    rw [hrest]
    change (if keep f.scope then _ else _) = if keep f.scope then _ else _
    split
    · next hk => rw [emptied_typed returns hm ho.left h (hf hk)]
    · rfl

end Function

end Typed

end Contained

namespace Program

/-- The scope `t` is the scope `s`, or one that a part inside `s` brings. -/
def Within (p : Program) (s t : Scope) : Prop :=
  ∃ v ∈ p.sites [], v.place.scope? = some t ∧ s ∈ t :: v.active

theorem mem_sites_self (p : Program) : ⟨.program p, []⟩ ∈ p.sites [] := List.mem_cons_self

theorem mem_sites_function {p : Program} {f : Function} (hf : f ∈ p.functions) :
    ⟨.function f, [p.scope]⟩ ∈ p.sites [] := by
  have hmem : ∀ fs : List Function, f ∈ fs →
      ⟨.function f, [p.scope]⟩ ∈ Function.sitesAll [p.scope] fs := by
    intro fs hfs
    induction fs with
    | nil => cases hfs
    | cons g fs ih =>
      rcases List.mem_cons.1 hfs with rfl | hfs
      · exact List.mem_append_left _ List.mem_cons_self
      · exact List.mem_append_right _ (ih hfs)
  exact List.mem_cons_of_mem _ (List.mem_append_right _ (hmem p.functions hf))

theorem Distinct.outside {p : Program} (h : p.Distinct) {s : Scope} (hs : p.Within s s)
    {S : Set Scope} (hS : ∀ t, ¬ p.Within s t → t ∈ S) :
    Outside {t | p.Within s t} S s [] (p.sites []) where
  mem := hs
  rest := hS
  around _ ht := by cases ht
  brings v hv t ht := by
    constructor
    · rintro ⟨w, hw, hwt, hmem⟩
      rwa [h.eq_of_scope? hv hw ht hwt]
    · exact fun hmem => ⟨v, hv, ht, hmem⟩

theorem ofProgram_emptied (s : Scope) (p : Program) :
    Context.ofProgram (p.emptied s) = Context.ofProgram p := by
  unfold Context.ofProgram emptied
  rw [List.map_map]
  rfl

theorem returnType_emptied (s : Scope) (p : Program) :
    (p.emptied s).returnType = p.returnType := by
  apply returnType_congr
  rw [emptied, List.map_map]
  rfl

section Contained

variable {I S : Set Scope} {s : Scope} {p : Program} {d d' : Declared}
  (ho : Outside I S s [] (p.sites [])) (hne : p.scope ≠ s) (h : Contained I S s d d')

include ho hne h

theorem contained_declare :
    Contained I S s (p.declare (.ofProgram p) d) ((p.emptied s).declare (.ofProgram p) d') := by
  have hparts := ho.enter rfl hne
  have hstatements := Stmt.contained_declareAll (c := (Context.ofProgram p).enter p.scope)
    p.statements hparts.left h
  exact Function.contained_declareAll p.functions hparts.right hstatements

theorem emptied_typed (keep : Scope → Bool)
    (hkeep : ∀ f ∈ p.functions, keep f.scope → f.scope ∈ S) :
    let m := (p.declare (.ofProgram p) d).scopes
    let m' := ((p.emptied s).declare (.ofProgram p) d').scopes
    let q := ((p.settled (.ofProgram p) d).typed m).emptied s
    let q' := ((p.emptied s).settled (.ofProgram p) d').typed m'
    q.statements = q'.statements ∧
      (q.functions.filter fun f => keep f.scope) = q'.functions.filter fun f => keep f.scope := by
  intro m m' q q'
  have hparts := ho.enter rfl hne
  have hm : Set.EqOn m.get m'.get S := (contained_declare ho hne h).same
  have hstatements := Stmt.contained_declareAll (c := (Context.ofProgram p).enter p.scope)
    p.statements hparts.left h
  have hreturns : (p.settled (.ofProgram p) d).returnType =
      ((p.emptied s).settled (.ofProgram p) d').returnType := by
    rw [returnType_settled, returnType_settled, returnType_emptied]
  simp only [q, q', typed]
  rw [← hreturns]
  refine ⟨Stmt.emptiedAll_typedAll _ hm p.statements hparts.left, ?_⟩
  exact Function.emptied_typedAll (c := (Context.ofProgram p).enter p.scope) _ hm hparts.right
    hstatements hkeep

end Contained

theorem Distinct.inner {p : Program} (h : p.Distinct) {s : Scope}
    (hs : (∃ b around, ⟨.block b, around⟩ ∈ p.sites [] ∧ b.scope = s) ∨
      ∃ f ∈ p.functions, f.scope = s) : p.Within s s ∧ p.scope ≠ s := by
  have hsite : ∃ v ∈ p.sites [], v.place.scope? = some s ∧ v.place ≠ .program p := by
    rcases hs with ⟨b, around, hb, rfl⟩ | ⟨f, hf, rfl⟩
    · exact ⟨_, hb, rfl, by simp⟩
    · exact ⟨_, mem_sites_function hf, rfl, by simp⟩
  obtain ⟨v, hv, hvs, hplace⟩ := hsite
  refine ⟨⟨v, hv, hvs, List.mem_cons_self⟩, fun heq => hplace ?_⟩
  rw [h.eq_of_scope? hv p.mem_sites_self hvs (congrArg some heq)]

theorem Distinct.not_within {p : Program} (h : p.Distinct) {s : Scope} (hne : p.scope ≠ s)
    {f : Function} (hf : f ∈ p.functions) (hfs : f.scope ≠ s) : ¬ p.Within s f.scope := by
  rintro ⟨v, hv, hvf, hmem⟩
  rw [h.eq_of_scope? hv (mem_sites_function hf) hvf rfl] at hmem
  simp [hfs.symm, hne.symm] at hmem

theorem contained_start (p : Program) (s : Scope) {S : Set Scope} {m : Scopes}
    (hm : Set.EqOn (Scopes.poison {} s).get m.get S) :
    Contained {t | p.Within s t} S s ⟨Scopes.poison {} s, []⟩ ⟨m, []⟩ where
  poisoned := by rw [Scopes.get_poison, if_pos rfl]
  empty t _ := by
    rw [Scopes.get_poison]
    split <;> rfl
  same := hm

end Program

/-- Let the scope of a block or of a function be poisoned in a program that was just built from
events, before scopes are filled and types given. Apart from what is inside, the program comes out
as it does with nothing inside, and so does every scope. That is so if the scope is poisoned there
as well; and if it is not, then for all that is outside the block or the function. Inside, every
scope stays empty, and no variable gets a type. -/
theorem poisoned_scope_contained {es : List Event} {p : Program} (h : Program.ofEvents es = .ok p)
    {s : Scope} (hs : (∃ b around, ⟨.block b, around⟩ ∈ p.sites [] ∧ b.scope = s) ∨
      ∃ f ∈ p.functions, f.scope = s) :
    let broken := (Analysis.fillScopes ⟨p, Scopes.poison {} s⟩).2.annotate
    let poisoned := (Analysis.fillScopes ⟨p.emptied s, Scopes.poison {} s⟩).2.annotate
    let clean := (Analysis.fillScopes ⟨p.emptied s, {}⟩).2.annotate
    (broken.program.emptied s = poisoned.program ∧ broken.scopes.get = poisoned.scopes.get) ∧
    ((broken.program.emptied s).statements = clean.program.statements ∧
      ((broken.program.emptied s).functions.filter fun f => f.scope ≠ s) =
        (clean.program.functions.filter fun f => f.scope ≠ s) ∧
      ∀ t, ¬ p.Within s t → broken.scopes.get t = clean.scopes.get t) ∧
    (∀ t, p.Within s t → (broken.scopes.get t).table = {}) ∧
    ∀ tag name around, ⟨.expr (.var tag name), around⟩ ∈ broken.program.sites [] → s ∈ around →
      tag.type = .unknown := by
  have hdistinct := Program.distinct_of_ofEvents h
  obtain ⟨hwithin, hne⟩ := hdistinct.inner hs
  intro broken poisoned clean
  have hbroken : broken = _ := Analysis.annotate_fillScopes _
  have hpoisoned : poisoned = _ := Analysis.annotate_fillScopes _
  have hclean : clean = _ := Analysis.annotate_fillScopes _
  rw [Program.ofProgram_emptied] at hpoisoned hclean
  rw [hbroken, hpoisoned, hclean]
  -- with the scope poisoned in both, all scopes are compared; else those that are not inside
  have hall := hdistinct.outside hwithin (S := Set.univ) fun _ _ => Set.mem_univ _
  have hrest := hdistinct.outside hwithin (S := {t | ¬ p.Within s t}) fun _ ht => ht
  have hstart := p.contained_start s (S := Set.univ) (m := Scopes.poison {} s) fun _ _ => rfl
  have hstart' : Contained {t | p.Within s t} {t | ¬ p.Within s t} s ⟨Scopes.poison {} s, []⟩
      ⟨{}, []⟩ := by
    refine p.contained_start s fun t ht => ?_
    have hts : t ≠ s := by
      rintro rfl
      exact ht hwithin
    rw [Scopes.get_poison, if_neg hts]
  have hcontained := Program.contained_declare hall hne hstart
  refine ⟨⟨?_, (Set.eqOn_univ _ _).1 hcontained.same⟩, ?_, hcontained.empty, ?_⟩
  · obtain ⟨hstatements, hfunctions⟩ :=
      Program.emptied_typed hall hne hstart (fun _ => true) fun _ _ _ => Set.mem_univ _
    rw [List.filter_true, List.filter_true] at hfunctions
    exact congrArg₂ (Program.mk · · p.depth p.scope) hstatements hfunctions
  · obtain ⟨hstatements, hfunctions⟩ := Program.emptied_typed hrest hne hstart' (fun t => t ≠ s)
      fun f hf hfs => hdistinct.not_within hne hf (of_decide_eq_true hfs)
    exact ⟨hstatements, hfunctions, (Program.contained_declare hrest hne hstart').same⟩
  · intro tag name around hvar hin
    obtain ⟨⟨v, hv, rfl⟩, htype⟩ := Program.type_var_of_ofEvents h _ _ _ hvar
    rw [htype]
    refine (Scopes.shut_of_reached hcontained.poisoned (fun w hw t ht hsw => ?_)
      (p.allReached [] v hv) hin).visibleType name
    exact hcontained.empty t ⟨w, hw, ht, List.mem_cons_of_mem t hsw⟩

/-- A name is assigned to that gets no type there, and a function assigns a text to it. -/
def refiningEvents : List Event :=
  let name (s : String) : Token := ⟨.identifier, s, default⟩
  [⟨0, 1, .var (name "x")⟩, ⟨1, 1, .var (name "y")⟩, ⟨2, 1, .assignment 0 1⟩,
    ⟨3, 2, .enterBlock⟩, ⟨4, 3, .var (name "x")⟩, ⟨5, 3, .literal ⟨.string, "", default⟩⟩,
    ⟨6, 3, .assignment 4 5⟩, ⟨3, 2, .exitBlock⟩,
    ⟨7, 1, .function (name "f") [(name "n", none)] none 3⟩, ⟨8, 0, .program [2] [7]⟩]

def refiningProgram : Program where
  statements := [.assign 1 (.var (.untyped 1) "x") (.var (.untyped 1) "y")]
  functions :=
    [{ name := "f", parameters := [⟨"n", .unknown⟩], returnType := .unknown, depth := 1
       body := .mk 2 ⟨0⟩ [.assign 3 (.var (.untyped 3) "x") (.ofLiteral 3 (.str ""))]
       scope := ⟨1⟩ }]
  depth := 0
  scope := ⟨2⟩

/-- With the scope of the function poisoned, the name gets no type, as if the body were empty, and
the scope of the body stays empty. -/
theorem refiningProgram_contained :
    Program.ofEvents refiningEvents = .ok refiningProgram ∧
    (∃ f ∈ refiningProgram.functions, f.scope = ⟨1⟩) ∧ refiningProgram.Within ⟨1⟩ ⟨0⟩ ∧
    let broken := (Analysis.fillScopes ⟨refiningProgram, Scopes.poison {} ⟨1⟩⟩).2.annotate
    let poisoned :=
      (Analysis.fillScopes ⟨refiningProgram.emptied ⟨1⟩, Scopes.poison {} ⟨1⟩⟩).2.annotate
    broken.program.emptied ⟨1⟩ = poisoned.program ∧ broken.scopes.get = poisoned.scopes.get ∧
      (broken.scopes.get ⟨0⟩).table = {} := by
  have hevents : Program.ofEvents refiningEvents = .ok refiningProgram := by decide +kernel
  have hscope : ∃ f ∈ refiningProgram.functions, f.scope = ⟨1⟩ :=
    ⟨_, List.mem_singleton_self _, rfl⟩
  have hwithin : refiningProgram.Within ⟨1⟩ ⟨0⟩ := by
    refine ⟨⟨.block (refiningProgram.functions.head (by simp [refiningProgram])).body,
      [⟨1⟩, ⟨2⟩]⟩, ?_, rfl, by simp⟩
    simp [refiningProgram, Program.sites, Function.sitesAll, Function.sites, Block.sites]
  obtain ⟨⟨hprogram, hscopes⟩, -, hempty, -⟩ := poisoned_scope_contained hevents (.inr hscope)
  exact ⟨hevents, hscope, hwithin, hprogram, hscopes, hempty ⟨0⟩ hwithin⟩

end TinyScript
