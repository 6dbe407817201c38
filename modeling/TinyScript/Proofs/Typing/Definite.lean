import Mathlib.Data.List.TakeWhile
import TinyScript.Proofs.Typing.Annotate
import TinyScript.Proofs.Typing.Steps
import TinyScript.Typing.Unresolved

/-! Definite assignment. Where every variable that is read has surely been assigned before, and
every call is of a function with a return type, filling the scopes finds a type for every name in
time, and no expression is left without one. -/

namespace TinyScript

theorem DataType.orElse_ne_unknown {t u : DataType} (hu : u ≠ .unknown) :
    t.orElse u ≠ .unknown := by
  unfold orElse
  split
  · next ht => exact (isKnown_iff t).1 ht
  · exact hu

theorem Literal.type_ne_unknown (value : Literal) : value.type ≠ .unknown := by
  cases value <;> simp [type]

namespace Expr

mutual

def reads : Expr → List String
  | .binary _ _ left right => left.reads ++ right.reads
  | .unary _ _ operand => operand.reads
  | .literal _ _ => []
  | .var _ name => [name]
  | .call _ _ arguments => readsAll arguments

def readsAll : List Expr → List String
  | [] => []
  | e :: es => e.reads ++ readsAll es

end

def readsAsTarget : Expr → List String
  | .var _ _ => []
  | e => e.reads

mutual

def calls : Expr → List String
  | .binary _ _ left right => left.calls ++ right.calls
  | .unary _ _ operand => operand.calls
  | .literal _ _ => []
  | .var _ _ => []
  | .call _ name arguments => name :: callsAll arguments

def callsAll : List Expr → List String
  | [] => []
  | e :: es => e.calls ++ callsAll es

end

end Expr

mutual

def Stmt.calls : Stmt → List String
  | .assign _ target value => value.calls ++ target.calls
  | .ifThen _ condition yes => condition.calls ++ yes.calls
  | .ifElse _ condition yes no => condition.calls ++ (yes.calls ++ no.calls)
  | .loop _ guard body => guard.calls ++ body.calls
  | .ret _ value => value.calls
  | .brk _ | .cont _ => []
  | .test _ call expected => call.calls ++ expected.calls

def Block.calls : Block → List String
  | .mk _ _ statements => Stmt.callsAll statements

def Stmt.callsAll : List Stmt → List String
  | [] => []
  | s :: ss => s.calls ++ Stmt.callsAll ss

end

def Program.calls (p : Program) : List String :=
  Stmt.callsAll p.statements ++ p.functions.flatMap fun f => f.body.calls

mutual

/-- Whether every variable read in a statement is one of the names `sure`, or is assigned to before
by a statement of a block that stands around the reading. -/
def Stmt.definite (sure : List String) : Stmt → Bool
  | .assign _ target value => value.reads ++ target.readsAsTarget ⊆ sure
  | .ifThen _ condition yes => condition.reads ⊆ sure && yes.definite sure
  | .ifElse _ condition yes no => condition.reads ⊆ sure && yes.definite sure && no.definite sure
  | .loop _ guard body => guard.reads ⊆ sure && body.definite sure
  | .ret _ value => value.reads ⊆ sure
  | .brk _ | .cont _ => true
  | .test _ call expected => call.reads ++ expected.reads ⊆ sure

def Block.definite (sure : List String) : Block → Bool
  | .mk _ _ statements => Stmt.definiteAll sure statements

/-- What a statement assigns to is sure for those that follow it. -/
def Stmt.definiteAll (sure : List String) : List Stmt → Bool
  | [] => true
  | s :: ss => s.definite sure && Stmt.definiteAll (s.targetName?.toList ++ sure) ss

end

def Function.annotated (f : Function) : List String :=
  (f.parameters.filter fun p => p.type.isKnown).map Parameter.name

/-- Whether every variable that is read is a parameter given a type, or is assigned to before, by a
statement of the program or of a block that stands around the reading. All statements of the program
come before the functions. -/
def Program.definite (p : Program) : Bool :=
  Stmt.definiteAll [] p.statements &&
    p.functions.all fun f =>
      f.body.definite (f.annotated ++ p.statements.filterMap Stmt.targetName?)

namespace Expr

variable {returns visible : String → DataType}

theorem own_eq_nil {e : Expr} (h : e.type ≠ .unknown) : own e = [] := by
  rw [own, if_pos ((DataType.isKnown_iff _).2 h)]

theorem inferred_ne_unknown (e : Expr) (hreads : ∀ x ∈ e.reads, visible x ≠ .unknown)
    (hcalls : ∀ f ∈ e.calls, returns f ≠ .unknown) :
    e.inferred returns visible ≠ .unknown := by
  cases e with
  | binary tag operator left right =>
    have hleft := inferred_ne_unknown left
      (fun x hx => hreads x (List.mem_append_left _ hx))
      (fun f hf => hcalls f (List.mem_append_left _ hf))
    exact DataType.orElse_ne_unknown hleft
  | unary tag operator operand =>
    exact DataType.orElse_ne_unknown (inferred_ne_unknown operand hreads hcalls)
  | literal tag value => exact DataType.orElse_ne_unknown value.type_ne_unknown
  | var tag name => exact DataType.orElse_ne_unknown (hreads name List.mem_cons_self)
  | call tag name arguments => exact DataType.orElse_ne_unknown (hcalls name List.mem_cons_self)

mutual

theorem unresolved_typed (e : Expr) (hreads : ∀ x ∈ e.reads, visible x ≠ .unknown)
    (hcalls : ∀ f ∈ e.calls, returns f ≠ .unknown) :
    (e.typed returns visible).unresolved = [] := by
  have hroot := own_eq_nil ((type_typed returns visible e).trans_ne
    (inferred_ne_unknown e hreads hcalls))
  cases e with
  | binary tag operator left right =>
    have hleft := unresolved_typed left
      (fun x hx => hreads x (List.mem_append_left _ hx))
      (fun f hf => hcalls f (List.mem_append_left _ hf))
    have hright := unresolved_typed right
      (fun x hx => hreads x (List.mem_append_right _ hx))
      (fun f hf => hcalls f (List.mem_append_right _ hf))
    rw [typed] at hroot ⊢
    rw [unresolved, hroot, hleft, hright]
    rfl
  | unary tag operator operand =>
    have hoperand := unresolved_typed operand hreads hcalls
    rw [typed] at hroot ⊢
    rw [unresolved, hroot, hoperand]
    rfl
  | literal tag value => exact hroot
  | var tag name => exact hroot
  | call tag name arguments =>
    have harguments := unresolved_typedAll arguments hreads
      (fun f hf => hcalls f (List.mem_cons_of_mem _ hf))
    rw [typed] at hroot ⊢
    rw [unresolved, hroot, harguments]
    rfl

theorem unresolved_typedAll (es : List Expr) (hreads : ∀ x ∈ readsAll es, visible x ≠ .unknown)
    (hcalls : ∀ f ∈ callsAll es, returns f ≠ .unknown) :
    unresolvedList (typedAll returns visible es) = [] := by
  cases es with
  | nil => rfl
  | cons e es =>
    have he := unresolved_typed e
      (fun x hx => hreads x (List.mem_append_left _ hx))
      (fun f hf => hcalls f (List.mem_append_left _ hf))
    have hes := unresolved_typedAll es
      (fun x hx => hreads x (List.mem_append_right _ hx))
      (fun f hf => hcalls f (List.mem_append_right _ hf))
    rw [typedAll, unresolvedList, he, hes]
    rfl

end

end Expr

namespace Scopes

def Sees (m : Scopes) (around : List Scope) (name : String) : Prop :=
  ∃ s ∈ around, ∃ symbol, m.symbol? s name = some symbol ∧ symbol.type ≠ .unknown

namespace Sees

variable {m m' : Scopes} {around around' : List Scope} {name : String}

theorem refines (h : m.Sees around name) (hm : m.Refines m') : m'.Sees around name := by
  obtain ⟨s, hs, symbol, hsymbol, hk⟩ := h
  obtain ⟨symbol', hsymbol', hsame⟩ := hm.symbol s name symbol hsymbol
  exact ⟨s, hs, symbol', hsymbol', (hsame hk).symm ▸ hk⟩

theorem mono (h : m.Sees around name) (hsub : around ⊆ around') : m.Sees around' name := by
  obtain ⟨s, hs, hsymbol⟩ := h
  exact ⟨s, hsub hs, hsymbol⟩

theorem visibleType_ne (h : m.Sees around name) (hm : m.Clean) :
    m.visibleType around name ≠ .unknown := by
  obtain ⟨s, hs, symbol, hsymbol, hk⟩ := h
  have hall : around.takeWhile (fun s => !(m.get s).poisoned) = around :=
    List.takeWhile_eq_self_iff.2 fun t _ => by simp [hm t]
  unfold visibleType
  rw [hall]
  cases hfound : around.findSome? (m.knownType? name) with
  | none =>
    have hnone := List.findSome?_eq_none_iff.1 hfound s hs
    unfold symbol? at hsymbol
    simp [knownType?, hsymbol, hk] at hnone
  | some t =>
    obtain ⟨u, -, hu⟩ := List.exists_of_findSome?_eq_some hfound
    unfold knownType? at hu
    obtain ⟨symbol', -, hu⟩ := Option.bind_eq_some_iff.1 hu
    rw [Option.getD_some]
    split at hu
    · next ht => exact Option.some.inj hu ▸ (DataType.isKnown_iff _).1 ht
    · cases hu

end Sees

end Scopes

theorem Declared.sees_assign {d : Declared} {c : Context} (hclean : d.scopes.Clean)
    (hactive : c.active ≠ []) (name : String) {type : DataType} (ht : type ≠ .unknown) :
    (d.assign c name type).scopes.Sees c.active name := by
  generalize hd' : d.assign c name type = d'
  have hassigns := d.assigns c name type
  rw [hd'] at hassigns
  cases hassigns with
  | @refused s _ hp => simp [hclean s] at hp
  | kept hs hsymbol h => exact ⟨_, hs, _, hsymbol, h.resolve_right ht⟩
  | refined hs _ _ hm => exact ⟨_, hs, _, hm.symbol_self, ht⟩
  | @declared s rest m hrest _ hm =>
    exact ⟨s, hrest ▸ List.mem_cons_self, _, hm.symbol_self, ht⟩
  | nowhere hnil => exact absurd hnil hactive

/-- Where a walk stands, the names `sure` have known types. -/
structure Sure (c : Context) (d : Declared) (sure : List String) : Prop where
  clean : d.scopes.Clean
  sees : ∀ x ∈ sure, d.scopes.Sees c.active x

namespace Sure

variable {c : Context} {d d' : Declared} {sure : List String}

theorem refines (h : Sure c d sure) (hd : d.scopes.Refines d'.scopes) : Sure c d' sure :=
  ⟨hd.clean h.clean, fun x hx => (h.sees x hx).refines hd⟩

theorem enter (h : Sure c d sure) (s : Scope) : Sure (c.enter s) d sure :=
  ⟨h.clean, fun x hx => (h.sees x hx).mono (List.subset_cons_self _ _)⟩

theorem visible (h : Sure c d sure) {m : Scopes} (hm : d.scopes.Refines m) {names : List String}
    (hnames : names ⊆ sure) : ∀ x ∈ names, m.visibleType c.active x ≠ .unknown :=
  fun x hx => ((h.sees x (hnames hx)).refines hm).visibleType_ne (hm.clean h.clean)

end Sure

theorem Stmt.sure_declare {s : Stmt} {c : Context} {d : Declared} {sure : List String}
    (h : Sure c d sure) (hnodup : (s.scopes ++ c.active).Nodup) (hactive : c.active ≠ [])
    (hdefinite : s.definite sure) (hcalls : ∀ f ∈ s.calls, c.returnType f ≠ .unknown) :
    Sure c (s.declare c d) (s.targetName?.toList ++ sure) := by
  have hafter := h.refines (s.runs_declare hnodup d).refines
  refine ⟨hafter.clean, fun x hx => ?_⟩
  rcases List.mem_append.1 hx with hx | hx
  · cases s with
    | assign depth target value =>
      cases target with
      | var tag name =>
        obtain rfl : x = name := by simpa [targetName?] using hx
        have hreads : value.reads ⊆ sure := by
          simpa [Stmt.definite, Expr.readsAsTarget] using hdefinite
        have hvalue := value.inferred_ne_unknown (h.visible (.refl _) hreads)
          (fun f hf => hcalls f (List.mem_append_left _ hf))
        rw [← Context.resolve_eq] at hvalue
        exact Declared.sees_assign h.clean hactive x hvalue
      | _ => simp [targetName?] at hx
    | _ => simp [targetName?] at hx
  · exact hafter.sees x hx

theorem Expr.reads_subset_of_target {target : Expr} {sure : List String}
    (h : target.readsAsTarget ⊆ sure) (depth : Nat) (value : Expr) :
    target.reads ⊆ (Stmt.assign depth target value).targetName?.toList ++ sure := by
  cases target with
  | var tag name => simp [reads, Stmt.targetName?]
  | _ => exact h

mutual

theorem Stmt.unresolved_typed (s : Stmt) {c : Context} {d : Declared} {sure : List String}
    (h : Sure c d sure) (hnodup : (s.scopes ++ c.active).Nodup) (hactive : c.active ≠ [])
    (hdefinite : s.definite sure) (hcalls : ∀ f ∈ s.calls, c.returnType f ≠ .unknown)
    {m : Scopes} (hm : (s.declare c d).scopes.Refines m) :
    (s.typed m c.returnType c.active).unresolved = [] := by
  have hfinal := (s.runs_declare hnodup d).refines.trans hm
  have hread : ∀ e : Expr, e.reads ⊆ sure → (∀ f ∈ e.calls, c.returnType f ≠ .unknown) →
      (e.typed c.returnType (m.visibleType c.active)).unresolved = [] :=
    fun e hreads => e.unresolved_typed (h.visible hfinal hreads)
  cases s with
  | assign depth target value =>
    have hafter := Stmt.sure_declare h hnodup hactive hdefinite hcalls
    simp only [Stmt.definite, decide_eq_true_eq, List.append_subset] at hdefinite
    simp only [Stmt.calls, List.forall_mem_append] at hcalls
    have hvalue := hread value hdefinite.1 hcalls.1
    -- what is assigned to has its type from the assignment itself
    have htarget := target.unresolved_typed
      (hafter.visible hm (Expr.reads_subset_of_target hdefinite.2 depth value)) hcalls.2
    rw [Stmt.typed, Stmt.unresolved, htarget, hvalue]
    rfl
  | ifThen depth condition yes =>
    simp only [Stmt.definite, Bool.and_eq_true, decide_eq_true_eq] at hdefinite
    simp only [Stmt.calls, List.forall_mem_append] at hcalls
    have hcondition := hread condition hdefinite.1 hcalls.1
    have hyes := yes.unresolved_typed h hnodup hdefinite.2 hcalls.2 hm
    rw [Stmt.typed, Stmt.unresolved, hcondition, hyes]
    rfl
  | ifElse depth condition yes no =>
    simp only [Stmt.definite, Bool.and_eq_true, decide_eq_true_eq] at hdefinite
    simp only [Stmt.calls, List.forall_mem_append] at hcalls
    obtain ⟨hnodupYes, hnodupNo⟩ := nodup_parts hnodup
    have hcondition := hread condition hdefinite.1.1 hcalls.1
    have hyes := yes.unresolved_typed h hnodupYes hdefinite.1.2 hcalls.2.1
      ((no.runs_declare hnodupNo _).refines.trans hm)
    have hno := no.unresolved_typed (h.refines (yes.runs_declare hnodupYes d).refines) hnodupNo
      hdefinite.2 hcalls.2.2 hm
    rw [Stmt.typed, Stmt.unresolved, hcondition, hyes, hno]
    rfl
  | loop depth guard body =>
    simp only [Stmt.definite, Bool.and_eq_true, decide_eq_true_eq] at hdefinite
    simp only [Stmt.calls, List.forall_mem_append] at hcalls
    have hguard := hread guard hdefinite.1 hcalls.1
    have hbody := body.unresolved_typed h hnodup hdefinite.2 hcalls.2 hm
    rw [Stmt.typed, Stmt.unresolved, hguard, hbody]
    rfl
  | ret depth value =>
    simp only [Stmt.definite, decide_eq_true_eq] at hdefinite
    exact hread value hdefinite hcalls
  | brk depth => rfl
  | cont depth => rfl
  | test depth call expected =>
    simp only [Stmt.definite, decide_eq_true_eq, List.append_subset] at hdefinite
    simp only [Stmt.calls, List.forall_mem_append] at hcalls
    have hcall := hread call hdefinite.1 hcalls.1
    have hexpected := hread expected hdefinite.2 hcalls.2
    rw [Stmt.typed, Stmt.unresolved, hcall, hexpected]
    rfl

theorem Block.unresolved_typed (b : Block) {c : Context} {d : Declared} {sure : List String}
    (h : Sure c d sure) (hnodup : (b.scopes ++ c.active).Nodup)
    (hdefinite : b.definite sure) (hcalls : ∀ f ∈ b.calls, c.returnType f ≠ .unknown)
    {m : Scopes} (hm : (b.declare c d).scopes.Refines m) :
    (b.typed m c.returnType c.active).unresolved = [] := by
  cases b with
  | mk depth scope statements =>
    exact Stmt.unresolved_typedAll statements (h.enter scope) (List.perm_middle.symm.nodup hnodup)
      (List.cons_ne_nil _ _) hdefinite hcalls hm

theorem Stmt.unresolved_typedAll (ss : List Stmt) {c : Context} {d : Declared}
    {sure : List String} (h : Sure c d sure) (hnodup : (Stmt.scopesAll ss ++ c.active).Nodup)
    (hactive : c.active ≠ []) (hdefinite : Stmt.definiteAll sure ss)
    (hcalls : ∀ f ∈ Stmt.callsAll ss, c.returnType f ≠ .unknown)
    {m : Scopes} (hm : (Stmt.declareAll c ss d).scopes.Refines m) :
    Stmt.unresolvedList (Stmt.typedAll m c.returnType c.active ss) = [] := by
  cases ss with
  | nil => rfl
  | cons s ss =>
    simp only [Stmt.definiteAll, Bool.and_eq_true] at hdefinite
    simp only [Stmt.callsAll, List.forall_mem_append] at hcalls
    obtain ⟨hnodupFirst, hnodupRest⟩ := nodup_parts hnodup
    have hfirst := s.unresolved_typed h hnodupFirst hactive hdefinite.1 hcalls.1
      ((Stmt.runs_declareAll ss hnodupRest _).refines.trans hm)
    have hrest := Stmt.unresolved_typedAll ss
      (Stmt.sure_declare h hnodupFirst hactive hdefinite.1 hcalls.1) hnodupRest hactive
      hdefinite.2 hcalls.2 hm
    rw [Stmt.typedAll, Stmt.unresolvedList, hfirst, hrest]
    rfl

end

end TinyScript
