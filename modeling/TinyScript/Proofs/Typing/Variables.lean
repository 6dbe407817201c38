import TinyScript.Proofs.Assembly.Inherited
import TinyScript.Proofs.Places
import TinyScript.Proofs.Typing.Annotate
import TinyScript.Proofs.Walk.Sites

/-! The types of variables. A variable has no type when it is made, and nothing that is done to it
while a tree is built gives it one. So when types are given, a variable gets just what is visible of
its name from where it stands. -/

namespace TinyScript

def Visit.Untyped (v : Visit) : Prop :=
  ∀ tag name, v.place = .expr (.var tag name) → tag.type = .unknown

theorem Visit.untyped_of_ne {v : Visit} (h : ∀ tag name, v.place ≠ .expr (.var tag name)) :
    v.Untyped := fun tag name heq => absurd heq (h tag name)

def Node.sites (around : List Scope) : Node → List Visit
  | .function f => f.sites around
  | .block b => b.sites around
  | .statement s => s.sites around
  | .expr e => e.sites around

def Node.Untyped (n : Node) : Prop := ∀ around, ∀ v ∈ n.sites around, v.Untyped

namespace Node

open List (forall_mem_cons forall_mem_append)

theorem untyped_exprs {es : List Expr} (h : ∀ e ∈ es, (Node.expr e).Untyped)
    (around : List Scope) : ∀ v ∈ Expr.sitesAll around es, v.Untyped := by
  induction es with
  | nil => exact List.forall_mem_nil _
  | cons e es ih =>
    obtain ⟨he, hes⟩ := forall_mem_cons.1 h
    exact forall_mem_append.2 ⟨he around, ih hes⟩

theorem untyped_statements {ss : List Stmt} (h : ∀ s ∈ ss, (Node.statement s).Untyped)
    (around : List Scope) : ∀ v ∈ Stmt.sitesAll around ss, v.Untyped := by
  induction ss with
  | nil => exact List.forall_mem_nil _
  | cons s ss ih =>
    obtain ⟨hs, hss⟩ := forall_mem_cons.1 h
    exact forall_mem_append.2 ⟨hs around, ih hss⟩

theorem untyped_functions {fs : List Function} (h : ∀ f ∈ fs, (Node.function f).Untyped)
    (around : List Scope) : ∀ v ∈ Function.sitesAll around fs, v.Untyped := by
  induction fs with
  | nil => exact List.forall_mem_nil _
  | cons f fs ih =>
    obtain ⟨hf, hfs⟩ := forall_mem_cons.1 h
    exact forall_mem_append.2 ⟨hf around, ih hfs⟩

theorem untyped_var (tag : Tag) (name : String) (h : tag.type = .unknown) :
    (Node.expr (.var tag name)).Untyped := by
  intro around
  refine List.forall_mem_singleton.2 fun tag' name' heq => ?_
  obtain ⟨rfl, rfl⟩ := Expr.var.inj (Place.expr.inj heq)
  exact h

theorem Untyped.withDepth {e : Expr} (h : (Node.expr e).Untyped) (d : Nat) :
    (Node.expr (e.withDepth d)).Untyped := by
  intro around
  cases e with
  | var tag name =>
    have htype := List.forall_mem_singleton.1 (h around) tag name rfl
    exact untyped_var ⟨tag.type, d⟩ name htype around
  | literal _ _ => exact List.forall_mem_singleton.2 (Visit.untyped_of_ne (by simp))
  | binary _ _ _ _ | unary _ _ _ | call _ _ _ =>
    exact forall_mem_cons.2 ⟨Visit.untyped_of_ne (by simp), (forall_mem_cons.1 (h around)).2⟩

theorem inherited_untyped : Inherited Node.Untyped where
  var d name := untyped_var _ name rfl
  literal d value around := List.forall_mem_singleton.2 (Visit.untyped_of_ne (by simp))
  unary d operator ho around :=
    forall_mem_cons.2 ⟨Visit.untyped_of_ne (by simp), ho around⟩
  binary d operator hl hr around :=
    forall_mem_cons.2 ⟨Visit.untyped_of_ne (by simp), forall_mem_append.2 ⟨hl around, hr around⟩⟩
  call d name hes around :=
    forall_mem_cons.2 ⟨Visit.untyped_of_ne (by simp), untyped_exprs hes around⟩
  withDepth d he := he.withDepth d
  assign d ht hv around :=
    forall_mem_cons.2 ⟨Visit.untyped_of_ne (by simp), forall_mem_append.2 ⟨hv around, ht around⟩⟩
  ifThen d hc hy around :=
    forall_mem_cons.2 ⟨Visit.untyped_of_ne (by simp), forall_mem_append.2 ⟨hc around, hy around⟩⟩
  ifElse d hc hy hn around :=
    forall_mem_cons.2 ⟨Visit.untyped_of_ne (by simp), forall_mem_append.2 ⟨hc around,
      forall_mem_append.2 ⟨hy around, hn around⟩⟩⟩
  loop d hg hb around :=
    forall_mem_cons.2 ⟨Visit.untyped_of_ne (by simp), forall_mem_append.2 ⟨hg around, hb around⟩⟩
  ret d hv around := forall_mem_cons.2 ⟨Visit.untyped_of_ne (by simp), hv around⟩
  brk d around := List.forall_mem_singleton.2 (Visit.untyped_of_ne (by simp))
  cont d around := List.forall_mem_singleton.2 (Visit.untyped_of_ne (by simp))
  test d hc he around :=
    forall_mem_cons.2 ⟨Visit.untyped_of_ne (by simp), forall_mem_append.2 ⟨hc around, he around⟩⟩
  block d scope hss around :=
    forall_mem_cons.2 ⟨Visit.untyped_of_ne (by simp), untyped_statements hss _⟩
  function name parameters result d scope hb around :=
    forall_mem_cons.2 ⟨Visit.untyped_of_ne (by simp),
      forall_mem_cons.2 ⟨Visit.untyped_of_ne (by simp), hb _⟩⟩

end Node

theorem Program.untyped_of_ofEvents {es : List Event} {p : Program}
    (h : Program.ofEvents es = .ok p) : ∀ v ∈ p.sites [], v.Untyped := by
  have hpieces := Node.inherited_untyped.pieces h
  exact List.forall_mem_cons.2 ⟨Visit.untyped_of_ne (by simp), List.forall_mem_append.2
    ⟨Node.untyped_statements hpieces.statements _, Node.untyped_functions hpieces.functions _⟩⟩

/-- How a site of a tree is found again when the tree has its types: in the same scopes, and if it
is an expression, with the types given to it there. -/
structure Visit.Types (m : Scopes) (returns : String → DataType) (v w : Visit) : Prop where
  active : w.active = v.active
  expr : ∀ e, w.place = .expr e →
    ∃ e', v.place = .expr e' ∧ e = e'.typed returns (m.visibleType v.active)

section Typed

variable (m : Scopes) (returns : String → DataType)

theorem Visit.types_of_ne {place place' : Place} (around : List Scope)
    (h : ∀ e, place' ≠ .expr e) : Visit.Types m returns ⟨place, around⟩ ⟨place', around⟩ :=
  ⟨rfl, fun e heq => absurd heq (h e)⟩

theorem Visit.types_expr (around : List Scope) (e : Expr) :
    Visit.Types m returns ⟨.expr e, around⟩
      ⟨.expr (e.typed returns (m.visibleType around)), around⟩ :=
  ⟨rfl, fun _ heq => ⟨e, rfl, (Place.expr.inj heq).symm⟩⟩

open List (Forall₂)

mutual

theorem Expr.types_sites (around : List Scope) (e : Expr) :
    Forall₂ (Visit.Types m returns) (e.sites around)
      ((e.typed returns (m.visibleType around)).sites around) := by
  have he := Visit.types_expr m returns around e
  cases e with
  | binary tag operator left right =>
    exact .cons he (List.rel_append (left.types_sites around) (right.types_sites around))
  | unary tag operator operand => exact .cons he (operand.types_sites around)
  | literal tag value => exact .cons he .nil
  | var tag name => exact .cons he .nil
  | call tag name arguments => exact .cons he (Expr.types_sitesAll around arguments)

theorem Expr.types_sitesAll (around : List Scope) (es : List Expr) :
    Forall₂ (Visit.Types m returns) (Expr.sitesAll around es)
      (Expr.sitesAll around (Expr.typedAll returns (m.visibleType around) es)) := by
  cases es with
  | nil => exact .nil
  | cons e es => exact List.rel_append (e.types_sites around) (Expr.types_sitesAll around es)

end

mutual

theorem Stmt.types_sites (around : List Scope) (s : Stmt) :
    Forall₂ (Visit.Types m returns) (s.sites around) ((s.typed m returns around).sites around) := by
  have he := Expr.types_sites m returns around
  cases s with
  | assign depth target value =>
    exact .cons (Visit.types_of_ne m returns around (by simp))
      (List.rel_append (he value) (he target))
  | ifThen depth condition yes =>
    exact .cons (Visit.types_of_ne m returns around (by simp))
      (List.rel_append (he condition) (yes.types_sites around))
  | ifElse depth condition yes no =>
    exact .cons (Visit.types_of_ne m returns around (by simp)) (List.rel_append (he condition)
      (List.rel_append (yes.types_sites around) (no.types_sites around)))
  | loop depth guard body =>
    exact .cons (Visit.types_of_ne m returns around (by simp))
      (List.rel_append (he guard) (body.types_sites around))
  | ret depth value => exact .cons (Visit.types_of_ne m returns around (by simp)) (he value)
  | brk depth => exact .cons (Visit.types_of_ne m returns around (by simp)) .nil
  | cont depth => exact .cons (Visit.types_of_ne m returns around (by simp)) .nil
  | test depth call expected =>
    exact .cons (Visit.types_of_ne m returns around (by simp))
      (List.rel_append (he call) (he expected))

theorem Block.types_sites (around : List Scope) (b : Block) :
    Forall₂ (Visit.Types m returns) (b.sites around) ((b.typed m returns around).sites around) := by
  cases b with
  | mk depth scope statements =>
    exact .cons (Visit.types_of_ne m returns around (by simp))
      (Stmt.types_sitesAll (scope :: around) statements)

theorem Stmt.types_sitesAll (around : List Scope) (ss : List Stmt) :
    Forall₂ (Visit.Types m returns) (Stmt.sitesAll around ss)
      (Stmt.sitesAll around (Stmt.typedAll m returns around ss)) := by
  cases ss with
  | nil => exact .nil
  | cons s ss => exact List.rel_append (s.types_sites around) (Stmt.types_sitesAll around ss)

end

theorem Function.types_sites (around : List Scope) (f : Function) (ps : List Parameter) :
    Forall₂ (Visit.Types m returns) (f.sites around)
      ((Function.typed m returns around { f with parameters := ps }).sites around) :=
  .cons (Visit.types_of_ne m returns around (by simp))
    (.cons (Visit.types_of_ne m returns _ (by simp)) (f.body.types_sites m returns _))

theorem Function.types_sitesAll (c : Context) (around : List Scope) (fs : List Function)
    (d : Declared) : Forall₂ (Visit.Types m returns) (Function.sitesAll around fs)
      (Function.sitesAll around ((settledAll c fs d).map (Function.typed m returns around))) := by
  induction fs generalizing d with
  | nil => exact .nil
  | cons f fs ih => exact List.rel_append (f.types_sites m returns around _) (ih _)

end Typed

namespace Program

theorem types_sites (c : Context) (p : Program) (d : Declared) (m : Scopes) :
    List.Forall₂ (Visit.Types m (p.settled c d).returnType) (p.sites [])
      (((p.settled c d).typed m).sites []) :=
  .cons (Visit.types_of_ne m _ [] (by simp)) (List.rel_append (Stmt.types_sitesAll m _ _ _)
    (Function.types_sitesAll m _ _ _ _ _))

theorem type_var_of_ofEvents {es : List Event} {p : Program} (h : Program.ofEvents es = .ok p)
    (c : Context) (d : Declared) (m : Scopes) {tag : Tag} {name : String} {around : List Scope}
    (hv : ⟨.expr (.var tag name), around⟩ ∈ ((p.settled c d).typed m).sites []) :
    (∃ v ∈ p.sites [], v.active = around) ∧ tag.type = m.visibleType around name := by
  obtain ⟨v, hmem, htypes⟩ := exists_of_forall₂ (p.types_sites c d m).flip hv
  obtain ⟨e, hplace, heq⟩ := htypes.expr _ rfl
  obtain rfl : around = v.active := htypes.active
  refine ⟨⟨v, hmem, rfl⟩, ?_⟩
  cases e with
  | var tag' name' =>
    have huntyped : tag'.type = .unknown := untyped_of_ofEvents h v hmem tag' name' hplace
    rw [Expr.typed] at heq
    obtain ⟨rfl, rfl⟩ := Expr.var.inj heq
    rw [huntyped]
    rfl
  | binary _ _ _ _ | unary _ _ _ | literal _ _ | call _ _ _ => simp [Expr.typed] at heq

end Program

end TinyScript
