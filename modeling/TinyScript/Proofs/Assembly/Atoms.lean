import Mathlib.Algebra.Order.Group.Multiset
import Mathlib.Tactic.Abel
import TinyScript.Proofs.Assembly.Claims

/-! The nodes of a tree, counted one by one without regard to where they stand, and what an event
adds to them: it makes one node of its own and takes over those of its parts. -/

namespace TinyScript

/-- A node without those below it. The tag of an expression is left out, since a later event can
change it. -/
inductive Atom
  | literal (value : Literal)
  | var (name : String)
  | unary (operator : UnaryOp)
  | binary (operator : BinaryOp)
  | call (name : String)
  | statement (name : String) (depth : Nat)
  | block (depth : Nat)
  | function (name : String) (parameters : List Parameter) (returnType : DataType) (depth : Nat)
deriving DecidableEq

/-- The node that an event adds. A block is added where it begins. -/
def Event.atom? (e : Event) : Option Atom :=
  match e.kind with
  | .enterBlock => some (.block e.depth)
  | .function name parameters returnType _ =>
    some (.function name.value (parameters.map Assembly.parameter) (returnType.getD .unknown)
      e.depth)
  | .assignment .. | .conditional .. | .loop .. | .ret _ | .brk | .cont | .test .. =>
    some (.statement e.kind.name e.depth)
  | .binary operator _ _ => some (.binary (.ofSymbol operator.value))
  | .unary operator _ => some (.unary (.ofSymbol operator.value))
  | .call name _ => some (.call name.value)
  | .var name => some (.var name.value)
  | .literal token => (Assembly.literal token).toOption.map .literal
  | .exitBlock | .program .. | .expr _ => none

mutual

def Expr.atoms : Expr → Multiset Atom
  | .binary _ operator left right => {.binary operator} + (left.atoms + right.atoms)
  | .unary _ operator operand => {.unary operator} + operand.atoms
  | .literal _ value => {.literal value}
  | .var _ name => {.var name}
  | .call _ name arguments => {.call name} + Expr.atomsAll arguments

def Expr.atomsAll : List Expr → Multiset Atom
  | [] => 0
  | e :: es => e.atoms + Expr.atomsAll es

end

mutual

def Stmt.atoms : Stmt → Multiset Atom
  | .assign d target value => {.statement "assignment" d} + (target.atoms + value.atoms)
  | .ifThen d condition yes => {.statement "conditional" d} + (condition.atoms + yes.atoms)
  | .ifElse d condition yes no =>
    {.statement "conditional" d} + (condition.atoms + (yes.atoms + no.atoms))
  | .loop d guard body => {.statement "while loop" d} + (guard.atoms + body.atoms)
  | .ret d value => {.statement "return" d} + value.atoms
  | .brk d => {.statement "break" d}
  | .cont d => {.statement "continue" d}
  | .test d call expected => {.statement "test" d} + (call.atoms + expected.atoms)

def Block.atoms : Block → Multiset Atom
  | .mk d _ statements => {.block d} + Stmt.atomsAll statements

def Stmt.atomsAll : List Stmt → Multiset Atom
  | [] => 0
  | s :: ss => s.atoms + Stmt.atomsAll ss

end

def Function.atoms (f : Function) : Multiset Atom :=
  {.function f.name f.parameters f.returnType f.depth} + f.body.atoms

def Program.atoms (p : Program) : Multiset Atom :=
  (p.statements.map Stmt.atoms).sum + (p.functions.map Function.atoms).sum

def Node.atoms : Node → Multiset Atom
  | .function f => f.atoms
  | .block b => b.atoms
  | .statement s => s.atoms
  | .expr e => e.atoms

theorem Expr.atomsAll_eq_sum (es : List Expr) : Expr.atomsAll es = (es.map Expr.atoms).sum := by
  induction es with
  | nil => rfl
  | cons e es ih => rw [Expr.atomsAll, ih, List.map_cons, List.sum_cons]

theorem Stmt.atomsAll_eq_sum (ss : List Stmt) : Stmt.atomsAll ss = (ss.map Stmt.atoms).sum := by
  induction ss with
  | nil => rfl
  | cons s ss ih => rw [Stmt.atomsAll, ih, List.map_cons, List.sum_cons]

theorem Expr.atoms_withDepth (e : Expr) (d : Nat) : (e.withDepth d).atoms = e.atoms := by
  cases e <;> rfl

theorem Node.atoms_beforeScope (n : Node) : n.beforeScope.atoms = n.atoms := by
  cases n <;> rfl

def OpenBlock.atoms (b : OpenBlock) : Multiset Atom := b.close.atoms

theorem OpenBlock.atoms_push (b : OpenBlock) (s : Stmt) : (b.push s).atoms = b.atoms + s.atoms := by
  simp only [atoms, close, push, Block.atoms, Stmt.atomsAll_eq_sum, List.map_append,
    List.sum_append, List.map_cons, List.map_nil, List.sum_singleton, add_assoc]

namespace Keyed

variable {α M : Type} [AddCommMonoid M]

def Unique (m : Keyed Serial α) : Prop := (m.entries.map Prod.fst).Nodup

def keys (m : Keyed Serial α) : Multiset Serial := m.entries.map Prod.fst

def total (f : α → M) (m : Keyed Serial α) : M := (m.entries.map fun p => f p.2).sum

variable {m : Keyed Serial α} {f : α → M} {k : Serial} {x : α}

theorem Unique.eraseAll (h : m.Unique) (ks : List Serial) : (m.eraseAll ks).Unique :=
  h.sublist (List.filter_sublist.map Prod.fst)

theorem Unique.erase (h : m.Unique) (k : Serial) : (m.erase k).Unique :=
  h.sublist (List.filter_sublist.map Prod.fst)

theorem Unique.insert (h : m.Unique) (k : Serial) (x : α) : (m.insert k x).Unique := by
  refine List.nodup_cons.2 ⟨fun hmem => ?_, h.erase k⟩
  obtain ⟨p, hp, hk⟩ := List.mem_map.1 hmem
  have hne : p.1 ≠ k := by simpa using List.of_mem_filter hp
  exact hne hk

theorem Unique.total_erase (h : m.Unique) (f : α → M) (k : Serial) :
    m.total f = (m.get? k).elim 0 f + (m.erase k).total f := by
  obtain ⟨entries⟩ := m
  induction entries with
  | nil => simp [total, get?, Keyed.erase]
  | cons p entries ih =>
    obtain ⟨hp, hrest⟩ := List.nodup_cons.1 h
    by_cases hk : p.1 = k
    · have hothers : entries.filter (fun q => !decide (q.1 = k)) = entries := by
        refine List.filter_eq_self.2 fun q hq => ?_
        have hne : q.1 ≠ k := fun hqk => hp (hk ▸ hqk ▸ List.mem_map_of_mem hq)
        simpa using hne
      simp [total, get?, Keyed.erase, hk, hothers]
    · have htotal : total f ⟨p :: entries⟩ = f p.2 + total f ⟨entries⟩ := by simp [total]
      have hget : get? ⟨p :: entries⟩ k = get? ⟨entries⟩ k := by simp [get?, hk]
      have herase : (Keyed.erase ⟨p :: entries⟩ k).total f =
          f p.2 + (Keyed.erase ⟨entries⟩ k).total f := by simp [total, Keyed.erase, hk]
      rw [htotal, hget, herase, ih hrest, add_left_comm]

theorem Unique.total_insert (h : m.Unique) (f : α → M) (k : Serial) (x : α) :
    m.total f + f x = (m.insert k x).total f + (m.get? k).elim 0 f := by
  have hinsert : (m.insert k x).total f = f x + (m.erase k).total f := by
    simp [total, Keyed.insert]
  rw [hinsert, h.total_erase f k]
  abel

theorem Unique.total_eraseAll (h : m.Unique) (f : α → M) {ks : List Serial} {xs : List α}
    (hks : ks.Nodup) (hxs : List.Forall₂ (fun k x => m.get? k = some x) ks xs) :
    m.total f = (xs.map f).sum + (m.eraseAll ks).total f := by
  induction ks generalizing m xs with
  | nil =>
    obtain rfl := List.forall₂_nil_left_iff.1 hxs
    simp
  | cons k ks ih =>
    obtain ⟨x, xs, hx, hrest, rfl⟩ := List.forall₂_cons_left_iff.1 hxs
    obtain ⟨hk, hks⟩ := List.nodup_cons.1 hks
    have hne : ∀ l ∈ ks, l ≠ k := fun l hl hlk => hk (hlk ▸ hl)
    have hothers : List.Forall₂ (fun l y => (m.erase k).get? l = some y) ks xs :=
      ((List.forall₂_and_left _ _).2 ⟨hne, hrest⟩).imp fun l y hl => by
        rw [get?_erase, if_neg hl.1, hl.2]
    rw [h.total_erase f k, hx, ih (h.erase k) hks hothers, eraseAll_cons, List.map_cons,
      List.sum_cons, add_assoc]
    rfl

theorem keys_eraseAll_le (m : Keyed Serial α) (ks : List Serial) : (m.eraseAll ks).keys ≤ m.keys :=
  Multiset.coe_le.2 (List.filter_sublist.map Prod.fst).subperm

theorem keys_insert_le (m : Keyed Serial α) (k : Serial) (x : α) :
    (m.insert k x).keys ≤ m.keys + {k} := by
  have herase : (m.erase k).keys ≤ m.keys :=
    Multiset.coe_le.2 (List.filter_sublist.map Prod.fst).subperm
  have hinsert : (m.insert k x).keys = {k} + (m.erase k).keys := rfl
  rw [hinsert, add_comm]
  exact add_le_add herase le_rfl

theorem get?_eq_none_of_notMem_keys (h : k ∉ m.keys) : m.get? k = none := by
  have hkey : ∀ p ∈ m.entries, p.1 ≠ k := by
    rintro p hp rfl
    exact h (Multiset.mem_coe.2 (List.mem_map_of_mem hp))
  have hfind : m.entries.find? (fun p => p.1 = k) = none :=
    List.find?_eq_none.2 fun p hp => by simpa using hkey p hp
  rw [get?, hfind]
  rfl

end Keyed

def Event.added (e : Event) : Multiset Atom := e.atom?.toList

theorem Event.Makes.atoms_eq {e : Event} {ns : List Node} {n : Node} (h : e.Makes ns n) :
    n.atoms = e.added + (ns.map Node.atoms).sum := by
  obtain ⟨id, d, kind⟩ := e
  cases h with
  | literal h hv =>
    cases h
    simp [Node.atoms, Expr.ofLiteral, Expr.atoms, added, atom?, hv.literal_eq, Except.toOption]
  | call h hns =>
    cases h
    simp [Node.atoms, Expr.atoms, added, atom?, hns, Expr.atomsAll_eq_sum, Function.comp_def]
  | expr h =>
    cases h
    simp [Node.atoms, Expr.atoms_withDepth, added, atom?]
  | function h =>
    cases h
    simp [Node.atoms, Function.atoms, added, atom?, Assembly.parameter]
  | _ h =>
    cases h
    simp [Node.atoms, Stmt.atoms, Expr.atoms, added, atom?, EventKind.name]

end TinyScript
