import Mathlib.Data.Set.Card
import TinyScript.Walk.Trace

/-! Where the expressions of a tree are. The parts of a node are numbered in the order of the text,
and the address of a node is made of the numbers that lead to it. In the order of their addresses
wholes come before parts, and parts in the order of the text. -/

namespace TinyScript

namespace Expr

def parts : Expr → List Expr
  | binary _ _ left right => [left, right]
  | unary _ _ operand => [operand]
  | literal .. => []
  | var .. => []
  | call _ _ arguments => arguments

end Expr

def Stmt.parts : Stmt → List Place
  | assign _ target value => [.expr target, .expr value]
  | ifThen _ condition yes => [.expr condition, .block yes]
  | ifElse _ condition yes no => [.expr condition, .block yes, .block no]
  | loop _ guard body => [.expr guard, .block body]
  | ret _ value => [.expr value]
  | brk _ => []
  | cont _ => []
  | test _ call expected => [.expr call, .expr expected]

namespace Place

def parts : Place → List Place
  | program p => p.statements.map statement ++ p.functions.map function
  | function f => [block f.body]
  | parameters _ => []
  | block b => b.statements.map statement
  | statement s => s.parts
  | expr e => e.parts.map expr

def at? : Place → List Nat → Option Place
  | node, [] => some node
  | node, i :: address => node.parts[i]?.bind fun part => part.at? address

def expr? : Place → Option Expr
  | expr e => some e
  | _ => none

def exprAt? (node : Place) (address : List Nat) : Option Expr := (node.at? address).bind expr?

end Place

section InOrder

variable {α : Type} {find : List Nat → Option α} {finds : List (List Nat → Option α)}
  {l ls : List α}

/-- What is found at all the addresses where something is found, each once and in the order of the
addresses. -/
def InOrder (find : List Nat → Option α) (l : List α) : Prop :=
  ∃ addresses : List (List Nat), addresses.Pairwise (· < ·) ∧
    (∀ a, a ∈ addresses ↔ (find a).isSome) ∧ addresses.filterMap find = l

theorem InOrder.ncard_eq (h : InOrder find l) : {a | (find a).isSome}.ncard = l.length := by
  obtain ⟨addresses, hsorted, hmem, rfl⟩ := h
  have hnodup : addresses.Nodup := hsorted.imp fun hlt => ne_of_lt hlt
  have hset : {a | (find a).isSome} = (addresses.toFinset : Set (List Nat)) := by
    ext a
    simp only [Set.mem_ofPred_eq, Finset.mem_coe, List.mem_toFinset, hmem]
  rw [hset, Set.ncard_coe_finset, List.toFinset_card_of_nodup hnodup,
    List.filterMap_length_eq_length.2 fun a => (hmem a).1]

theorem InOrder.eq_none (h : InOrder find []) (a : List Nat) : find a = none := by
  obtain ⟨addresses, -, hmem, hnil⟩ := h
  refine Option.not_isSome_iff_eq_none.1 fun hsome => ?_
  rw [List.filterMap_eq_nil_iff.1 hnil a ((hmem a).2 hsome)] at hsome
  cases hsome

theorem InOrder.filter (h : InOrder find l) (q : α → Bool) :
    InOrder (fun a => (find a).filter q) (l.filter q) := by
  obtain ⟨addresses, hsorted, hmem, rfl⟩ := h
  refine ⟨addresses.filter fun a => ((find a).filter q).isSome, hsorted.filter _, fun a => ?_, ?_⟩
  · rw [List.mem_filter, hmem]
    cases hfind : find a with
    | none => simp [hfind]
    | some x => simp [hfind]
  · rw [List.filterMap_filter, List.filter_filterMap]
    apply congrArg fun find => List.filterMap find addresses
    funext a
    cases (find a).filter q <;> rfl

def under (finds : List (List Nat → Option α)) : List Nat → Option α
  | [] => none
  | i :: address => finds[i]?.bind fun find => find address

theorem InOrder.nil : InOrder (under ([] : List (List Nat → Option α))) [] :=
  ⟨[], List.Pairwise.nil, by rintro (_ | _) <;> simp [under], rfl⟩

def nextPart : List Nat → List Nat
  | [] => []
  | i :: address => (i + 1) :: address

theorem under_cons_nextPart (find : List Nat → Option α) (a : List Nat) :
    under (find :: finds) (nextPart a) = under finds a := by
  cases a <;> rfl

theorem nextPart_lt {a b : List Nat} (h : a < b) : nextPart a < nextPart b := by
  cases a with
  | nil =>
    cases b with
    | nil => exact absurd h (lt_irrefl _)
    | cons j b => exact List.nil_lt_cons _ _
  | cons i a =>
    cases b with
    | nil => exact absurd h (List.not_lt_nil _)
    | cons j b =>
      rw [List.cons_lt_cons_iff] at h
      unfold nextPart
      rw [List.cons_lt_cons_iff, Nat.add_lt_add_iff_right, Nat.add_right_cancel_iff]
      exact h

theorem InOrder.cons (h : InOrder find l) (hs : InOrder (under finds) ls) :
    InOrder (under (find :: finds)) (l ++ ls) := by
  obtain ⟨as, hsorted, hmem, rfl⟩ := h
  obtain ⟨bs, hsorteds, hmems, rfl⟩ := hs
  have hne : ∀ b ∈ bs, b ≠ [] := by
    rintro b hb rfl
    exact Bool.false_ne_true ((hmems []).1 hb)
  refine ⟨as.map (0 :: ·) ++ bs.map nextPart, List.pairwise_append.2 ⟨?_, ?_, ?_⟩, ?_, ?_⟩
  · exact hsorted.map _ fun a b hlt => List.cons_lt_cons_iff.2 (.inr ⟨rfl, hlt⟩)
  · exact hsorteds.map _ fun a b => nextPart_lt
  · intro a ha b hb
    obtain ⟨a', -, rfl⟩ := List.mem_map.1 ha
    obtain ⟨b', hb', rfl⟩ := List.mem_map.1 hb
    obtain ⟨i, b, rfl⟩ := List.exists_cons_of_ne_nil (hne b' hb')
    exact List.cons_lt_cons_iff.2 (.inl (Nat.succ_pos i))
  · intro a
    rw [List.mem_append, List.mem_map, List.mem_map]
    constructor
    · rintro (⟨a, ha, rfl⟩ | ⟨b, hb, rfl⟩)
      · exact (hmem a).1 ha
      · rw [under_cons_nextPart]
        exact (hmems b).1 hb
    · intro h
      rcases a with _ | ⟨_ | i, a⟩
      · exact absurd h Bool.false_ne_true
      · exact .inl ⟨a, (hmem a).2 h, rfl⟩
      · exact .inr ⟨i :: a, (hmems (i :: a)).2 h, rfl⟩
  · rw [List.filterMap_append, List.filterMap_map, List.filterMap_map]
    apply congrArg
    apply congrArg fun find => List.filterMap find bs
    funext b
    exact under_cons_nextPart find b

theorem InOrder.node (h : InOrder (under finds) l)
    (hparts : ∀ i a, find (i :: a) = under finds (i :: a)) :
    InOrder find ((find []).toList ++ l) := by
  obtain ⟨as, hsorted, hmem, rfl⟩ := h
  have hne : ∀ a ∈ as, a ≠ [] := by
    rintro a ha rfl
    exact Bool.false_ne_true ((hmem []).1 ha)
  have hcons : ∀ i a, i :: a ∈ as ↔ (find (i :: a)).isSome := by
    intro i a
    rw [hmem, hparts]
  have hfind : as.filterMap (under finds) = as.filterMap find := by
    apply List.filterMap_congr
    intro a ha
    obtain ⟨i, a', rfl⟩ := List.exists_cons_of_ne_nil (hne a ha)
    exact (hparts i a').symm
  rw [hfind]
  cases hroot : find [] with
  | none =>
    refine ⟨as, hsorted, fun a => ?_, rfl⟩
    cases a with
    | nil => simpa [hroot] using fun h => hne [] h rfl
    | cons i a => exact hcons i a
  | some x =>
    refine ⟨[] :: as, List.pairwise_cons.2 ⟨fun a ha => ?_, hsorted⟩, fun a => ?_, ?_⟩
    · obtain ⟨i, a', rfl⟩ := List.exists_cons_of_ne_nil (hne a ha)
      exact List.nil_lt_cons i a'
    · cases a with
      | nil => simp [hroot]
      | cons i a => simp [hcons i a]
    · rw [List.filterMap_cons_some hroot]
      rfl

end InOrder

namespace Place

theorem exprAt?_cons (node : Place) (i : Nat) (a : List Nat) :
    node.exprAt? (i :: a) = under (node.parts.map exprAt?) (i :: a) := by
  rw [exprAt?, at?, under, List.getElem?_map]
  cases node.parts[i]? <;> rfl

def Lists (node : Place) (l : List Expr) : Prop := InOrder node.exprAt? l

theorem inOrder_parts {parts : List Place} {lists : List (List Expr)}
    (h : List.Forall₂ Lists parts lists) :
    InOrder (under (parts.map exprAt?)) lists.flatten := by
  induction h with
  | nil => exact InOrder.nil
  | cons h _ ih => exact h.cons ih

theorem lists_of_parts {node : Place} {lists : List (List Expr)} {l : List Expr}
    (h : List.Forall₂ Lists node.parts lists)
    (hl : node.expr?.toList ++ lists.flatten = l) : node.Lists l := by
  rw [← hl]
  exact (inOrder_parts h).node node.exprAt?_cons

end Place

mutual

def Expr.nodes : Expr → List Expr
  | .binary tag operator left right =>
    .binary tag operator left right :: (left.nodes ++ right.nodes)
  | .unary tag operator operand => .unary tag operator operand :: operand.nodes
  | .literal tag value => [.literal tag value]
  | .var tag name => [.var tag name]
  | .call tag name arguments => .call tag name arguments :: Expr.nodesAll arguments

def Expr.nodesAll : List Expr → List Expr
  | [] => []
  | e :: es => e.nodes ++ Expr.nodesAll es

end

mutual

def Stmt.nodes : Stmt → List Expr
  | .assign _ target value => target.nodes ++ value.nodes
  | .ifThen _ condition yes => condition.nodes ++ yes.nodes
  | .ifElse _ condition yes no => condition.nodes ++ (yes.nodes ++ no.nodes)
  | .loop _ guard body => guard.nodes ++ body.nodes
  | .ret _ value => value.nodes
  | .brk _ => []
  | .cont _ => []
  | .test _ call expected => call.nodes ++ expected.nodes

def Block.nodes : Block → List Expr
  | .mk _ _ statements => Stmt.nodesAll statements

def Stmt.nodesAll : List Stmt → List Expr
  | [] => []
  | s :: ss => s.nodes ++ Stmt.nodesAll ss

end

def Program.nodes (p : Program) : List Expr :=
  Stmt.nodesAll p.statements ++ p.functions.flatMap fun f => f.body.nodes

theorem Expr.nodesAll_eq (es : List Expr) : Expr.nodesAll es = (es.map Expr.nodes).flatten := by
  induction es with
  | nil => rfl
  | cons e es ih => rw [Expr.nodesAll, ih, List.map_cons, List.flatten_cons]

theorem Stmt.nodesAll_eq (ss : List Stmt) : Stmt.nodesAll ss = (ss.map Stmt.nodes).flatten := by
  induction ss with
  | nil => rfl
  | cons s ss ih => rw [Stmt.nodesAll, ih, List.map_cons, List.flatten_cons]

mutual

theorem Expr.lists_nodes (e : Expr) : (Place.expr e).Lists e.nodes := by
  cases e with
  | binary tag operator left right =>
    refine Place.lists_of_parts (.cons left.lists_nodes (.cons right.lists_nodes .nil)) ?_
    simp [Place.expr?, Expr.nodes]
  | unary tag operator operand =>
    refine Place.lists_of_parts (.cons operand.lists_nodes .nil) ?_
    simp [Place.expr?, Expr.nodes]
  | literal tag value => exact Place.lists_of_parts .nil rfl
  | var tag name => exact Place.lists_of_parts .nil rfl
  | call tag name arguments =>
    refine Place.lists_of_parts (Expr.lists_nodesAll arguments) ?_
    rw [Expr.nodes, Expr.nodesAll_eq]
    rfl

theorem Expr.lists_nodesAll (es : List Expr) :
    List.Forall₂ Place.Lists (es.map Place.expr) (es.map Expr.nodes) := by
  cases es with
  | nil => exact .nil
  | cons e es => exact .cons e.lists_nodes (Expr.lists_nodesAll es)

end

mutual

theorem Stmt.lists_nodes (s : Stmt) : (Place.statement s).Lists s.nodes := by
  cases s with
  | assign depth target value =>
    refine Place.lists_of_parts (.cons target.lists_nodes (.cons value.lists_nodes .nil)) ?_
    simp [Place.expr?, Stmt.nodes]
  | ifThen depth condition yes =>
    refine Place.lists_of_parts (.cons condition.lists_nodes (.cons yes.lists_nodes .nil)) ?_
    simp [Place.expr?, Stmt.nodes]
  | ifElse depth condition yes no =>
    refine Place.lists_of_parts (.cons condition.lists_nodes
      (.cons yes.lists_nodes (.cons no.lists_nodes .nil))) ?_
    simp [Place.expr?, Stmt.nodes]
  | loop depth guard body =>
    refine Place.lists_of_parts (.cons guard.lists_nodes (.cons body.lists_nodes .nil)) ?_
    simp [Place.expr?, Stmt.nodes]
  | ret depth value =>
    refine Place.lists_of_parts (.cons value.lists_nodes .nil) ?_
    simp [Place.expr?, Stmt.nodes]
  | brk depth => exact Place.lists_of_parts .nil rfl
  | cont depth => exact Place.lists_of_parts .nil rfl
  | test depth call expected =>
    refine Place.lists_of_parts (.cons call.lists_nodes (.cons expected.lists_nodes .nil)) ?_
    simp [Place.expr?, Stmt.nodes]

theorem Block.lists_nodes (b : Block) : (Place.block b).Lists b.nodes := by
  cases b with
  | mk depth scope statements =>
    refine Place.lists_of_parts (Stmt.lists_nodesAll statements) ?_
    rw [Block.nodes, Stmt.nodesAll_eq]
    rfl

theorem Stmt.lists_nodesAll (ss : List Stmt) :
    List.Forall₂ Place.Lists (ss.map Place.statement) (ss.map Stmt.nodes) := by
  cases ss with
  | nil => exact .nil
  | cons s ss => exact .cons s.lists_nodes (Stmt.lists_nodesAll ss)

end

theorem Function.lists_nodesAll (fs : List Function) :
    List.Forall₂ Place.Lists (fs.map Place.function) (fs.map fun f => f.body.nodes) := by
  induction fs with
  | nil => exact .nil
  | cons f fs ih =>
    refine .cons (Place.lists_of_parts (.cons f.body.lists_nodes .nil) ?_) ih
    simp [Place.expr?]

theorem Program.lists_nodes (p : Program) : (Place.program p).Lists p.nodes := by
  have hparts := List.rel_append (Stmt.lists_nodesAll p.statements)
    (Function.lists_nodesAll p.functions)
  refine Place.lists_of_parts hparts ?_
  rw [Program.nodes, Stmt.nodesAll_eq, List.flatMap, List.flatten_append]
  rfl

end TinyScript
