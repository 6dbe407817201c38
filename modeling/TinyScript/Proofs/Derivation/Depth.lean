import Mathlib.Order.Nat
import TinyScript.Proofs.Language

/-! How deep the parts of a program stand. What is parsed and assembled is one level deeper with
every block and every statement of a block. Within an expression the depths are those at which its
parts were read, except that the root is brought up to the construct it belongs to: going down they
never decrease, and they grow to the right of an operator. -/

namespace TinyScript

mutual

/-- No part of an expression stands higher than what it is part of, and the operand on the right of
an operator stands deeper. -/
def Expr.Layered : Expr → Prop
  | .binary tag _ left right =>
    (tag.depth ≤ left.depth ∧ left.Layered) ∧ tag.depth < right.depth ∧ right.Layered
  | .unary tag _ operand => tag.depth < operand.depth ∧ operand.Layered
  | .literal _ _ | .var _ _ => True
  | .call tag _ arguments => Expr.AllLayered tag.depth arguments

def Expr.AllLayered (d : Nat) : List Expr → Prop
  | [] => True
  | e :: es => (d ≤ e.depth ∧ e.Layered) ∧ Expr.AllLayered d es

end

def Expr.StandsAt (d : Nat) (e : Expr) : Prop := e.depth = d ∧ e.Layered

mutual

/-- A statement is at depth `d`, and so are its expressions; its blocks are one level deeper. -/
def Stmt.StandsAt (d : Nat) : Stmt → Prop
  | .assign depth target value => depth = d ∧ target.StandsAt d ∧ value.StandsAt d
  | .ifThen depth condition yes => depth = d ∧ condition.StandsAt d ∧ yes.StandsAt (d + 1)
  | .ifElse depth condition yes no =>
    depth = d ∧ condition.StandsAt d ∧ yes.StandsAt (d + 1) ∧ no.StandsAt (d + 1)
  | .loop depth guard body => depth = d ∧ guard.StandsAt d ∧ body.StandsAt (d + 1)
  | .ret depth value => depth = d ∧ value.StandsAt d
  | .brk depth | .cont depth => depth = d
  | .test depth call expected => depth = d ∧ call.StandsAt d ∧ expected.StandsAt d

def Block.StandsAt (d : Nat) : Block → Prop
  | .mk depth _ statements => depth = d ∧ Stmt.AllStandAt (d + 1) statements

def Stmt.AllStandAt (d : Nat) : List Stmt → Prop
  | [] => True
  | s :: ss => s.StandsAt d ∧ Stmt.AllStandAt d ss

end

def Function.StandsAt (d : Nat) (f : Function) : Prop := f.depth = d ∧ f.body.StandsAt (d + 1)

/-- The depths in a program are those of its nesting. -/
structure Program.Layered (p : Program) : Prop where
  depth : p.depth = 0
  statements : ∀ s ∈ p.statements, s.StandsAt 1
  functions : ∀ f ∈ p.functions, f.StandsAt 1

namespace Expr

theorem AllLayered.mono {c d : Nat} (hcd : c ≤ d) {es : List Expr} (h : AllLayered d es) :
    AllLayered c es := by
  induction es with
  | nil => trivial
  | cons e es ih => exact ⟨⟨hcd.trans h.1.1, h.1.2⟩, ih h.2⟩

@[simp] theorem depth_withDepth (d : Nat) (e : Expr) : (e.withDepth d).depth = d :=
  congrArg Tag.depth (tag_withTag _ e)

theorem Layered.withDepth {e : Expr} (h : e.Layered) {d : Nat} (hd : d ≤ e.depth) :
    (e.withDepth d).Layered := by
  cases e with
  | binary tag operator left right =>
    obtain ⟨⟨hleft, hl⟩, hright, hr⟩ := h
    exact ⟨⟨hd.trans hleft, hl⟩, hd.trans_lt hright, hr⟩
  | unary tag operator operand => exact ⟨hd.trans_lt h.1, h.2⟩
  | literal tag value => trivial
  | var tag name => trivial
  | call tag name arguments => exact AllLayered.mono hd h

theorem Layered.standsAt {e : Expr} (h : e.Layered) {d : Nat} (hd : d ≤ e.depth) :
    (e.withDepth d).StandsAt d := ⟨depth_withDepth d e, h.withDepth hd⟩

end Expr

namespace ExprTree

def Deepens (d : Nat) : {p : ExprPart} → ExprTree p → Prop
  | .level _, e => d ≤ Expr.depth (e.meaning d) ∧ Expr.Layered (e.meaning d)
  | .call, e => Expr.StandsAt d (e.meaning d)
  | .arguments, e => Expr.AllLayered d (e.meaning d)
  | .items, e => Expr.AllLayered d (e.meaning d)

theorem Deepens.full {e : FullExpr} {d : Nat} (h : Deepens (d + 1) e) :
    (e.fullMeaning d).StandsAt d := h.2.standsAt (Nat.le_of_succ_le h.1)

theorem Deepens.item {e : FullExpr} {d : Nat} (h : Deepens (d + 1) e) :
    d ≤ (e.fullMeaning d).depth ∧ (e.fullMeaning d).Layered := ⟨h.full.1.ge, h.full.2⟩

theorem deepens {p : ExprPart} (e : ExprTree p) : ∀ d, Deepens d e := by
  induction e with
  | join left operator right ihl ihr =>
    intro d
    exact ⟨le_rfl, ihl d, (ihr (d + 1)).1, (ihr (d + 1)).2⟩
  | tighter _ inner ih => exact ih
  | sign operator operand ih =>
    intro d
    exact ⟨le_rfl, (ih (d + 1)).1, (ih (d + 1)).2⟩
  | literal value =>
    intro d
    simp only [Deepens, meaning, Expr.ofLiteral, Expr.depth, Expr.tag, Expr.Layered, le_refl,
      and_self]
  | var name =>
    intro d
    simp only [Deepens, meaning, Tag.untyped, Expr.depth, Expr.tag, Expr.Layered, le_refl,
      and_self]
  | call inner ih => exact fun d => ⟨(ih d).1.ge, (ih d).2⟩
  | grouping opening inner closing ih =>
    -- parentheses leave no node behind, only a gap in the depths
    intro d
    exact ⟨Nat.le_of_succ_le (ih (d + 1)).1, (ih (d + 1)).2⟩
  | apply name opening arguments closing ih => exact fun d => ⟨rfl, ih d⟩
  | none => exact fun d => trivial
  | some items ih => exact ih
  | last item ih => exact fun d => ⟨Deepens.item (ih (d + 1)), trivial⟩
  | more item comma rest ihi ihr => exact fun d => ⟨Deepens.item (ihi (d + 1)), ihr d⟩

theorem standsAt_fullMeaning (e : FullExpr) (d : Nat) : (e.fullMeaning d).StandsAt d :=
  Deepens.full (deepens e (d + 1))

end ExprTree

namespace StmtTree

def Stands (d k : Nat) : {p : StmtPart} → StmtTree p → Prop
  | .statement, s => Stmt.StandsAt d (s.meaning d k)
  | .block, b => Block.StandsAt d (b.meaning d k)
  | .body, b => Stmt.AllStandAt d (b.meaning d k)

theorem stands {p : StmtPart} (s : StmtTree p) : ∀ d k, Stands d k s := by
  induction s with
  | assign name mark value stop =>
    exact fun d k => ⟨rfl, ⟨rfl, trivial⟩, value.standsAt_fullMeaning d⟩
  | ifThen word opening condition closing yes ih =>
    exact fun d k => ⟨rfl, condition.standsAt_fullMeaning d, ih (d + 1) k⟩
  | ifElse word opening condition closing yes otherwise no ihy ihn =>
    exact fun d k => ⟨rfl, condition.standsAt_fullMeaning d, ihy (d + 1) k, ihn (d + 1) _⟩
  | loop word opening guard closing body ih =>
    exact fun d k => ⟨rfl, guard.standsAt_fullMeaning d, ih (d + 1) k⟩
  | ret word value stop => exact fun d k => ⟨rfl, value.standsAt_fullMeaning d⟩
  | brk word stop | cont word stop =>
    intro d k
    simp only [Stands, meaning, Stmt.StandsAt]
  | test word call mark expected stop =>
    -- the call of a test is read at the depth of the test and not taken as a whole
    exact fun d k => ⟨rfl, call.deepens d, expected.standsAt_fullMeaning d⟩
  | braces opening body closing ih => exact fun d k => ⟨rfl, ih (d + 1) (k + 1)⟩
  | nil => exact fun d k => trivial
  | cons first rest ihf ihr => exact fun d k => ⟨ihf d k, ihr d _⟩

end StmtTree

theorem FunctionTree.standsAt_meaning (f : FunctionTree) (d k : Nat) :
    (f.meaning d k).StandsAt d := ⟨rfl, f.body.stands (d + 1) k⟩

namespace ItemTree

theorem standsAt_statements (items : List ItemTree) (d k : Nat) :
    ∀ s ∈ statements items d k, s.StandsAt d := by
  fun_induction statements items d k with
  | case1 => exact List.forall_mem_nil _
  | case2 s items d k ih => exact List.forall_mem_cons.2 ⟨s.stands d k, ih⟩
  | case3 f items d k ih => exact ih

theorem standsAt_functions (items : List ItemTree) (d k : Nat) :
    ∀ f ∈ functions items d k, f.StandsAt d := by
  fun_induction functions items d k with
  | case1 => exact List.forall_mem_nil _
  | case2 s items d k ih => exact ih
  | case3 f items d k ih => exact List.forall_mem_cons.2 ⟨f.standsAt_meaning d k, ih⟩

end ItemTree

theorem ProgramTree.layered_meaning (t : ProgramTree) : t.meaning.Layered where
  depth := rfl
  statements := ItemTree.standsAt_statements t.items 1 0
  functions := ItemTree.standsAt_functions t.items 1 0

/-- In a program that was parsed and assembled the depths are those of its nesting. -/
theorem depths_reflect_nesting {tokens : List Token} {file : String} {es : List Event} {r : Reader}
    {p : Program} (h : parse tokens file = (.ok es, r)) (hp : Program.ofEvents es = .ok p) :
    p.Layered := by
  obtain ⟨t, -, rfl, -⟩ := parse_of_ok h
  rw [t.ofEvents_events] at hp
  split at hp
  · contradiction
  · obtain rfl := Except.ok.inj hp
    exact t.layered_meaning

def steepTokens : List Token :=
  let token (kind : TokenKind) (text : String) : Token := ⟨kind, text, default⟩
  [token .defWord "def", token .identifier "f", token .openParen "(", token .closeParen ")",
    token .openCurly "\x7b", token .whileWord "while", token .openParen "(", token .identifier "a",
    token .less "<", token .openParen "(", token .identifier "b", token .star "*",
    token .dash "-", token .number "2", token .closeParen ")", token .closeParen ")",
    token .openCurly "\x7b", token .returnWord "return", token .identifier "g",
    token .openParen "(", token .identifier "b", token .closeParen ")", token .semicolon ";",
    token .closeCurly "\x7d", token .closeCurly "\x7d", .eofAt default]

def steepEvents : List Event :=
  let name (s : String) : Token := ⟨.identifier, s, default⟩
  [⟨0, 2, .enterBlock⟩, ⟨1, 4, .var (name "a")⟩, ⟨2, 6, .var (name "b")⟩,
    ⟨3, 8, .literal ⟨.number, "2", default⟩⟩, ⟨4, 7, .unary ⟨.dash, "-", default⟩ 3⟩,
    ⟨5, 6, .binary ⟨.star, "*", default⟩ 2 4⟩, ⟨6, 4, .binary ⟨.less, "<", default⟩ 1 5⟩,
    ⟨7, 3, .expr 6⟩, ⟨8, 4, .enterBlock⟩, ⟨9, 7, .var (name "b")⟩, ⟨10, 6, .expr 9⟩,
    ⟨11, 6, .call (name "g") [10]⟩, ⟨12, 5, .expr 11⟩, ⟨13, 5, .ret 12⟩, ⟨8, 4, .exitBlock⟩,
    ⟨14, 3, .loop 7 8⟩, ⟨0, 2, .exitBlock⟩, ⟨15, 1, .function (name "f") [] none 0⟩,
    ⟨16, 0, .program [] [15]⟩]

def steepProgram : Program where
  statements := []
  functions :=
    [{ name := "f", parameters := [], returnType := .unknown, depth := 1, scope := ⟨2⟩
       body := .mk 2 ⟨0⟩
        [.loop 3
          (.binary (.untyped 3) .lt (.var (.untyped 4) "a")
            (.binary (.untyped 6) .mul (.var (.untyped 6) "b")
              (.unary (.untyped 7) .neg (.ofLiteral 8 (.int 2)))))
          (.mk 4 ⟨1⟩ [.ret 5 (.call (.untyped 5) "g" [.var (.untyped 6) "b"])])] }]
  depth := 0
  scope := ⟨3⟩

theorem steepProgram_layered :
    (parse steepTokens "").1 = .ok steepEvents ∧ Program.ofEvents steepEvents = .ok steepProgram ∧
    steepProgram.Layered := by
  have hparse : (parse steepTokens "").1 = .ok steepEvents := by decide +kernel
  have hevents : Program.ofEvents steepEvents = .ok steepProgram := by decide +kernel
  have hpair : parse steepTokens "" = (.ok steepEvents, (parse steepTokens "").2) := by
    rw [← hparse]
  exact ⟨hparse, hevents, depths_reflect_nesting hpair hevents⟩

end TinyScript
