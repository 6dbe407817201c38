import Mathlib.Data.List.Perm.Basic
import TinyScript.Proofs.Stream.Parts

/-! Programs laid out as constructs. A construct has the number and the depth of its events, and its
parts are constructs; what it writes is a piece of a tree. The events of a program can come in many
orders: parts come before what they are parts of, and the statements of a block while the block is
the innermost one that is open. -/

namespace TinyScript

mutual

def Stmt.unscoped : Stmt → Stmt
  | .ifThen d condition yes => .ifThen d condition yes.unscoped
  | .ifElse d condition yes no => .ifElse d condition yes.unscoped no.unscoped
  | .loop d guard body => .loop d guard body.unscoped
  | s => s

def Stmt.unscopedAll : List Stmt → List Stmt
  | [] => []
  | s :: ss => s.unscoped :: Stmt.unscopedAll ss

def Block.unscoped : Block → Block
  | .mk d _ ss => .mk d ⟨0⟩ (Stmt.unscopedAll ss)

end

theorem Stmt.unscopedAll_eq_map (ss : List Stmt) : Stmt.unscopedAll ss = ss.map Stmt.unscoped := by
  induction ss with
  | nil => rfl
  | cons s ss ih => rw [Stmt.unscopedAll, ih, List.map_cons]

def Function.unscoped (f : Function) : Function :=
  { f with body := f.body.unscoped, scope := ⟨0⟩ }

def Program.unscoped (p : Program) : Program where
  statements := p.statements.map Stmt.unscoped
  functions := p.functions.map Function.unscoped
  depth := p.depth
  scope := ⟨0⟩

namespace Node

def unscoped : Node → Node
  | .function f => .function f.unscoped
  | .block b => .block b.unscoped
  | .statement s => .statement s.unscoped
  | .expr e => .expr e

def construct : Node → ConstructClass
  | .function _ => .function
  | .block _ => .block
  | .statement _ => .statement
  | .expr _ => .expression

end Node

theorem Node.construct_unscoped (n : Node) : n.unscoped.construct = n.construct := by
  cases n <;> rfl

inductive Token.Writes (t : Token) : Literal → Prop
  | bool (h : t.kind = .bool) : Writes t (.bool (Text.sameLetters t.value "true"))
  | int {n : Int64} (h : t.kind = .number) (hn : Text.int64? t.value = some n) : Writes t (.int n)
  | str (h : t.kind = .string) : Writes t (.str t.value)

/-- What an event makes of the pieces it names, up to scopes. Its depth is the depth of the piece,
also if the piece is an expression that is there already. -/
inductive Event.Makes (e : Event) : List Node → Node → Prop
  | function {name parameters result body b} (h : e.kind = .function name parameters result body) :
    Makes e [.block b] (.function ⟨name.value,
      parameters.map fun p => ⟨p.1.value, p.2.getD .unknown⟩, result.getD .unknown, b, e.depth,
      ⟨0⟩⟩)
  | assignment {target value tag name v} (h : e.kind = .assignment target value) :
    Makes e [.expr (.var tag name), .expr v] (.statement (.assign e.depth (.var tag name) v))
  | ifThen {condition yes c y} (h : e.kind = .conditional condition [yes]) :
    Makes e [.expr c, .block y] (.statement (.ifThen e.depth c y))
  | ifElse {condition yes no c y n} (h : e.kind = .conditional condition [yes, no]) :
    Makes e [.expr c, .block y, .block n] (.statement (.ifElse e.depth c y n))
  | loop {guard body g b} (h : e.kind = .loop guard body) :
    Makes e [.expr g, .block b] (.statement (.loop e.depth g b))
  | ret {value v} (h : e.kind = .ret value) : Makes e [.expr v] (.statement (.ret e.depth v))
  | brk (h : e.kind = .brk) : Makes e [] (.statement (.brk e.depth))
  | cont (h : e.kind = .cont) : Makes e [] (.statement (.cont e.depth))
  | test {call expected tag name arguments v} (h : e.kind = .test call expected) :
    Makes e [.expr (.call tag name arguments), .expr v]
      (.statement (.test e.depth (.call tag name arguments) v))
  | expr {inner v} (h : e.kind = .expr inner) : Makes e [.expr v] (.expr (v.withDepth e.depth))
  | binary {operator left right l r} (h : e.kind = .binary operator left right) :
    Makes e [.expr l, .expr r]
      (.expr (.binary (.untyped e.depth) (.ofSymbol operator.value) l r))
  | unary {operator operand v} (h : e.kind = .unary operator operand) :
    Makes e [.expr v] (.expr (.unary (.untyped e.depth) (.ofSymbol operator.value) v))
  | call {name arguments ns} {vs : List Expr} (h : e.kind = .call name arguments)
    (hns : ns = vs.map .expr) : Makes e ns (.expr (.call (.untyped e.depth) name.value vs))
  | var {name} (h : e.kind = .var name) : Makes e [] (.expr (.var (.untyped e.depth) name.value))
  | literal {token v} (h : e.kind = .literal token) (hv : token.Writes v) :
    Makes e [] (.expr (.ofLiteral e.depth v))

/-- A construct with its events: the one event of a whole, with the parts it names, or the two of a
block, with the statements between. -/
inductive Construct
  | whole (event : Event) (parts : List Construct)
  | block (id : Serial) (depth lastDepth : Nat) (statements : List Construct)

namespace Construct

def id : Construct → Serial
  | whole event _ => event.id
  | block id .. => id

def last : Construct → Event
  | whole event _ => event
  | block id _ lastDepth _ => ⟨id, lastDepth, .exitBlock⟩

def own : Construct → List Event
  | whole event _ => [event]
  | block id depth lastDepth _ => [⟨id, depth, .enterBlock⟩, ⟨id, lastDepth, .exitBlock⟩]

def children : Construct → List Construct
  | whole _ parts => parts
  | block _ _ _ statements => statements

def claimed : Construct → List Construct
  | whole _ parts => parts
  | block .. => []

mutual

def subs : Construct → List Construct
  | whole event parts => whole event parts :: subsAll parts
  | block id depth lastDepth statements =>
    block id depth lastDepth statements :: subsAll statements

def subsAll : List Construct → List Construct
  | [] => []
  | c :: cs => c.subs ++ subsAll cs

end

def events (t : Construct) : List Event := t.subs.flatMap own

/-- The piece that a construct writes, up to scopes. A block has the depth of its first event. -/
inductive Writes : Construct → Node → Prop
  | whole {event : Event} {parts : List Construct} {ns : List Node} {n : Node}
    (hnamed : event.named = parts.map id) (hparts : List.Forall₂ Writes parts ns)
    (hmakes : event.Makes ns n) : Writes (whole event parts) n
  | block {id depth lastDepth : Nat} {statements : List Construct} {ss : List Stmt}
    (hstatements : List.Forall₂ Writes statements (ss.map .statement)) :
    Writes (block id depth lastDepth statements) (.block (.mk depth ⟨0⟩ ss))

inductive Presents : Construct → Program → Prop
  | program {number depth : Nat} {statements functions : List Construct} {ss : List Stmt}
    {fs : List Function} (hstatements : List.Forall₂ Writes statements (ss.map .statement))
    (hfunctions : List.Forall₂ Writes functions (fs.map .function)) :
    Presents (whole ⟨number, depth, .program (statements.map id) (functions.map id)⟩
      (statements ++ functions)) ⟨ss, fs, depth, ⟨0⟩⟩

/-- A construct is completed while `inner` is the innermost open block, if any is open. -/
def CompletedIn (es : List Event) (inner : Option Serial) (c : Construct) : Prop :=
  AtEach (fun before e => e = c.last → (openBlocks before).head? = inner) es

/-- Whether the parts of a construct are completed where they should be: the parts of a whole before
it, with no block open if they are statements, and the statements of a block one after the other
between its ends, with no block open within it. -/
def InPlace (es : List Event) : Construct → Prop
  | whole event parts => ∀ part ∈ parts, [part.last, event].Sublist es ∧
      (part.last.kind.class? = some .statement → part.CompletedIn es none)
  | block id depth lastDepth statements =>
    (⟨id, depth, .enterBlock⟩ ::
      (statements.map last ++ [⟨id, lastDepth, .exitBlock⟩])).Sublist es ∧
      ∀ s ∈ statements, s.CompletedIn es (some id)

/-- A stream has the events of a construct, bottom-up. -/
structure Arranges (t : Construct) (es : List Event) : Prop where
  events : es.Perm t.events
  numbers : (t.subs.map id).Nodup
  inPlace : ∀ c ∈ t.subs, c.InPlace es
  ending : es.getLast? = some t.last

instance (es : List Event) (inner : Option Serial) (c : Construct) :
    Decidable (c.CompletedIn es inner) := inferInstanceAs (Decidable (AtEach _ es))

instance (es : List Event) : (c : Construct) → Decidable (c.InPlace es)
  | whole _ parts => inferInstanceAs (Decidable (∀ part ∈ parts, _ ∧ (_ → _)))
  | block _ _ _ statements => inferInstanceAs (Decidable (_ ∧ ∀ s ∈ statements, _))

instance (t : Construct) (es : List Event) : Decidable (t.Arranges es) :=
  decidable_of_iff (es.Perm t.events ∧ (t.subs.map id).Nodup ∧ (∀ c ∈ t.subs, c.InPlace es) ∧
    es.getLast? = some t.last)
    ⟨fun h => ⟨h.1, h.2.1, h.2.2.1, h.2.2.2⟩, fun h => ⟨h.events, h.numbers, h.inPlace, h.ending⟩⟩

end Construct

def Nested (es : List Event) : Prop :=
  AtEach (fun before e => e.kind = .exitBlock → (openBlocks before).head? = some e.id) es

instance (es : List Event) : Decidable (Nested es) := inferInstanceAs (Decidable (AtEach _ es))

/-- A stream has the events of a program, bottom-up and with its blocks nested. -/
def Linearises (es : List Event) (p : Program) : Prop :=
  ∃ t : Construct, t.Presents p.unscoped ∧ t.Arranges es ∧ Nested es

namespace Construct

@[induction_eliminator]
theorem induct {P : Construct → Prop}
    (whole : ∀ event parts, (∀ c ∈ parts, P c) → P (whole event parts))
    (block : ∀ id depth lastDepth statements, (∀ c ∈ statements, P c) →
      P (block id depth lastDepth statements)) (c : Construct) : P c := by
  refine @Construct.rec P (fun cs => ∀ c ∈ cs, P c) whole block ?_ ?_ c
  · simp
  · intro c cs hc hcs
    simpa using ⟨hc, hcs⟩

theorem subsAll_eq_flatMap (cs : List Construct) : subsAll cs = cs.flatMap subs := by
  induction cs with
  | nil => rfl
  | cons c cs ih => rw [subsAll, ih, List.flatMap_cons]

theorem subs_eq (c : Construct) : c.subs = c :: c.children.flatMap subs := by
  cases c <;> rw [subs, subsAll_eq_flatMap, children]

theorem mem_subs_self (c : Construct) : c ∈ c.subs := by
  rw [subs_eq]
  exact List.mem_cons_self

theorem perm_subs (t : Construct) : t.subs.Perm (t :: t.subs.flatMap children) := by
  have hstep : ∀ t : Construct, (∀ c ∈ t.children, c.subs.Perm (c :: c.subs.flatMap children)) →
      t.subs.Perm (t :: t.subs.flatMap children) := by
    intro t ih
    rw [subs_eq, List.flatMap_cons, List.flatMap_assoc]
    apply List.Perm.cons
    have hchildren : (t.children.flatMap subs).Perm
        (t.children.flatMap fun c => c :: c.subs.flatMap children) := .flatMap_left _ ih
    have hapart := List.map_append_flatMap_perm t.children (fun c => c)
      fun c => c.subs.flatMap children
    rw [List.map_id'] at hapart
    exact hchildren.trans hapart.symm
  induction t with
  | whole event parts ih => exact hstep _ ih
  | block id depth lastDepth statements ih => exact hstep _ ih

theorem Writes.of_mem_subs {t c : Construct} {n : Node} (h : t.Writes n) (hc : c ∈ t.subs) :
    ∃ m, c.Writes m := by
  induction t generalizing n with
  | whole event parts ih =>
    rw [subs_eq, List.mem_cons, List.mem_flatMap] at hc
    rcases hc with rfl | ⟨part, hpart, hc⟩
    · exact ⟨n, h⟩
    · cases h with
      | whole _ hparts _ =>
        obtain ⟨m, -, hm⟩ := exists_of_forall₂ hparts hpart
        exact ih part hpart hm hc
  | block id depth lastDepth statements ih =>
    rw [subs_eq, List.mem_cons, List.mem_flatMap] at hc
    rcases hc with rfl | ⟨s, hs, hc⟩
    · exact ⟨n, h⟩
    · cases h with
      | block hstatements =>
        obtain ⟨m, -, hm⟩ := exists_of_forall₂ hstatements hs
        exact ih s hs hm hc

end Construct

theorem Token.Writes.unique {t : Token} {v w : Literal} (h : t.Writes v) (h' : t.Writes w) :
    v = w := by
  cases h <;> cases h' <;> simp_all

theorem Event.Makes.unique {e : Event} {ns : List Node} {n m : Node} (h : e.Makes ns n)
    (h' : e.Makes ns m) : n = m := by
  cases h with
  | call hkind hns =>
    cases h' with
    | call hkind' hns' =>
      have hinjective : Function.Injective Node.expr := fun _ _ => Node.expr.inj
      rw [hns] at hns'
      simp_all [hinjective.list_map hns']
    | _ => simp_all
  | literal hkind hv =>
    cases h' with
    | literal hkind' hv' =>
      obtain rfl := EventKind.literal.inj (hkind.symm.trans hkind')
      rw [hv.unique hv']
    | _ => simp_all
  | _ => cases h' <;> simp_all

theorem Event.Makes.class?_eq {e : Event} {ns : List Node} {n : Node} (h : e.Makes ns n) :
    e.kind.class? = some n.construct := by
  cases h <;> simp [*, EventKind.class?, Node.construct]

theorem Event.Makes.openAfter_eq {e : Event} {ns : List Node} {n : Node} (h : e.Makes ns n)
    (ids : List Serial) : e.openAfter ids = ids := by
  cases h <;> simp [*, Event.openAfter]

theorem Event.Makes.kind_ne_exitBlock {e : Event} {ns : List Node} {n : Node} (h : e.Makes ns n) :
    e.kind ≠ .exitBlock := by
  cases h <;> simp [*]

namespace Construct

theorem Writes.class?_eq {c : Construct} {n : Node} (h : c.Writes n) :
    c.last.kind.class? = some n.construct := by
  cases h with
  | whole _ _ hmakes => exact hmakes.class?_eq
  | block _ => rfl

theorem Writes.unique {c : Construct} {n m : Node} (h : c.Writes n) (h' : c.Writes m) : n = m := by
  induction c generalizing n m with
  | whole event parts ih =>
    obtain ⟨-, hparts, hmakes⟩ := h
    obtain ⟨-, hparts', hmakes'⟩ := h'
    have hns := forall₂_unique (fun part hpart _ _ => ih part hpart) hparts hparts'
    exact hmakes.unique (hns ▸ hmakes')
  | block id depth lastDepth statements ih =>
    obtain - | hstatements := h
    obtain - | hstatements' := h'
    have hss := forall₂_unique (fun s hs _ _ => ih s hs) hstatements hstatements'
    have hinjective : Function.Injective Node.statement := fun _ _ => Node.statement.inj
    rw [hinjective.list_map hss]

end Construct

end TinyScript
