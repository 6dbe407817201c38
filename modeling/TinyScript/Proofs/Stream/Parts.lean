import TinyScript.Proofs.Assembly.Step
import TinyScript.Proofs.Places

/-! What an event stream says by itself: which construct each event completes, which ones it names
as its parts, and which blocks are open when it comes. A stream is bottom-up if every part is
complete before it is named, and named once. -/

namespace TinyScript

inductive ConstructClass
  | program | function | block | statement | expression
deriving DecidableEq, Repr

namespace EventKind

/-- The class of the construct that an event completes. Only the start of a block completes none. -/
def class? : EventKind → Option ConstructClass
  | enterBlock => none
  | exitBlock => some .block
  | program .. => some .program
  | function .. => some .function
  | assignment .. | conditional .. | loop .. | ret _ | brk | cont | test .. => some .statement
  | expr _ | binary .. | unary .. | call .. | var _ | literal _ => some .expression

/-- The constructs that an event names as parts, with the classes they must be of. In each list they
go from left to right. -/
def parts : EventKind → List (List (Serial × ConstructClass))
  | program statements functions =>
    [statements.map (·, .statement), functions.map (·, .function)]
  | function _ _ _ body => [[(body, .block)]]
  | assignment target value => [[(target, .expression), (value, .expression)]]
  | conditional condition blocks => [(condition, .expression) :: blocks.map (·, .block)]
  | loop guard body => [[(guard, .expression), (body, .block)]]
  | ret value => [[(value, .expression)]]
  | test tested expected => [[(tested, .expression), (expected, .expression)]]
  | expr inner => [[(inner, .expression)]]
  | binary _ left right => [[(left, .expression), (right, .expression)]]
  | unary _ operand => [[(operand, .expression)]]
  | call _ arguments => [arguments.map (·, .expression)]
  | enterBlock | exitBlock | brk | cont | var _ | literal _ => []

end EventKind

namespace Event

def named (e : Event) : List Serial := e.kind.parts.flatten.map Prod.fst

/-- Where a special form is called for, it is there: what is assigned to is a variable, and what is
tested is a call. -/
def Fitting (before : List Event) (e : Event) : Prop :=
  match e.kind with
  | .assignment target _ => ∃ d name, ⟨target, d, .var name⟩ ∈ before
  | .test call _ => ∃ d d' inner name arguments,
      ⟨call, d, .expr inner⟩ ∈ before ∧ ⟨inner, d', .call name arguments⟩ ∈ before
  | _ => True

/-- Whether an event completes a construct that another is to name, where the blocks `ids` are open:
any but a program and a statement of a block. -/
def isPart (ids : List Serial) (e : Event) : Bool :=
  match e.kind.class? with
  | some .function | some .block | some .expression => true
  | some .statement => ids.isEmpty
  | some .program | none => false

end Event

def completions (es : List Event) : List (Serial × ConstructClass) :=
  es.filterMap fun e => e.kind.class?.map (e.id, ·)

def openFrom (ids : List Serial) (es : List Event) : List Serial :=
  es.foldl (fun ids e => e.openAfter ids) ids

def partIds (ids : List Serial) : List Event → List Serial
  | [] => []
  | e :: es => (if e.isPart ids then [e.id] else []) ++ partIds (e.openAfter ids) es

/-- A stream in which every construct is complete before it is named. -/
structure BottomUp (es : List Event) : Prop where
  numbered : ∃ n, (es.filter fun e => e.kind ≠ .exitBlock).map Event.id = List.range n
  closes : AtEach (fun before e => e.kind = .exitBlock →
    (openBlocks before).head? = some e.id) es
  /-- Parts are of the right class, and were completed before and from left to right. -/
  parts : AtEach (fun before e => ∀ l ∈ e.kind.parts, l.Sublist (completions before)) es
  fitting : AtEach (fun before e => e.Fitting before) es
  once : (es.flatMap Event.named).Nodup

structure BottomUp.Whole (es : List Event) : Prop where
  closed : openBlocks es = []
  last : ∃ before id statements functions,
    es = before ++ [⟨id, 0, .program statements functions⟩] ∧
      ∀ e ∈ before, e.kind.class? ≠ some .program
  /-- All but the program and the statements of blocks are named by just one event. -/
  claimed : AtEach (fun before e => e.isPart (openBlocks before) →
    (es.flatMap Event.named).count e.id = 1) es

@[simp] theorem completions_nil : completions [] = [] := rfl

@[simp] theorem completions_append (es es' : List Event) :
    completions (es ++ es') = completions es ++ completions es' := List.filterMap_append

@[simp] theorem completions_cons (e : Event) (es : List Event) :
    completions (e :: es) = (e.kind.class?.map (e.id, ·)).toList ++ completions es := by
  rw [completions, List.filterMap_cons]
  cases e.kind.class? <;> rfl

@[simp] theorem openFrom_nil (ids : List Serial) : openFrom ids [] = ids := rfl

@[simp] theorem openFrom_cons (ids : List Serial) (e : Event) (es : List Event) :
    openFrom ids (e :: es) = openFrom (e.openAfter ids) es := rfl

@[simp] theorem openFrom_append (ids : List Serial) (es es' : List Event) :
    openFrom ids (es ++ es') = openFrom (openFrom ids es) es' := List.foldl_append ..

theorem partIds_append (ids : List Serial) (es es' : List Event) :
    partIds ids (es ++ es') = partIds ids es ++ partIds (openFrom ids es) es' := by
  induction es generalizing ids with
  | nil => rfl
  | cons e es ih => rw [List.cons_append, partIds, partIds, ih, List.append_assoc, openFrom_cons]

theorem partIds_sublist (ids : List Serial) (es : List Event) :
    (partIds ids es).Sublist ((completions es).map Prod.fst) := by
  induction es generalizing ids with
  | nil => exact List.Sublist.refl []
  | cons e es ih =>
    rw [partIds, completions_cons, List.map_append]
    refine List.Sublist.append ?_ (ih _)
    cases hc : e.kind.class? with
    | none => simp [Event.isPart, hc]
    | some c =>
      split
      · exact List.Sublist.refl _
      · exact List.nil_sublist _

theorem mem_partIds {ids : List Serial} {before after : List Event} {e : Event}
    (h : e.isPart (openFrom ids before)) : e.id ∈ partIds ids (before ++ e :: after) := by
  rw [partIds_append, partIds, if_pos h]
  simp

end TinyScript
