import TinyScript.Event
import TinyScript.Text.Decimal
import TinyScript.Tree.Program

/-! Trees from event streams. A finished piece waits under its number until the event of the whole
claims it; a statement finished while a block is open goes to the innermost open block instead. An
event that fails keeps what it had claimed by then. -/

namespace TinyScript

inductive Node
  | function (function : Function)
  | block (block : Block)
  | statement (statement : Stmt)
  | expr (expr : Expr)
deriving DecidableEq, Repr

def Node.name : Node → String
  | .function _ => "function"
  | .block _ => "block"
  | .statement s => s.name
  | .expr e => e.name

structure OpenBlock where
  id : Serial
  depth : Nat
  scope : Scope
  statements : List Stmt := []
deriving DecidableEq, Repr

namespace OpenBlock

def push (b : OpenBlock) (s : Stmt) : OpenBlock := { b with statements := b.statements ++ [s] }

def close (b : OpenBlock) : Block := .mk b.depth b.scope b.statements

end OpenBlock

/-- Why an event cannot be taken: an error to report, or a literal made of a token that no literal
is written with. -/
inductive Fault
  | error (error : Error)
  | misplacedLiteral (kind : TokenKind)
deriving DecidableEq, Repr

def misplacedLiteralMessage (kind : TokenKind) : String :=
  "literal built from a " ++ kind.name ++ " token"

/-- A tree under construction; `blocks` are the open ones, innermost first. -/
structure Assembly where
  pending : Keyed Serial Node := {}
  blocks : List OpenBlock := []
  program : Option Program := none
  nextScope : Nat := 0
deriving DecidableEq, Repr

abbrev AssembleM := ExceptT Fault (StateM Assembly)

namespace Assembly

def fail {α : Type} (cause : Cause) : AssembleM α := throw (.error (.detached cause))

def freshScope : AssembleM Scope := do
  let a ← get
  set { a with nextScope := a.nextScope + 1 }
  return ⟨a.nextScope⟩

def keep (id : Serial) (node : Node) : AssembleM Unit :=
  modify fun a => { a with pending := a.pending.insert id node }

def take (id : Serial) : AssembleM Node := do
  let a ← get
  match a.pending.get? id with
  | none => fail (.missingConstruct id)
  | some node =>
    set { a with pending := a.pending.erase id }
    return node

def takeExpr (id : Serial) : AssembleM Expr := do
  match ← take id with
  | .expr e => return e
  | other => fail (.unexpectedConstruct "expression" other.name)

def takeStmt (id : Serial) : AssembleM Stmt := do
  match ← take id with
  | .statement s => return s
  | other => fail (.unexpectedConstruct "statement" other.name)

def takeBlock (id : Serial) : AssembleM Block := do
  match ← take id with
  | .block b => return b
  | other => fail (.unexpectedConstruct "block" other.name)

def takeFunction (id : Serial) : AssembleM Function := do
  match ← take id with
  | .function f => return f
  | other => fail (.unexpectedConstruct "function" other.name)

def takeAll {α : Type} (claim : Serial → AssembleM α) : List Serial → AssembleM (List α)
  | [] => return []
  | id :: ids => do
    let a ← claim id
    let as ← takeAll claim ids
    return a :: as

def addStmt (id : Serial) (s : Stmt) : AssembleM Unit := do
  let a ← get
  match a.blocks with
  | b :: bs => set { a with blocks := b.push s :: bs }
  | [] => keep id (.statement s)

def openBlock (id : Serial) (depth : Nat) : AssembleM Unit := do
  let scope ← freshScope
  modify fun a => { a with blocks := { id, depth, scope } :: a.blocks }

/-- Closes the innermost open block, which must be the one of the given number. -/
def closeBlock (id : Serial) : AssembleM Unit := do
  let a ← get
  match a.blocks with
  | [] => fail (.unbalancedBlock id)
  | b :: bs =>
    set { a with blocks := bs }
    if b.id = id then keep id (.block b.close) else fail (.unbalancedBlock id)

def buildProgram (depth : Nat) (statements functions : List Serial) : AssembleM Unit := do
  let scope ← freshScope
  let ss ← takeAll takeStmt statements
  let fs ← takeAll takeFunction functions
  modify fun a => { a with program := some ⟨ss, fs, depth, scope⟩ }

def parameter (p : Token × Option DataType) : Parameter := ⟨p.1.value, p.2.getD .unknown⟩

def buildFunction (id : Serial) (depth : Nat) (name : Token)
    (parameters : List (Token × Option DataType)) (returnType : Option DataType)
    (body : Serial) : AssembleM Unit := do
  let body ← takeBlock body
  let scope ← freshScope
  keep id (.function ⟨name.value, parameters.map parameter, returnType.getD .unknown, body, depth,
    scope⟩)

def buildAssignment (id : Serial) (depth : Nat) (target value : Serial) :
    AssembleM Unit := do
  match ← takeExpr target with
  | .var tag name =>
    let value ← takeExpr value
    addStmt id (.assign depth (.var tag name) value)
  | other => fail (.unexpectedConstruct "variable" other.name)

def buildConditional (id : Serial) (depth : Nat) (condition : Serial)
    (blocks : List Serial) : AssembleM Unit := do
  let condition ← takeExpr condition
  match blocks with
  | [] => fail (.unexpectedConstruct "block" "nothing")
  | [yes] =>
    let yes ← takeBlock yes
    addStmt id (.ifThen depth condition yes)
  | yes :: no :: more =>
    let yes ← takeBlock yes
    let no ← takeBlock no
    match more with
    | [] => addStmt id (.ifElse depth condition yes no)
    | _ :: _ => fail (.unexpectedConstruct "at most two blocks" "more")

def buildTest (id : Serial) (depth : Nat) (call expected : Serial) :
    AssembleM Unit := do
  match ← takeExpr call with
  | .call tag name arguments =>
    let expected ← takeExpr expected
    addStmt id (.test depth (.call tag name arguments) expected)
  | other => fail (.unexpectedConstruct "function call" other.name)

def literal (token : Token) : Except Fault Literal :=
  match token.kind with
  | .bool => .ok (.bool (Text.sameLetters token.value "true"))
  | .number =>
    match Text.int64? token.value with
    | some n => .ok (.int n)
    | none => .error (.error ⟨.numberParseError token.value, token.span.start⟩)
  | .string => .ok (.str token.value)
  | kind => .error (.misplacedLiteral kind)

def handle (e : Event) : AssembleM Unit :=
  match e.kind with
  | .enterBlock => openBlock e.id e.depth
  | .exitBlock => closeBlock e.id
  | .program statements functions => buildProgram e.depth statements functions
  | .function name parameters returnType body =>
    buildFunction e.id e.depth name parameters returnType body
  | .assignment target value => buildAssignment e.id e.depth target value
  | .conditional condition blocks => buildConditional e.id e.depth condition blocks
  | .loop guard body => do
    let guard ← takeExpr guard
    let body ← takeBlock body
    addStmt e.id (.loop e.depth guard body)
  | .ret value => do
    let value ← takeExpr value
    addStmt e.id (.ret e.depth value)
  | .brk => addStmt e.id (.brk e.depth)
  | .cont => addStmt e.id (.cont e.depth)
  | .test call expected => buildTest e.id e.depth call expected
  | .expr inner => do
    let inner ← takeExpr inner
    keep e.id (.expr (inner.withDepth e.depth))
  | .binary operator left right => do
    let left ← takeExpr left
    let right ← takeExpr right
    keep e.id (.expr (.binary (.untyped e.depth) (.ofSymbol operator.value) left right))
  | .unary operator operand => do
    let operand ← takeExpr operand
    keep e.id (.expr (.unary (.untyped e.depth) (.ofSymbol operator.value) operand))
  | .call name arguments => do
    let arguments ← takeAll takeExpr arguments
    keep e.id (.expr (.call (.untyped e.depth) name.value arguments))
  | .var name => keep e.id (.expr (.var (.untyped e.depth) name.value))
  | .literal token => do
    let value ← liftExcept (literal token)
    keep e.id (.expr (.ofLiteral e.depth value))

def finish (a : Assembly) : Except Error Program :=
  match a.blocks.getLast?, a.program with
  | some b, _ => .error (.detached (.unbalancedBlock b.id))
  | none, none => .error (.detached .incompleteProgram)
  | none, some p => .ok p

def accept (a : Assembly) (e : Event) : Except Fault Unit × Assembly := (handle e).run.run a

def acceptAll (a : Assembly) : List Event → Except Fault Assembly
  | [] => .ok a
  | e :: es =>
    match a.accept e with
    | (.ok (), b) => b.acceptAll es
    | (.error f, _) => .error f

end Assembly

def Program.ofEvents (events : List Event) : Except Fault Program := do
  let a ← Assembly.acceptAll {} events
  match a.finish with
  | .ok p => .ok p
  | .error e => .error (.error e)

end TinyScript
