import TinyScript.Grammar.TypeName

/-! The grammar proper. A `Goal` is something to be read at the current token; `Reader.step` reads
it given a way to read the goals within it, and `Reader.within` ties the knot up to a depth that
depends on the number of tokens left. -/

namespace TinyScript

inductive Goal
  | rule (rule : Rule)
  | expr (power : Power)
  /-- The operators stronger than `power` that go on from `left`. -/
  | operators (power : Power) (left : Serial)
  | binary (left : Serial) (power : Power)
  | call (name : Token)
  | arguments (name : Token) (done : List Serial)
  | statements (block : Serial)
  | parameters (name : Token) (done : List (Token × Option DataType))
  | program (statements functions : List Serial)
deriving DecidableEq, Repr

namespace Reader

def separator (comma : ReadM Token) (dangling : String) : ReadM Unit := do
  if (← peek) = .closeParen then
    return ()
  else
    let _ ← comma
    if (← peek) = .closeParen then reject dangling else return ()

def typeAfter (g : Grammar) (mark : TokenKind) : ReadM (Option DataType) := do
  if (← peek) = mark then
    let _ ← advance
    let t ← readType g
    return some t
  else
    return none

section Productions

variable (g : Grammar) (read : Goal → ReadM Serial)

def readFullExpr : ReadM Serial := do
  let inner ← read (.expr .lowest)
  emit (.expr inner)

def readExpr (power : Power) : ReadM Serial := nested do
  match g.opening? (← peek) with
  | none => fail
  | some rule =>
    let left ← read (.rule rule)
    read (.operators power left)

def readOperators (power : Power) (left : Serial) : ReadM Serial := do
  let kind ← peek
  if g.power kind ≤ power then
    return left
  else
    let left ← read (.binary left (g.power kind))
    read (.operators power left)

def readBinary (left : Serial) (power : Power) : ReadM Serial := do
  let operator ← advance
  let right ← read (.expr power)
  emit (.binary operator left right)

def readPrimary : ReadM Serial := do
  match ← peek with
  | .number | .string | .bool =>
    let token ← advance
    emit (.literal token)
  | .identifier =>
    let name ← advance
    if (← peek) = .openParen then read (.call name) else emit (.var name)
  | _ => fail

def readNegation : ReadM Serial := do
  let operator ← advance
  let operand ← read (.expr .unary)
  emit (.unary operator operand)

def readGrouping : ReadM Serial := do
  let _ ← advance
  let inner ← read (.expr .lowest)
  let _ ← expect .closeParen
  return inner

def readCall (name : Token) : ReadM Serial := do
  let _ ← expect .openParen
  read (.arguments name [])

def readArguments (name : Token) (done : List Serial) : ReadM Serial := do
  if (← peek) = .closeParen then
    let _ ← expect .closeParen
    emit (.call name done)
  else
    let argument ← read (.rule .fullExpr)
    separator (require .comma "expected `,` between call arguments") "expected argument after `,`"
    read (.arguments name (done ++ [argument]))

def readStatement : ReadM Serial := do
  let kind ← peek
  match g.statement? kind with
  | some rule => nested (read (.rule rule))
  | none =>
    if kind = .defWord then
      reject "functions can only be declared at the top level"
    else
      reject "expected a statement"

def readBlock : ReadM Serial := nested do
  let _ ← expect .openCurly
  let id ← freshId
  emitAs id .enterBlock
  read (.statements id)

def readStatements (block : Serial) : ReadM Serial := do
  let kind ← peek
  if kind = .closeCurly then
    let _ ← expect .closeCurly
    emitAs block .exitBlock
    return block
  else if kind = .eof then
    reject "expected `\x7d` to close the block"
  else
    let _ ← read (.rule .statement)
    read (.statements block)

def readFunction : ReadM Serial := nested do
  let _ ← expect .defWord
  let name ← require .identifier "expected function name"
  let _ ← expect .openParen
  read (.parameters name [])

def readParameters (name : Token) (done : List (Token × Option DataType)) :
    ReadM Serial := do
  if (← peek) = .closeParen then
    let _ ← expect .closeParen
    let returnType ← typeAfter g .arrow
    let body ← read (.rule .block)
    emit (.function name done returnType body)
  else
    let parameter ← require .identifier "expected parameter name"
    let type ← typeAfter g .colon
    separator (expect .comma) "expected parameter after `,`"
    read (.parameters name (done ++ [(parameter, type)]))

def readAssignment : ReadM Serial := do
  let name ← expect .identifier
  let target ← emit (.var name)
  let _ ← require .assignment "expected `=` in assignment"
  let value ← read (.rule .fullExpr)
  let _ ← expect .semicolon
  emit (.assignment target value)

def readCondition : ReadM Serial := do
  let _ ← expect .openParen
  let condition ← read (.rule .fullExpr)
  let _ ← expect .closeParen
  return condition

def readConditional : ReadM Serial := do
  let _ ← expect .ifWord
  let condition ← readCondition read
  let yes ← read (.rule .block)
  if (← peek) = .elseWord then
    let _ ← advance
    let no ← read (.rule .block)
    emit (.conditional condition [yes, no])
  else
    emit (.conditional condition [yes])

def readLoop : ReadM Serial := do
  let _ ← expect .whileWord
  let guard ← readCondition read
  let body ← read (.rule .block)
  emit (.loop guard body)

def readReturn : ReadM Serial := do
  let _ ← expect .returnWord
  if (← peek) = .semicolon then
    reject "expected a value to return"
  else
    let value ← read (.rule .fullExpr)
    let _ ← expect .semicolon
    emit (.ret value)

def readWord (word : TokenKind) (kind : EventKind) : ReadM Serial := do
  let _ ← expect word
  let _ ← expect .semicolon
  emit kind

def readTest : ReadM Serial := do
  let _ ← expect .testWord
  let name ← require .identifier "expected a function call after `test`"
  if (← peek) = .openParen then
    let inner ← read (.call name)
    let call ← emit (.expr inner)
    let _ ← require .equals "expected `==` after the tested call"
    let expected ← read (.rule .fullExpr)
    let _ ← expect .semicolon
    emit (.test call expected)
  else
    reject "expected a function call after `test`"

def readProgram (statements functions : List Serial) : ReadM Serial := do
  let kind ← peek
  if kind = .eof then
    emit (.program statements functions)
  else if kind = .defWord then
    let id ← read (.rule .function)
    read (.program statements (functions ++ [id]))
  else
    let id ← read (.rule .statement)
    read (.program (statements ++ [id]) functions)

def stepRule : Rule → ReadM Serial
  | .fullExpr => readFullExpr read
  | .primary => readPrimary read
  | .negation => readNegation read
  | .grouping => readGrouping read
  | .statement => readStatement g read
  | .block => readBlock read
  | .function => readFunction read
  | .assignment => readAssignment read
  | .conditional => readConditional read
  | .loop => readLoop read
  | .ret => readReturn read
  | .brk => readWord .breakWord .brk
  | .cont => readWord .continueWord .cont
  | .test => readTest read

/-- Reads a goal, `read` reading the goals within it. -/
def step : Goal → ReadM Serial
  | .rule r => stepRule g read r
  | .expr power => readExpr g read power
  | .operators power left => readOperators g read power left
  | .binary left power => readBinary read left power
  | .call name => readCall read name
  | .arguments name done => readArguments read name done
  | .statements block => readStatements read block
  | .parameters name done => readParameters g read name done
  | .program statements functions => readProgram read statements functions

end Productions

/-- Reads a goal that is nested at most `n` goals deep. -/
def within (g : Grammar) : Nat → Goal → ReadM Serial
  | 0, _ => do throw ⟨.circularGrammar, (← get).position⟩
  | n + 1, goal => step g (within g n) goal

/-- A depth that no reading needs to pass. A goal that is asked for again within itself, at the
same token, would be asked for without end; there are fewer than 64 kinds of goals, so between
two tokens a reading that ends goes fewer than 64 goals deeper. -/
def maxGoals (r : Reader) : Nat := 64 * (r.upcoming.length + 1)

def read (g : Grammar) (goal : Goal) : ReadM Serial := do
  within g (← get).maxGoals goal

end Reader

/-- Reads the tokens of a whole program. The events are those of the reader too, which keeps them
when reading fails. -/
def parse (tokens : List Token) (file : String) : Except Error (List Event) × Reader :=
  match (Reader.read .standard (.program [] [])).run.run (Reader.ofTokens tokens file) with
  | (.ok _, r) => (.ok r.events.toList, r)
  | (.error e, r) => (.error e, r)

end TinyScript
