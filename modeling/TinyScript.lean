import TinyScript.Analysis
import TinyScript.Source.Cursor
import TinyScript.Walk.Trace
import TinyScript.Proofs.Derivation.Tree
import TinyScript.Proofs.Derivation.UniqueExpr
import TinyScript.Proofs.Derivation.UniqueProgram
import TinyScript.Proofs.Derivation.Events
import TinyScript.Proofs.Outcome
import TinyScript.Proofs.Reading.Passage
import TinyScript.Proofs.Reading.TypeName
import TinyScript.Proofs.Reading.Yield
import TinyScript.Proofs.Reading.ExprSound
import TinyScript.Proofs.Reading.StmtSound
import TinyScript.Proofs.Reading.ExprComplete
import TinyScript.Proofs.Reading.StmtComplete
import TinyScript.Proofs.Reading.Parse
import TinyScript.Proofs.Assembly.Run
import TinyScript.Proofs.Assembly.Expr
import TinyScript.Proofs.Assembly.Stmt
import TinyScript.Proofs.Assembly.Program
import TinyScript.Proofs.Assembly.Parsed
import TinyScript.Proofs.Language
import TinyScript.Proofs.Token.Scan
import TinyScript.Proofs.Typing.Declare
import TinyScript.Proofs.Derivation.Apart
import TinyScript.Proofs.Acceptance
import TinyScript.Proofs.Printing.Source
import TinyScript.Proofs.Printing.Lexing
import TinyScript.Proofs.Printing.Derive
import TinyScript.Proofs.Printing.DeriveProgram
import TinyScript.Proofs.Printing.RoundTrip
import TinyScript.Proofs.Walk.Sites
import TinyScript.Proofs.Walk.Tracing
import TinyScript.Proofs.Typing.Annotate
import TinyScript.Proofs.Typing.Steps
import TinyScript.Proofs.Typing.Definite
import TinyScript.Proofs.Typing.Analyzed
import TinyScript.Proofs.Typing.Strict
import TinyScript.Proofs.Typing.Agreement
import TinyScript.Proofs.Typing.Refinement
import TinyScript.Proofs.Places
import TinyScript.Proofs.Stream.Parts
import TinyScript.Proofs.Stream.BottomUp
import TinyScript.Proofs.Assembly.Ownership
import TinyScript.Proofs.Walk.Writes
import TinyScript.Proofs.Typing.Records
import TinyScript.Proofs.Typing.Contents
import TinyScript.Proofs.Stream.Construct
import TinyScript.Proofs.Stream.Arranged
import TinyScript.Proofs.Assembly.Made
import TinyScript.Proofs.Assembly.Linearised
import TinyScript.Proofs.Typing.FunctionOrder
import TinyScript.Proofs.Assembly.Inherited
import TinyScript.Proofs.Walk.Nesting
import TinyScript.Proofs.Typing.Variables
import TinyScript.Proofs.Typing.Containment
import TinyScript.Proofs.Layout
import TinyScript.Proofs.Assembly.Claims
import TinyScript.Proofs.Stream.History
import TinyScript.Proofs.Assembly.Accounted
import TinyScript.Proofs.Token.Lossless
import TinyScript.Proofs.Token.Newline
import TinyScript.Proofs.Token.Unrecognised
import TinyScript.Proofs.Reading.Stopping
import TinyScript.Proofs.Reading.Replay
import TinyScript.Proofs.Reading.OpenTypes
import TinyScript.Proofs.Reading.Lookahead
import TinyScript.Proofs.Reading.Viable
import TinyScript.Proofs.Assembly.Failure
import TinyScript.Proofs.Assembly.Conservation
import TinyScript.Proofs.Derivation.Depth
import TinyScript.Proofs.Printing.TypeText
import TinyScript.Proofs.Assembly.Freshness
import TinyScript.Proofs.Reading.Progress
import TinyScript.Proofs.Token.Rounds
import TinyScript.Proofs.Walk.Addresses
import TinyScript.Proofs.Typing.Untyped
import TinyScript.Proofs.Assembly.Numbers
import TinyScript.Proofs.Token.Longest
