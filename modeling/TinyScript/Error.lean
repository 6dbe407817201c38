import TinyScript.Source.Position
import TinyScript.Text.Quoted

/-! What can go wrong, as causes; the wording of each cause and the advice given with it. -/

namespace TinyScript

inductive Cause
  | unrecognisedToken (token : String)
  | unexpectedToken (token : String)
  | unexpectedTokenDetailed (token message : String)
  | numberParseError (token : String)
  | unknownType (name : String)
  | unsupportedCollection (collection : String)
  | missingConstruct (construct : Nat)
  | unexpectedConstruct (expected found : String)
  | unbalancedBlock (construct : Nat)
  | incompleteProgram
  | variableAlreadyDeclared (name : String)
  | scopeUnavailable
  | unresolvedTypes (count : Nat)
  /-- The grammar asks for the same thing again without reading a token. -/
  | circularGrammar
deriving DecidableEq, Repr

namespace Cause

def name : Cause → String
  | unrecognisedToken _ => "UnrecognisedToken"
  | unexpectedToken _ => "UnexpectedToken"
  | unexpectedTokenDetailed _ _ => "UnexpectedTokenDetailed"
  | numberParseError _ => "NumberParseError"
  | unknownType _ => "UnknownType"
  | unsupportedCollection _ => "UnsupportedCollection"
  | missingConstruct _ => "MissingConstruct"
  | unexpectedConstruct _ _ => "UnexpectedConstruct"
  | unbalancedBlock _ => "UnbalancedBlock"
  | incompleteProgram => "IncompleteProgram"
  | variableAlreadyDeclared _ => "VariableAlreadyDeclared"
  | scopeUnavailable => "ScopeUnavailable"
  | unresolvedTypes _ => "UnresolvedTypes"
  | circularGrammar => "CircularGrammar"

def message : Cause → String
  | unrecognisedToken token => "unrecognised token: " ++ Text.quoted token
  | unexpectedToken token => "unexpected token: " ++ Text.quoted token
  | unexpectedTokenDetailed token message =>
    "unexpected token (" ++ Text.quoted message ++ "): " ++ Text.quoted token
  | numberParseError token => "error parsing number: " ++ Text.quoted token
  | unknownType name => "unknown type " ++ name ++ " found"
  | unsupportedCollection collection => "collection type " ++ collection ++ " is not supported"
  | missingConstruct construct => "construct #" ++ toString construct ++ " has not been built"
  | unexpectedConstruct expected found => "expected " ++ expected ++ ", found " ++ found
  | unbalancedBlock construct => "block #" ++ toString construct ++ " closed out of order"
  | incompleteProgram => "event stream ended without a program"
  | variableAlreadyDeclared name => "variable " ++ Text.quoted name ++ " already declared"
  | scopeUnavailable => "scope is unavailable"
  | unresolvedTypes count => toString count ++ " expression(s) left with unknown type"
  | circularGrammar => "the grammar reads no further"

def tip? : Cause → Option String
  | unexpectedToken token =>
    some ("Unexpected token: `" ++ token ++ "`, did you miss a semicolon?")
  | unexpectedTokenDetailed token message =>
    some ("Unexpected token: `" ++ token ++ "`, " ++ message)
  | numberParseError token =>
    some ("Invalid number: `" ++ token ++ "`, is it above the integer limit?")
  | unknownType name => some ("Unknown type `" ++ name ++ "` found")
  | unsupportedCollection collection =>
    some ("Collection type `" ++ collection ++ "` is not supported yet")
  | unexpectedConstruct expected found => some ("Expected " ++ expected ++ ", found " ++ found)
  | variableAlreadyDeclared name => some ("Variable `" ++ name ++ "` already declared")
  | unresolvedTypes count => some (toString count ++ " expression(s) have no inferable type")
  | _ => none

end Cause

structure Error where
  cause : Cause
  position : Position
deriving DecidableEq, Repr

namespace Error

def detached (cause : Cause) : Error := ⟨cause, .nowhere⟩

def render (e : Error) : String := e.cause.message ++ " at " ++ e.position.render

end Error

end TinyScript
