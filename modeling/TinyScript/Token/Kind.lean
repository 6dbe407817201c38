/-! Kinds of tokens, and the words that name a kind of their own. -/

namespace TinyScript

inductive TokenKind
  | eof | number | string | bool | identifier
  | openCurly | closeCurly | openParen | closeParen
  | assignment | equals | not | notEquals
  | less | lessEquals | greater | greaterEquals | or | and
  | semicolon | colon | comma | arrow
  | plus | dash | slash | star | percent
  | defWord | ifWord | elseWord | whileWord | returnWord | breakWord | continueWord | testWord
deriving DecidableEq, Repr, Inhabited

namespace TokenKind

def name : TokenKind → String
  | eof => "EOF"
  | number => "Number"
  | string => "String"
  | bool => "Bool"
  | identifier => "Identifier"
  | openCurly => "OpenCurly"
  | closeCurly => "CloseCurly"
  | openParen => "OpenParen"
  | closeParen => "CloseParen"
  | assignment => "Assignment"
  | equals => "Equals"
  | not => "Not"
  | notEquals => "NotEquals"
  | less => "Less"
  | lessEquals => "LessEquals"
  | greater => "Greater"
  | greaterEquals => "GreaterEquals"
  | or => "Or"
  | and => "And"
  | semicolon => "Semicolon"
  | colon => "Colon"
  | comma => "Comma"
  | arrow => "Arrow"
  | plus => "Plus"
  | dash => "Dash"
  | slash => "Slash"
  | star => "Star"
  | percent => "Percent"
  | defWord => "Def"
  | ifWord => "If"
  | elseWord => "Else"
  | whileWord => "While"
  | returnWord => "Return"
  | breakWord => "Break"
  | continueWord => "Continue"
  | testWord => "Test"

def all : List TokenKind := [
  eof, number, string, bool, identifier, openCurly, closeCurly, openParen, closeParen,
  assignment, equals, not, notEquals, less, lessEquals, greater, greaterEquals, or, and,
  semicolon, colon, comma, arrow, plus, dash, slash, star, percent,
  defWord, ifWord, elseWord, whileWord, returnWord, breakWord, continueWord, testWord]

def ofName? (s : String) : Option TokenKind := all.find? fun k => k.name == s

def reservedWords : List (String × TokenKind) := [
  ("def", defWord), ("if", ifWord), ("else", elseWord), ("while", whileWord),
  ("return", returnWord), ("break", breakWord), ("continue", continueWord), ("test", testWord),
  ("true", bool), ("false", bool)]

def ofReserved? (word : String) : Option TokenKind := reservedWords.lookup word

def ofWord (word : String) : TokenKind := (ofReserved? word).getD identifier

end TokenKind

end TinyScript
