import TinyScript.Source.Position
import TinyScript.Text.Bytes

/-! A place in a source text that can be moved forward byte by byte. Moving is unchecked; looking
at the text needs a place on a character boundary within it. -/

namespace TinyScript

structure Cursor where
  source : String
  file : String
  byte : Nat := 0
deriving DecidableEq, Repr

namespace Cursor

def advance (c : Cursor) (n : Nat) : Cursor := { c with byte := c.byte + n }

def position (c : Cursor) : Position := .atByte c.file c.byte

def spanOf (c : Cursor) (n : Nat) : Span := .atBytes c.file c.byte (c.byte + n)

def atEnd (c : Cursor) : Bool := decide (Text.byteLength c.source.toList ≤ c.byte)

def remainder? (c : Cursor) : Option (List Char) := Text.dropBytes? c.byte c.source.toList

def current? (c : Cursor) : Option Char := c.remainder?.map (·.headD '\x00')

end Cursor

end TinyScript
