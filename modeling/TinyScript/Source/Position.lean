/-! Places in a source text: a byte offset kept in 32 bits, and the name of the text. -/

namespace TinyScript

structure Position where
  offset : UInt32
  file : String
deriving DecidableEq, Repr, Inhabited

namespace Position

def nowhere : Position := ⟨0, "<null>"⟩

/-- The place `n` bytes into `file`; offsets wrap at 32 bits. -/
def atByte (file : String) (n : Nat) : Position := ⟨UInt32.ofNat n, file⟩

def render (p : Position) : String := p.file ++ ":" ++ toString p.offset.toNat

end Position

/-- A stretch of text, from `start` up to and not including `stop`. -/
structure Span where
  start : Position
  stop : Position
deriving DecidableEq, Repr, Inhabited

namespace Span

def atBytes (file : String) (first last : Nat) : Span :=
  ⟨.atByte file first, .atByte file last⟩

def point (p : Position) : Span := ⟨p, p⟩

end Span

end TinyScript
