/-! Whole numbers in decimal: an optional sign, then one digit or more, within 64 signed bits. -/

namespace TinyScript.Text

def digitValue (c : Char) : Nat := c.toNat - '0'.toNat

def decimalValue (ds : List Char) : Nat := ds.foldl (fun n d => 10 * n + digitValue d) 0

def digits? (cs : List Char) : Option Nat :=
  if cs ≠ [] ∧ cs.all Char.isDigit then some (decimalValue cs) else none

def signed? : List Char → Option Int
  | '+' :: cs => (digits? cs).map Int.ofNat
  | '-' :: cs => (digits? cs).map fun n => -Int.ofNat n
  | cs => (digits? cs).map Int.ofNat

def fitsInt64 (n : Int) : Bool :=
  decide (Int64.minValue.toInt ≤ n ∧ n ≤ Int64.maxValue.toInt)

def int64? (s : String) : Option Int64 :=
  match signed? s.toList with
  | some n => if fitsInt64 n then some (Int64.ofInt n) else none
  | none => none

/-- Equality of texts that takes `A` to `Z` for `a` to `z`. -/
def sameLetters (s t : String) : Bool := s.toList.map Char.toLower == t.toList.map Char.toLower

end TinyScript.Text
