import TinyScript.Text.Blank
import TinyScript.Text.Escape
import TinyScript.Token.Kind

/-! The lexical patterns, tried in order at each place of a text: the first that matches wins.
Every pattern takes at least one character, and what it takes and what it leaves make up the
text. -/

namespace TinyScript

inductive Pattern
  | word
  | digits
  | blanks
  | quoted
  | comment
  | mark (kind : TokenKind) (first : Char) (more : List Char)
deriving DecidableEq, Repr

namespace Pattern

def isWordStart (c : Char) : Bool := c.isAlpha || c == '_'

def isWordPart (c : Char) : Bool := c.isAlphanum || c == '_'

def table : List Pattern := [
  word, digits, blanks, quoted, comment,
  mark .openCurly '\x7b' [], mark .closeCurly '\x7d' [],
  mark .openParen '(' [], mark .closeParen ')' [],
  mark .equals '=' ['='], mark .notEquals '!' ['='], mark .not '!' [], mark .assignment '=' [],
  mark .lessEquals '<' ['='], mark .less '<' [],
  mark .greaterEquals '>' ['='], mark .greater '>' [],
  mark .or '|' ['|'], mark .and '&' ['&'],
  mark .semicolon ';' [], mark .colon ':' [], mark .comma ',' [],
  mark .arrow '-' ['>'], mark .plus '+' [], mark .dash '-' [], mark .slash '/' [],
  mark .star '*' [], mark .percent '%' []]

/-- A non-empty run: a character of `first`, then all that follow of `more`. -/
def run? (first more : Char → Bool) : List Char → Option (List Char × List Char)
  | [] => none
  | c :: cs => if first c then some (c :: cs.takeWhile more, cs.dropWhile more) else none

/-- The raw inside of a string up to its closing quote, and what follows the quote. A backslash
takes the next character with it, which cannot be a line feed. -/
def closing? : List Char → Option (List Char × List Char)
  | [] => none
  | '"' :: cs => some ([], cs)
  | ['\\'] => none
  | '\\' :: c :: cs =>
    if c = '\n' then none else (closing? cs).map fun p => ('\\' :: c :: p.1, p.2)
  | c :: cs => (closing? cs).map fun p => (c :: p.1, p.2)

def string? : List Char → Option (List Char × List Char)
  | '"' :: cs => (closing? cs).map fun p => ('"' :: p.1 ++ ['"'], p.2)
  | _ => none

def comment? : List Char → Option (List Char × List Char)
  | '/' :: '/' :: cs => some ('/' :: '/' :: cs.takeWhile (· ≠ '\n'), cs.dropWhile (· ≠ '\n'))
  | _ => none

def exactly? (text cs : List Char) : Option (List Char × List Char) :=
  (text.isPrefixOf? cs).map fun rest => (text, rest)

def split? : Pattern → List Char → Option (List Char × List Char)
  | word => run? isWordStart isWordPart
  | digits => run? Char.isDigit Char.isDigit
  | blanks => run? Text.isBlank Text.isBlank
  | quoted => string?
  | comment => comment?
  | mark _ first more => exactly? (first :: more)

/-- The kind and the value of what a pattern took; blanks and comments make no token. -/
def lexeme? : Pattern → List Char → Option (TokenKind × String)
  | word, text => some (.ofWord (String.ofList text), String.ofList text)
  | digits, text => some (.number, String.ofList text)
  | blanks, _ => none
  | quoted, text => some (.string, String.ofList (Text.unescape (text.drop 1).dropLast))
  | comment, _ => none
  | mark kind _ _, text => some (kind, String.ofList text)

def first? (cs : List Char) : Option (Pattern × List Char × List Char) :=
  table.findSome? fun p => (p.split? cs).map fun s => (p, s)

def Cuts (f : List Char → Option (List Char × List Char)) : Prop :=
  ∀ ⦃cs text rest⦄, f cs = some (text, rest) → text ≠ [] ∧ text ++ rest = cs

theorem run?_cuts (first more : Char → Bool) : Cuts (run? first more) := by
  intro cs text rest h
  fun_cases run? first more cs with
  | case1 => cases h
  | case2 c cs hc =>
    rw [run?, if_pos hc] at h
    cases h
    exact ⟨List.cons_ne_nil _ _, congrArg (c :: ·) List.takeWhile_append_dropWhile⟩
  | case3 c cs hc =>
    rw [run?, if_neg hc] at h
    cases h

theorem closing?_append {cs text rest : List Char} (h : closing? cs = some (text, rest)) :
    text ++ '"' :: rest = cs := by
  fun_induction closing? cs generalizing text rest with
  | case1 => cases h
  | case2 cs => cases h; rfl
  | case3 => cases h
  | case4 => cases h
  | case5 c cs _ ih | case6 c cs _ _ _ ih =>
    obtain ⟨p, hp, he⟩ := Option.map_eq_some_iff.1 h
    cases he
    simp only [List.cons_append, ih hp]

theorem string?_cuts : Cuts string? := by
  intro cs text rest h
  rw [string?.eq_def] at h
  split at h
  · obtain ⟨p, hp, he⟩ := Option.map_eq_some_iff.1 h
    cases he
    refine ⟨List.cons_ne_nil _ _, ?_⟩
    simp only [List.cons_append, List.append_assoc, List.nil_append, closing?_append hp]
  · cases h

theorem comment?_cuts : Cuts comment? := by
  intro cs text rest h
  rw [comment?.eq_def] at h
  split at h
  · cases h
    refine ⟨List.cons_ne_nil _ _, ?_⟩
    simp only [List.cons_append, List.takeWhile_append_dropWhile]
  · cases h

theorem isPrefixOf?_append {text cs rest : List Char} (h : text.isPrefixOf? cs = some rest) :
    text ++ rest = cs := by
  induction text generalizing cs with
  | nil => cases h; rfl
  | cons c text ih =>
    match cs with
    | d :: cs =>
      change (if c == d then text.isPrefixOf? cs else none) = some rest at h
      split at h
      · next hc => rw [List.cons_append, ih h, eq_of_beq hc]
      · cases h

theorem exactly?_cuts {text : List Char} (ht : text ≠ []) : Cuts (exactly? text) := by
  intro cs _ rest h
  obtain ⟨q, hq, he⟩ := Option.map_eq_some_iff.1 h
  cases he
  exact ⟨ht, isPrefixOf?_append hq⟩

theorem split?_cuts (p : Pattern) : Cuts p.split? :=
  match p with
  | word | digits | blanks => run?_cuts _ _
  | quoted => string?_cuts
  | comment => comment?_cuts
  | mark _ _ _ => exactly?_cuts (List.cons_ne_nil _ _)

theorem first?_split {cs text rest : List Char} {p : Pattern}
    (h : first? cs = some (p, text, rest)) : p ∈ table ∧ p.split? cs = some (text, rest) := by
  obtain ⟨q, hq, hs⟩ := List.exists_of_findSome?_eq_some h
  obtain ⟨s, hs, he⟩ := Option.map_eq_some_iff.1 hs
  cases he
  exact ⟨hq, hs⟩

theorem first?_length_lt {cs text rest : List Char} {p : Pattern}
    (h : first? cs = some (p, text, rest)) : rest.length < cs.length := by
  obtain ⟨hne, happ⟩ := split?_cuts p (first?_split h).2
  have := List.length_pos_iff.2 hne
  have := congrArg List.length happ
  simp only [List.length_append] at this
  omega

end Pattern

end TinyScript
