import Mathlib.Logic.Relation
import TinyScript.Proofs.Token.Lossless
import TinyScript.Source.Cursor

/-! Scanning round by round, at a cursor that counts bytes. A round looks at the text ahead, finds
the first entry of a table whose pattern matches and lets its handler move the cursor on. Looking is
possible only on a character boundary within the text, and the handler of a mark moves the cursor by
the length of a text of its own; so whether a round can be made depends on what was done in the
rounds before. The rounds are safe, and they come to the tokens of the text. -/

namespace TinyScript

namespace Text

/-- The text from byte `first` to byte `last`; `none` where it is not a stretch of whole characters
of the text. -/
def slice? (first last : Nat) (cs : List Char) : Option (List Char) := do
  let tail ← dropBytes? first cs
  let after ← dropBytes? last cs
  if first ≤ last then some (tail.take (tail.length - after.length)) else none

theorem slice?_append (before inside after : List Char) :
    slice? (byteLength before) (byteLength before + byteLength inside)
      (before ++ (inside ++ after)) = some inside := by
  have htail := dropBytes?_append before (inside ++ after)
  have hafter := dropBytes?_append (before ++ inside) after
  rw [byteLength_append, List.append_assoc] at hafter
  unfold slice?
  rw [htail, Option.bind_eq_bind, Option.bind_some, hafter]
  simp

end Text

/-- What is done with a match. A mark has its kind and its text with it. -/
inductive Handler
  | word
  | number
  | string
  | skip
  | mark (kind : TokenKind) (text : String)

structure Lexer where
  cursor : Cursor
  tokens : List Token := []

namespace Lexer

def start (source : String) (file : Option String) : Lexer :=
  { cursor := { source := source, file := file.getD defaultFile } }

def take (l : Lexer) (n : Nat) (lexeme? : Option (TokenKind × String)) : Lexer where
  cursor := l.cursor.advance n
  tokens := l.tokens ++ (lexeme?.map fun x => ⟨x.1, x.2, l.cursor.spanOf n⟩).toList

def matched? (l : Lexer) (p : Pattern) : Option (List Char) :=
  l.cursor.remainder?.map fun rest => ((p.split? rest).map Prod.fst).getD []

def entries : List (Pattern × Handler) := [
  (.word, .word), (.digits, .number), (.blanks, .skip), (.quoted, .string), (.comment, .skip),
  (.mark .openCurly '\x7b' [], .mark .openCurly "\x7b"),
  (.mark .closeCurly '\x7d' [], .mark .closeCurly "\x7d"),
  (.mark .openParen '(' [], .mark .openParen "("),
  (.mark .closeParen ')' [], .mark .closeParen ")"),
  (.mark .equals '=' ['='], .mark .equals "=="),
  (.mark .notEquals '!' ['='], .mark .notEquals "!="),
  (.mark .not '!' [], .mark .not "!"),
  (.mark .assignment '=' [], .mark .assignment "="),
  (.mark .lessEquals '<' ['='], .mark .lessEquals "<="),
  (.mark .less '<' [], .mark .less "<"),
  (.mark .greaterEquals '>' ['='], .mark .greaterEquals ">="),
  (.mark .greater '>' [], .mark .greater ">"),
  (.mark .or '|' ['|'], .mark .or "||"),
  (.mark .and '&' ['&'], .mark .and "&&"),
  (.mark .semicolon ';' [], .mark .semicolon ";"),
  (.mark .colon ':' [], .mark .colon ":"),
  (.mark .comma ',' [], .mark .comma ","),
  (.mark .arrow '-' ['>'], .mark .arrow "->"),
  (.mark .plus '+' [], .mark .plus "+"),
  (.mark .dash '-' [], .mark .dash "-"),
  (.mark .slash '/' [], .mark .slash "/"),
  (.mark .star '*' [], .mark .star "*"),
  (.mark .percent '%' [], .mark .percent "%")]

/-- What a handler makes of a match of the pattern; `none` where it breaks off. -/
def handle (l : Lexer) (p : Pattern) : Handler → Option Lexer
  | .word => do
    let text ← l.matched? p
    let word := String.ofList text
    some (l.take (Text.byteLength text) (some (.ofWord word, word)))
  | .number => do
    let text ← l.matched? p
    some (l.take (Text.byteLength text) (some (.number, String.ofList text)))
  | .string => do
    let text ← l.matched? p
    let inside ← Text.slice? 1 (Text.byteLength text - 1) text
    some (l.take (Text.byteLength text) (some (.string, String.ofList (Text.unescape inside))))
  | .skip => do
    let text ← l.matched? p
    some (l.take (Text.byteLength text) none)
  | .mark kind text => some (l.take (Text.byteLength text.toList) (some (kind, text)))

inductive Round
  | next (l : Lexer)
  | done (result : Except Error (List Token))

def round (l : Lexer) : Option Round :=
  if l.cursor.atEnd then some (.done (.ok (l.take 0 (some (.eof, "EOF"))).tokens))
  else do
    let rest ← l.cursor.remainder?
    match entries.find? fun entry => (entry.1.split? rest).isSome with
    | some (p, handler) => (l.handle p handler).map .next
    | none =>
      let c ← l.cursor.current?
      some (.done (.error ⟨.unrecognisedToken (String.singleton c), l.cursor.position⟩))

/-- A lexer that some rounds lead to from the start of a text. -/
def Reached (source : String) (file : Option String) : Lexer → Prop :=
  Relation.ReflTransGen (fun l l' => l.round = some (.next l')) (start source file)

/-- The cursor is on a character boundary of `source`: after `before`, with `rest` ahead. -/
structure Between (source : String) (l : Lexer) (before rest : List Char) : Prop where
  source_eq : l.cursor.source = source
  toList_eq : source.toList = before ++ rest
  byte_eq : l.cursor.byte = Text.byteLength before

namespace Between

variable {source : String} {l : Lexer} {before rest : List Char}

theorem byte_le (h : Between source l before rest) :
    l.cursor.byte ≤ Text.byteLength source.toList := by
  rw [h.byte_eq, h.toList_eq, Text.byteLength_append]
  apply Nat.le_add_right

theorem remainder?_eq (h : Between source l before rest) : l.cursor.remainder? = some rest := by
  unfold Cursor.remainder?
  rw [h.source_eq, h.toList_eq, h.byte_eq]
  apply Text.dropBytes?_append

theorem current?_eq (h : Between source l before rest) :
    l.cursor.current? = some (rest.headD '\x00') := by
  unfold Cursor.current?
  rw [h.remainder?_eq]
  rfl

theorem atEnd_nil (h : Between source l before []) : l.cursor.atEnd = true := by
  unfold Cursor.atEnd
  rw [h.source_eq, h.toList_eq, h.byte_eq, List.append_nil]
  exact decide_eq_true (Nat.le_refl _)

theorem atEnd_cons {c : Char} (h : Between source l before (c :: rest)) :
    l.cursor.atEnd = false := by
  have hpos := Text.byteLength_pos (List.cons_ne_nil c rest)
  unfold Cursor.atEnd
  rw [h.source_eq, h.toList_eq, h.byte_eq, Text.byteLength_append]
  apply decide_eq_false
  omega

theorem take {text : List Char} (h : Between source l before (text ++ rest))
    (lexeme? : Option (TokenKind × String)) :
    Between source (l.take (Text.byteLength text) lexeme?) (before ++ text) rest where
  source_eq := h.source_eq
  toList_eq := by rw [h.toList_eq, List.append_assoc]
  byte_eq := by
    rw [Text.byteLength_append, ← h.byte_eq]
    rfl

theorem matched?_eq (h : Between source l before rest) {p : Pattern} {text after : List Char}
    (hs : p.split? rest = some (text, after)) : l.matched? p = some text := by
  unfold matched?
  rw [h.remainder?_eq, Option.map_some, hs]
  rfl

end Between

theorem between_start (source : String) (fileName : Option String) :
    Between source (start source fileName) [] source.toList where
  source_eq := rfl
  toList_eq := rfl
  byte_eq := rfl

/-- A handler is the one for a pattern. That of a mark has the kind of the pattern, and its text is
what the pattern matches. -/
def Fits : Pattern → Handler → Bool
  | .word, .word => true
  | .digits, .number => true
  | .blanks, .skip => true
  | .quoted, .string => true
  | .comment, .skip => true
  | .mark kind first more, .mark kind' text => kind = kind' ∧ text.toList = first :: more
  | _, _ => false

theorem fits_of_mem_entries : ∀ entry ∈ entries, Fits entry.1 entry.2 := by decide

theorem slice?_quoted {rest text after : List Char}
    (h : Pattern.quoted.split? rest = some (text, after)) :
    Text.slice? 1 (Text.byteLength text - 1) text = some (text.drop 1).dropLast := by
  obtain ⟨raw, rfl⟩ := Pattern.string?_eq_some h
  have hlast : Text.byteLength ('"' :: (raw ++ ['"'])) - 1 = 1 + Text.byteLength raw := by
    have hquote : '"'.utf8Size = 1 := rfl
    simp only [Text.byteLength_cons, Text.byteLength_append, Text.byteLength_nil, hquote]
    omega
  rw [hlast, List.drop_one, List.tail_cons, List.dropLast_concat]
  exact Text.slice?_append ['"'] raw ['"']

theorem handle_of_fits {source : String} {l : Lexer} {before rest text after : List Char}
    (h : Between source l before rest) {p : Pattern} {handler : Handler}
    (hfits : Fits p handler) (hs : p.split? rest = some (text, after)) :
    l.handle p handler = some (l.take (Text.byteLength text) (p.lexeme? text)) := by
  have htext := h.matched?_eq hs
  fun_cases Fits p handler with
  | case1 | case2 | case3 | case5 =>
    simp only [handle, htext, Option.bind_eq_bind, Option.bind_some, Pattern.lexeme?]
  | case4 =>
    simp only [handle, htext, Option.bind_eq_bind, Option.bind_some, slice?_quoted hs,
      Pattern.lexeme?]
  | case6 kind first more kind' mark =>
    -- Here the length is not that of the match, but of the mark's own text.
    obtain ⟨rfl, hmark⟩ : kind = kind' ∧ mark.toList = first :: more := by
      simpa [Fits] using hfits
    obtain ⟨rest', -, hsame⟩ := Option.map_eq_some_iff.1 hs
    obtain rfl : first :: more = text := (Prod.mk.inj hsame).1
    rw [handle, Pattern.lexeme?, ← hmark, String.ofList_toList]
  | case7 p handler => exact absurd hfits (by simp [Fits, *])

theorem entries_patterns : entries.map Prod.fst = Pattern.table := rfl

theorem find?_of_first {rest text after : List Char} {p : Pattern}
    (h : Pattern.first? rest = some (p, text, after)) :
    ∃ handler, (entries.find? fun entry => (entry.1.split? rest).isSome) = some (p, handler) ∧
      Fits p handler := by
  unfold Pattern.first? at h
  rw [← entries_patterns, List.findSome?_map] at h
  obtain ⟨tried, ⟨q, handler⟩, others, hentries, hq, htried⟩ := List.findSome?_eq_some_iff.1 h
  obtain ⟨s, hs, hsame⟩ := Option.map_eq_some_iff.1 hq
  obtain rfl : q = p := (Prod.mk.inj hsame).1
  refine ⟨handler, List.find?_eq_some_iff_append.2 ⟨?_, tried, others, hentries, ?_⟩, ?_⟩
  · simp only [hs, Option.isSome_some]
  · intro entry hentry
    have hnone := Option.map_eq_none_iff.1 (htried entry hentry)
    simp only [hnone, Option.isSome_none, Bool.not_false]
  · exact fits_of_mem_entries (q, handler) (hentries ▸ List.mem_append_right _ List.mem_cons_self)

theorem find?_of_first_eq_none {rest : List Char} (h : Pattern.first? rest = none) :
    (entries.find? fun entry => (entry.1.split? rest).isSome) = none := by
  unfold Pattern.first? at h
  rw [← entries_patterns, List.findSome?_map] at h
  apply List.find?_eq_none.2
  intro entry hentry
  have hnone := Option.map_eq_none_iff.1 (List.findSome?_eq_none_iff.1 h entry hentry)
  simp only [hnone, Option.isSome_none, Bool.false_eq_true, not_false_eq_true]

section Rounds

variable {source : String} {l : Lexer} {before rest : List Char}

theorem round_nil (h : Between source l before []) :
    l.round = some (.done (.ok (l.tokens ++ [.eofAt l.cursor.position]))) := by
  unfold round
  rw [if_pos h.atEnd_nil]
  rfl

theorem round_of_first (h : Between source l before rest) {p : Pattern} {text after : List Char}
    (hfirst : Pattern.first? rest = some (p, text, after)) :
    l.round = some (.next (l.take (Text.byteLength text) (p.lexeme? text))) := by
  obtain ⟨handler, hfind, hfits⟩ := find?_of_first hfirst
  obtain ⟨-, hs⟩ := Pattern.first?_split hfirst
  have hhandle := handle_of_fits h hfits hs
  obtain ⟨hne, happend⟩ := Pattern.split?_cuts p hs
  obtain ⟨c, cs, rfl⟩ := List.exists_cons_of_ne_nil hne
  rw [← happend, List.cons_append] at h
  unfold round
  rw [h.atEnd_cons, if_neg Bool.false_ne_true, h.remainder?_eq]
  simp only [Option.bind_eq_bind, Option.bind_some]
  rw [← List.cons_append, happend, hfind]
  simp only [hhandle, Option.map_some]

theorem round_of_first_eq_none {c : Char} (h : Between source l before (c :: rest))
    (hfirst : Pattern.first? (c :: rest) = none) :
    l.round =
      some (.done (.error ⟨.unrecognisedToken (String.singleton c), l.cursor.position⟩)) := by
  unfold round
  rw [h.atEnd_cons, if_neg Bool.false_ne_true, h.remainder?_eq]
  simp only [Option.bind_eq_bind, Option.bind_some]
  rw [find?_of_first_eq_none hfirst]
  simp only [h.current?_eq, Option.bind_some, List.headD_cons]

theorem Between.next (h : Between source l before rest) {l' : Lexer}
    (hround : l.round = some (.next l')) :
    ∃ text after, text ≠ [] ∧ rest = text ++ after ∧ Between source l' (before ++ text) after := by
  cases hfirst : Pattern.first? rest with
  | some found =>
    obtain ⟨p, text, after⟩ := found
    obtain ⟨hne, happend⟩ := Pattern.split?_cuts p (Pattern.first?_split hfirst).2
    rw [round_of_first h hfirst] at hround
    cases hround
    rw [← happend] at h
    exact ⟨text, after, hne, happend.symm, h.take _⟩
  | none =>
    cases rest with
    | nil =>
      rw [round_nil h] at hround
      cases hround
    | cons c rest =>
      rw [round_of_first_eq_none h hfirst] at hround
      cases hround

theorem round_isSome (h : Between source l before rest) : l.round.isSome := by
  cases hfirst : Pattern.first? rest with
  | some found => rw [round_of_first h hfirst, Option.isSome_some]
  | none =>
    cases rest with
    | nil => rw [round_nil h, Option.isSome_some]
    | cons c rest => rw [round_of_first_eq_none h hfirst, Option.isSome_some]

end Rounds

theorem Reached.between {source : String} {fileName : Option String} {l : Lexer}
    (h : Reached source fileName l) : ∃ before rest, Between source l before rest := by
  induction h with
  | refl => exact ⟨_, _, between_start source fileName⟩
  | tail _ hround ih =>
    obtain ⟨before, rest, hbetween⟩ := ih
    obtain ⟨text, after, -, -, hnext⟩ := hbetween.next hround
    exact ⟨_, _, hnext⟩

theorem exists_done {source : String} {l : Lexer} {before rest : List Char} {file : String}
    {offset : Nat} (h : Between source l before rest) (hfile : l.cursor.file = file)
    (hoffset : l.cursor.byte = offset) :
    ∃ l', Relation.ReflTransGen (fun l l' => l.round = some (.next l')) l l' ∧
      l'.round = some (.done ((Token.scan file offset rest).map (l.tokens ++ ·))) := by
  -- Along the recursion of `scan`: what it takes for a pattern is what the next round takes.
  fun_induction Token.scan file offset rest generalizing l before with
  | case1 offset rest p text after hfirst _ ih =>
    have hround := round_of_first h hfirst
    obtain ⟨-, happend⟩ := Pattern.split?_cuts p (Pattern.first?_split hfirst).2
    rw [← happend] at h
    obtain ⟨l', hsteps, hdone⟩ := ih (h.take (p.lexeme? text)) hfile
      (congrArg (· + Text.byteLength text) hoffset)
    refine ⟨l', .head hround hsteps, ?_⟩
    rw [hdone]
    subst hfile hoffset
    cases Token.scan l.cursor.file (l.cursor.byte + Text.byteLength text) after with
    | error e => rfl
    | ok ts => simp [Except.map, take, Token.ofMatch?, Cursor.spanOf]
  | case2 offset hfirst =>
    subst hfile hoffset
    exact ⟨l, .refl, round_nil h⟩
  | case3 offset c rest hfirst =>
    subst hfile hoffset
    exact ⟨l, .refl, round_of_first_eq_none h hfirst⟩

end Lexer

/-- Scanning is safe and comes to an end. Every round starts with the cursor on a character boundary
within the text, so that the text ahead and the character there can be looked at; where a string
matches, the slice inside its quotes is one of whole characters; no round breaks off, and one that
does not end the scanning moves the cursor on. The last round gives the tokens of the text, or the
error that it has none. -/
theorem scanning_is_safe (source : String) (fileName : Option String) :
    (∀ l, Lexer.Reached source fileName l →
      l.cursor.byte ≤ Text.byteLength source.toList ∧
      (∃ before rest, source.toList = before ++ rest ∧ l.cursor.byte = Text.byteLength before ∧
        l.cursor.remainder? = some rest ∧ l.cursor.current? = some (rest.headD '\x00')) ∧
      (∀ rest text after, l.cursor.remainder? = some rest →
        Pattern.quoted.split? rest = some (text, after) →
        (Text.slice? 1 (Text.byteLength text - 1) text).isSome) ∧
      l.round.isSome ∧
      ∀ l', l.round = some (.next l') → l.cursor.byte < l'.cursor.byte) ∧
    ∃ l, Lexer.Reached source fileName l ∧
      l.round = some (.done (tokenize source fileName)) := by
  refine ⟨fun l hl => ?_, ?_⟩
  · obtain ⟨before, rest, h⟩ := hl.between
    refine ⟨h.byte_le, ⟨before, rest, h.toList_eq, h.byte_eq, h.remainder?_eq, h.current?_eq⟩, ?_,
      Lexer.round_isSome h, fun l' hround => ?_⟩
    · intro rest text after _ hs
      rw [Lexer.slice?_quoted hs, Option.isSome_some]
    · obtain ⟨text, after, hne, -, h'⟩ := h.next hround
      have hpos := Text.byteLength_pos hne
      rw [h.byte_eq, h'.byte_eq, Text.byteLength_append]
      omega
  · obtain ⟨l, hsteps, hdone⟩ := Lexer.exists_done (Lexer.between_start source fileName) rfl rfl
    refine ⟨l, hsteps, ?_⟩
    rw [hdone]
    exact congrArg (fun result => some (Lexer.Round.done result)) (congrFun Except.map_id _)

/-- The second round on `wideSource` skips a blank of three bytes, and the third is at a string. -/
def wideString : Lexer where
  cursor := ⟨wideSource, "shell", 4⟩
  tokens := [⟨.identifier, "x", .atBytes "shell" 0 1⟩]

theorem scanning_is_safe_wideString :
    Lexer.Reached wideSource none wideString ∧
      wideString.cursor.byte ≤ Text.byteLength wideSource.toList ∧
      (wideString.round = some (.next (wideString.take 6 (some (.string, "é\n")))) ∧
        wideString.cursor.byte < (wideString.take 6 (some (.string, "é\n"))).cursor.byte) ∧
      ∃ l, Lexer.Reached wideSource none l ∧
        l.round = some (.done (tokenize wideSource none)) := by
  have hword : (Lexer.start wideSource none).round =
      some (.next ((Lexer.start wideSource none).take 1 (some (.identifier, "x")))) := by rfl
  have hblank : ((Lexer.start wideSource none).take 1 (some (.identifier, "x"))).round =
      some (.next wideString) := by rfl
  have hstring : wideString.round =
      some (.next (wideString.take 6 (some (.string, "é\n")))) := by rfl
  have hreached : Lexer.Reached wideSource none wideString :=
    .tail (.tail .refl hword) hblank
  obtain ⟨hsafe, hdone⟩ := scanning_is_safe wideSource none
  obtain ⟨hle, -, -, -, hnext⟩ := hsafe wideString hreached
  exact ⟨hreached, hle, ⟨hstring, hnext _ hstring⟩, hdone⟩

end TinyScript
