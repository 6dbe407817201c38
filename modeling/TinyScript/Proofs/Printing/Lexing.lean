import TinyScript.Proofs.Printing.Source
import TinyScript.Proofs.Token.Scan

/-! Text that is spelled out with spaces is scanned into the tokens it was spelled from. -/

namespace TinyScript

namespace Text

theorem decimalValue_append (cs : List Char) (c : Char) :
    decimalValue (cs ++ [c]) = 10 * decimalValue cs + digitValue c := by
  simp [decimalValue, List.foldl_append]

theorem decimalValue_toDigits (n : Nat) : decimalValue (Nat.toDigits 10 n) = n := by
  induction n using Nat.strongRecOn with
  | ind n ih =>
    rw [Nat.toDigits_eq_if (by decide)]
    split
    · next h =>
      have hd := Nat.toNat_digitChar_sub_48_of_lt_ten h
      simpa [decimalValue, digitValue] using hd
    · next h =>
      -- the last digit comes after those of `n / 10`
      have hd : digitValue (Nat.digitChar (n % 10)) = n % 10 :=
        Nat.toNat_digitChar_sub_48_of_lt_ten (Nat.mod_lt n (by decide))
      rw [decimalValue_append, ih (n / 10) (by omega), hd]
      omega

end Text

namespace Literal

theorem render_int {n : Int64} (h : 0 ≤ n.toInt) :
    (int n).render.toList = Nat.toDigits 10 n.toInt.toNat := by
  obtain ⟨m, hm⟩ := Int.eq_ofNat_of_zero_le h
  rw [render, hm]
  exact Nat.toList_repr

theorem isDigit_of_mem_render {n : Int64} (h : 0 ≤ n.toInt) :
    ∀ c ∈ (int n).render.toList, c.isDigit := by
  rw [render_int h]
  exact fun c hc => Nat.isDigit_of_mem_toDigits (by decide) (by decide) hc

theorem int64?_render {n : Int64} (h : 0 ≤ n.toInt) : Text.int64? (int n).render = some n := by
  have hdigits := render_int h
  have hvalue := Text.decimalValue_toDigits n.toInt.toNat
  have hlt := n.toInt_lt
  rw [Text.int64?_digits (by simp [hdigits]) (isDigit_of_mem_render h), hdigits, hvalue,
    if_neg (by omega), Int.toNat_of_nonneg h, Int64.ofInt_toInt]

end Literal

def Stops (rest : List Char) : Prop := rest = [] ∨ ∃ cs, rest = ' ' :: cs

theorem Stops.head {rest : List Char} (h : Stops rest) {p : Char → Bool} (hp : p ' ' = false) :
    rest.takeWhile p = [] ∧ rest.dropWhile p = rest := by
  rcases h with rfl | ⟨cs, rfl⟩
  · exact ⟨rfl, rfl⟩
  · simp [hp]

namespace Pattern

theorem run?_append {first more : Char → Bool} {c : Char} {cs rest : List Char} (hc : first c)
    (hcs : ∀ d ∈ cs, more d) (hrest : Stops rest) (hspace : more ' ' = false) :
    run? first more (c :: cs ++ rest) = some (c :: cs, rest) := by
  obtain ⟨htake, hdrop⟩ := hrest.head hspace
  rw [List.cons_append, run?, if_pos hc, List.takeWhile_append_of_pos hcs,
    List.dropWhile_append_of_pos hcs, htake, hdrop, List.append_nil]

theorem run?_eq_none {first more : Char → Bool} {c : Char} {cs : List Char} (hc : first c = false) :
    run? first more (c :: cs) = none := by
  simp [run?, hc]

end Pattern

/-- A token that is read back from its text wherever it stands before a space or the end. -/
structure Lexeme.Legible (l : Lexeme) : Prop where
  head : ∃ c cs, l.text = c :: cs ∧ Text.isBlank c = false
  first : ∀ ⦃rest⦄, Stops rest → ∃ p, Pattern.first? (l.text ++ rest) = some (p, l.text, rest) ∧
    p.lexeme? l.text = some l

namespace Lexeme.Legible

open Pattern

theorem mark {k : TokenKind} (h : k.spelling ≠ "") : (fixed k).Legible := by
  cases k with
  | eof | number | string | bool | identifier => exact absurd rfl h
  | _ =>
    refine ⟨⟨_, _, rfl, rfl⟩, ?_⟩
    -- one closed case for each spelling, whether the text ends or goes on
    rintro _ (rfl | ⟨cs, rfl⟩)
    · exact ⟨_, rfl, rfl⟩
    · exact ⟨_, rfl, rfl⟩

theorem text_of_ne {k : TokenKind} (h : k ≠ .string) (value : String) :
    Lexeme.text (k, value) = value.toList := by
  cases k with
  | string => exact absurd rfl h
  | _ => rfl

theorem word {k : TokenKind} {value : String} {c : Char} {cs : List Char}
    (hv : value.toList = c :: cs) (hc : isWordStart c) (hcs : ∀ d ∈ cs, isWordPart d)
    (hk : TokenKind.ofWord value = k) (hs : k ≠ .string) : Lexeme.Legible (k, value) := by
  have htext := text_of_ne hs value
  refine ⟨⟨c, cs, htext.trans hv, ?_⟩, fun rest hrest => ?_⟩
  · obtain ⟨hl, hu⟩ := isWordStart_bounds hc
    exact Text.isBlank_of_bounds (by omega) (by omega)
  have hrun : split? .word (value.toList ++ rest) = some (value.toList, rest) := by
    rw [hv]
    exact run?_append hc hcs hrest rfl
  refine ⟨.word, ?_, ?_⟩
  · simp [first?, table, htext, hrun]
  · simp [lexeme?, htext, hk]

theorem identifier {name : String} (h : isName name) : Lexeme.Legible (.identifier, name) := by
  simp only [isName, Bool.and_eq_true, decide_eq_true_eq] at h
  obtain ⟨hshape, hfree⟩ := h
  split at hshape
  · next c cs hcs =>
    simp only [Bool.and_eq_true, List.all_eq_true] at hshape
    exact word hcs hshape.1 hshape.2 (by simp [TokenKind.ofWord, hfree]) (by decide)
  · cases hshape

theorem digits {value : String} (hne : value.toList ≠ []) (hv : ∀ c ∈ value.toList, c.isDigit) :
    Lexeme.Legible (.number, value) := by
  obtain ⟨c, cs, hcs⟩ := List.exists_cons_of_ne_nil hne
  rw [hcs] at hv
  obtain ⟨hc, hrest⟩ := List.forall_mem_cons.1 hv
  obtain ⟨hl, hu⟩ := isDigit_bounds hc
  -- words are tried before digits
  have hstart : isWordStart c = false := Bool.eq_false_iff.2 fun hs => by
    have := isWordStart_bounds hs
    omega
  refine ⟨⟨c, cs, hcs, Text.isBlank_of_bounds (by omega) (by omega)⟩,
    fun rest hstop => ⟨.digits, ?_, ?_⟩⟩
  · have hword : split? .word (c :: cs ++ rest) = none := run?_eq_none hstart
    have hrun : split? .digits (c :: cs ++ rest) = some (c :: cs, rest) :=
      run?_append hc hrest hstop rfl
    simp only [first?, table, Lexeme.text, hcs, List.findSome?_cons, hword, hrun]
    rfl
  · simp [lexeme?, Lexeme.text]

theorem bool (b : Bool) : Lexeme.Legible (Literal.bool b).lexeme := by
  cases b with
  | true =>
    have hparts : ['r', 'u', 'e'].all isWordPart := rfl
    exact word rfl rfl (List.all_eq_true.1 hparts) rfl (by decide)
  | false =>
    have hparts : ['a', 'l', 's', 'e'].all isWordPart := rfl
    exact word rfl rfl (List.all_eq_true.1 hparts) rfl (by decide)

theorem closing?_escape (cs rest : List Char) :
    closing? (Text.escape cs ++ '"' :: rest) = some (Text.escape cs, rest) := by
  induction cs with
  | nil => rfl
  | cons c cs ih =>
    rw [Text.escape]
    split
    · next h => rcases h with rfl | rfl <;> simp [closing?, ih]
    · next h => simp [closing?_cons (fun hc => h (.inl hc)) (fun hc => h (.inr hc)), ih]

theorem standsFor_escape (cs : List Char) : Text.StandsFor (Text.escape cs) cs := by
  induction cs with
  | nil => exact .nil
  | cons c cs ih =>
    rw [Text.escape]
    split
    · next h => rcases h with rfl | rfl <;> exact .escape (by decide) ih
    · next h => exact .plain (fun hc => h (.inr hc)) ih

theorem string (value : String) : Lexeme.Legible (.string, value) := by
  refine ⟨⟨'"', _, rfl, rfl⟩, fun rest _ => ⟨.quoted, ?_, ?_⟩⟩
  · have hquoted : split? .quoted ('"' :: (Text.escape value.toList ++ ['"']) ++ rest) =
        some ('"' :: (Text.escape value.toList ++ ['"']), rest) := by
      simp [split?, string?, closing?_escape]
    simp only [first?, table, Lexeme.text, List.findSome?_cons, hquoted]
    rfl
  · simp [lexeme?, Lexeme.text, Text.unescape_eq_iff.2 (standsFor_escape value.toList)]

end Lexeme.Legible

namespace Token

theorem scan_lexeme {cs text rest : List Char} {p : Pattern} {l : Lexeme}
    (hfirst : Pattern.first? cs = some (p, text, rest)) (hlexeme : p.lexeme? text = some l)
    (file : String) (offset : Nat) :
    ∃ u offset', u.lexeme = l ∧
      scan file offset cs = (scan file offset' rest).map (u :: ·) := by
  refine ⟨⟨l.1, l.2, .atBytes file offset (offset + Text.byteLength text)⟩,
    offset + Text.byteLength text, rfl, ?_⟩
  rw [scan_of_first hfirst, ofMatch?, hlexeme]
  rfl

theorem scan_legible {l : Lexeme} (hl : l.Legible) {rest : List Char} (hrest : Stops rest)
    (file : String) (offset : Nat) :
    ∃ u offset', u.lexeme = l ∧
      scan file offset (l.text ++ rest) = (scan file offset' rest).map (u :: ·) := by
  obtain ⟨p, hfirst, hlexeme⟩ := hl.first hrest
  exact scan_lexeme hfirst hlexeme file offset

theorem scan_space {c : Char} (hc : Text.isBlank c = false) (cs : List Char) (file : String)
    (offset : Nat) :
    ∃ offset', scan file offset (' ' :: c :: cs) = scan file offset' (c :: cs) := by
  have hblanks : Pattern.split? .blanks (' ' :: c :: cs) = some ([' '], c :: cs) := by
    have hspace : Text.isBlank ' ' = true := rfl
    simp [Pattern.split?, Pattern.run?, hspace, hc]
  have hfirst : Pattern.first? (' ' :: c :: cs) = some (.blanks, [' '], c :: cs) := by
    simp only [Pattern.first?, Pattern.table, List.findSome?_cons, hblanks]
    rfl
  refine ⟨offset + Text.byteLength [' '], ?_⟩
  rw [scan_of_first hfirst]
  cases scan file (offset + Text.byteLength [' ']) (c :: cs) <;> rfl

theorem spell_head {l : Lexeme} (hl : l.Legible) (ls : List Lexeme) :
    ∃ c cs, spell (l :: ls) = c :: cs ∧ Text.isBlank c = false := by
  obtain ⟨c, cs, htext, hblank⟩ := hl.head
  cases ls with
  | nil => exact ⟨c, cs, htext, hblank⟩
  | cons l' ls => exact ⟨c, cs ++ ' ' :: spell (l' :: ls), by simp [spell, htext], hblank⟩

theorem scan_spell {ls : List Lexeme} (h : ∀ l ∈ ls, l.Legible) (file : String) (offset : Nat) :
    ∃ us p, scan file offset (spell ls) = .ok (us ++ [eofAt p]) ∧ us.map lexeme = ls := by
  induction ls generalizing offset with
  | nil => exact ⟨[], .atByte file offset, scan_nil file offset, rfl⟩
  | cons l ls ih =>
    obtain ⟨hl, hls⟩ := List.forall_mem_cons.1 h
    cases ls with
    | nil =>
      obtain ⟨u, offset', hu, hscan⟩ := scan_legible hl (.inl rfl) file offset
      obtain ⟨us, p, hus, hmap⟩ := ih hls offset'
      rw [List.append_nil] at hscan
      refine ⟨u :: us, p, ?_, by simp [hu, hmap]⟩
      rw [spell, hscan, ← spell, hus]
      rfl
    | cons l' ls =>
      obtain ⟨c, cs, hcs, hblank⟩ := spell_head (hls l' List.mem_cons_self) ls
      obtain ⟨u, offset₁, hu, hscan⟩ := scan_legible hl (.inr ⟨spell (l' :: ls), rfl⟩) file offset
      obtain ⟨offset₂, hspace⟩ := scan_space hblank cs file offset₁
      obtain ⟨us, p, hus, hmap⟩ := ih hls offset₂
      refine ⟨u :: us, p, ?_, by simp [hu, hmap]⟩
      rw [spell, hscan, hcs, hspace, ← hcs, hus]
      · rfl
      · simp

end Token

inductive Item
  | name (value : String) (h : isName value)
  | bool (value : Bool)
  | number (digits : String) (hne : digits.toList ≠ []) (h : ∀ c ∈ digits.toList, c.isDigit)
  | string (value : String)
  | fixed (kind : TokenKind) (h : kind.spelling ≠ "")

namespace Item

def lexeme : Item → Lexeme
  | name value _ => (.identifier, value)
  | bool value => (.bool, if value then "true" else "false")
  | number digits _ _ => (.number, digits)
  | string value => (.string, value)
  | fixed kind _ => (kind, kind.spelling)

theorem legible_lexeme : (item : Item) → item.lexeme.Legible
  | name _ h => .identifier h
  | bool true => .bool true
  | bool false => .bool false
  | number _ hne h => .digits hne h
  | string value => .string value
  | fixed _ h => .mark h

end Item

/-- What is spelled from items is tokenized into them. -/
theorem tokenize_spell (items : List Item) (fileName : Option String) :
    (tokenize (String.ofList (spell (items.map Item.lexeme))) fileName).map
        (List.map Token.lexeme) = .ok (items.map Item.lexeme ++ [(.eof, "EOF")]) := by
  have hlegible : ∀ l ∈ items.map Item.lexeme, l.Legible := by
    intro l hl
    obtain ⟨item, -, rfl⟩ := List.mem_map.1 hl
    exact item.legible_lexeme
  obtain ⟨us, p, hscan, hus⟩ := Token.scan_spell hlegible (fileName.getD defaultFile) 0
  rw [tokenize, String.toList_ofList, hscan, ← hus]
  exact congrArg Except.ok List.map_append

end TinyScript
