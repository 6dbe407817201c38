import Mathlib.Algebra.Group.Int.Defs
import Mathlib.Algebra.Group.Nat.Defs
import TinyScript.Text.Decimal
import TinyScript.Token.Tokenize

/-! Where tokens come from: each token before the end of a text is what a pattern took there, so a
number token is a row of digits, and it is out of range only for being too large. -/

namespace TinyScript

theorem exists_of_map_eq_ok {ε α β : Type} {f : α → β} {x : Except ε α} {b : β}
    (h : x.map f = .ok b) : ∃ a, x = .ok a ∧ f a = b := by
  cases x with
  | error e => cases h
  | ok a => exact ⟨a, rfl, Except.ok.inj h⟩

namespace Text

theorem isBlank_of_bounds {c : Char} (h : 33 ≤ c.toNat) (h' : c.toNat ≤ 126) :
    isBlank c = false := by
  refine Bool.eq_false_iff.2 fun hb => ?_
  obtain ⟨r, hr, hle⟩ := (CodeRanges.has_iff _ c).1 hb
  have hout : ∀ r ∈ blankRanges, r.2 < 33 ∨ 126 < r.1 := by decide
  have := hout r hr
  omega

def escapes : List (Char × Char) :=
  [('n', '\n'), ('t', '\t'), ('r', '\r'), ('\\', '\\'), ('"', '"'), ('0', '\x00')]

theorem escaped?_eq_some_iff {c d : Char} : escaped? c = some d ↔ (c, d) ∈ escapes := by
  fun_cases escaped? c with
  | case7 => simp_all [escapes]
  | _ => simp [escapes, eq_comm]

theorem escaped?_eq_none_iff {c : Char} : escaped? c = none ↔ ∀ d, (c, d) ∉ escapes := by
  simp only [← escaped?_eq_some_iff, Option.eq_none_iff_forall_ne_some]

/-- What the inside of a string stands for. A backslash that is in front of no escape is kept, and
what comes after it is read by itself. -/
inductive StandsFor : List Char → List Char → Prop
  | nil : StandsFor [] []
  | plain {c : Char} {cs ds : List Char} (hc : c ≠ '\\') (h : StandsFor cs ds) :
    StandsFor (c :: cs) (c :: ds)
  | escape {c d : Char} {cs ds : List Char} (hc : (c, d) ∈ escapes) (h : StandsFor cs ds) :
    StandsFor ('\\' :: c :: cs) (d :: ds)
  | backslash {cs ds : List Char} (hc : ∀ c ∈ cs.head?, ∀ d, (c, d) ∉ escapes)
    (h : StandsFor cs ds) : StandsFor ('\\' :: cs) ('\\' :: ds)

theorem standsFor_unescape (cs : List Char) : StandsFor cs (unescape cs) := by
  fun_induction unescape cs with
  | case1 c cs d hd ih => exact .escape (escaped?_eq_some_iff.1 hd) ih
  | case2 c cs hc ih => exact .backslash (by simpa using escaped?_eq_none_iff.1 hc) ih
  | case3 c cs hcs ih =>
    by_cases hc : c = '\\'
    · subst hc
      refine .backslash (fun c hc => ?_) ih
      obtain ⟨rest, hrest⟩ := List.head?_eq_some_iff.1 (Option.mem_def.1 hc)
      exact (hcs c rest rfl hrest).elim
    · exact .plain hc ih
  | case4 => exact .nil

theorem unescape_cons {c : Char} (hb : c ≠ '\\') (cs : List Char) :
    unescape (c :: cs) = c :: unescape cs := by
  rw [unescape.eq_def]
  split <;> simp_all

theorem StandsFor.unescape_eq {cs ds : List Char} (h : StandsFor cs ds) : unescape cs = ds := by
  induction h with
  | nil => rfl
  | plain hc _ ih => rw [unescape_cons hc, ih]
  | escape hc _ ih => simp only [unescape, escaped?_eq_some_iff.2 hc, ih]
  | @backslash cs ds hc _ ih =>
    cases cs with
    | nil => rw [← ih]; rfl
    | cons c cs => simp only [unescape, escaped?_eq_none_iff.2 (hc c rfl), ih]

theorem unescape_eq_iff {cs ds : List Char} : unescape cs = ds ↔ StandsFor cs ds :=
  ⟨fun h => h ▸ standsFor_unescape cs, StandsFor.unescape_eq⟩

end Text

namespace Pattern

theorem isWordStart_bounds {c : Char} (h : isWordStart c) : 65 ≤ c.toNat ∧ c.toNat ≤ 122 := by
  simp only [isWordStart, Bool.or_eq_true, beq_iff_eq] at h
  rcases h with h | rfl
  · delta Char.isAlpha Char.isUpper Char.isLower at h
    simp [UInt32.le_iff_toNat_le] at h
    omega
  · decide

theorem isDigit_bounds {c : Char} (h : c.isDigit) : 48 ≤ c.toNat ∧ c.toNat ≤ 57 := by
  simpa [Char.isDigit, UInt32.le_iff_toNat_le] using h

theorem run?_eq_some {first more : Char → Bool} {cs text rest : List Char}
    (h : run? first more cs = some (text, rest)) :
    ∃ c run, text = c :: run ∧ first c ∧ ∀ d ∈ run, more d := by
  fun_cases run? first more cs with
  | case1 => cases h
  | case2 c cs hc =>
    rw [run?, if_pos hc] at h
    cases h
    exact ⟨c, _, rfl, hc, List.all_eq_true.1 List.all_takeWhile⟩
  | case3 c cs hc =>
    rw [run?, if_neg hc] at h
    cases h

theorem run?_forall {first more : Char → Bool} {cs text rest : List Char}
    (h : run? first more cs = some (text, rest)) (hsub : ∀ c, first c → more c) :
    ∀ c ∈ text, more c := by
  obtain ⟨c, run, rfl, hc, hrun⟩ := run?_eq_some h
  exact List.forall_mem_cons.2 ⟨hsub c hc, hrun⟩

theorem closing?_cons {c : Char} (hq : c ≠ '"') (hb : c ≠ '\\') (cs : List Char) :
    closing? (c :: cs) = (closing? cs).map fun p => (c :: p.1, p.2) := by
  rw [closing?.eq_def]
  split <;> simp_all

theorem first?_eq_some_iff {cs text rest : List Char} {p : Pattern} :
    first? cs = some (p, text, rest) ↔ ∃ before after, table = before ++ p :: after ∧
      p.split? cs = some (text, rest) ∧ ∀ r ∈ before, r.split? cs = none := by
  unfold first?
  rw [List.findSome?_eq_some_iff]
  constructor
  · rintro ⟨before, q, after, htable, hq, hnone⟩
    obtain ⟨s, hs, he⟩ := Option.map_eq_some_iff.1 hq
    cases he
    exact ⟨before, after, htable, hs, fun r hr => Option.map_eq_none_iff.1 (hnone r hr)⟩
  · rintro ⟨before, after, htable, hs, hnone⟩
    refine ⟨before, p, after, htable, ?_, fun r hr => Option.map_eq_none_iff.2 (hnone r hr)⟩
    rw [hs]
    rfl

theorem first?_eq_none_iff_forall {cs : List Char} :
    first? cs = none ↔ ∀ p ∈ table, p.split? cs = none := by
  simp [first?, List.findSome?_eq_none_iff]

theorem first?_of_isBlank {c : Char} (hc : Text.isBlank c) (cs : List Char) :
    first? (c :: cs) =
      some (.blanks, c :: cs.takeWhile Text.isBlank, cs.dropWhile Text.isBlank) := by
  have hword : isWordStart c = false := Bool.eq_false_iff.2 fun h => by
    obtain ⟨hl, hu⟩ := isWordStart_bounds h
    exact Bool.eq_false_iff.1 (Text.isBlank_of_bounds (by omega) (by omega)) hc
  have hdigit : c.isDigit = false := Bool.eq_false_iff.2 fun h => by
    obtain ⟨hl, hu⟩ := isDigit_bounds h
    exact Bool.eq_false_iff.1 (Text.isBlank_of_bounds (by omega) (by omega)) hc
  simp [first?, table, split?, run?, hword, hdigit, hc]

end Pattern

def Token.Lexed (t : Token) : Prop :=
  ∃ p ∈ Pattern.table, ∃ cs text rest, p.split? cs = some (text, rest) ∧
    p.lexeme? text = some (t.kind, t.value)

namespace TokenKind

theorem ofWord_mem (word : String) :
    ofWord word ∈ identifier :: reservedWords.map Prod.snd := by
  unfold ofWord ofReserved?
  cases h : reservedWords.lookup word with
  | none => exact List.mem_cons_self
  | some k =>
    obtain ⟨l, m, hl, -⟩ := List.lookup_eq_some_iff.1 h
    rw [hl]
    simp

end TokenKind

namespace Pattern

theorem mark_kind {k : TokenKind} {first : Char} {more : List Char}
    (h : mark k first more ∈ table) : k ≠ .number ∧ k ≠ .eof := by
  have hall : table.all (fun
    | mark k _ _ => k ≠ .number ∧ k ≠ .eof
    | _ => true) := by decide
  simpa using List.all_eq_true.1 hall _ h

end Pattern

namespace Token

theorem scan_of_first {file : String} {offset : Nat} {cs text rest : List Char} {p : Pattern}
    (h : Pattern.first? cs = some (p, text, rest)) :
    scan file offset cs = (scan file (offset + Text.byteLength text) rest).map fun ts =>
      (ofMatch? file offset p text).toList ++ ts := by
  rw [scan]
  split
  · next h' =>
    rw [h] at h'
    cases h'
    rfl
  · next h' => simp [h] at h'

theorem scan_nil (file : String) (offset : Nat) :
    scan file offset [] = .ok [eofAt (.atByte file offset)] := by
  rw [scan]
  rfl

theorem scan_of_first_eq_none {c : Char} {cs : List Char} (h : Pattern.first? (c :: cs) = none)
    (file : String) (offset : Nat) :
    scan file offset (c :: cs) =
      .error ⟨.unrecognisedToken (String.singleton c), .atByte file offset⟩ := by
  rw [scan]
  split
  · next h' => simp [h] at h'
  · rfl

theorem scan_dropWhile_isBlank (file : String) (offset : Nat) (cs : List Char) :
    scan file offset cs = scan file (offset + Text.byteLength (cs.takeWhile Text.isBlank))
      (cs.dropWhile Text.isBlank) := by
  cases cs with
  | nil => rfl
  | cons c cs =>
    by_cases hc : Text.isBlank c
    · rw [scan_of_first (Pattern.first?_of_isBlank hc cs), List.takeWhile_cons_of_pos hc,
        List.dropWhile_cons_of_pos hc]
      exact congrFun Except.map_id _
    · rw [List.takeWhile_cons_of_neg hc, List.dropWhile_cons_of_neg hc]
      rfl

theorem scan_blanks {run : List Char} (h : ∀ c ∈ run, Text.isBlank c) (file : String)
    (offset : Nat) (cs : List Char) :
    scan file offset (run ++ cs) = scan file (offset + Text.byteLength run) cs := by
  rw [scan_dropWhile_isBlank, scan_dropWhile_isBlank file _ cs, List.takeWhile_append_of_pos h,
    List.dropWhile_append_of_pos h, Text.byteLength_append, Nat.add_assoc]

theorem Lexed.number_or {t : Token} (h : t.Lexed) :
    (t.kind = .number ∧ t.value.toList ≠ [] ∧ ∀ c ∈ t.value.toList, c.isDigit) ∨
      t.kind ≠ .number ∧ t.kind ≠ .eof := by
  obtain ⟨p, hp, cs, text, rest, hs, hl⟩ := h
  cases p with
  | word =>
    obtain ⟨hk, -⟩ := Prod.mk.inj (Option.some.inj hl)
    have := TokenKind.ofWord_mem (String.ofList text)
    rw [hk] at this
    refine .inr ⟨fun h => ?_, fun h => ?_⟩ <;> simp [h, TokenKind.reservedWords] at this
  | digits =>
    obtain ⟨hk, hv⟩ := Prod.mk.inj (Option.some.inj hl)
    refine .inl ⟨hk.symm, ?_⟩
    rw [← hv, String.toList_ofList]
    exact ⟨(Pattern.run?_cuts _ _ hs).1, Pattern.run?_forall hs fun _ => id⟩
  | blanks | comment => cases hl
  | quoted =>
    obtain ⟨hk, -⟩ := Prod.mk.inj (Option.some.inj hl)
    simp [← hk]
  | mark k first more =>
    obtain ⟨hk, -⟩ := Prod.mk.inj (Option.some.inj hl)
    exact .inr (hk ▸ Pattern.mark_kind hp)

theorem Lexed.kind_ne_eof {t : Token} (h : t.Lexed) : t.kind ≠ .eof := by
  rcases h.number_or with ⟨hk, -⟩ | ⟨-, hk⟩
  · simp [hk]
  · exact hk

theorem scan_cases (file : String) (offset : Nat) (cs : List Char) :
    match scan file offset cs with
    | .ok ts => ∃ us p, ts = us ++ [eofAt p] ∧ ∀ t ∈ us, t.Lexed
    | .error e => ∃ c p, e = ⟨.unrecognisedToken (String.singleton c), p⟩ := by
  fun_induction scan file offset cs with
  | case1 offset cs p text rest h _ ih =>
    obtain ⟨hp, hs⟩ := Pattern.first?_split h
    cases hscan : scan file (offset + Text.byteLength text) rest with
    | error e =>
      rw [hscan] at ih
      exact ih
    | ok ts =>
      rw [hscan] at ih
      obtain ⟨us, q, rfl, hus⟩ := ih
      refine ⟨(ofMatch? file offset p text).toList ++ us, q, by simp, fun t ht => ?_⟩
      rcases List.mem_append.1 ht with ht | ht
      · obtain ⟨l, hl, rfl⟩ := Option.map_eq_some_iff.1 (Option.mem_toList.1 ht)
        exact ⟨p, hp, cs, text, rest, hs, hl⟩
      · exact hus t ht
  | case2 offset h => exact ⟨[], _, rfl, by simp⟩
  | case3 offset c cs h => exact ⟨c, _, rfl⟩

end Token

namespace Text

theorem signed?_digits {cs : List Char} (hne : cs ≠ []) (hdigits : ∀ c ∈ cs, c.isDigit) :
    signed? cs = some (decimalValue cs : Int) := by
  have hdigits' : cs.all Char.isDigit := List.all_eq_true.2 hdigits
  unfold signed?
  split
  · simp at hdigits
  · simp at hdigits
  · simp [digits?, hne, hdigits']

theorem fitsInt64_iff {v : Int} : fitsInt64 v ↔ -2 ^ 63 ≤ v ∧ v ≤ 2 ^ 63 - 1 := by
  rw [fitsInt64, decide_eq_true_iff, Int64.toInt_minValue, Int64.toInt_maxValue]

theorem int64?_digits {s : String} (hne : s.toList ≠ []) (hdigits : ∀ c ∈ s.toList, c.isDigit) :
    int64? s = if 2 ^ 63 - 1 < decimalValue s.toList then none
      else some (Int64.ofInt (decimalValue s.toList)) := by
  have hfits : fitsInt64 (decimalValue s.toList) ↔ ¬ 2 ^ 63 - 1 < decimalValue s.toList := by
    rw [fitsInt64_iff]
    omega
  rw [int64?, signed?_digits hne hdigits]
  by_cases h : 2 ^ 63 - 1 < decimalValue s.toList
  · rw [if_pos h]
    exact if_neg fun hf => hfits.1 hf h
  · rw [if_neg h]
    exact if_pos (hfits.2 h)

end Text

theorem tokenize_cases (source : String) (fileName : Option String) :
    match tokenize source fileName with
    | .ok ts => ∃ us p, ts = us ++ [Token.eofAt p] ∧ ∀ t ∈ us, t.Lexed
    | .error e => ∃ c p, e = ⟨.unrecognisedToken (String.singleton c), p⟩ :=
  Token.scan_cases _ 0 source.toList

end TinyScript
