import TinyScript.Proofs.Token.Longest

/-! Where a scan breaks off. It breaks off exactly at the first character it comes to from which no
pattern takes anything: one that nothing starts with, half of a doubled mark, or the quote of a
string that is never closed. What comes before that character is scanned by itself as it was before
it, since no pattern looks further than one character past what it takes. -/

namespace TinyScript

namespace Pattern

variable {cs text rest : List Char}

/-- What comes after the quote of a string that is never closed. A backslash is passed over with the
character after it, which must be there and on the same line. -/
inductive Unclosed : List Char → Prop
  | ending : Unclosed []
  | plain {c : Char} {cs : List Char} (hquote : c ≠ '"') (hbackslash : c ≠ '\\') (h : Unclosed cs) :
      Unclosed (c :: cs)
  | pair {c : Char} {cs : List Char} (hline : c ≠ '\n') (h : Unclosed cs) :
      Unclosed ('\\' :: c :: cs)
  | brokenByLine {cs : List Char} : Unclosed ('\\' :: '\n' :: cs)
  | brokenByEnd : Unclosed ['\\']

theorem closing?_eq_none_iff : closing? cs = none ↔ Unclosed cs := by
  constructor
  · intro h
    fun_induction closing? cs with
    | case1 => exact .ending
    | case2 cs => cases h
    | case3 => exact .brokenByEnd
    | case4 cs => exact .brokenByLine
    | case5 c cs hc ih => exact .pair hc (ih (Option.map_eq_none_iff.1 h))
    | case6 c cs hquote hlast hpair ih =>
      exact .plain hquote (ne_backslash hlast hpair) (ih (Option.map_eq_none_iff.1 h))
  · intro h
    induction h with
    | ending => rfl
    | plain hquote hbackslash _ ih => rw [closing?_cons hquote hbackslash, ih]; rfl
    | pair hline _ ih => rw [closing?, if_neg hline, ih]; rfl
    | brokenByLine => rfl
    | brokenByEnd => rfl

def leadingMarks : List Char :=
  ['"', '/', '\x7b', '\x7d', '(', ')', '=', '!', '<', '>', '|', '&', ';', ':', ',', '-', '+', '*',
    '%']

/-- A token, blanks or a comment can start with the character. -/
def Leading (c : Char) : Prop :=
  isWordStart c ∨ c.isDigit ∨ Text.isBlank c ∨ c ∈ leadingMarks

/-- A character that nothing can be made of where `after` comes after it. -/
inductive Stray (after : List Char) : Char → Prop
  | foreign {c : Char} (h : ¬ Leading c) : Stray after c
  | lone {c : Char} (hc : c = '|' ∨ c = '&') (h : after.head? ≠ some c) : Stray after c
  | quote (h : Unclosed after) : Stray after '"'

theorem run?_eq_none_iff {first more : Char → Bool} {c : Char} :
    run? first more (c :: cs) = none ↔ ¬ first c := by simp [run?]

theorem string?_eq_none_iff {c : Char} :
    string? (c :: cs) = none ↔ (c = '"' → Unclosed cs) := by
  by_cases hc : c = '"'
  · simp [string?, hc, closing?_eq_none_iff]
  · simp [string?, hc]

theorem exactly?_eq_none_iff : exactly? text cs = none ↔ ¬ text <+: cs := by
  rw [exactly?, Option.map_eq_none_iff, Option.eq_none_iff_forall_ne_some]
  simp [List.isPrefixOf?_eq_some_iff_append_eq, List.IsPrefix]

theorem mark_leading {k : TokenKind} {first : Char} {more : List Char}
    (h : mark k first more ∈ table) :
    first ∈ leadingMarks ∧ (first = '|' ∨ first = '&' → more = [first]) := by
  have hall : table.all (fun
    | mark _ first more => first ∈ leadingMarks ∧ (first = '|' ∨ first = '&' → more = [first])
    | _ => true) := by decide
  exact of_decide_eq_true (List.all_eq_true.1 hall _ h)

theorem mark_of_leading {c : Char} (h : c ∈ leadingMarks) :
    c = '"' ∨ (c = '|' ∨ c = '&') ∨ ∃ k, mark k c [] ∈ table := by
  have hall : leadingMarks.all fun c => c == '"' || (c == '|' || c == '&') || table.any fun
    | mark _ first [] => first == c
    | _ => false := by decide
  have hc := List.all_eq_true.1 hall c h
  simp only [Bool.or_eq_true, beq_iff_eq, or_assoc] at hc ⊢
  refine hc.imp_right (Or.imp_right (Or.imp_right fun hany => ?_))
  obtain ⟨p, hp, hfirst⟩ := List.any_eq_true.1 hany
  split at hfirst
  · next k first => exact ⟨k, eq_of_beq hfirst ▸ hp⟩
  · cases hfirst

theorem split?_of_not_leading {c : Char} (h : ¬ Leading c) {p : Pattern} (hp : p ∈ table) :
    p.split? (c :: cs) = none := by
  obtain ⟨hword, hdigit, hblank, hmark⟩ : ¬ isWordStart c ∧ ¬ c.isDigit ∧ ¬ Text.isBlank c ∧
    c ∉ leadingMarks := by simpa [Leading] using h
  have hne : ∀ d ∈ leadingMarks, c ≠ d := fun d hd he => hmark (he ▸ hd)
  cases p with
  | word => exact run?_eq_none_iff.2 hword
  | digits => exact run?_eq_none_iff.2 hdigit
  | blanks => exact run?_eq_none_iff.2 hblank
  | quoted => exact string?_eq_none_iff.2 fun hc => absurd hc (hne _ (by decide))
  | comment => simp [split?, comment?, hne '/' (by decide)]
  | mark k first more =>
    refine exactly?_eq_none_iff.2 fun hstarts => ?_
    exact hne first (mark_leading hp).1 (List.cons_prefix_cons.1 hstarts).1.symm

theorem split?_of_lone {c : Char} (hc : c = '|' ∨ c = '&') (h : cs.head? ≠ some c) {p : Pattern}
    (hp : p ∈ table) : p.split? (c :: cs) = none := by
  cases p with
  | word | digits | blanks => rcases hc with rfl | rfl <;> rfl
  | quoted => rcases hc with rfl | rfl <;> rfl
  | comment => rcases hc with rfl | rfl <;> rfl
  | mark k first more =>
    refine exactly?_eq_none_iff.2 fun hstarts => h ?_
    obtain ⟨rfl, hmore⟩ := List.cons_prefix_cons.1 hstarts
    obtain rfl := (mark_leading hp).2 hc
    obtain ⟨rest, rfl⟩ := hmore
    rfl

theorem first?_eq_none_iff {c : Char} : first? (c :: cs) = none ↔ Stray cs c := by
  constructor
  · intro h
    have hnone := first?_eq_none_iff_forall.1 h
    by_cases hc : Leading c
    · rcases hc with hword | hdigit | hblank | hmark
      · exact absurd hword (run?_eq_none_iff.1 (hnone .word (by decide)))
      · exact absurd hdigit (run?_eq_none_iff.1 (hnone .digits (by decide)))
      · exact absurd hblank (run?_eq_none_iff.1 (hnone .blanks (by decide)))
      · rcases mark_of_leading hmark with rfl | hlone | ⟨k, hk⟩
        · have hstring : string? ('"' :: cs) = none := hnone .quoted (by decide)
          exact .quote (string?_eq_none_iff.1 hstring rfl)
        · refine .lone hlone fun hhead => ?_
          obtain ⟨rest, rfl⟩ := List.head?_eq_some_iff.1 hhead
          rcases hlone with rfl | rfl
          · exact exactly?_eq_none_iff.1 (hnone (.mark .or '|' ['|']) (by decide)) ⟨rest, rfl⟩
          · exact exactly?_eq_none_iff.1 (hnone (.mark .and '&' ['&']) (by decide)) ⟨rest, rfl⟩
        · exact absurd ⟨cs, rfl⟩ (exactly?_eq_none_iff.1 (hnone _ hk))
    · exact .foreign hc
  · intro h
    cases h with
    | foreign h => exact first?_eq_none_iff_forall.2 fun p => split?_of_not_leading h
    | lone hc h => exact first?_eq_none_iff_forall.2 fun p => split?_of_lone hc h
    | quote h => exact first?_of_closing?_eq_none (closing?_eq_none_iff.2 h)

def Trims (f : List Char → Option (List Char × List Char)) : Prop :=
  ∀ ⦃cs text rest⦄, f cs = some (text, rest) → ∀ ⦃kept⦄, kept <+: rest →
    f (text ++ kept) = some (text, kept)

theorem takeWhile_trimmed {p : Char → Bool} {kept : List Char} (h : kept <+: cs.dropWhile p) :
    (cs.takeWhile p ++ kept).takeWhile p = cs.takeWhile p ∧
      (cs.takeWhile p ++ kept).dropWhile p = kept := by
  have hrun : ∀ c ∈ cs.takeWhile p, p c := List.all_eq_true.1 List.all_takeWhile
  rw [List.takeWhile_append_of_pos hrun, List.dropWhile_append_of_pos hrun]
  -- what is kept starts as the rest does, with a character that stops the run
  cases kept with
  | nil => simp
  | cons d kept =>
    obtain ⟨cut, hcut⟩ := h
    have hstop := List.head?_dropWhile_not p cs
    rw [← hcut, List.cons_append, List.head?_cons] at hstop
    rw [List.takeWhile_cons_of_neg (by simpa using hstop),
      List.dropWhile_cons_of_neg (by simpa using hstop), List.append_nil]
    exact ⟨rfl, rfl⟩

theorem run?_trims (first more : Char → Bool) : Trims (run? first more) := by
  intro cs text rest h kept hkept
  fun_cases run? first more cs with
  | case1 => cases h
  | case2 c cs hc =>
    rw [run?, if_pos hc] at h
    cases h
    obtain ⟨htake, hdrop⟩ := takeWhile_trimmed hkept
    rw [List.cons_append, run?, if_pos hc, htake, hdrop]
  | case3 c cs hc =>
    rw [run?, if_neg hc] at h
    cases h

theorem comment?_trims : Trims comment? := by
  intro cs text rest h kept hkept
  rw [comment?.eq_def] at h
  split at h
  · cases h
    obtain ⟨htake, hdrop⟩ := takeWhile_trimmed hkept
    rw [List.cons_append, List.cons_append, comment?, htake, hdrop]
  · cases h

theorem string?_trims : Trims string? := by
  intro cs text rest h kept _
  rw [string?.eq_def] at h
  split at h
  · obtain ⟨p, hp, he⟩ := Option.map_eq_some_iff.1 h
    cases he
    simp [string?, closing?_of_inside (inside_of_closing? hp)]
  · cases h

theorem exactly?_trims (text : List Char) : Trims (exactly? text) := by
  intro cs _ rest h kept _
  obtain ⟨q, -, he⟩ := Option.map_eq_some_iff.1 h
  cases he
  exact exactly?_append text kept

theorem split?_trims (p : Pattern) : Trims p.split? :=
  match p with
  | word | digits | blanks => run?_trims _ _
  | quoted => string?_trims
  | comment => comment?_trims
  | mark _ _ _ => exactly?_trims _

theorem split?_eq_none_of_append {p : Pattern} {cut : List Char} (h : p.split? (cs ++ cut) = none) :
    p.split? cs = none := by
  rw [split?_eq_none_iff] at h ⊢
  rintro ⟨other, hother, hfront⟩
  exact h ⟨other, hother, hfront.trans (List.prefix_append cs cut)⟩

theorem first?_trims {p : Pattern} (h : first? cs = some (p, text, rest)) {kept : List Char}
    (hkept : kept <+: rest) : first? (text ++ kept) = some (p, text, kept) := by
  obtain ⟨before, later, htable, hs, hnone⟩ := first?_eq_some_iff.1 h
  obtain ⟨-, rfl⟩ := split?_cuts p hs
  refine first?_eq_some_iff.2 ⟨before, later, htable, split?_trims p hs hkept, fun r hr => ?_⟩
  have hr := hnone r hr
  obtain ⟨cut, rfl⟩ := hkept
  rw [← List.append_assoc] at hr
  exact split?_eq_none_of_append hr

end Pattern

/-- The scan of a text gets to a place, with `before` taken and `rest` still to come. -/
inductive Scanned (source : List Char) : List Char → List Char → Prop
  | start : Scanned source [] source
  | step {before cs text rest : List Char} {p : Pattern} (h : Scanned source before cs)
      (hfirst : Pattern.first? cs = some (p, text, rest)) : Scanned source (before ++ text) rest

namespace Scanned

variable {source before rest : List Char}

theorem append_eq (h : Scanned source before rest) : before ++ rest = source := by
  induction h with
  | start => rfl
  | step _ hfirst ih =>
    obtain ⟨-, hcut⟩ := Pattern.split?_cuts _ (Pattern.first?_split hfirst).2
    rw [List.append_assoc, hcut, ih]

theorem trim (h : Scanned source before rest) {kept : List Char} (hkept : kept <+: rest) :
    Scanned (before ++ kept) before kept := by
  induction h generalizing kept with
  | start => exact .start
  | @step before cs text rest p _ hfirst ih =>
    obtain ⟨-, hcut⟩ := Pattern.split?_cuts _ (Pattern.first?_split hfirst).2
    have hlonger : text ++ kept <+: cs := hcut ▸ (List.prefix_append_right_inj text).2 hkept
    rw [List.append_assoc]
    exact .step (ih hlonger) (Pattern.first?_trims hfirst hkept)

theorem scan_eq (h : Scanned source before rest) (file : String) :
    ∃ us, Token.scan file 0 source =
      (Token.scan file (Text.byteLength before) rest).map (us ++ ·) := by
  induction h with
  | start => exact ⟨[], (congrFun Except.map_id _).symm⟩
  | @step before cs text rest p _ hfirst ih =>
    obtain ⟨us, hus⟩ := ih
    refine ⟨us ++ (Token.ofMatch? file (Text.byteLength before) p text).toList, ?_⟩
    rw [hus, Token.scan_of_first hfirst, Text.byteLength_append]
    cases Token.scan file (Text.byteLength before + Text.byteLength text) rest with
    | error e => rfl
    | ok ts => exact congrArg Except.ok (List.append_assoc _ _ _).symm

end Scanned

theorem Token.exists_scanned_of_error {file : String} {source before cs : List Char} {offset : Nat}
    {e : Error} (hbefore : Scanned source before cs) (hoffset : Text.byteLength before = offset)
    (h : scan file offset cs = .error e) :
    ∃ before c after, Scanned source before (c :: after) ∧ Pattern.first? (c :: after) = none ∧
      e = ⟨.unrecognisedToken (String.singleton c), .atByte file (Text.byteLength before)⟩ := by
  fun_induction scan file offset cs generalizing before with
  | case1 offset cs p text rest hfirst _ ih =>
    cases hscan : scan file (offset + Text.byteLength text) rest with
    | error e' =>
      rw [hscan] at h
      cases h
      exact ih (.step hbefore hfirst) (by rw [Text.byteLength_append, hoffset]) hscan
    | ok ts =>
      rw [hscan] at h
      cases h
  | case2 offset _ => cases h
  | case3 offset c cs hnone =>
    cases h
    exact ⟨before, c, cs, hbefore, hnone, by rw [hoffset]⟩

/-- A text of fewer than 2³² bytes that has no tokens has an error that names the character at its
offset: a stray one, with a text before it that has tokens. And wherever the scan gets to a stray
character, it breaks off there. -/
theorem tokenize_breaks_off_at_stray {source : String} (fileName : Option String)
    (hsize : Text.byteLength source.toList < 2 ^ 32) :
    (∀ e, tokenize source fileName = .error e → ∃ before c after,
      source.toList = before ++ c :: after ∧
      e.cause = .unrecognisedToken (String.singleton c) ∧
      e.position.offset.toNat = Text.byteLength before ∧
      e.position.file = fileName.getD "shell" ∧
      (∃ ts, tokenize (String.ofList before) fileName = .ok ts) ∧ Pattern.Stray after c) ∧
    ∀ before c after, Scanned source.toList before (c :: after) → Pattern.Stray after c →
      ∃ e, tokenize source fileName = .error e ∧
        e.cause = .unrecognisedToken (String.singleton c) ∧
        e.position.offset.toNat = Text.byteLength before := by
  have hoffset : ∀ {before rest : List Char}, Scanned source.toList before rest →
      (UInt32.ofNat (Text.byteLength before)).toNat = Text.byteLength before := by
    intro before rest h
    rw [← h.append_eq, Text.byteLength_append] at hsize
    exact UInt32.toNat_ofNat_of_lt' (Nat.lt_of_le_of_lt (Nat.le_add_right _ _) hsize)
  constructor
  · intro e he
    obtain ⟨before, c, after, hscanned, hnone, rfl⟩ :=
      Token.exists_scanned_of_error .start Text.byteLength_nil he
    refine ⟨before, c, after, hscanned.append_eq.symm, rfl, hoffset hscanned, rfl, ?_,
      Pattern.first?_eq_none_iff.1 hnone⟩
    have hbefore := hscanned.trim (List.nil_prefix (l := c :: after))
    obtain ⟨us, hus⟩ := hbefore.scan_eq (fileName.getD defaultFile)
    rw [List.append_nil] at hus
    exact ⟨_, by rw [tokenize, String.toList_ofList, hus, Token.scan_nil]; rfl⟩
  · intro before c after hscanned hstray
    obtain ⟨us, hus⟩ := hscanned.scan_eq (fileName.getD defaultFile)
    rw [Token.scan_of_first_eq_none (Pattern.first?_eq_none_iff.2 hstray)] at hus
    exact ⟨_, hus, rfl, hoffset hscanned⟩

/-- A string with an escaped quote in it that a backslash at the end of its line leaves open. -/
def brokenString : String := "x\u3000\"\\\"\\\n\""

theorem tokenize_brokenString :
    Text.byteLength brokenString.toList < 2 ^ 32 ∧
      tokenize brokenString none = .error ⟨.unrecognisedToken "\"", .atByte "shell" 4⟩ ∧
      (∃ before c after, brokenString.toList = before ++ c :: after ∧
        "\"" = String.singleton c ∧ Text.byteLength before = 4 ∧
        (∃ ts, tokenize (String.ofList before) none = .ok ts) ∧ Pattern.Stray after c) ∧
      Scanned brokenString.toList ['x', '\u3000'] ['"', '\\', '"', '\\', '\n', '"'] ∧
      ∃ e, tokenize brokenString none = .error e ∧ e.position.offset.toNat = 4 := by
  have hsize : Text.byteLength brokenString.toList < 2 ^ 32 := by decide
  have herror : tokenize brokenString none =
      .error ⟨.unrecognisedToken "\"", .atByte "shell" 4⟩ := by decide +kernel
  have hword : Pattern.first? brokenString.toList =
      some (.word, ['x'], ['\u3000', '"', '\\', '"', '\\', '\n', '"']) := rfl
  have hblank : Pattern.first? ['\u3000', '"', '\\', '"', '\\', '\n', '"'] =
      some (.blanks, ['\u3000'], ['"', '\\', '"', '\\', '\n', '"']) := rfl
  have hscanned := (Scanned.start.step hword).step hblank
  have hstray : Pattern.Stray ['\\', '"', '\\', '\n', '"'] '"' :=
    .quote (.pair (by decide) .brokenByLine)
  obtain ⟨hforward, hback⟩ := tokenize_breaks_off_at_stray none hsize
  obtain ⟨before, c, after, hsource, hcause, hoffset, -, hbefore, hc⟩ := hforward _ herror
  obtain ⟨e, he, -, hplace⟩ := hback _ _ _ hscanned hstray
  exact ⟨hsize, herror, ⟨before, c, after, hsource, Cause.unrecognisedToken.inj hcause,
    hoffset.symm, hbefore, hc⟩, hscanned, e, he, hplace⟩

end TinyScript
